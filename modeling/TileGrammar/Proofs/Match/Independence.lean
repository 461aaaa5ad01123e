import TileGrammar.Proofs.Grid.Resolution
import TileGrammar.Proofs.Match.Layers
import TileGrammar.Proofs.Match.Upkeep
import TileGrammar.Proofs.Tally.Exchange

namespace TileGrammar

namespace Match.Occurs

variable {m n : Match} {rule rule' : Rule} {v w : Variant} {g h : Grid} {rs : RuleSet}
  {uses : Tally} {step : Nat}

lemma get?_rewrite_rewrite (o : m.Occurs rule v g rs uses step)
    (o' : n.Occurs rule' w g rs uses step) (c : Cell) :
    ((g.rewrite rs m).rewrite rs n).get? c =
      (rs.tileOn? c n).or ((rs.tileOn? c m).or (g.get? c)) := by
  rw [o'.get?_rewrite (Grid.extent_rewrite g rs m), o.get?_rewrite rfl]

lemma tileOn?_or_comm (o : m.Occurs rule v g rs uses step)
    (o' : n.Occurs rule' w g rs uses step) (apart : m.bounds.overlaps n.bounds = false)
    (c : Cell) (t? : Option Tile) :
    (rs.tileOn? c n).or ((rs.tileOn? c m).or t?) =
      (rs.tileOn? c m).or ((rs.tileOn? c n).or t?) := by
  by_cases hm : c ∈ m.bounds
  · have hn : c ∉ n.bounds := by
      intro hn
      rw [Box.overlaps_iff_exists_mem.2 ⟨c, hm, hn⟩] at apart
      cases apart
    rw [o'.tileOn?_of_notMem hn, Option.none_or, Option.none_or]
  · rw [o.tileOn?_of_notMem hm, Option.none_or, Option.none_or]

end Match.Occurs

section Independence

variable {m n : Match} {g : Grid} {rs : RuleSet} {uses : Tally} {step : Nat}

theorem apart_rewrites_independent (hm : m ∈ findAll g rs uses step)
    (hn : n ∈ findAll g rs uses step) (apart : m.bounds.overlaps n.bounds = false) :
    ((g.rewrite rs m).rewrite rs n).tiles = ((g.rewrite rs n).rewrite rs m).tiles ∧
    (uses.use rs m).use rs n = (uses.use rs n).use rs m ∧
    (n ∈ findAll (g.rewrite rs m) rs (uses.use rs m) step ↔
      ∃ rule, rs.rule? n.rule = some rule ∧
        rule.isCapped ((uses.use rs m).count rule.name) = false) := by
  obtain ⟨rule, v, o⟩ := mem_findAll.1 hm
  obtain ⟨rule', w, o'⟩ := mem_findAll.1 hn
  refine ⟨?tiles, uses.use_comm rs m n, ?found⟩
  case tiles =>
    apply Grid.tiles_eq_of_get?
    · simp only [Grid.extent_rewrite]
    · intro c
      rw [o.get?_rewrite_rewrite o', o'.get?_rewrite_rewrite o, o.tileOn?_or_comm o' apart]
  case found =>
    have off : n.bounds.overlaps m.bounds = false := by rwa [Box.overlaps_comm]
    have same : MatchCache.NoneOpens rs step step := ⟨Nat.le_refl step, fun _ _ hw => hw⟩
    rw [MatchCache.mem_findAll_iff_of_off o.agreesOff_rewrite (uses.count_le_use rs m) same off,
      MatchCache.survives_iff]
    exact ⟨fun found => found.2.1, fun uncapped => ⟨hn, uncapped, off⟩⟩

theorem apart_rewrites_independent_strip :
    let g := MatchCache.Strip.grid "B"
    let rs := MatchCache.Strip.rules
    let m : Match := ⟨1, 0, ⟨1, 0, 0⟩, Cell.unit⟩
    let n : Match := ⟨0, 0, ⟨2, 0, 0⟩, ⟨2, 1, 1⟩⟩
    let last : Match := ⟨1, 0, ⟨3, 0, 0⟩, Cell.unit⟩
    (∀ k ∈ [m, n, last], k ∈ findAll g rs .empty 0) ∧
      (∀ k ∈ [n, last], m.bounds.overlaps k.bounds = false ∧
        ((g.rewrite rs m).rewrite rs k).tiles = ((g.rewrite rs k).rewrite rs m).tiles ∧
        (Tally.empty.use rs m).use rs k = (Tally.empty.use rs k).use rs m) ∧
      n ∈ findAll (g.rewrite rs m) rs (Tally.empty.use rs m) 0 ∧
      last ∉ findAll (g.rewrite rs m) rs (Tally.empty.use rs m) 0 := by
  intro g rs m n last
  have found : ∀ k ∈ [m, n, last], k ∈ findAll g rs .empty 0 := by decide +kernel
  have apart : ∀ k ∈ [n, last], m.bounds.overlaps k.bounds = false := by decide +kernel
  have each (k : Match) (hk : k ∈ [n, last]) :=
    apart_rewrites_independent (found m List.mem_cons_self) (found k (List.mem_cons_of_mem m hk))
      (apart k hk)
  refine ⟨found, fun k hk => ⟨apart k hk, (each k hk).1, (each k hk).2.1⟩, ?_, ?_⟩
  · refine (each n List.mem_cons_self).2.2.2 ⟨_, rfl, ?_⟩
    decide +kernel
  · rw [(each last (by decide)).2.2]
    rintro ⟨rule, hr, uncapped⟩
    obtain rfl := Option.some.inj hr
    revert uncapped
    decide +kernel

end Independence

end TileGrammar
