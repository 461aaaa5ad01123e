import TileGrammar.Proofs.Match.Application
import Mathlib.Algebra.Ring.Int.Defs

/-!
The footprint of a match: the cells that its application writes. Matches with disjoint footprints do
not disturb each other, so that the counts of labels after all of them follow from the uses of the
rules.
-/

namespace TileGrammar

def RuleSet.Writes (rs : RuleSet) (m : Match) (c : Cell) : Prop :=
  ∃ name right, rs.replacement? m = some (name, right) ∧
    ∃ p ∈ right.cells, p.2 ≠ .wildcard ∧ m.corner + p.1 = c

def RuleSet.Apart (rs : RuleSet) (m n : Match) : Prop := ∀ c, rs.Writes m c → ¬ rs.Writes n c

namespace Match.Occurs

variable {m : Match} {rule : Rule} {v : Variant} {g h : Grid} {rs : RuleSet} {uses : Tally}
  {step : Nat}

lemma writes_iff (o : m.Occurs rule v g rs uses step) {c : Cell} :
    rs.Writes m c ↔ ∃ p ∈ v.right.cells, p.2 ≠ .wildcard ∧ m.corner + p.1 = c := by
  rw [RuleSet.Writes, RuleSet.replacement?_eq_some o.rule_eq o.variant_eq]
  constructor
  · rintro ⟨name, right, he, hp⟩
    obtain ⟨-, rfl⟩ := Prod.mk.inj (Option.some.inj he)
    exact hp
  · intro hp
    exact ⟨_, _, rfl, hp⟩

lemma tileAt_rewrite_of_not_writes (o : m.Occurs rule v g rs uses step)
    (he : h.extent = g.extent) {c : Cell} (hc : c ∈ g.bounds) (unwritten : ¬ rs.Writes m c) :
    (h.rewrite rs m).tileAt c = h.tileAt c := by
  rw [o.rewrite_eq, Grid.stamp_eq, Grid.tileAt_flush]
  apply Grid.tileAt_writeCells_of_forall (Grid.forall_cells_mem_bounds (he ▸ o.inside_right))
  · rwa [Grid.bounds, he]
  · intro p hp hpc
    by_contra hw
    exact unwritten (o.writes_iff.2 ⟨p, hp, hw, hpc⟩)

lemma mem_bounds_of_writes (o : m.Occurs rule v g rs uses step) {c : Cell} (hc : rs.Writes m c) :
    c ∈ g.bounds := by
  obtain ⟨p, hp, -, rfl⟩ := o.writes_iff.1 hc
  exact o.add_mem_bounds (Pattern.mem_cells.1 hp).1

end Match.Occurs

section Balance

def Rule.gain (rule : Rule) (label : String) : Int :=
  Grid.written label rule.right.cells - Grid.covered label rule.left.tileAt rule.right.cells

/-- What the uses of all rules have added to the count of a label. -/
def RuleSet.due (rs : RuleSet) (uses : Tally) (label : String) : Int :=
  (rs.rules.map fun rule => rule.gain label * (uses.count rule.name : Int)).sum

variable {g h : Grid} {rs : RuleSet} {uses t : Tally} {step : Nat} {label : String}
  {ms : List Match}

lemma RuleSet.due_increment {rule : Rule} (distinct : rs.names.Nodup) (hr : rule ∈ rs.rules) :
    rs.due (t.increment rule.name) label = rs.due t label + rule.gain label := by
  obtain ⟨rules, start⟩ := rs
  dsimp only [names, due] at *
  induction rules with
  | nil => cases hr
  | cons first rules ih =>
    rw [List.map_cons, List.nodup_cons] at distinct
    simp only [List.map_cons, List.sum_cons, Tally.count_increment] at ih ⊢
    by_cases here : first.name = rule.name
    · -- the rule stands here, since no later one has its name
      have other : ∀ r ∈ rules, r.name ≠ rule.name := fun r hr he =>
        distinct.1 (here ▸ he ▸ List.mem_map_of_mem hr)
      obtain rfl : rule = first := by
        rcases List.mem_cons.1 hr with he | hl
        · exact he
        · exact absurd rfl (other rule hl)
      have rest : (rules.map fun r => r.gain label *
            ((t.count r.name + if r.name = rule.name then 1 else 0 : Nat) : Int)) =
          rules.map fun r => r.gain label * (t.count r.name : Int) :=
        List.map_congr_left fun r hr => by rw [if_neg (other r hr), Nat.add_zero]
      rw [rest, if_pos rfl, Int.natCast_add, Int.mul_add, Int.natCast_one, Int.mul_one]
      omega
    · have hl : rule ∈ rules := by
        rcases List.mem_cons.1 hr with rfl | hl
        · exact absurd rfl here
        · exact hl
      rw [ih distinct.2 hl, if_neg here, Nat.add_zero, Int.add_assoc]

lemma Grid.count_sub_due_foldl (distinct : rs.names.Nodup) (he : h.extent = g.extent)
    (found : ∀ m ∈ ms, ∃ rule v, m.Occurs rule v g rs uses step ∧ v.Definite ∧
      v.Adds label (rule.gain label))
    (apart : ms.Pairwise rs.Apart)
    (intact : ∀ m ∈ ms, ∀ c, rs.Writes m c → h.tileAt c = g.tileAt c) :
    ((ms.foldl (fun h m => h.rewrite rs m) h).count label : Int) -
        rs.due (ms.foldl (fun t m => t.use rs m) t) label =
      h.count label - rs.due t label := by
  induction ms generalizing h t with
  | nil => rfl
  | cons m ms ih =>
    rw [List.forall_mem_cons] at found intact
    rw [List.pairwise_cons] at apart
    obtain ⟨rule, v, o, definite, adds⟩ := found.1
    have later := ih (h := h.rewrite rs m) (t := t.use rs m) ((extent_rewrite h rs m).trans he)
      found.2 apart.2 <| by
        intro n hn c hc
        obtain ⟨rule', v', o', -⟩ := found.2 n hn
        rw [o.tileAt_rewrite_of_not_writes he (o'.mem_bounds_of_writes hc)
          fun hm => apart.1 n hn c hm hc]
        exact intact.2 n hn c hc
    have count := o.count_rewrite_of_intact definite he
      (fun p hp hw => intact.1 _ (o.writes_iff.2 ⟨p, hp, hw, rfl⟩)) label
    have due : rs.due (t.increment rule.name) label = rs.due t label + rule.gain label :=
      RuleSet.due_increment distinct (List.mem_of_getElem? o.rule_eq)
    rw [List.foldl_cons, List.foldl_cons, later, o.use_eq, due]
    rw [Variant.Adds] at adds
    omega

end Balance

end TileGrammar
