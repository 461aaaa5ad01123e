import TileGrammar.Proofs.Generation.Rescan
import TileGrammar.Proofs.Grid.Palette
import TileGrammar.Proofs.Rule.Orbit

namespace TileGrammar

section Orientations

variable {p : Pattern} {tile : Tile}

lemma Motion.mem_of_mem_tiles_pattern (t : Motion) (h : tile ∈ (t.pattern p).tiles) :
    tile ∈ p.tiles := by
  obtain ⟨n, hn, rfl⟩ := Array.mem_iff_getElem.1 h
  have moved : (t.pattern p).extent.ofPosition n ∈ Box.ofExtent (t.extent p.extent) := by
    rw [← extent_pattern]
    exact Cell.ofPosition_mem (t.pattern p).proper ((t.pattern p).size_tiles ▸ hn)
  rw [← Pattern.tileAt_ofPosition _ hn, t.tileAt_pattern moved]
  exact Pattern.tileAt_mem (t.source_mem_ofExtent.2 moved)

lemma Orientation.mem_of_mem_tiles_apply (o : Orientation) (h : tile ∈ (o.apply p).tiles) :
    tile ∈ p.tiles := by
  have turned : ∀ n, tile ∈ (Nat.repeat Pattern.turned n p).tiles → tile ∈ p.tiles := by
    intro n hn
    induction n with
    | zero => exact hn
    | succ n ih => exact ih (Motion.turn.mem_of_mem_tiles_pattern hn)
  obtain ⟨quarters, isMirrored⟩ := o
  cases isMirrored with
  | false => exact turned quarters h
  | true => exact turned quarters (Motion.mirror.mem_of_mem_tiles_pattern h)

lemma Rule.draws_of_variant {rule : Rule} {v : Variant} (hv : v ∈ rule.variants)
    (h : v.right.Draws tile) : rule.right.Draws tile := by
  obtain ⟨o, -, rfl⟩ := Variant.mem_images.1 hv
  exact ⟨o.mem_of_mem_tiles_apply h.1, h.2⟩

end Orientations

def RuleSet.Draws (rs : RuleSet) (t : Tile) : Prop :=
  (∃ rule ∈ rs.rules, rule.right.Draws t) ∨ ∃ p, rs.start = some p ∧ p.Draws t

section RuleSet

variable {rs : RuleSet} {g : Grid} {palette : Tile → Prop} {t : Tile}

lemma RuleSet.ne_wildcard_of_draws (h : rs.Draws t) : t ≠ .wildcard := by
  rcases h with ⟨rule, -, h⟩ | ⟨p, -, h⟩
  · exact h.2
  · exact h.2

lemma RuleSet.draws_of_replacement? {m : Match} {name : String} {right : Pattern}
    (h : rs.replacement? m = some (name, right)) (ht : right.Draws t) : rs.Draws t := by
  obtain ⟨rule, hr, h⟩ := Option.bind_eq_some_iff.1 h
  obtain ⟨v, hv, h⟩ := Option.bind_eq_some_iff.1 h
  obtain ⟨-, rfl⟩ := Prod.mk.inj (Option.some.inj h)
  exact .inl ⟨rule, List.mem_of_getElem? hr, rule.draws_of_variant (List.mem_of_getElem? hv) ht⟩

namespace Grid.DrawnFrom

lemma rewrite (hg : g.DrawnFrom palette) (drawn : ∀ t, rs.Draws t → palette t) (m : Match) :
    (g.rewrite rs m).DrawnFrom palette := by
  rw [Grid.rewrite]
  cases hr : rs.replacement? m with
  | none => exact hg
  | some r => exact hg.stamp (fun t ht => drawn t (RuleSet.draws_of_replacement? hr ht)) m.corner

lemma foldl_rewrite (hg : g.DrawnFrom palette) (drawn : ∀ t, rs.Draws t → palette t)
    (ms : List Match) : (ms.foldl (fun g m => g.rewrite rs m) g).DrawnFrom palette := by
  induction ms generalizing g with
  | nil => exact hg
  | cons m ms ih => exact ih (hg.rewrite drawn m)

lemma placeStart (hg : g.DrawnFrom palette) (drawn : ∀ t, rs.Draws t → palette t) :
    (g.placeStart rs).DrawnFrom palette := by
  rw [Grid.placeStart]
  cases hs : rs.start with
  | none => exact hg
  | some p =>
    dsimp only
    split
    · exact hg.stamp (fun t ht => drawn t (.inr ⟨p, hs, ht⟩)) _
    · exact hg

end Grid.DrawnFrom

end RuleSet

namespace Generation

variable {σ : Type} [RandomSource σ] {g g' : Generation σ} {rs : RuleSet} {palette : Tile → Prop}

lemma drawnFrom_move (drawn : ∀ t, rs.Draws t → palette t) (h : Move rs g g')
    (hg : g.grid.DrawnFrom palette) : g'.grid.DrawnFrom palette := by
  cases h with
  | reset seed => exact hg.placeStart drawn
  | search => exact hg
  | draw source => exact hg
  | applyOne hms hm => exact hg.rewrite drawn _
  | applyAll filter hms => exact hg.foldl_rewrite drawn _
  | subdivide levels => exact hg.subdivide levels

lemma drawnFrom_moves (drawn : ∀ t, rs.Draws t → palette t) (h : Moves rs g g')
    (hg : g.grid.DrawnFrom palette) : g'.grid.DrawnFrom palette := by
  induction h with
  | refl => exact hg
  | tail _ hm ih => exact drawnFrom_move drawn hm ih

theorem tiles_have_origin {fuel : Nat} {cs : List Command} {os : List Outcome}
    (run : executeAll rs fuel cs g = some (os, g')) :
    (∀ t ∈ g'.grid.tiles, t ∈ g.grid.tiles ∨ rs.Draws t) ∧
      (Tile.wildcard ∉ g.grid.tiles → Tile.wildcard ∉ g'.grid.tiles) := by
  have origin : g'.grid.DrawnFrom fun t => t ∈ g.grid.tiles ∨ rs.Draws t :=
    drawnFrom_moves (fun _ ht => .inr ht) (moves_executeAll run) fun _ ht => .inl ht
  refine ⟨origin, fun absent present => ?_⟩
  rcases origin _ present with old | drawn
  · exact absent old
  · exact RuleSet.ne_wildcard_of_draws drawn rfl

namespace Relay

def holed : RuleSet where
  rules := rules.rules
  start := some (Pattern.pair "*" "B")

end Relay

theorem tiles_have_origin_holed :
    let cs := [.reset none, .subdivide 1, .sweep .all, .single .all, .subdivide (-1)]
    ∃ os g', executeAll Relay.holed 0 cs (Relay.start .first) = some (os, g') ∧
      g'.grid.tiles = #[⟨"C"⟩, ⟨"C"⟩, ⟨"B"⟩] ∧
      (∀ t ∈ g'.grid.tiles, t ∈ (Relay.start .first).grid.tiles ∨ Relay.holed.Draws t) ∧
      Tile.wildcard ∉ (Relay.start .first).grid.tiles ∧ Tile.wildcard ∉ g'.grid.tiles := by
  intro cs
  have h : (executeAll Relay.holed 0 cs (Relay.start .first)).any (fun r =>
      r.2.grid.tiles = #[⟨"C"⟩, ⟨"C"⟩, ⟨"B"⟩]) = true := by
    decide +kernel
  simp only [Option.any_eq_true, decide_eq_true_eq] at h
  obtain ⟨⟨os, g'⟩, run, tiles⟩ := h
  obtain ⟨origin, pure⟩ := tiles_have_origin run
  have absent : Tile.wildcard ∉ (Relay.start .first).grid.tiles := by decide +kernel
  exact ⟨os, g', run, tiles, origin, absent, pure absent⟩

end Generation

end TileGrammar
