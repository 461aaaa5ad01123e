import TileGrammar.Proofs.Grid.Count
import TileGrammar.Proofs.Pattern.Motion

/-!
The tiles of a pattern by their offsets: as they are listed, and as they are read at one offset. Both
agree on the block of the pattern. An offset that leaves the block along z only is refused, but with x
or y out of range its place in the storage may be that of another offset, and that tile is read.
-/

namespace TileGrammar.Pattern

structure Accessed (p : Pattern) : Prop where
  mem_offsets_iff : ∀ o, o ∈ p.cells.map Prod.fst ↔ o ∈ Box.ofExtent p.extent
  nodup_offsets : (p.cells.map Prod.fst).Nodup
  pairwise_offsets :
    (p.cells.map Prod.fst).Pairwise fun a b => p.extent.position a < p.extent.position b
  get?_of_mem_cells : ∀ q ∈ p.cells, p.get? q.1 = some q.2
  get?_eq_none_iff : ∀ o, p.get? o = none ↔
    p.extent.position o < 0 ∨ (p.extent.volume : Int) ≤ p.extent.position o
  exists_cell_of_outside : ∀ o, o ∉ Box.ofExtent p.extent → ∀ t, p.get? o = some t →
    ∃ c, c ≠ o ∧ p.extent.position c = p.extent.position o ∧ (c, t) ∈ p.cells
  get?_of_layer_outside : ∀ o, o ∉ Box.ofExtent p.extent →
    (0 ≤ o.x ∧ o.x < p.extent.x) ∧ 0 ≤ o.y ∧ o.y < p.extent.y → p.get? o = none
  exists_outside : ∃ o, o ∉ Box.ofExtent p.extent ∧ p.get? o ≠ none

variable {p : Pattern} {o : Cell} {t : Tile}

lemma mem_offsets_iff : o ∈ p.cells.map Prod.fst ↔ o ∈ Box.ofExtent p.extent := by
  constructor
  · intro h
    obtain ⟨⟨o, t⟩, hq, rfl⟩ := List.mem_map.1 h
    exact (mem_cells.1 hq).1
  · intro h
    exact List.mem_map.2 ⟨(o, p.tileAt o), mem_cells.2 ⟨h, rfl⟩, rfl⟩

lemma pairwise_offsets (p : Pattern) :
    (p.cells.map Prod.fst).Pairwise fun a b => p.extent.position a < p.extent.position b := by
  rw [fst_cells, List.pairwise_map]
  apply List.pairwise_lt_range.imp
  intro m n h
  rw [Cell.position_ofPosition p.proper, Cell.position_ofPosition p.proper]
  exact Int.ofNat_lt.2 h

lemma get?_of_mem_cells (h : (o, t) ∈ p.cells) : p.get? o = some t := by
  obtain ⟨ho, rfl⟩ := mem_cells.1 h
  exact get?_of_mem ho

lemma get?_eq_none_iff : p.get? o = none ↔
    p.extent.position o < 0 ∨ (p.extent.volume : Int) ≤ p.extent.position o := by
  rw [get?, ← p.size_tiles]
  split
  · rename_i low
    exact iff_of_true rfl (.inl low)
  · rename_i low
    rw [Array.getElem?_eq_none_iff]
    omega

lemma exists_cell_of_get? (h : p.get? o = some t) :
    ∃ c, p.extent.position c = p.extent.position o ∧ (c, t) ∈ p.cells := by
  have stored : ¬ p.get? o = none := by
    rw [h]
    exact Option.some_ne_none t
  rw [get?_eq_none_iff] at stored
  generalize hn : (p.extent.position o).toNat = n
  have place : p.extent.position (p.extent.ofPosition n) = p.extent.position o := by
    rw [Cell.position_ofPosition p.proper]
    omega
  have mem : p.extent.ofPosition n ∈ Box.ofExtent p.extent :=
    Cell.ofPosition_mem p.proper (by omega)
  refine ⟨_, place, mem_cells.2 ⟨mem, ?_⟩⟩
  rw [tileAt, get?, place, ← get?, h, Option.getD_some]

lemma get?_of_layer_outside (out : o ∉ Box.ofExtent p.extent)
    (layer : (0 ≤ o.x ∧ o.x < p.extent.x) ∧ 0 ≤ o.y ∧ o.y < p.extent.y) : p.get? o = none := by
  obtain ⟨hx, hy, hz⟩ := Cell.proper_iff.1 p.proper
  have proper : (⟨p.extent.x, p.extent.y, 1⟩ : Cell).Proper :=
    Cell.proper_iff.2 ⟨hx, hy, Int.le_refl 1⟩
  have mem : (⟨o.x, o.y, 0⟩ : Cell) ∈ Box.ofExtent ⟨p.extent.x, p.extent.y, 1⟩ :=
    Box.mem_ofExtent.2 ⟨⟨layer.1.1, layer.2.1, Int.le_refl 0⟩, layer.1.2, layer.2.2, Int.one_pos⟩
  have low := Cell.position_nonneg proper mem
  have high := Cell.position_lt proper mem
  rw [proper.cast_volume] at high
  have place : p.extent.position o =
      Cell.position ⟨p.extent.x, p.extent.y, 1⟩ ⟨o.x, o.y, 0⟩ + o.z * (p.extent.x * p.extent.y) := by
    simp only [Cell.position]
    grind
  rw [get?_eq_none_iff, p.proper.cast_volume, place]
  have area : 0 ≤ p.extent.x * p.extent.y := Int.mul_nonneg (by omega) (by omega)
  have beside : o.z < 0 ∨ p.extent.z ≤ o.z := by
    rw [Box.mem_ofExtent] at out
    omega
  rcases beside with below | above
  · have := Int.mul_le_mul_of_nonneg_right (show o.z + 1 ≤ 0 by omega) area
    grind
  · have := Int.mul_le_mul_of_nonneg_right above area
    grind

lemma exists_outside (p : Pattern) : ∃ o, o ∉ Box.ofExtent p.extent ∧ p.get? o ≠ none := by
  refine ⟨⟨p.extent.x, -1, 0⟩, fun mem => ?_, ?_⟩
  · have low : (0 : Int) ≤ -1 := (Box.mem_ofExtent.1 mem).1.2.1
    exact absurd low (by decide)
  · have place : p.extent.position ⟨p.extent.x, -1, 0⟩ = 0 := by
      simp only [Cell.position]
      omega
    have pos := Cell.volume_pos p.proper
    rw [Ne, get?_eq_none_iff, place]
    omega

theorem access_agrees_with_cells (p : Pattern) : p.Accessed where
  mem_offsets_iff _ := mem_offsets_iff
  nodup_offsets := p.nodup_fst_cells
  pairwise_offsets := p.pairwise_offsets
  get?_of_mem_cells _ := get?_of_mem_cells
  get?_eq_none_iff _ := get?_eq_none_iff
  exists_cell_of_outside o out t read := by
    obtain ⟨c, place, hc⟩ := exists_cell_of_get? read
    refine ⟨c, ?_, place, hc⟩
    rintro rfl
    exact out (mem_cells.1 hc).1
  get?_of_layer_outside _ := get?_of_layer_outside
  exists_outside := p.exists_outside

theorem access_leaves_block_square : ∃ p : Pattern, parse "AB/CD" = .ok p ∧
    (⟨2, 0, 0⟩ : Cell) ∉ Box.ofExtent p.extent ∧ p.get? ⟨2, 0, 0⟩ = some ⟨"C"⟩ := by
  let p : Pattern := {
    extent := ⟨2, 2, 1⟩
    tiles := #[⟨"A"⟩, ⟨"B"⟩, ⟨"C"⟩, ⟨"D"⟩]
    proper := by decide
    size_tiles := rfl }
  exact ⟨p, by decide +kernel, by decide, by decide⟩

end TileGrammar.Pattern
