import TileGrammar.Generation.Basic
import TileGrammar.Proofs.Grid.Stamp

namespace TileGrammar

lemma inside_centeredCorner {e block : Cell} (h : block ≤ e) :
    (⟨centeredCorner e block, block⟩ : Box).Inside e := by
  rw [Cell.le_iff] at h
  rw [Box.inside_iff]
  simp only [centeredCorner, Cell.map, Cell.sub_x, Cell.sub_y, Cell.sub_z]
  rw [Int.tdiv_eq_ediv_of_nonneg (by omega), Int.tdiv_eq_ediv_of_nonneg (by omega),
    Int.tdiv_eq_ediv_of_nonneg (by omega)]
  omega

@[simp] lemma Grid.extent_placeStart (g : Grid) (rs : RuleSet) :
    (g.placeStart rs).extent = g.extent := by
  rw [placeStart]
  split
  · rfl
  · split
    · rw [extent_stamp]
    · rfl

end TileGrammar
