import TileGrammar.Geometry.Box

/-!
The storage order of a block: x runs fastest, then y, then z. `position` and `ofPosition` go back
and forth between the cells of a block and the numbers below its volume.
-/

namespace TileGrammar.Cell

/-- The place of a cell in the storage of a block. The formula is not restricted to the block. -/
def position (e c : Cell) : Int := c.x + c.y * e.x + c.z * e.x * e.y

def ofPosition (e : Cell) (n : Nat) : Cell :=
  ⟨n % e.x, n / e.x % e.y, n / (e.x * e.y)⟩

theorem Proper.cast_volume {e : Cell} (h : e.Proper) : (e.volume : Int) = e.x * e.y * e.z := by
  obtain ⟨hx, hy, hz⟩ := proper_iff.1 h
  simp only [volume, Int.natCast_mul, Int.toNat_of_nonneg (show 0 ≤ e.x by omega),
    Int.toNat_of_nonneg (show 0 ≤ e.y by omega), Int.toNat_of_nonneg (show 0 ≤ e.z by omega)]

theorem position_nonneg {e c : Cell} (h : e.Proper) (hc : c ∈ Box.ofExtent e) :
    0 ≤ e.position c := by
  obtain ⟨hx, hy, hz⟩ := proper_iff.1 h
  obtain ⟨⟨cx, cy, cz⟩, -⟩ := Box.mem_ofExtent.1 hc
  exact Int.add_nonneg (Int.add_nonneg cx (Int.mul_nonneg cy (by omega)))
    (Int.mul_nonneg (Int.mul_nonneg cz (by omega)) (by omega))

theorem position_lt {e c : Cell} (h : e.Proper) (hc : c ∈ Box.ofExtent e) :
    e.position c < e.volume := by
  obtain ⟨hx, hy, hz⟩ := proper_iff.1 h
  obtain ⟨⟨cx, cy, cz⟩, lx, ly, lz⟩ := Box.mem_ofExtent.1 hc
  rw [h.cast_volume, position]
  have h₁ : (c.y + 1) * e.x ≤ e.y * e.x := Int.mul_le_mul_of_nonneg_right (by omega) (by omega)
  have h₂ : (c.z + 1) * (e.x * e.y) ≤ e.z * (e.x * e.y) :=
    Int.mul_le_mul_of_nonneg_right (by omega) (Int.mul_nonneg (by omega) (by omega))
  grind

theorem ofPosition_mem {e : Cell} (h : e.Proper) {n : Nat} (hn : n < e.volume) :
    e.ofPosition n ∈ Box.ofExtent e := by
  obtain ⟨hx, hy, hz⟩ := proper_iff.1 h
  have hv : (n : Int) < e.z * (e.x * e.y) := by
    have := h.cast_volume
    grind
  have hxy : 0 < e.x * e.y := Int.mul_pos (by omega) (by omega)
  refine Box.mem_ofExtent.2 ⟨⟨Int.emod_nonneg _ (by omega), Int.emod_nonneg _ (by omega),
    Int.ediv_nonneg (by omega) (by omega)⟩, Int.emod_lt_of_pos _ (by omega),
    Int.emod_lt_of_pos _ (by omega), ?_⟩
  exact Int.ediv_lt_of_lt_mul hxy hv

theorem position_ofPosition {e : Cell} (h : e.Proper) (n : Nat) :
    e.position (e.ofPosition n) = n := by
  obtain ⟨hx, hy, hz⟩ := proper_iff.1 h
  simp only [position, ofPosition]
  have h₁ := Int.emod_add_mul_ediv n e.x
  have h₂ := Int.emod_add_mul_ediv (n / e.x) e.y
  have h₃ : (n : Int) / (e.x * e.y) = n / e.x / e.y := by
    rw [Int.ediv_ediv_of_nonneg (by omega)]
  rw [h₃]
  grind

theorem ofPosition_position {e c : Cell} (h : e.Proper) (hc : c ∈ Box.ofExtent e) :
    e.ofPosition (e.position c).toNat = c := by
  obtain ⟨hx, hy, hz⟩ := proper_iff.1 h
  have hp := position_nonneg h hc
  obtain ⟨⟨cx, cy, cz⟩, lx, ly, lz⟩ := Box.mem_ofExtent.1 hc
  have h₁ : e.position c = c.x + e.x * (c.y + e.y * c.z) := by
    simp only [position]
    grind
  have h₂ : e.position c / e.x = c.y + e.y * c.z := by
    rw [h₁, Int.add_mul_ediv_left _ _ (by omega), Int.ediv_eq_zero_of_lt cx lx]
    omega
  ext
  · simp only [ofPosition, Int.toNat_of_nonneg hp]
    rw [h₁, Int.add_mul_emod_self_left, Int.emod_eq_of_lt cx lx]
  · simp only [ofPosition, Int.toNat_of_nonneg hp, h₂]
    rw [Int.add_mul_emod_self_left, Int.emod_eq_of_lt cy ly]
  · simp only [ofPosition, Int.toNat_of_nonneg hp]
    rw [← Int.ediv_ediv_of_nonneg (by omega), h₂, Int.add_mul_ediv_left _ _ (by omega),
      Int.ediv_eq_zero_of_lt cy ly]
    omega

end TileGrammar.Cell
