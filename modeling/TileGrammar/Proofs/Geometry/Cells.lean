import TileGrammar.Geometry.Interval
import TileGrammar.Proofs.Geometry.Hull
import Mathlib.Data.Set.Card

namespace TileGrammar.Box

def cells (b : Box) : Set Cell := {c | c ∈ b}

variable {a b : Box}

lemma isEmpty_iff_forall_notMem : b.isEmpty = true ↔ ∀ c, c ∉ b := by
  constructor
  · intro empty c hc
    rw [isEmpty_eq_false.2 (proper_of_mem hc)] at empty
    exact Bool.false_ne_true empty
  · intro none
    by_contra h
    exact none b.corner (corner_mem (isEmpty_eq_false.1 (Bool.eq_false_iff.2 h)))

lemma isHullOf_hull (a b : Box) : (a.hull b).IsHullOf fun c => c ∈ a ∨ c ∈ b := by
  constructor
  · rintro c (hc | hc)
    · exact mem_hull_left hc b
    · exact mem_hull_right a hc
  · intro box hold c hc
    exact mem_of_mem_hull (fun e he => hold e (.inl he)) (fun e he => hold e (.inr he)) hc

section Count

lemma nodup_sweep (b : Box) : b.sweep.Nodup := by
  apply b.pairwise_sweep.imp
  rintro c _ precedes rfl
  rw [Cell.Precedes] at precedes
  omega

lemma length_interval (low high : Int) : (interval low high).length = (high - low).toNat := by
  rw [interval, List.length_map, List.length_range]

lemma length_sweep (b : Box) : b.sweep.length = b.extent.volume := by
  have axis (low extent : Int) : low + extent - low = extent := by omega
  simp only [sweep, List.length_flatMap, List.length_map, List.map_const', List.sum_replicate_nat,
    length_interval, top_x, top_y, top_z, axis, Cell.volume, Nat.mul_assoc]

lemma encard_cells (b : Box) : b.cells.encard = b.extent.volume := by
  have enumerated : b.cells = (b.sweep.toFinset : Set Cell) := by
    ext c
    rw [Finset.mem_coe, List.mem_toFinset, mem_sweep]
    rfl
  rw [enumerated, Set.encard_coe_eq_coe_finsetCard, List.toFinset_card_of_nodup b.nodup_sweep,
    length_sweep]

lemma volume_of_encard_lt (h : b.cells.encard < 2 ^ 64) : (b.volume : ℕ∞) = b.cells.encard := by
  rw [encard_cells] at h ⊢
  have small : b.extent.volume < 2 ^ 64 := by exact_mod_cast h
  rw [volume, volumeLimit, Nat.min_eq_left (by omega)]

lemma volume_of_le_encard (h : 2 ^ 64 ≤ b.cells.encard) : b.volume = 2 ^ 64 - 1 := by
  rw [encard_cells] at h
  have large : 2 ^ 64 ≤ b.extent.volume := by exact_mod_cast h
  rw [volume, volumeLimit]
  omega

end Count

theorem operations_on_cells (a b : Box) :
    (a.overlaps b = true ↔ ∃ c, c ∈ a ∧ c ∈ b) ∧
    (a.isEmpty = true ↔ ∀ c, c ∉ a) ∧
    ((a.hull b).IsHullOf fun c => c ∈ a ∨ c ∈ b) ∧
    (a.cells.encard < 2 ^ 64 → (a.volume : ℕ∞) = a.cells.encard) ∧
    (2 ^ 64 ≤ a.cells.encard → a.volume = 2 ^ 64 - 1) :=
  ⟨overlaps_iff_exists_mem, isEmpty_iff_forall_notMem, isHullOf_hull a b, volume_of_encard_lt,
    volume_of_le_encard⟩

theorem operations_on_cells_touching :
    let a : Box := ⟨⟨-1, 1, 1⟩, ⟨2, 2, 2⟩⟩
    let b : Box := ⟨⟨1, 1, 1⟩, ⟨1, 2, 2⟩⟩
    let huge : Box := ofExtent (Cell.diagonal 2147483647)
    (¬ ∃ c, c ∈ a ∧ c ∈ b) ∧ (∃ c, c ∈ a) ∧
      a.hull b = ⟨⟨-1, 1, 1⟩, ⟨3, 2, 2⟩⟩ ∧ ((a.hull b).IsHullOf fun c => c ∈ a ∨ c ∈ b) ∧
      a.cells.encard < 2 ^ 64 ∧ (a.volume : ℕ∞) = a.cells.encard ∧ a.volume = 8 ∧
      2 ^ 64 ≤ huge.cells.encard ∧ huge.volume = 2 ^ 64 - 1 := by
  intro a b huge
  obtain ⟨shared, empty, hull, counted, -⟩ := operations_on_cells a b
  have few : a.cells.encard < 2 ^ 64 := by
    rw [encard_cells]
    exact_mod_cast (by decide : a.extent.volume < 2 ^ 64)
  have many : 2 ^ 64 ≤ huge.cells.encard := by
    rw [encard_cells]
    exact_mod_cast (by decide : 2 ^ 64 ≤ huge.extent.volume)
  refine ⟨mt shared.2 (by decide), ?_, by decide, hull, few, counted few, by decide, many,
    (operations_on_cells huge b).2.2.2.2 many⟩
  by_contra none
  exact absurd (empty.2 (not_exists.1 none)) (by decide)

end TileGrammar.Box
