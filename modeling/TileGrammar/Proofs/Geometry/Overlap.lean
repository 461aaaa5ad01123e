import TileGrammar.Geometry.Box
import Mathlib.Tactic.Lemma

namespace TileGrammar.Box

@[simp] lemma top_x (b : Box) : b.top.x = b.corner.x + b.extent.x := rfl

@[simp] lemma top_y (b : Box) : b.top.y = b.corner.y + b.extent.y := rfl

@[simp] lemma top_z (b : Box) : b.top.z = b.corner.z + b.extent.z := rfl

lemma isEmpty_eq_false {b : Box} : b.isEmpty = false ↔ b.extent.Proper := by
  simp [isEmpty]

lemma proper_of_mem {b : Box} {c : Cell} (h : c ∈ b) : b.extent.Proper := by
  simp only [mem_iff, Cell.le_iff, Cell.lt_iff, top_x, top_y, top_z] at h
  rw [Cell.proper_iff]
  omega

lemma overlaps_iff {a b : Box} :
    a.overlaps b = true ↔
      (a.extent.Proper ∧ b.extent.Proper) ∧ a.corner < b.top ∧ b.corner < a.top := by
  simp [overlaps, isEmpty]

lemma overlaps_iff_exists_mem {a b : Box} : a.overlaps b = true ↔ ∃ c, c ∈ a ∧ c ∈ b := by
  rw [overlaps_iff]
  constructor
  · rintro ⟨⟨ha, hb⟩, hab, hba⟩
    refine ⟨max a.corner b.corner, ?_⟩
    simp only [mem_iff, Cell.le_iff, Cell.lt_iff, Cell.proper_iff, top_x, top_y, top_z,
      Cell.max_x, Cell.max_y, Cell.max_z] at *
    omega
  · rintro ⟨c, ha, hb⟩
    refine ⟨⟨proper_of_mem ha, proper_of_mem hb⟩, ?_⟩
    simp only [mem_iff, Cell.le_iff, Cell.lt_iff, top_x, top_y, top_z] at *
    omega

lemma overlaps_comm (a b : Box) : a.overlaps b = b.overlaps a := by
  rw [Bool.eq_iff_iff, overlaps_iff_exists_mem, overlaps_iff_exists_mem]
  simp only [and_comm]

def Inside (b : Box) (e : Cell) : Prop := Cell.origin ≤ b.corner ∧ b.top ≤ e

instance (b : Box) (e : Cell) : Decidable (b.Inside e) :=
  inferInstanceAs (Decidable (Cell.origin ≤ b.corner ∧ b.top ≤ e))

lemma inside_iff {b : Box} {e : Cell} :
    b.Inside e ↔ (0 ≤ b.corner.x ∧ 0 ≤ b.corner.y ∧ 0 ≤ b.corner.z) ∧
      b.corner.x + b.extent.x ≤ e.x ∧ b.corner.y + b.extent.y ≤ e.y ∧
        b.corner.z + b.extent.z ≤ e.z := Iff.rfl

lemma Inside.mem {b : Box} {e c : Cell} (h : b.Inside e) (hc : c ∈ b) : c ∈ ofExtent e := by
  rw [inside_iff] at h
  rw [mem_ofExtent]
  simp only [mem_iff, Cell.le_iff, Cell.lt_iff, top_x, top_y, top_z] at hc
  omega

lemma Inside.overlaps {b : Box} {e : Cell} (h : b.Inside e) (hb : b.extent.Proper) :
    b.overlaps (ofExtent e) = true := by
  refine overlaps_iff_exists_mem.2 ⟨b.corner, ?_, h.mem ?_⟩ <;>
  · simp only [mem_iff, Cell.le_iff, Cell.lt_iff, Cell.proper_iff, top_x, top_y, top_z] at *
    omega

lemma add_mem_iff {b : Box} {o : Cell} : b.corner + o ∈ b ↔ o ∈ ofExtent b.extent := by
  rw [mem_ofExtent]
  simp only [mem_iff, Cell.le_iff, Cell.lt_iff, top_x, top_y, top_z, Cell.add_x, Cell.add_y,
    Cell.add_z]
  omega

lemma exists_add_of_mem {b : Box} {c : Cell} (hc : c ∈ b) :
    ∃ o ∈ ofExtent b.extent, c = b.corner + o := by
  have h : c = b.corner + (c - b.corner) := by
    simp only [Cell.ext_iff, Cell.add_x, Cell.add_y, Cell.add_z, Cell.sub_x, Cell.sub_y, Cell.sub_z]
    omega
  exact ⟨c - b.corner, add_mem_iff.1 (h ▸ hc), h⟩

end TileGrammar.Box
