import TileGrammar.Proofs.Geometry.Overlap
import Mathlib.Tactic.Lemma

namespace TileGrammar

inductive Motion where
  | mirror
  | turn
deriving DecidableEq, Repr

namespace Motion

def extent : Motion → Cell → Cell
  | mirror, e => e
  | turn, e => ⟨e.z, e.y, e.x⟩

def cell : Motion → Cell → Cell → Cell
  | mirror, e, c => ⟨e.x - 1 - c.x, c.y, c.z⟩
  | turn, e, c => ⟨c.z, c.y, e.x - 1 - c.x⟩

def source : Motion → Cell → Cell → Cell
  | mirror, e, c => ⟨e.x - 1 - c.x, c.y, c.z⟩
  | turn, e, c => ⟨e.x - 1 - c.z, c.y, c.x⟩

def corner : Motion → Cell → Box → Cell
  | mirror, e, b => ⟨e.x - b.corner.x - b.extent.x, b.corner.y, b.corner.z⟩
  | turn, e, b => ⟨b.corner.z, b.corner.y, e.x - b.corner.x - b.extent.x⟩

def box (t : Motion) (e : Cell) (b : Box) : Box := ⟨t.corner e b, t.extent b.extent⟩

section Cells

variable (t : Motion) {e c d : Cell}

@[simp] lemma proper_extent : (t.extent e).Proper ↔ e.Proper := by
  cases t with
  | mirror => exact Iff.rfl
  | turn =>
    simp only [extent, Cell.proper_iff]
    omega

lemma extent_injective (h : t.extent c = t.extent d) : c = d := by
  cases t with
  | mirror => exact h
  | turn =>
    simp only [extent, Cell.mk.injEq] at h
    exact Cell.ext h.2.2 h.2.1 h.1

@[simp] lemma cell_source (e c : Cell) : t.cell e (t.source e c) = c := by
  cases t <;>
  · simp only [cell, source, Cell.ext_iff, and_true, true_and]
    omega

@[simp] lemma source_cell (e c : Cell) : t.source e (t.cell e c) = c := by
  cases t <;>
  · simp only [cell, source, Cell.ext_iff, and_true]
    omega

lemma cell_injective (h : t.cell e c = t.cell e d) : c = d := by
  rw [← t.source_cell e c, h, source_cell]

@[simp] lemma cell_mem_ofExtent : t.cell e c ∈ Box.ofExtent (t.extent e) ↔ c ∈ Box.ofExtent e := by
  cases t <;>
  · simp only [cell, extent, Box.mem_ofExtent]
    omega

lemma source_mem_ofExtent : t.source e c ∈ Box.ofExtent e ↔ c ∈ Box.ofExtent (t.extent e) := by
  rw [← cell_mem_ofExtent t, cell_source]

end Cells

section Boxes

variable (t : Motion) {e c : Cell} {a b : Box}

@[simp] lemma extent_box : (t.box e b).extent = t.extent b.extent := rfl

lemma box_injective (h : t.box e a = t.box e b) : a = b := by
  obtain ⟨⟨ax, ay, az⟩, ax', ay', az'⟩ := a
  obtain ⟨⟨bx, by', bz⟩, bx', by'', bz'⟩ := b
  cases t <;>
  · simp only [box, corner, extent, Box.mk.injEq, Cell.mk.injEq] at h ⊢
    omega

lemma exists_box_eq (e : Cell) (b : Box) : ∃ a, t.box e a = b := by
  obtain ⟨⟨x, y, z⟩, x', y', z'⟩ := b
  cases t with
  | mirror =>
    refine ⟨⟨⟨e.x - x - x', y, z⟩, x', y', z'⟩, ?_⟩
    simp only [box, corner, extent, Box.mk.injEq, Cell.mk.injEq, and_true]
    omega
  | turn =>
    refine ⟨⟨⟨e.x - z - z', y, x⟩, z', y', x'⟩, ?_⟩
    simp only [box, corner, extent, Box.mk.injEq, Cell.mk.injEq, and_true, true_and]
    omega

@[simp] lemma cell_mem_box : t.cell e c ∈ t.box e b ↔ c ∈ b := by
  cases t <;>
  · simp only [cell, box, corner, extent, Box.mem_iff, Cell.le_iff, Cell.lt_iff, Box.top_x,
      Box.top_y, Box.top_z]
    omega

@[simp] lemma inside_box : (t.box e b).Inside (t.extent e) ↔ b.Inside e := by
  cases t <;>
  · simp only [box, corner, extent, Box.inside_iff]
    omega

lemma corner_add_cell (e o : Cell) (b : Box) :
    t.corner e b + t.cell b.extent o = t.cell e (b.corner + o) := by
  cases t <;>
  · simp only [cell, corner, Cell.ext_iff, Cell.add_x, Cell.add_y, Cell.add_z, and_true, true_and]
    omega

lemma box_single (e c : Cell) : t.box e (Box.single c) = Box.single (t.cell e c) := by
  cases t with
  | mirror =>
    simp only [box, corner, extent, cell, Box.single, Cell.unit, Cell.diagonal, Box.mk.injEq,
      Cell.mk.injEq, and_true]
    omega
  | turn =>
    simp only [box, corner, extent, cell, Box.single, Cell.unit, Cell.diagonal, Box.mk.injEq,
      Cell.mk.injEq, true_and, and_true]
    omega

lemma isEmpty_box : (t.box e b).isEmpty = b.isEmpty := by
  simp [Box.isEmpty]

lemma box_hull (e : Cell) (a b : Box) : t.box e (a.hull b) = (t.box e a).hull (t.box e b) := by
  simp only [Box.hull, isEmpty_box]
  split
  · rfl
  · split
    · rfl
    · cases t <;>
      · simp only [box, corner, extent, Box.mk.injEq, Cell.ext_iff, Cell.min_x, Cell.min_y,
          Cell.min_z, Cell.max_x, Cell.max_y, Cell.max_z, Cell.sub_x, Cell.sub_y, Cell.sub_z,
          Box.top_x, Box.top_y, Box.top_z, and_true, true_and]
        omega

end Boxes

end Motion

end TileGrammar
