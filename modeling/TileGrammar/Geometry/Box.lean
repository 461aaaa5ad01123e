import TileGrammar.Geometry.Cell

/-!
Axis-aligned boxes. A box covers the half-open block from its corner up to its corner plus its
extent, so two boxes that only touch along a face share no cell.
-/

namespace TileGrammar

structure Box where
  corner : Cell
  extent : Cell
deriving DecidableEq, Repr, Inhabited

namespace Box

def ofExtent (e : Cell) : Box := ⟨Cell.origin, e⟩

def single (c : Cell) : Box := ⟨c, Cell.unit⟩

def top (b : Box) : Cell := b.corner + b.extent

instance : Membership Cell Box := ⟨fun b c => b.corner ≤ c ∧ c < b.top⟩

theorem mem_iff {b : Box} {c : Cell} : c ∈ b ↔ b.corner ≤ c ∧ c < b.top := Iff.rfl

instance (c : Cell) (b : Box) : Decidable (c ∈ b) := decidable_of_iff _ mem_iff.symm

theorem mem_ofExtent {e c : Cell} :
    c ∈ ofExtent e ↔ (0 ≤ c.x ∧ 0 ≤ c.y ∧ 0 ≤ c.z) ∧ c.x < e.x ∧ c.y < e.y ∧ c.z < e.z := by
  simp [mem_iff, ofExtent, top, Cell.le_iff, Cell.lt_iff, Cell.origin, Cell.diagonal]

def isEmpty (b : Box) : Bool := decide (¬ b.extent.Proper)

def overlaps (a b : Box) : Bool :=
  !a.isEmpty && !b.isEmpty && decide (a.corner < b.top ∧ b.corner < a.top)

def hull (a b : Box) : Box :=
  if a.isEmpty then b
  else if b.isEmpty then a
  else
    let corner := min a.corner b.corner
    ⟨corner, max a.top b.top - corner⟩

def volumeLimit : Nat := 18446744073709551615

def volume (b : Box) : Nat := min b.extent.volume volumeLimit

end Box

end TileGrammar
