namespace TileGrammar

@[ext]
structure Cell where
  x : Int
  y : Int
  z : Int
deriving DecidableEq, Repr, Hashable, Inhabited

namespace Cell

def diagonal (n : Int) : Cell := ⟨n, n, n⟩

def origin : Cell := diagonal 0

def unit : Cell := diagonal 1

def map (f : Int → Int) (a : Cell) : Cell := ⟨f a.x, f a.y, f a.z⟩

def zipWith (f : Int → Int → Int) (a b : Cell) : Cell := ⟨f a.x b.x, f a.y b.y, f a.z b.z⟩

instance : Add Cell := ⟨zipWith (· + ·)⟩

instance : Sub Cell := ⟨zipWith (· - ·)⟩

instance : Min Cell := ⟨zipWith min⟩

instance : Max Cell := ⟨zipWith max⟩

instance : LE Cell := ⟨fun a b => a.x ≤ b.x ∧ a.y ≤ b.y ∧ a.z ≤ b.z⟩

/-- The strict order on every axis, which is stronger than `≤` and `≠`. -/
instance : LT Cell := ⟨fun a b => a.x < b.x ∧ a.y < b.y ∧ a.z < b.z⟩

theorem le_iff {a b : Cell} : a ≤ b ↔ a.x ≤ b.x ∧ a.y ≤ b.y ∧ a.z ≤ b.z := Iff.rfl

theorem lt_iff {a b : Cell} : a < b ↔ a.x < b.x ∧ a.y < b.y ∧ a.z < b.z := Iff.rfl

instance : DecidableLE Cell := fun _ _ => decidable_of_iff _ le_iff.symm

instance : DecidableLT Cell := fun _ _ => decidable_of_iff _ lt_iff.symm

@[simp] theorem add_x (a b : Cell) : (a + b).x = a.x + b.x := rfl

@[simp] theorem add_y (a b : Cell) : (a + b).y = a.y + b.y := rfl

@[simp] theorem add_z (a b : Cell) : (a + b).z = a.z + b.z := rfl

@[simp] theorem sub_x (a b : Cell) : (a - b).x = a.x - b.x := rfl

@[simp] theorem sub_y (a b : Cell) : (a - b).y = a.y - b.y := rfl

@[simp] theorem sub_z (a b : Cell) : (a - b).z = a.z - b.z := rfl

@[simp] theorem min_x (a b : Cell) : (min a b).x = min a.x b.x := rfl

@[simp] theorem min_y (a b : Cell) : (min a b).y = min a.y b.y := rfl

@[simp] theorem min_z (a b : Cell) : (min a b).z = min a.z b.z := rfl

@[simp] theorem max_x (a b : Cell) : (max a b).x = max a.x b.x := rfl

@[simp] theorem max_y (a b : Cell) : (max a b).y = max a.y b.y := rfl

@[simp] theorem max_z (a b : Cell) : (max a b).z = max a.z b.z := rfl

def Proper (e : Cell) : Prop := unit ≤ e

theorem proper_iff {e : Cell} : e.Proper ↔ 1 ≤ e.x ∧ 1 ≤ e.y ∧ 1 ≤ e.z := Iff.rfl

instance : DecidablePred Proper := fun e => inferInstanceAs (Decidable (unit ≤ e))

theorem proper_unit : unit.Proper := by decide

def volume (e : Cell) : Nat := e.x.toNat * e.y.toNat * e.z.toNat

theorem volume_pos {e : Cell} (h : e.Proper) : 0 < e.volume := by
  obtain ⟨hx, hy, hz⟩ := proper_iff.1 h
  exact Nat.mul_pos (Nat.mul_pos (by omega) (by omega)) (by omega)

def text (a : Cell) : String := s!"[{a.x}, {a.y}, {a.z}]"

end Cell

end TileGrammar
