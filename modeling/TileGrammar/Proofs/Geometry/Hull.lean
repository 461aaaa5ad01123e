import TileGrammar.Proofs.Geometry.Overlap

namespace TileGrammar

namespace Cell

variable (a b c : Cell)

lemma min_comm : min a b = min b a :=
  Cell.ext (Int.min_comm _ _) (Int.min_comm _ _) (Int.min_comm _ _)

lemma max_comm : max a b = max b a :=
  Cell.ext (Int.max_comm _ _) (Int.max_comm _ _) (Int.max_comm _ _)

lemma min_right_comm : min (min a b) c = min (min a c) b := by
  ext <;>
  · simp only [min_x, min_y, min_z]
    omega

lemma max_right_comm : max (max a b) c = max (max a c) b := by
  ext <;>
  · simp only [max_x, max_y, max_z]
    omega

end Cell

namespace Box

variable {a b c d : Box}

lemma ext_top (hc : a.corner = b.corner) (ht : a.top = b.top) : a = b := by
  obtain ⟨corner, extent⟩ := a
  obtain ⟨corner', extent'⟩ := b
  obtain rfl : corner = corner' := hc
  simp only [Cell.ext_iff, top_x, top_y, top_z] at ht
  congr 1
  ext <;> omega

lemma proper_single (c : Cell) : (single c).extent.Proper := (by decide : Cell.unit.Proper)

lemma hull_of_isEmpty (ha : a.isEmpty = true) (b : Box) : a.hull b = b := if_pos ha

lemma hull_of_isEmpty_right (ha : a.extent.Proper) (hb : b.isEmpty = true) : a.hull b = a := by
  rw [hull, if_neg (by simp [isEmpty_eq_false.2 ha]), if_pos hb]

lemma hull_of_proper (ha : a.extent.Proper) (hb : b.extent.Proper) : a.hull b =
    ⟨min a.corner b.corner, max a.top b.top - min a.corner b.corner⟩ := by
  simp only [hull, isEmpty_eq_false.2 ha, isEmpty_eq_false.2 hb, Bool.false_eq_true, if_false]

lemma corner_hull (ha : a.extent.Proper) (hb : b.extent.Proper) :
    (a.hull b).corner = min a.corner b.corner := by
  rw [hull_of_proper ha hb]

lemma top_hull (ha : a.extent.Proper) (hb : b.extent.Proper) :
    (a.hull b).top = max a.top b.top := by
  rw [hull_of_proper ha hb]
  simp only [Cell.ext_iff, top_x, top_y, top_z, Cell.sub_x, Cell.sub_y, Cell.sub_z]
  omega

lemma proper_hull (ha : a.extent.Proper) (hb : b.extent.Proper) : (a.hull b).extent.Proper := by
  rw [hull_of_proper ha hb]
  simp only [Cell.proper_iff, Cell.sub_x, Cell.sub_y, Cell.sub_z, Cell.min_x, Cell.min_y,
    Cell.min_z, Cell.max_x, Cell.max_y, Cell.max_z, top_x, top_y, top_z] at *
  omega

lemma hull_comm_of_proper (ha : a.extent.Proper) (hb : b.extent.Proper) : a.hull b = b.hull a := by
  apply ext_top
  · rw [corner_hull ha hb, corner_hull hb ha, Cell.min_comm]
  · rw [top_hull ha hb, top_hull hb ha, Cell.max_comm]

lemma hull_right_comm (b : Box) (hc : c.extent.Proper) (hd : d.extent.Proper) :
    (b.hull c).hull d = (b.hull d).hull c := by
  cases hb : b.isEmpty with
  | true => rw [hull_of_isEmpty hb, hull_of_isEmpty hb, hull_comm_of_proper hc hd]
  | false =>
    rw [isEmpty_eq_false] at hb
    have hbc := proper_hull hb hc
    have hbd := proper_hull hb hd
    apply ext_top
    · rw [corner_hull hbc hd, corner_hull hbd hc, corner_hull hb hc, corner_hull hb hd,
        Cell.min_right_comm]
    · rw [top_hull hbc hd, top_hull hbd hc, top_hull hb hc, top_hull hb hd, Cell.max_right_comm]

lemma mem_single {c e : Cell} : e ∈ single c ↔ e = c := by
  simp only [mem_iff, single, Cell.le_iff, Cell.lt_iff, top_x, top_y, top_z, Cell.ext_iff,
    Cell.unit, Cell.diagonal]
  omega

lemma corner_mem (ha : a.extent.Proper) : a.corner ∈ a := by
  rw [Cell.proper_iff] at ha
  simp only [mem_iff, Cell.le_iff, Cell.lt_iff, top_x, top_y, top_z]
  omega

lemma top_sub_unit_mem (ha : a.extent.Proper) : a.top - Cell.unit ∈ a := by
  rw [Cell.proper_iff] at ha
  simp only [mem_iff, Cell.le_iff, Cell.lt_iff, top_x, top_y, top_z, Cell.sub_x, Cell.sub_y,
    Cell.sub_z, Cell.unit, Cell.diagonal]
  omega

lemma mem_hull_left {e : Cell} (he : e ∈ a) (b : Box) : e ∈ a.hull b := by
  have ha := proper_of_mem he
  cases hb : b.isEmpty with
  | true => rwa [hull_of_isEmpty_right ha hb]
  | false =>
    rw [isEmpty_eq_false] at hb
    rw [mem_iff, corner_hull ha hb, top_hull ha hb]
    simp only [mem_iff, Cell.le_iff, Cell.lt_iff, Cell.min_x, Cell.min_y, Cell.min_z, Cell.max_x,
      Cell.max_y, Cell.max_z] at *
    omega

lemma mem_hull_right {e : Cell} (a : Box) (he : e ∈ b) : e ∈ a.hull b := by
  cases ha : a.isEmpty with
  | true => rwa [hull_of_isEmpty ha]
  | false =>
    rw [isEmpty_eq_false] at ha
    rw [hull_comm_of_proper ha (proper_of_mem he)]
    exact mem_hull_left he a

lemma mem_of_mem_hull {e : Cell} (ha : ∀ e ∈ a, e ∈ c) (hb : ∀ e ∈ b, e ∈ c)
    (he : e ∈ a.hull b) : e ∈ c := by
  cases hea : a.isEmpty with
  | true =>
    rw [hull_of_isEmpty hea] at he
    exact hb e he
  | false =>
    rw [isEmpty_eq_false] at hea
    cases heb : b.isEmpty with
    | true =>
      rw [hull_of_isEmpty_right hea heb] at he
      exact ha e he
    | false =>
      rw [isEmpty_eq_false] at heb
      have alow := ha _ (corner_mem hea)
      have atop := ha _ (top_sub_unit_mem hea)
      have blow := hb _ (corner_mem heb)
      have btop := hb _ (top_sub_unit_mem heb)
      rw [mem_iff, corner_hull hea heb, top_hull hea heb] at he
      simp only [mem_iff, Cell.le_iff, Cell.lt_iff, Cell.min_x, Cell.min_y, Cell.min_z, Cell.max_x,
        Cell.max_y, Cell.max_z, Cell.sub_x, Cell.sub_y, Cell.sub_z, Cell.unit, Cell.diagonal] at *
      omega

lemma Inside.hull {e : Cell} (ha : a.Inside e) (hb : b.Inside e) : (a.hull b).Inside e := by
  cases hea : a.isEmpty with
  | true => rwa [hull_of_isEmpty hea]
  | false =>
    rw [isEmpty_eq_false] at hea
    cases heb : b.isEmpty with
    | true => rwa [hull_of_isEmpty_right hea heb]
    | false =>
      rw [isEmpty_eq_false] at heb
      rw [Inside, corner_hull hea heb, top_hull hea heb]
      rw [inside_iff] at ha hb
      simp only [Cell.le_iff, Cell.min_x, Cell.min_y, Cell.min_z, Cell.max_x, Cell.max_y,
        Cell.max_z, top_x, top_y, top_z, Cell.origin, Cell.diagonal]
      omega

def IsHullOf (b : Box) (cells : Cell → Prop) : Prop :=
  (∀ e, cells e → e ∈ b) ∧ ∀ c : Box, (∀ e, cells e → e ∈ c) → ∀ e ∈ b, e ∈ c

lemma isHullOf_single (c : Cell) : (single c).IsHullOf (· = c) :=
  ⟨fun _ he => mem_single.2 he, fun _ hb _ he => hb _ (mem_single.1 he)⟩

lemma IsHullOf.hull_single {cells : Cell → Prop} (h : b.IsHullOf cells) (c : Cell) :
    (b.hull (single c)).IsHullOf fun e => cells e ∨ e = c := by
  constructor
  · rintro e (he | rfl)
    · exact mem_hull_left (h.1 e he) _
    · exact mem_hull_right b (mem_single.2 rfl)
  · intro box hold e he
    apply mem_of_mem_hull _ _ he
    · exact h.2 box fun e he => hold e (.inl he)
    · intro e he
      exact hold e (.inr (mem_single.1 he))

end Box

end TileGrammar
