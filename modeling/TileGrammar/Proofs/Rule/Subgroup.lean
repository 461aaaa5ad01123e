import TileGrammar.Proofs.Rule.Orbit
import TileGrammar.Proofs.Rule.Variant
import Mathlib

/-!
A symmetry stands for a group of permutations of all patterns, generated by mirrors and the quarter
turn. The group of all orientations is the dihedral group of the square, and the variants of a rule
are an orbit under the group of its symmetry.
-/

namespace TileGrammar

namespace Pattern

def mirroredZ (p : Pattern) : Pattern :=
  tabulate p.extent p.proper fun o => p.tileAt ⟨o.x, o.y, p.extent.z - 1 - o.z⟩

@[simp] lemma extent_mirroredZ (p : Pattern) : p.mirroredZ.extent = p.extent := rfl

lemma tileAt_mirroredZ {p : Pattern} {o : Cell} (ho : o ∈ Box.ofExtent p.extent) :
    p.mirroredZ.tileAt o = p.tileAt ⟨o.x, o.y, p.extent.z - 1 - o.z⟩ :=
  tileAt_tabulate _ _ ho

lemma mirroredZ_eq (p : Pattern) : p.mirroredZ = p.turned.turned.mirrored := by
  refine ext_tileAt rfl fun o ho => ?_
  simp only [extent_mirroredZ, Box.mem_ofExtent] at ho
  rw [tileAt_mirroredZ, tileAt_mirrored, tileAt_turned_turned]
  · congr 1
    simp only [extent_turned, Cell.ext_iff, and_true]
    omega
  all_goals
    simp only [extent_turned, Box.mem_ofExtent]
    omega

lemma mirroredZ_mirroredZ (p : Pattern) : p.mirroredZ.mirroredZ = p := by
  simp only [mirroredZ_eq, mirrored_turned, mirrored_mirrored, turned_turned_turned_turned]

def turning : Equiv.Perm Pattern where
  toFun := turned
  invFun p := p.turned.turned.turned
  left_inv := turned_turned_turned_turned
  right_inv := turned_turned_turned_turned

def mirroringX : Equiv.Perm Pattern := Function.Involutive.toPerm mirrored mirrored_mirrored

def mirroringZ : Equiv.Perm Pattern := Function.Involutive.toPerm mirroredZ mirroredZ_mirroredZ

lemma mirroringX_mul_self : mirroringX * mirroringX = 1 := Equiv.ext mirrored_mirrored

lemma turning_pow_four : turning ^ 4 = 1 := Equiv.ext turned_turned_turned_turned

lemma semiconjBy_mirroringX : SemiconjBy mirroringX turning⁻¹ turning :=
  Equiv.ext fun p => (mirrored_turned p).symm

def turns (i : ZMod 4) : Equiv.Perm Pattern := turning ^ i.val

lemma turns_add (i j : ZMod 4) : turns (i + j) = turns i * turns j := by
  rw [turns, ZMod.val_add, ← pow_eq_pow_mod _ turning_pow_four, pow_add]
  rfl

lemma turns_neg (i : ZMod 4) : turns (-i) = (turns i)⁻¹ := by
  apply eq_inv_of_mul_eq_one_left
  rw [← turns_add, neg_add_cancel]
  rfl

lemma turns_mul_mirroringX (i : ZMod 4) : turns i * mirroringX = mirroringX * turns (-i) := by
  rw [turns_neg, turns, ← inv_pow]
  exact (semiconjBy_mirroringX.pow_right i.val).symm

def symmetries : DihedralGroup 4 →* Equiv.Perm Pattern where
  toFun
    | .r i => turns i
    | .sr i => mirroringX * turns i
  map_one' := pow_zero turning
  map_mul' := by
    rintro (i | i) (j | j)
    · exact turns_add i j
    · change mirroringX * turns (j - i) = turns i * (mirroringX * turns j)
      rw [sub_eq_neg_add, turns_add, ← mul_assoc, ← mul_assoc, turns_mul_mirroringX]
    · change mirroringX * turns (i + j) = mirroringX * turns i * turns j
      rw [turns_add, mul_assoc]
    · change turns (j - i) = mirroringX * turns i * (mirroringX * turns j)
      rw [sub_eq_neg_add, turns_add, mul_assoc, ← mul_assoc (turns i), turns_mul_mirroringX,
        mul_assoc, ← mul_assoc, mirroringX_mul_self, one_mul]

lemma symmetries_r_one : symmetries (.r 1) = turning := pow_one turning

lemma symmetries_sr_zero : symmetries (.sr 0) = mirroringX := mul_one mirroringX

lemma symmetries_sr_two : symmetries (.sr 2) = mirroringZ :=
  Equiv.ext fun p => (mirroredZ_eq p).symm

lemma turning_pow_apply (n : Nat) (p : Pattern) : (turning ^ n) p = Nat.repeat turned n p := by
  induction n with
  | zero => rfl
  | succ n ih =>
    rw [pow_succ', Equiv.Perm.mul_apply, ih]
    rfl

end Pattern

def Orientation.ofElement : DihedralGroup 4 → Orientation
  | .r i => ⟨i, false⟩
  | .sr i => ⟨i, true⟩

lemma Orientation.exists_ofElement_eq (o : Orientation) : ∃ x, ofElement x = o := by
  obtain ⟨quarters, isMirrored⟩ := o
  cases isMirrored with
  | false => exact ⟨.r quarters, rfl⟩
  | true => exact ⟨.sr quarters, rfl⟩

lemma Pattern.symmetries_apply (x : DihedralGroup 4) (p : Pattern) :
    symmetries x p = (Orientation.ofElement x).apply p := by
  cases x with
  | r i => exact turning_pow_apply i.val p
  | sr i => exact congrArg mirrored (turning_pow_apply i.val p)

section Faithful

def Pattern.fourCorners : Pattern where
  extent := ⟨2, 1, 2⟩
  tiles := #[⟨"A"⟩, ⟨"B"⟩, ⟨"C"⟩, ⟨"D"⟩]
  proper := by decide
  size_tiles := rfl

lemma Orientation.eq_of_apply_fourCorners : ∀ o ∈ Orientation.all,
    o.apply Pattern.fourCorners = Pattern.fourCorners → o = ⟨0, false⟩ := by
  decide +kernel

lemma Pattern.symmetries_injective : Function.Injective symmetries := by
  rw [injective_iff_map_eq_one]
  intro x hx
  have fixed : (Orientation.ofElement x).apply fourCorners = fourCorners := by
    rw [← symmetries_apply, hx, Equiv.Perm.one_apply]
  have first := Orientation.eq_of_apply_fourCorners _ (Orientation.mem_all _) fixed
  cases x with
  | r i => exact congrArg DihedralGroup.r (congrArg Orientation.quarters first)
  | sr i => cases congrArg Orientation.isMirrored first

end Faithful

namespace Symmetry

open Pattern

def generators : Symmetry → Set (Equiv.Perm Pattern)
  | none => ∅
  | reflectX => {mirroringX}
  | reflectZ => {mirroringZ}
  | reflectXZ => {mirroringX, mirroringZ}
  | rotate => {turning}
  | all => {turning, mirroringX}

def group (s : Symmetry) : Subgroup (Equiv.Perm Pattern) := Subgroup.closure s.generators

def order : Symmetry → Nat
  | none => 1
  | reflectX | reflectZ => 2
  | reflectXZ | rotate => 4
  | all => 8

def elements (s : Symmetry) : Subgroup (DihedralGroup 4) where
  carrier := {x | s.allows (.ofElement x) = true}
  one_mem' := by cases s <;> rfl
  mul_mem' := by
    suffices ∀ x y, s.allows (.ofElement x) = true → s.allows (.ofElement y) = true →
      s.allows (.ofElement (x * y)) = true from fun {x y} => this x y
    cases s <;> decide
  inv_mem' := by
    suffices ∀ x, s.allows (.ofElement x) = true → s.allows (.ofElement x⁻¹) = true from
      fun {x} => this x
    cases s <;> decide

lemma mem_elements {s : Symmetry} {x : DihedralGroup 4} :
    x ∈ s.elements ↔ s.allows (.ofElement x) = true := Iff.rfl

lemma generators_subset (s : Symmetry) : s.generators ⊆ s.elements.map symmetries := by
  have turn : s.allows ⟨1, false⟩ = true → turning ∈ s.elements.map symmetries :=
    fun h => ⟨.r 1, h, symmetries_r_one⟩
  have mirrorX : s.allows ⟨0, true⟩ = true → mirroringX ∈ s.elements.map symmetries :=
    fun h => ⟨.sr 0, h, symmetries_sr_zero⟩
  have mirrorZ : s.allows ⟨2, true⟩ = true → mirroringZ ∈ s.elements.map symmetries :=
    fun h => ⟨.sr 2, h, symmetries_sr_two⟩
  cases s with
  | none => exact Set.empty_subset _
  | reflectX => exact Set.singleton_subset_iff.2 (mirrorX rfl)
  | reflectZ => exact Set.singleton_subset_iff.2 (mirrorZ rfl)
  | reflectXZ => exact Set.pair_subset (mirrorX rfl) (mirrorZ rfl)
  | rotate => exact Set.singleton_subset_iff.2 (turn rfl)
  | all => exact Set.pair_subset (turn rfl) (mirrorX rfl)

lemma exists_words (s : Symmetry) : ∃ a b, (a = 1 ∨ symmetries a ∈ s.generators) ∧
    (b = 1 ∨ symmetries b ∈ s.generators) ∧
    ∀ x, s.allows (.ofElement x) = true → ∃ i < 4, ∃ j < 2, x = a ^ i * b ^ j := by
  cases s with
  | none => exact ⟨1, 1, .inl rfl, .inl rfl, by decide⟩
  | reflectX => exact ⟨1, .sr 0, .inl rfl, .inr symmetries_sr_zero, by decide⟩
  | reflectZ => exact ⟨1, .sr 2, .inl rfl, .inr symmetries_sr_two, by decide⟩
  | reflectXZ =>
    exact ⟨.sr 0, .sr 2, .inr (.inl symmetries_sr_zero), .inr (.inr symmetries_sr_two), by decide⟩
  | rotate => exact ⟨.r 1, 1, .inr symmetries_r_one, .inl rfl, by decide⟩
  | all =>
    exact ⟨.r 1, .sr 0, .inr (.inl symmetries_r_one), .inr (.inr symmetries_sr_zero), by decide⟩

lemma symmetries_mem_group {s : Symmetry} {x : DihedralGroup 4} (hx : x ∈ s.elements) :
    symmetries x ∈ s.group := by
  have generated {a : DihedralGroup 4} (ha : a = 1 ∨ symmetries a ∈ s.generators) :
      symmetries a ∈ s.group := by
    rcases ha with rfl | ha
    · rw [map_one]
      exact one_mem _
    · exact Subgroup.subset_closure ha
  obtain ⟨a, b, ha, hb, words⟩ := s.exists_words
  obtain ⟨i, -, j, -, rfl⟩ := words x (mem_elements.1 hx)
  rw [map_mul, map_pow, map_pow]
  exact mul_mem (pow_mem (generated ha) i) (pow_mem (generated hb) j)

lemma group_eq_map (s : Symmetry) : s.group = s.elements.map symmetries := by
  apply le_antisymm
  · exact (Subgroup.closure_le _).2 s.generators_subset
  · rintro _ ⟨x, hx, rfl⟩
    exact symmetries_mem_group hx

lemma card_elements (s : Symmetry) : Nat.card s.elements = s.order := by
  have count : Nat.card s.elements =
      (Finset.univ.filter fun x => s.allows (.ofElement x) = true).card :=
    Nat.subtype_card _ fun x => by simp [mem_elements]
  rw [count]
  cases s <;> decide

lemma card_group (s : Symmetry) : Nat.card s.group = s.order := by
  rw [group_eq_map, Subgroup.card_map_of_injective symmetries_injective, card_elements]

end Symmetry

namespace Variant

variable {v w : Variant} {s : Symmetry}

instance : MulAction (Equiv.Perm Pattern) Variant where
  smul g v := ⟨g v.left, g v.right⟩
  one_smul _ := rfl
  mul_smul _ _ _ := rfl

lemma smul_def (g : Equiv.Perm Pattern) (v : Variant) : g • v = ⟨g v.left, g v.right⟩ := rfl

lemma symmetries_smul (x : DihedralGroup 4) (v : Variant) :
    Pattern.symmetries x • v = v.orient (.ofElement x) := by
  rw [smul_def, orient, Pattern.symmetries_apply, Pattern.symmetries_apply]

lemma mem_images_iff_mem_orbit : w ∈ v.images s ↔ w ∈ MulAction.orbit s.group v := by
  rw [mem_images]
  constructor
  · rintro ⟨o, allowed, rfl⟩
    obtain ⟨x, rfl⟩ := o.exists_ofElement_eq
    exact ⟨⟨_, Symmetry.symmetries_mem_group allowed⟩, symmetries_smul x v⟩
  · rintro ⟨⟨g, hg⟩, rfl⟩
    rw [Symmetry.group_eq_map] at hg
    obtain ⟨x, allowed, rfl⟩ := hg
    exact ⟨_, allowed, (symmetries_smul x v).symm⟩

lemma nodup_images (v : Variant) (s : Symmetry) : (v.images s).Nodup := nodup_eraseDups _

lemma head?_images (v : Variant) (s : Symmetry) : (v.images s).head? = some v := by
  have first : s.orientations.head? = some ⟨0, false⟩ := by cases s <;> rfl
  obtain ⟨rest, hr⟩ := List.head?_eq_some_iff.1 first
  rw [images, hr, List.map_cons, List.eraseDups_cons]
  rfl

lemma length_images (v : Variant) (s : Symmetry) :
    (v.images s).length = (MulAction.orbit s.group v).ncard := by
  have orbit_eq : MulAction.orbit s.group v = ((v.images s).toFinset : Set Variant) := by
    ext w
    rw [← mem_images_iff_mem_orbit, Finset.mem_coe, List.mem_toFinset]
  rw [orbit_eq, Set.ncard_coe_finset, List.toFinset_card_of_nodup (v.nodup_images s)]

theorem images_are_orbit (v : Variant) (s : Symmetry) :
    (v.images s).head? = some v ∧ (v.images s).Nodup ∧
      (∀ w, w ∈ v.images s ↔ ∃ g ∈ s.group, g • v = w) ∧
      (∀ g ∈ s.generators, ∀ w ∈ v.images s, g • w ∈ v.images s) ∧
      Nat.card s.group = s.order ∧
      (v.images s).length * Nat.card (MulAction.stabilizer s.group v) = s.order := by
  refine ⟨v.head?_images s, v.nodup_images s, fun w => ?_, fun g hg w hw => ?_, s.card_group, ?_⟩
  · rw [mem_images_iff_mem_orbit]
    constructor
    · rintro ⟨⟨g, hg⟩, rfl⟩
      exact ⟨g, hg, rfl⟩
    · rintro ⟨g, hg, rfl⟩
      exact ⟨⟨g, hg⟩, rfl⟩
  · rw [mem_images_iff_mem_orbit] at hw ⊢
    obtain ⟨h, rfl⟩ := hw
    exact ⟨⟨g, Subgroup.subset_closure hg⟩ * h, mul_smul _ _ _⟩
  · rw [length_images, ← MulAction.index_stabilizer, Subgroup.index_mul_card, s.card_group]

def pair : Variant where
  left := .pair "A" "B"
  right := .pair "C" "D"

theorem images_are_orbit_pair :
    Pattern.turning ∈ Symmetry.all.generators ∧ pair ∈ pair.images .all ∧
      Pattern.turning • pair ∈ pair.images .all ∧ (pair.images .all).length = 4 ∧
      Nat.card (MulAction.stabilizer Symmetry.all.group pair) = 2 := by
  obtain ⟨first, -, -, closed, -, count⟩ := images_are_orbit pair .all
  have four : (pair.images .all).length = 4 := by decide +kernel
  have turn : Pattern.turning ∈ Symmetry.all.generators := .inl rfl
  have mem := List.mem_of_head? first
  refine ⟨turn, mem, closed _ turn pair mem, four, ?_⟩
  rw [four, Symmetry.order] at count
  omega

end Variant

end TileGrammar
