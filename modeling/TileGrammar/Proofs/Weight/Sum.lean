import Mathlib

/-!
Sums of numbers of binary64 that are not negative. Rounding never takes a positive sum to zero, since
the exponents of all summands are at least the smallest one of the format. But it may take the sum to
infinity, which zero cannot be multiplied by.
-/

namespace TileGrammar.Binary64

open Float.Model (Format UnpackedFloat totalExponent)
open Float.Model.UnpackedFloat

def Positive : UnpackedFloat → Prop
  | .infinity .positive => True
  | .finite .positive m e _ => m < 2 ^ 53 ∧ -1074 ≤ e
  | _ => False

lemma positive_iff {u : UnpackedFloat} : Positive u ↔ u = .infinity .positive ∨
    ∃ m e hm, u = .finite .positive m e hm ∧ m < 2 ^ 53 ∧ -1074 ≤ e := by
  constructor
  · intro h
    cases u with
    | notANumber => exact h.elim
    | zero s => exact h.elim
    | infinity s =>
      cases s with
      | positive => exact .inl rfl
      | negative => exact h.elim
    | finite s m e hm =>
      cases s with
      | positive => exact .inr ⟨m, e, hm, rfl, h⟩
      | negative => exact h.elim
  · rintro (rfl | ⟨m, e, hm, rfl, bounds⟩)
    · trivial
    · exact bounds

section Round

lemma mantissa_shiftRight (em : ExtendedMantissa) (n : Nat) :
    (em >>> n).mantissa = em.mantissa / 2 ^ n := by
  induction n with
  | zero => exact (Nat.div_one _).symm
  | succ n ih =>
    have h : (em >>> (n + 1)).mantissa = (em >>> n).mantissa / 2 := rfl
    rw [h, ih, Nat.div_div_eq_div_mul, Nat.pow_succ]

lemma mantissa_ofMantissaAndAccuracy (m : Nat) (a : Accuracy) :
    (ExtendedMantissa.ofMantissaAndAccuracy m a).mantissa = m := by
  cases a with
  | exact => rfl
  | inexact o => cases o <;> rfl

lemma le_roundedMantissa (em : ExtendedMantissa) : em.mantissa ≤ em.roundedMantissa := by
  obtain ⟨m, roundBit, stickyBit⟩ := em
  cases roundBit <;> cases stickyBit <;>
    simp [ExtendedMantissa.roundedMantissa, ExtendedMantissa.accuracy, Accuracy.roundToNearestEven]

lemma targetExponent_eq (n : Int) : Format.binary64.targetExponent n = max (n - 53) (-1074) := rfl

lemma shiftToTargetExponent_bounds {m : Nat} {e : Int} (a : Accuracy) (hm : 0 < m)
    (he : -1074 ≤ e) :
    let r := shiftToTargetExponent Format.binary64 m e a
    0 < r.1.mantissa ∧ r.1.mantissa < 2 ^ 53 ∧ -1074 ≤ r.2 := by
  simp only [shiftToTargetExponent, shiftToExponent, mantissa_shiftRight,
    mantissa_ofMantissaAndAccuracy, targetExponent_eq, totalExponent]
  have low := Nat.log2_self_le (Nat.pos_iff_ne_zero.1 hm)
  have high := Nat.lt_log2_self (n := m)
  generalize m.log2 = l at low high ⊢
  generalize hn : (max ((l : Int) + 1 + e - 53) (-1074) - e).toNat = n
  refine ⟨?_, ?_, by omega⟩
  · have h : 2 ^ n ≤ 2 ^ l := Nat.pow_le_pow_right (by decide) (by omega)
    exact Nat.div_pos (Nat.le_trans h low) (Nat.two_pow_pos n)
  · have h : 2 ^ (l + 1) ≤ 2 ^ (53 + n) := Nat.pow_le_pow_right (by decide) (by omega)
    rw [Nat.div_lt_iff_lt_mul (Nat.two_pow_pos n), ← Nat.pow_add]
    exact Nat.lt_of_lt_of_le high h

lemma positive_roundWithAccuracy {m : Nat} {e : Int} (a : Accuracy) (hm : 0 < m)
    (he : -1074 ≤ e) : Positive (roundWithAccuracy Format.binary64 .positive m e a) := by
  obtain ⟨first, -, exp₁⟩ := shiftToTargetExponent_bounds a hm he
  have rounded := Nat.lt_of_lt_of_le first (le_roundedMantissa _)
  -- the rounded mantissa may have one bit too many
  obtain ⟨second, lt, exp₂⟩ := shiftToTargetExponent_bounds .exact rounded exp₁
  simp only [roundWithAccuracy]
  split
  · rename_i h
    exact absurd h (Nat.pos_iff_ne_zero.1 second)
  · exact ⟨lt, exp₂⟩

lemma positive_round {m : Nat} {e : Int} (hm : 0 < m) (he : -1074 ≤ e) :
    Positive (UnpackedFloat.round Format.binary64 .positive m e) := by
  apply positive_roundWithAccuracy
  · rw [Nat.shiftLeft_eq]
    exact Nat.mul_pos hm (Nat.two_pow_pos _)
  · rw [targetExponent_eq]
    omega

end Round

section Pack

variable {spec : Format}

lemma unpackSign_packComponents (sign : Sign) (exponent : BitVec spec.exponentBits)
    (mantissa : BitVec spec.mantissaBitsWithoutImplicit) :
    unpackSign (packComponents spec sign exponent mantissa) = sign.toBitVec := by
  ext i hi
  obtain rfl : i = 0 := by omega
  simp [unpackSign, packComponents, BitVec.getLsbD_append, BitVec.getElem_append]

lemma unpack_bounds {b : BitVec Format.binary64.numBits} {sign : Sign} {m : Nat} {e : Int}
    {hm : 0 < m} (h : unpack Format.binary64 b = .finite sign m e hm) :
    m < 2 ^ 53 ∧ -1074 ≤ e := by
  have bias : Format.binary64.exponentBias = 1023 := rfl
  simp only [unpack, bias] at h
  split at h
  · split at h <;> cases h
  · split at h
    · rename_i hz
      split at h
      · cases h
      · injection h with _ hm he
        have := (unpackMantissa b).isLt
        rw [hz] at he
        simp at he
        omega
    · rename_i hz
      injection h with _ hm he
      have := (1#1 ++ unpackMantissa b).isLt
      have : (unpackExponent b).toNat ≠ 0 := fun h => hz (BitVec.eq_of_toNat_eq h)
      omega

lemma positive_of_lt {b : BitVec Format.binary64.numBits}
    (h : (UnpackedFloat.zero .positive).lt (unpack Format.binary64 b) = true) :
    Positive (unpack Format.binary64 b) := by
  cases hu : unpack Format.binary64 b with
  | notANumber =>
    rw [hu] at h
    cases h
  | infinity sign =>
    rw [hu] at h
    cases sign with
    | positive => trivial
    | negative => cases h
  | zero sign =>
    rw [hu] at h
    cases h
  | finite sign m e hm =>
    rw [hu] at h
    cases sign with
    | positive => exact unpack_bounds hu
    | negative => cases h

lemma lt_unpack_packComponents {exponent : BitVec 11} {mantissa : BitVec 52}
    (number : exponent = -1#11 → mantissa = 0#52) (nonzero : exponent = 0#11 → mantissa ≠ 0#52) :
    (UnpackedFloat.zero .positive).lt (unpack Format.binary64
      (packComponents Format.binary64 .positive exponent mantissa)) = true := by
  have sign : Sign.ofBitVec (Sign.toBitVec .positive) = .positive := rfl
  simp only [unpack, unpackSign_packComponents, unpackExponent_packComponents,
    unpackMantissa_packComponents, sign]
  split
  · rename_i he
    rw [if_pos (number he)]
    rfl
  · split
    · rename_i he
      rw [dif_neg (nonzero he)]
      rfl
    · rfl

lemma positive_unpack_pack {u : UnpackedFloat} (h : Positive u) :
    Positive (unpack Format.binary64 (pack Format.binary64 u)) := by
  apply positive_of_lt
  have infinite : (UnpackedFloat.zero .positive).lt
      (unpack Format.binary64 (packedInfinity Format.binary64 .positive)) = true :=
    lt_unpack_packComponents (fun _ => rfl) (fun h => absurd h (by decide))
  rcases positive_iff.1 h with rfl | ⟨m, e, hm, rfl, lt, exp⟩
  · exact infinite
  · have bias : Format.binary64.exponentBias = 1023 := rfl
    have bits : Format.binary64.mantissaBits = 53 := rfl
    simp only [pack, bias, bits]
    split
    · exact infinite
    · rename_i small
      generalize hn : (e + (1023 : Nat) + (52 : Nat)).toNat = n at small ⊢
      split
      · apply lt_unpack_packComponents
        · intro he
          have h := congrArg BitVec.toNat he
          simp at h
          omega
        · intro he
          have h := congrArg BitVec.toNat he
          simp at h
          omega
      · rename_i subnormal
        apply lt_unpack_packComponents
        · intro he
          exact absurd he (by decide)
        · intro _ hz
          have h := congrArg BitVec.toNat hz
          have high := Nat.lt_log2_self (n := m)
          have log_lt : m.log2 < 53 := (Nat.log2_lt (Nat.pos_iff_ne_zero.1 hm)).2 lt
          have bound : 2 ^ (m.log2 + 1) ≤ 2 ^ 52 :=
            Nat.pow_le_pow_right (by decide) (by omega)
          simp at h
          omega

end Pack

section Add

lemma add_zero_zero (s t : Sign) :
    ∃ r, add Format.binary64 (.zero s) (.zero t) = .zero r := by
  cases s <;> cases t <;> exact ⟨_, rfl⟩

lemma zero_add_of_positive {s : Sign} {v : UnpackedFloat} (h : Positive v) :
    add Format.binary64 (.zero s) v = v := by
  rcases positive_iff.1 h with rfl | ⟨m, e, hm, rfl, -⟩
  · rfl
  · rfl

lemma add_zero_of_positive {s : Sign} {u : UnpackedFloat} (h : Positive u) :
    add Format.binary64 u (.zero s) = u := by
  rcases positive_iff.1 h with rfl | ⟨m, e, hm, rfl, -⟩
  · rfl
  · rfl

lemma positive_add_finite {m n : Nat} {e f : Int} (hm : 0 < m) (hn : 0 < n) (he : -1074 ≤ e)
    (hf : -1074 ≤ f) :
    Positive (add Format.binary64 (.finite .positive m e hm) (.finite .positive n f hn)) := by
  simp only [add, decreaseExponent, Sign.apply, UnpackedFloat.normalize]
  have left_pos : 0 < m <<< (e - min e f).toNat := by
    rw [Nat.shiftLeft_eq]
    exact Nat.mul_pos hm (Nat.two_pow_pos _)
  generalize m <<< (e - min e f).toNat = m' at left_pos ⊢
  generalize n <<< (f - min e f).toNat = n'
  have gt : compare ((m' : Int) + n') 0 = .gt := by
    rw [Int.compare_eq_gt]
    omega
  rw [gt]
  apply positive_round
  · omega
  · omega

lemma positive_add {u v : UnpackedFloat} (hu : Positive u) (hv : Positive v) :
    Positive (add Format.binary64 u v) := by
  rcases positive_iff.1 hu with rfl | ⟨m, e, hm, rfl, -, he⟩
  · rcases positive_iff.1 hv with rfl | ⟨n, f, hn, rfl, -⟩
    · trivial
    · trivial
  · rcases positive_iff.1 hv with rfl | ⟨n, f, hn, rfl, -, hf⟩
    · trivial
    · exact positive_add_finite hm hn he hf

end Add

section Float

variable {x y : Float}

lemma unpack_zero : (0 : Float).toModel.unpack = .zero .positive := rfl

lemma lt_iff : x < y ↔ x.toModel.unpack.lt y.toModel.unpack = true := by
  change Float.lt x y = true ↔ _
  rw [Float.lt, decide_eq_true_iff]
  rfl

lemma le_iff : x ≤ y ↔ x.toModel.unpack.le y.toModel.unpack = true := by
  change Float.le x y = true ↔ _
  rw [Float.le, decide_eq_true_iff]
  rfl

lemma unpack_add (x y : Float) : (x + y).toModel.unpack =
    unpack Format.binary64 (pack Format.binary64
      (add Format.binary64 x.toModel.unpack y.toModel.unpack)) := rfl

lemma pos_iff : 0 < x ↔ Positive x.toModel.unpack := by
  rw [lt_iff, unpack_zero]
  constructor
  · exact positive_of_lt
  · intro h
    rcases positive_iff.1 h with hx | ⟨m, e, hm, hx, -⟩
    · rw [hx]
      rfl
    · rw [hx]
      rfl

lemma nonneg_iff : 0 ≤ x ↔ (∃ s, x.toModel.unpack = .zero s) ∨ 0 < x := by
  rw [le_iff, lt_iff, unpack_zero]
  cases x.toModel.unpack with
  | notANumber => simp [UnpackedFloat.le, UnpackedFloat.lt, UnpackedFloat.compare]
  | zero s => simp [UnpackedFloat.le, UnpackedFloat.compare]
  | infinity s => cases s <;> simp [UnpackedFloat.le, UnpackedFloat.lt, UnpackedFloat.compare]
  | finite s m e hm =>
    cases s <;> simp [UnpackedFloat.le, UnpackedFloat.lt, UnpackedFloat.compare]

lemma not_pos_of_zero {s : Sign} (h : x.toModel.unpack = .zero s) : ¬ 0 < x := by
  rw [pos_iff, h]
  exact id

lemma nonpos_iff (h : 0 ≤ x) : x ≤ 0 ↔ ¬ 0 < x := by
  rcases nonneg_iff.1 h with ⟨s, hs⟩ | hx
  · simp only [not_pos_of_zero hs, not_false_iff, iff_true]
    rw [le_iff, hs]
    rfl
  · simp only [hx, not_true, iff_false]
    rw [le_iff, unpack_zero]
    rcases positive_iff.1 (pos_iff.1 hx) with hu | ⟨m, e, hm, hu, -⟩
    · rw [hu]
      exact Bool.false_ne_true
    · rw [hu]
      exact Bool.false_ne_true

lemma nonneg_of_pos (h : 0 < x) : 0 ≤ x := nonneg_iff.2 (.inr h)

lemma nonneg_of_isFinite (finite : x.isFinite = true) (h : ¬ x < 0) : 0 ≤ x := by
  rw [lt_iff, unpack_zero] at h
  rw [le_iff, unpack_zero]
  change x.toModel.unpack.isFinite = true at finite
  revert h finite
  cases x.toModel.unpack with
  | notANumber => simp [isFinite]
  | zero s => simp [UnpackedFloat.le, UnpackedFloat.compare]
  | infinity s => simp [isFinite]
  | finite s m e hm =>
    cases s <;> simp [UnpackedFloat.le, UnpackedFloat.lt, UnpackedFloat.compare]

lemma add_cases (hx : 0 ≤ x) (hy : 0 ≤ y) :
    (¬ 0 < x ∧ ¬ 0 < y ∧ ∃ s, (x + y).toModel.unpack = .zero s) ∨ ((0 < x ∨ 0 < y) ∧ 0 < x + y) := by
  rcases nonneg_iff.1 hx with ⟨s, hs⟩ | hpx
  · rcases nonneg_iff.1 hy with ⟨t, ht⟩ | hpy
    · obtain ⟨r, hr⟩ := add_zero_zero s t
      refine .inl ⟨not_pos_of_zero hs, not_pos_of_zero ht, r, ?_⟩
      rw [unpack_add, hs, ht, hr]
      cases r <;> rfl
    · refine .inr ⟨.inr hpy, ?_⟩
      rw [pos_iff] at hpy ⊢
      rw [unpack_add, hs, zero_add_of_positive hpy]
      exact positive_unpack_pack hpy
  · refine .inr ⟨.inl hpx, ?_⟩
    rw [pos_iff] at hpx ⊢
    rw [unpack_add]
    rcases nonneg_iff.1 hy with ⟨t, ht⟩ | hpy
    · rw [ht, add_zero_of_positive hpx]
      exact positive_unpack_pack hpx
    · rw [pos_iff] at hpy
      exact positive_unpack_pack (positive_add hpx hpy)

lemma add_nonneg (hx : 0 ≤ x) (hy : 0 ≤ y) : 0 ≤ x + y := by
  rcases add_cases hx hy with ⟨-, -, zero⟩ | ⟨-, pos⟩
  · exact nonneg_iff.2 (.inl zero)
  · exact nonneg_of_pos pos

lemma add_pos_iff (hx : 0 ≤ x) (hy : 0 ≤ y) : 0 < x + y ↔ 0 < x ∨ 0 < y := by
  rcases add_cases hx hy with ⟨hnx, hny, s, hs⟩ | ⟨some_pos, pos⟩
  · simp only [hnx, hny, not_pos_of_zero hs, or_self]
  · simp only [some_pos, pos]

end Float

section ZeroMul

variable {x y : Float}

lemma unpack_mul (x y : Float) : (x * y).toModel.unpack =
    unpack Format.binary64 (pack Format.binary64
      (mul Format.binary64 x.toModel.unpack y.toModel.unpack)) := rfl

lemma isFinite_iff : x.isFinite = true ↔ x.toModel.unpack.isFinite = true := Iff.rfl

lemma not_lt_of_notANumber (hx : x.toModel.unpack = .notANumber) : ¬ x < y := by
  rw [lt_iff, hx]
  exact Bool.false_ne_true

lemma unpack_zero_mul_of_finite {m : Nat} {e : Int} {hm : 0 < m}
    (hx : x.toModel.unpack = .finite .positive m e hm) :
    (0 * x).toModel.unpack = .zero .positive := by
  rw [unpack_mul, unpack_zero, hx]
  have zero : mul Format.binary64 (.zero .positive) (.finite .positive m e hm) = .zero .positive :=
    rfl
  rw [zero]
  rfl

lemma unpack_zero_mul_of_infinity (hx : x.toModel.unpack = .infinity .positive) :
    (0 * x).toModel.unpack = .notANumber := by
  rw [unpack_mul, unpack_zero, hx]
  rfl

/-- Zero times a finite number is zero, but zero times infinity is no number. -/
lemma zero_mul_lt_iff (hx : 0 < x) (hy : 0 < y) : 0 * x < y ↔ x.isFinite = true := by
  rw [isFinite_iff]
  rcases positive_iff.1 (pos_iff.1 hx) with hu | ⟨m, e, hm, hu, -⟩
  · rw [hu]
    exact iff_of_false (not_lt_of_notANumber (unpack_zero_mul_of_infinity hu)) Bool.false_ne_true
  · rw [lt_iff, unpack_zero_mul_of_finite hu, ← unpack_zero, ← lt_iff, hu]
    exact iff_of_true hy rfl

end ZeroMul

end TileGrammar.Binary64
