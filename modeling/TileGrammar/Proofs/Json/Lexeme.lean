import TileGrammar.Json.Lexeme
import TileGrammar.Json.Printer
import Mathlib.Tactic.Lemma
import Mathlib.Tactic.SplitIfs

namespace TileGrammar.Json

variable {α β : Type} {s t rest : List Char}

lemma run_bind {x : Reader α} {f : α → Reader β} {a : α} (h : x.run s = .ok (a, t)) :
    (x >>= f).run s = (f a).run t := by
  rw [StateT.run_bind, h]
  rfl

lemma isBlank_iff {c : Char} : isBlank c = true ↔ c = ' ' ∨ c = '\n' ∨ c = '\t' ∨ c = '\r' := by
  simp [isBlank, or_assoc]

lemma run_peek {blanks : List Char} (blank : ∀ c ∈ blanks, isBlank c) {c : Char}
    (visible : isBlank c = false) (rest : List Char) :
    peek.run (blanks ++ c :: rest) = .ok (some c, c :: rest) := by
  have skipped : (blanks ++ c :: rest).dropWhile isBlank = c :: rest := by
    rw [List.dropWhile_append_of_pos blank, List.dropWhile_cons_of_neg (by simp [visible])]
  change Except.ok (((blanks ++ c :: rest).dropWhile isBlank).head?,
    (blanks ++ c :: rest).dropWhile isBlank) = _
  rw [skipped]
  rfl

lemma run_skip (c : Char) (rest : List Char) : skip.run (c :: rest) = .ok ((), rest) := rfl

lemma run_constant (s rest : List Char) : (constant s).run (s ++ rest) = .ok ((), rest) := by
  induction s with
  | nil => rfl
  | cons c s ih =>
    rw [constant, List.cons_append, run_bind rfl]
    dsimp only
    rw [if_pos rfl]
    exact ih

section Strings

lemma hexDigit?_digitChar {n : Nat} (h : n < 16) : hexDigit? n.digitChar = some n := by
  revert n
  decide

lemma codeUnit?_hexPair {n : Nat} (h : n < 256) :
    codeUnit? '0' '0' (Nat.digitChar (n / 16 % 16)) (Nat.digitChar (n % 16)) = some n := by
  have zero : hexDigit? '0' = some 0 := rfl
  have high := hexDigit?_digitChar (Nat.mod_lt (n / 16) (by decide : 16 > 0))
  have low := hexDigit?_digitChar (Nat.mod_lt n (by decide : 16 > 0))
  simp only [codeUnit?, zero, high, low, Option.bind_eq_bind, Option.bind_some, Option.pure_def]
  congr 1
  omega

lemma stringTail_escape (c : Char) (rest : List Char) :
    stringTail none (escape c ++ rest) =
      (stringTail none rest).map fun (s, rest) => (c :: s, rest) := by
  unfold escape
  split_ifs with quote backslash b f n r t control
  · subst quote
    rfl
  · subst backslash
    rfl
  · subst b
    rfl
  · subst f
    rfl
  · subst n
    rfl
  · subst r
    rfl
  · subst t
    rfl
  · have code := codeUnit?_hexPair (show c.toNat < 256 by omega)
    have char : Unit16.ofCode none c.toNat = .char c := by
      rw [Unit16.ofCode, if_neg (by omega), if_neg (by omega), Char.ofNat_toNat]
    simp only [hexPair, List.cons_append, List.nil_append]
    rw [stringTail, code]
    simp only [char]
  · rw [List.singleton_append, stringTail, if_neg control]
    -- the clauses before begin with a backslash or a quote
    all_goals simp_all

lemma stringTail_escaped (s rest : List Char) :
    stringTail none (s.flatMap escape ++ '"' :: rest) = .ok (s, rest) := by
  induction s with
  | nil => rfl
  | cons c s ih =>
    rw [List.flatMap_cons, List.append_assoc, stringTail_escape, ih]
    rfl

lemma run_stringBody (s : String) (rest : List Char) :
    stringBody.run (s.toList.flatMap escape ++ ['"'] ++ rest) = .ok (s, rest) := by
  rw [stringBody, run_bind rfl, List.append_assoc, List.singleton_append, stringTail_escaped]
  change Except.ok (String.ofList s.toList, rest) = _
  rw [String.ofList_toList]

end Strings

section Numbers

def EndsNumber (rest : List Char) : Prop :=
  ∀ c ∈ rest.head?, c.isDigit = false ∧ c ≠ '.' ∧ c ≠ 'e' ∧ c ≠ 'E'

lemma run_digits {ds : List Char} (nonempty : ds ≠ []) (digit : ∀ c ∈ ds, c.isDigit)
    (ends : EndsNumber rest) : digits.run (ds ++ rest) = .ok (ds, rest) := by
  have taken : (ds ++ rest).takeWhile Char.isDigit = ds := by
    rw [List.takeWhile_append_of_pos digit]
    cases rest with
    | nil => simp
    | cons c rest => simp [(ends c rfl).1]
  rw [digits, run_bind rfl]
  simp only [List.isEmpty_iff, List.append_eq_nil_iff, nonempty, false_and, if_false, taken,
    List.drop_left]
  rfl

lemma exists_cons_toDigits (n : Nat) : ∃ c cs, Nat.toDigits 10 n = c :: cs ∧ c.isDigit := by
  obtain ⟨c, cs, hc⟩ := List.exists_cons_of_ne_nil (Nat.toDigits_ne_nil (n := n) (b := 10))
  exact ⟨c, cs, hc, Nat.isDigit_of_mem_toDigits (by decide) (by decide) (hc ▸ List.mem_cons_self)⟩

lemma head?_toDigits {n : Nat} (h : n ≠ 0) : (Nat.toDigits 10 n).head? ≠ some '0' := by
  induction n using Nat.strongRecOn with
  | ind n ih =>
    rcases Nat.lt_or_ge n 10 with small | large
    · have digit : ∀ d < 10, d ≠ 0 → d.digitChar ≠ '0' := by decide
      rw [Nat.toDigits_of_lt_base small, List.head?_cons, ne_eq, Option.some.injEq]
      exact digit n small h
    · obtain ⟨c, cs, hc, -⟩ := exists_cons_toDigits (n / 10)
      have first := ih (n / 10) (by omega) (by omega)
      rw [hc] at first
      rw [Nat.toDigits_of_base_le (by decide) large, hc]
      exact first

lemma run_wholeDigits (n : Nat) (ends : EndsNumber rest) :
    wholeDigits.run (Nat.toDigits 10 n ++ rest) = .ok (Nat.toDigits 10 n, rest) := by
  have digit : ∀ c ∈ Nat.toDigits 10 n, c.isDigit :=
    fun c => Nat.isDigit_of_mem_toDigits (by decide) (by decide)
  have unpadded : ¬((Nat.toDigits 10 n).length ≠ 1 ∧ (Nat.toDigits 10 n).head? = some '0') := by
    rintro ⟨long, zero⟩
    by_cases h : n = 0
    · subst h
      exact long rfl
    · exact head?_toDigits h zero
  rw [wholeDigits, run_bind (run_digits Nat.toDigits_ne_nil digit ends), if_neg unpadded]
  rfl

namespace Numeral

def ofInt (n : Int) : Numeral := { isNegative := n < 0, whole := Nat.toDigits 10 n.natAbs }

lemma digitsValue_eq (cs : List Char) : digitsValue cs = Nat.ofDigitChars 10 cs 0 := by
  simp only [digitsValue, Nat.ofDigitChars_eq_foldl, Nat.mul_comm]

lemma digitsValue_toDigits (n : Nat) : digitsValue (Nat.toDigits 10 n) = n := by
  rw [digitsValue_eq, Nat.ofDigitChars_toDigits (by decide) (by decide)]

lemma integer?_ofInt (n : Int) : (ofInt n).integer? = some n := by
  rw [integer?, ofInt, digitsValue_toDigits]
  rcases Int.lt_or_le n 0 with negative | positive
  · have nonzero : n ≠ 0 := Int.ne_of_lt negative
    simp [negative, nonzero, Int.ofNat_natAbs_of_nonpos (Int.le_of_lt negative)]
  · simp [Int.not_lt.2 positive, Int.natAbs_of_nonneg positive]

lemma le_ofDigitChars (cs : List Char) (n : Nat) : n ≤ Nat.ofDigitChars 10 cs n := by
  induction cs generalizing n with
  | nil => exact Nat.le_refl n
  | cons c cs ih =>
    rw [Nat.ofDigitChars_cons]
    exact Nat.le_trans (by omega) (ih _)

lemma appendDigits_of_lt {cs : List Char} {n : Nat} (h : Nat.ofDigitChars 10 cs n < wordSize) :
    appendDigits n cs = (Nat.ofDigitChars 10 cs n, 0) := by
  induction cs generalizing n with
  | nil => rfl
  | cons c cs ih =>
    rw [Nat.ofDigitChars_cons, Nat.mul_comm] at h ⊢
    rw [appendDigits, if_pos (Nat.lt_of_le_of_lt (le_ofDigitChars cs _) h)]
    exact ih h

lemma isTooLarge_ofInt {n : Int} (h : n.natAbs < wordSize) : (ofInt n).isTooLarge = false := by
  have value := Nat.ofDigitChars_toDigits (b := 10) (n := n.natAbs) (by decide) (by decide)
  have whole : appendDigits 0 (ofInt n).whole = (n.natAbs, 0) := by
    rw [ofInt, appendDigits_of_lt (by rwa [value]), value]
  rw [isTooLarge, whole]
  simp [ofInt, appendDigits]

end Numeral

lemma run_exponent? (ends : EndsNumber rest) : exponent?.run rest = .ok (none, rest) := by
  have noExponent : rest.head? ≠ some 'e' ∧ rest.head? ≠ some 'E' :=
    ⟨fun h => (ends _ h).2.2.1 rfl, fun h => (ends _ h).2.2.2 rfl⟩
  rw [exponent?, run_bind rfl, if_pos noExponent]
  rfl

lemma run_numeral (n : Int) (ends : EndsNumber rest) :
    numeral.run (intText n ++ rest) = .ok (Numeral.ofInt n, rest) := by
  have whole := run_wholeDigits n.natAbs ends
  have noPoint : rest.head? ≠ some '.' := fun h => (ends _ h).2.1 rfl
  have noExponent := run_exponent? ends
  rw [numeral, run_bind rfl]
  rcases Int.lt_or_le n 0 with negative | positive
  · have text : intText n ++ rest = '-' :: (Nat.toDigits 10 n.natAbs ++ rest) := by
      simp [intText, negative]
    simp only [text, List.head?_cons, if_true]
    rw [run_bind (run_skip _ _), run_bind whole, run_bind rfl, if_neg noPoint, run_bind rfl,
      run_bind noExponent]
    rw [Numeral.ofInt, decide_eq_false noPoint, decide_eq_true negative]
    rfl
  · have text : intText n = Nat.toDigits 10 n.natAbs := by
      simp [intText, Int.not_lt.2 positive]
    have unsigned : (Nat.toDigits 10 n.natAbs ++ rest).head? ≠ some '-' := by
      obtain ⟨c, cs, hc, digit⟩ := exists_cons_toDigits n.natAbs
      rw [hc, List.cons_append, List.head?_cons, ne_eq, Option.some.injEq]
      rintro rfl
      contradiction
    simp only [text, unsigned, if_false]
    rw [run_bind whole, run_bind rfl, if_neg noPoint, run_bind rfl, run_bind noExponent]
    rw [Numeral.ofInt, decide_eq_false noPoint, decide_eq_false (Int.not_lt.2 positive)]
    rfl

lemma run_number {n : Int} (h : n.natAbs < Numeral.wordSize) (ends : EndsNumber rest) :
    number.run (intText n ++ rest) = .ok (Numeral.ofInt n, rest) := by
  rw [number, run_bind (run_numeral n ends), Numeral.isTooLarge_ofInt h]
  rfl

end Numbers

end TileGrammar.Json
