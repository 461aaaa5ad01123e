import TileGrammar.Match.Rewrite
import Mathlib.Tactic.Lemma

namespace TileGrammar.Tally

lemma countIn_cons (name key : String) (n : Nat) (es : List (String × Nat)) :
    countIn name ((key, n) :: es) = if name = key then n else countIn name es := by
  by_cases h : name = key
  · simp [countIn, h]
  · have hb : (name == key) = false := by simpa using h
    simp [countIn, List.lookup_cons, hb, h]

lemma countIn_eq_zero {name : String} {es : List (String × Nat)} (h : ∀ e ∈ es, name ≠ e.1) :
    countIn name es = 0 := by
  induction es with
  | nil => rfl
  | cons e es ih =>
    obtain ⟨key, n⟩ := e
    rw [List.forall_mem_cons] at h
    rw [countIn_cons, if_neg h.1, ih h.2]

lemma countIn_of_lt {name key : String} {n : Nat} {es : List (String × Nat)}
    (sorted : ((key, n) :: es).Pairwise fun a b => a.1 < b.1) (lt : name < key) :
    countIn name ((key, n) :: es) = 0 := by
  obtain ⟨lower, -⟩ := List.pairwise_cons.1 sorted
  apply countIn_eq_zero
  rw [List.forall_mem_cons]
  refine ⟨fun he => String.lt_irrefl name (he.symm ▸ lt), fun e he heq => ?_⟩
  exact String.lt_irrefl name (String.lt_trans lt (heq ▸ lower e he))

lemma countIn_adjustIn {name : String} {f : Nat → Nat} {es : List (String × Nat)}
    (h : es.Pairwise fun a b => a.1 < b.1) (x : String) :
    countIn x (adjustIn name f es) = if x = name then f (countIn x es) else countIn x es := by
  induction es with
  | nil => rw [adjustIn, countIn_cons]; rfl
  | cons e es ih =>
    obtain ⟨key, n⟩ := e
    obtain ⟨-, sorted⟩ := List.pairwise_cons.1 h
    rw [adjustIn]
    split
    · subst key
      by_cases hx : x = name
      · simp only [countIn_cons, if_pos hx]
      · simp only [countIn_cons, if_neg hx]
    · rename_i hne
      split
      · rename_i hlt
        rw [countIn_cons]
        by_cases hx : x = name
        · rw [if_pos hx, if_pos hx, hx, countIn_of_lt h hlt]
        · rw [if_neg hx, if_neg hx]
      · rw [countIn_cons, countIn_cons, ih sorted]
        by_cases hk : x = key
        · rw [if_pos hk, if_neg (hk ▸ Ne.symm hne), if_pos hk]
        · rw [if_neg hk, if_neg hk]

lemma count_adjust (t : Tally) (name : String) (f : Nat → Nat) (x : String) :
    (t.adjust name f).count x = if x = name then f (t.count x) else t.count x :=
  countIn_adjustIn t.sorted x

@[simp] lemma count_increment (t : Tally) (name x : String) :
    (t.increment name).count x = t.count x + if x = name then 1 else 0 := by
  rw [increment, count_adjust]
  split
  · rfl
  · rfl

lemma count_foldl_adjust_id (names : List String) (t : Tally) (x : String) :
    (names.foldl (fun t name => t.adjust name id) t).count x = t.count x := by
  induction names generalizing t with
  | nil => rfl
  | cons name names ih => simp [ih, count_adjust]

@[simp] lemma count_zero (names : List String) (x : String) : (zero names).count x = 0 :=
  count_foldl_adjust_id names empty x

lemma count_le_use (t : Tally) (rs : RuleSet) (m : Match) (x : String) :
    t.count x ≤ (t.use rs m).count x := by
  rw [use]
  split
  · exact Nat.le_refl _
  · rw [count_increment]
    omega

lemma count_le_foldl_use (t : Tally) (rs : RuleSet) (ms : List Match) (x : String) :
    t.count x ≤ (ms.foldl (fun t m => t.use rs m) t).count x := by
  induction ms generalizing t with
  | nil => exact Nat.le_refl _
  | cons m ms ih => exact Nat.le_trans (t.count_le_use rs m x) (ih (t.use rs m))

end TileGrammar.Tally
