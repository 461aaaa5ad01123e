import TileGrammar.Proofs.Tally.Total
import Mathlib.Data.List.Nodup

namespace TileGrammar.Tally

lemma mem_iff_countIn {x : String} {n : Nat} {es : List (String × Nat)}
    (sorted : es.Pairwise fun a b => a.1 < b.1) :
    (x, n) ∈ es ↔ x ∈ es.map Prod.fst ∧ countIn x es = n := by
  induction es with
  | nil => simp
  | cons e es ih =>
    obtain ⟨key, k⟩ := e
    obtain ⟨lower, sorted⟩ := List.pairwise_cons.1 sorted
    rw [countIn_cons]
    by_cases hx : x = key
    · subst hx
      have absent : (x, n) ∉ es := fun h => String.lt_irrefl x (lower _ h)
      simp [absent, eq_comm]
    · simp [hx, ih sorted]

lemma ext_count {s t : Tally} (names : ∀ x, x ∈ s.names ↔ x ∈ t.names)
    (count : ∀ x, s.count x = t.count x) : s = t := by
  have once (u : Tally) : u.entries.Nodup := u.sorted.imp fun {a b} hab he => by
    subst he
    exact String.lt_irrefl a.1 hab
  have members : ∀ e, e ∈ s.entries ↔ e ∈ t.entries := by
    rintro ⟨x, n⟩
    rw [mem_iff_countIn s.sorted, mem_iff_countIn t.sorted]
    exact and_congr (names x) (Eq.congr_left (count x))
  have entries : s.entries = t.entries := by
    refine List.Perm.eq_of_pairwise (fun a b _ _ hab hba => ?_) s.sorted t.sorted
      ((List.perm_ext_iff_of_nodup (once s) (once t)).2 members)
    exact absurd (String.lt_trans hab hba) (String.lt_irrefl _)
  cases s
  cases t
  simp_all

lemma increment_comm (t : Tally) (a b : String) :
    (t.increment a).increment b = (t.increment b).increment a := by
  apply ext_count
  · intro x
    rw [increment, increment, increment, increment, mem_names_adjust, mem_names_adjust,
      mem_names_adjust, mem_names_adjust, or_left_comm]
  · intro x
    rw [count_increment, count_increment, count_increment, count_increment, Nat.add_right_comm]

lemma use_comm (t : Tally) (rs : RuleSet) (m n : Match) :
    (t.use rs m).use rs n = (t.use rs n).use rs m := by
  rw [use, use, use, use]
  cases rs.replacement? m with
  | none => rfl
  | some r =>
    cases rs.replacement? n with
    | none => rfl
    | some r' => exact t.increment_comm r.1 r'.1

end TileGrammar.Tally
