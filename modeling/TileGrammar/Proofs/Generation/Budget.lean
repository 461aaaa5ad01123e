import TileGrammar.Proofs.Generation.Failure

/-!
Runs with a budget. A run that stops early stops where no single step is possible, and such a
generation stays as it is. So a budget may be split: what the first part of it does not use up, the
second part does not use either.
-/

namespace TileGrammar.Generation

variable {σ : Type} [RandomSource σ] {g : Generation σ} {rs : RuleSet} {budget budget' : Nat}

/-- A single step fails and changes nothing, since the matches are known already. -/
def Exhausted (rs : RuleSet) (g : Generation σ) : Prop := g.single rs .all = (false, g)

lemma exhausted_search (failed : (g.single rs .all).1 = false) : Exhausted rs (g.search rs) :=
  (single_search g rs .all).trans (single_of_failed failed)

lemma runFor_succ_of_failed (failed : (g.single rs .all).1 = false) :
    runFor rs (budget + 1) g = (0, g.search rs) := by
  rw [runFor, single_of_failed failed]

lemma runFor_succ_of_succeeded (succeeded : (g.single rs .all).1 = true) :
    runFor rs (budget + 1) g = (runFor rs budget (g.single rs .all).2).map (· + 1) id := by
  have single : g.single rs .all = (true, (g.single rs .all).2) := Prod.ext succeeded rfl
  rw [runFor, single]

lemma Exhausted.runFor_eq (h : Exhausted rs g) (budget : Nat) : runFor rs budget g = (0, g) := by
  cases budget with
  | zero => rfl
  | succ budget => rw [runFor, h]

lemma runFor_fst_le (rs : RuleSet) (budget : Nat) (g : Generation σ) :
    (runFor rs budget g).1 ≤ budget := by
  induction budget generalizing g with
  | zero => exact Nat.le_refl 0
  | succ budget ih =>
    cases hs : (g.single rs .all).1 with
    | false => simp [runFor_succ_of_failed hs]
    | true => simpa [runFor_succ_of_succeeded hs] using ih (g.single rs .all).2

lemma exhausted_of_runFor_lt (early : (runFor rs budget g).1 < budget) :
    Exhausted rs (runFor rs budget g).2 := by
  induction budget generalizing g with
  | zero => exact absurd early (Nat.not_lt_zero _)
  | succ budget ih =>
    cases hs : (g.single rs .all).1 with
    | false =>
      rw [runFor_succ_of_failed hs]
      exact exhausted_search hs
    | true =>
      rw [runFor_succ_of_succeeded hs] at early ⊢
      exact ih (Nat.lt_of_succ_lt_succ early)

lemma runFor_add (rs : RuleSet) (m n : Nat) (g : Generation σ) :
    runFor rs (m + n) g =
      (runFor rs n (runFor rs m g).2).map ((runFor rs m g).1 + ·) id := by
  induction m generalizing g with
  | zero =>
    rw [Nat.zero_add]
    exact Prod.ext (Nat.zero_add _).symm rfl
  | succ m ih =>
    rw [Nat.succ_add]
    cases hs : (g.single rs .all).1 with
    | false =>
      rw [runFor_succ_of_failed hs, runFor_succ_of_failed hs, (exhausted_search hs).runFor_eq]
      rfl
    | true =>
      rw [runFor_succ_of_succeeded hs, runFor_succ_of_succeeded hs, ih]
      simp [Prod.map, Nat.add_right_comm]

lemma runFor_of_le (early : (runFor rs budget g).1 < budget) (le : budget ≤ budget') :
    runFor rs budget' g = runFor rs budget g := by
  obtain ⟨rest, rfl⟩ := Nat.exists_eq_add_of_le le
  rw [runFor_add, (exhausted_of_runFor_lt early).runFor_eq]
  rfl

lemma runFor_lt_iff (early : (runFor rs budget g).1 < budget) :
    (runFor rs budget' g).1 < budget' ↔ (runFor rs budget g).1 < budget' := by
  rcases Nat.le_total budget budget' with le | le
  · rw [runFor_of_le early le]
  · constructor
    · intro early'
      rwa [runFor_of_le early' le]
    · intro lt
      obtain ⟨rest, rfl⟩ := Nat.exists_eq_add_of_le le
      rw [runFor_add] at lt
      exact Nat.lt_of_le_of_lt (Nat.le_add_right _ _) lt

lemma run_zero_of_lt (early : (runFor rs budget g).1 < budget) (fuel : Nat) :
    g.run rs fuel 0 =
      if (runFor rs budget g).1 < fuel then some (runFor rs budget g) else none := by
  rw [run, if_pos rfl]
  by_cases enough : (runFor rs budget g).1 < fuel
  · have early' := (runFor_lt_iff early).2 enough
    have same : runFor rs fuel g = runFor rs budget g := by
      rcases Nat.le_total budget fuel with le | le
      · exact runFor_of_le early le
      · exact (runFor_of_le early' le).symm
    simp only [same, enough, if_true]
  · simp only [runFor_lt_iff early, enough, if_false]

lemma run_of_ne_zero (h : budget ≠ 0) (g : Generation σ) (rs : RuleSet) (fuel : Nat) :
    g.run rs fuel budget = some (runFor rs budget g) := by
  rw [run, if_neg h]

theorem run_budgets_add (g : Generation σ) (rs : RuleSet) {m n : Nat} (hm : 1 ≤ m) (hn : 1 ≤ n) :
    ∃ a g₁ b g₂, ∀ fuel, g.run rs fuel m = some (a, g₁) ∧ g₁.run rs fuel n = some (b, g₂) ∧
      g.run rs fuel (m + n) = some (a + b, g₂) ∧ a ≤ m ∧ b ≤ n ∧
      (a < m → (g₁.single rs .all).1 = false) ∧ (b < n → (g₂.single rs .all).1 = false) := by
  let first := runFor rs m g
  let second := runFor rs n first.2
  refine ⟨first.1, first.2, second.1, second.2, fun fuel => ?_⟩
  refine ⟨run_of_ne_zero (by omega) g rs fuel, run_of_ne_zero (by omega) first.2 rs fuel, ?_,
    runFor_fst_le rs m g, runFor_fst_le rs n first.2, fun early => ?_, fun early => ?_⟩
  · rw [run_of_ne_zero (by omega), runFor_add]
    rfl
  · exact congrArg Prod.fst (exhausted_of_runFor_lt early)
  · exact congrArg Prod.fst (exhausted_of_runFor_lt early)

theorem run_budgets_add_relay : 1 ≤ 4 ∧ 1 ≤ 5 ∧
    ∃ g₁ g₂, ∀ fuel, (Relay.start .random).run Relay.rules fuel 4 = some (4, g₁) ∧
      g₁.run Relay.rules fuel 5 = some (2, g₂) ∧
      (Relay.start .random).run Relay.rules fuel 9 = some (6, g₂) ∧
      (g₂.single Relay.rules .all).1 = false ∧ g₂.source.draws = 6 := by
  obtain ⟨a, g₁, b, g₂, runs⟩ :=
    run_budgets_add (Relay.start .random) Relay.rules (show 1 ≤ 4 by decide) (show 1 ≤ 5 by decide)
  have first : ((Relay.start .random).run Relay.rules 0 4).map Prod.fst = some 4 := by
    decide +kernel
  have whole : ((Relay.start .random).run Relay.rules 0 9).map
      (fun r => (r.1, r.2.source.draws)) = some (6, 6) := by decide +kernel
  obtain ⟨one, -, both, -⟩ := runs 0
  simp only [one, both, Option.map_some, Option.some.injEq, Prod.mk.injEq] at first whole
  obtain ⟨rfl, sum, draws⟩ : a = 4 ∧ a + b = 6 ∧ g₂.source.draws = 6 := ⟨first, whole⟩
  obtain rfl : b = 2 := by omega
  refine ⟨by decide, by decide, g₁, g₂, fun fuel => ?_⟩
  obtain ⟨one, two, both, -, -, -, failed⟩ := runs fuel
  exact ⟨one, two, both, failed (by decide), draws⟩

end TileGrammar.Generation
