import TileGrammar.Proofs.Session.Course

namespace TileGrammar.Session

variable {σ : Type} [RandomSource σ] {s t : Session σ} {settings : Settings}

lemma Stuck.not_takesSingle (h : Stuck s t) : ¬ TakesSingle s := by
  rintro ⟨budget, succeeded, -⟩
  cases h with
  | budget used =>
    rw [used] at budget
    cases budget
  | choice source _ none =>
    rw [Generation.single_of_choose_none none] at succeeded
    cases succeeded

section Course

variable {k : Nat} {sweeps : Bool}

lemma exists_course_within (h : Sound settings s) (unfinished : s.isFinished = false)
    (new : s.generation.step = 0) : ∃ k sweeps, Course s k sweeps ∧ k ≤ s.potential := by
  obtain ⟨k, singles, unsingled⟩ := exists_not_takesSingle h
  have fall := potential_after h singles
  obtain ⟨finished_eq, -, step_eq⟩ := frame_after singles
  rw [new, Nat.zero_add] at step_eq
  rcases takes_or_closes (finished_eq.trans unfinished) with takes | ⟨-, closes | sweep⟩
  · exact absurd takes unsingled
  · exact ⟨k, false, course_of_closes singles nofun closes step_eq, by omega⟩
  · have now := sound_after h k
    obtain ⟨closes, step_succ⟩ := closes_after_sweep now (finished_eq.trans unfinished) sweep
    rw [← after_succ] at closes step_succ
    refine ⟨k, true, course_of_closes singles (fun _ => sweep) closes ?_, by omega⟩
    rw [Bool.toNat_true, step_succ, step_eq]

lemma Course.takesSingle_iff (c : Course s k sweeps) (i : Nat) :
    TakesSingle (s.after i) ↔ i < k := by
  constructor
  · intro takes
    by_contra! hk
    by_cases hi : k + sweeps.toNat ≤ i
    · have failed := c.failed i hi
      rw [takes.2.2] at failed
      cases failed
    · -- the advance right after the single steps is the sweep
      cases sweeps with
      | false => exact hi hk
      | true =>
        obtain rfl : i = k := by
          simp only [Bool.toNat_true] at hi
          omega
        obtain ⟨t, -, stuck, -⟩ := c.sweep rfl
        exact stuck.not_takesSingle takes
  · exact c.singles i

lemma Course.advance_iff (c : Course s k sweeps) (i : Nat) :
    (s.after i).advance.1 = true ↔ i < k + sweeps.toNat := by
  constructor
  · intro succeeded
    by_contra! hi
    rw [c.failed i hi] at succeeded
    cases succeeded
  · intro hi
    by_cases hk : i < k
    · rw [(c.singles i hk).2.2]
    · cases sweeps with
      | false => exact absurd hi hk
      | true =>
        obtain rfl : i = k := by
          simp only [Bool.toNat_true] at hi
          omega
        obtain ⟨t, stem, -, -, -, -, adv⟩ := c.sweep rfl
        rw [adv]

end Course

lemma after_advance (s : Session σ) (n : Nat) : s.advance.2.after n = s.after (n + 1) := rfl

lemma advanceAll_eq_after {n fuel : Nat} (goes : ∀ i < n, (s.after i).advance.1 = true)
    (stops : (s.after n).advance.1 = false) (enough : n < fuel) :
    advanceAll fuel s = s.after (n + 1) := by
  obtain ⟨fuel, rfl⟩ := Nat.exists_eq_succ_of_ne_zero (Nat.ne_of_gt (Nat.zero_lt_of_lt enough))
  induction n generalizing s fuel with
  | zero =>
    have he : s.advance = (false, s.advance.2) := Prod.ext stops rfl
    rw [advanceAll, he]
    rfl
  | succ n ih =>
    have he : s.advance = (true, s.advance.2) := Prod.ext (goes 0 (Nat.succ_pos n)) rfl
    obtain ⟨fuel, rfl⟩ := Nat.exists_eq_succ_of_ne_zero (show fuel ≠ 0 by omega)
    rw [advanceAll, he]
    simp only
    rw [ih (s := s.advance.2) (fun i hi => goes (i + 1) (by omega)) stops fuel (by omega),
      after_advance]

lemma potential_restart (s : Session σ) :
    s.restart.potential = 264 + s.restart.generation.grid.count "C" := by
  have fresh : Dungeon.reserve s.restart.generation.uses = 264 := by
    simp [restart, Generation.reset, Dungeon.reserve]
  rw [potential, fresh]

theorem generate_ends (h : Reachable settings s) :
    let corridors := s.restart.generation.grid.count "C"
    ∃ k n, (∀ i, TakesSingle (s.restart.after i) ↔ i < k) ∧ k ≤ 264 + corridors ∧
      (∀ i, (s.restart.after i).advance.1 = true ↔ i < n) ∧ n ≤ 265 + corridors ∧
      s.generate = s.restart.after (n + 1) ∧ s.generate.isFinished = true ∧
      s.generate.generation.step = n := by
  intro corridors
  obtain ⟨k, sweeps, course, le⟩ := exists_course_within (sound_restart h.sound) rfl rfl
  rw [potential_restart] at le
  have one := Bool.toNat_le sweeps
  have within : k + sweeps.toNat ≤ 265 + corridors := by omega
  have generate_eq : s.generate = s.restart.after (k + sweeps.toNat + 1) := by
    apply advanceAll_eq_after (fun i hi => (course.advance_iff i).2 hi) (course.failed _ le_rfl)
    have few := s.restart.generation.grid.count_le_volume "C"
    simp only [advanceBound, cappedUses, addedCorridors]
    omega
  refine ⟨k, k + sweeps.toNat, course.takesSingle_iff, le, course.advance_iff, within,
    generate_eq, ?_, ?_⟩
  · rw [generate_eq]
    exact (course.flags _ (Nat.lt_succ_self _)).1
  · rw [generate_eq]
    exact course.step_eq _ (Nat.le_succ _)

theorem generate_ends_corridors :
    let settings : Settings := { gridSize := (9, 1, 9), fill := "C", strategy := .random }
    ∃ s : Session Script, Reachable settings s ∧
      s.restart.generation.grid.count "C" = 72 ∧ s.generate.isFinished = true ∧
      s.generate.generation.step ≤ 337 := by
  intro settings
  have h : ((create settings ({ numbers := [0.25, 0.75] } : Script)).toOption.any fun s =>
      decide (s.restart.generation.grid.count "C" = 72)) = true := by decide +kernel
  obtain ⟨s, hs, -⟩ := exists_create settings ({ numbers := [0.25, 0.75] } : Script) (by decide)
  have reachable : Reachable settings s := .create _ hs
  have corridors : s.restart.generation.grid.count "C" = 72 := by
    rw [hs] at h
    simpa [Except.toOption] using h
  obtain ⟨k, n, -, -, -, within, -, finished, step⟩ := generate_ends reachable
  rw [corridors] at within
  exact ⟨s, reachable, corridors, finished, step ▸ within⟩

end TileGrammar.Session
