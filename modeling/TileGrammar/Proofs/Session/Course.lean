import TileGrammar.Proofs.Dungeon.Reserve
import TileGrammar.Proofs.Match.Weight
import TileGrammar.Proofs.Session.Run
import TileGrammar.Random.Script
import Mathlib.Data.Nat.Find

/-!
The course of a run: single steps, then at most one closing sweep, then the end. The single steps
end because each of them lowers the reserve. After the sweep there is none again, since the budget
stays used up and a strategy that chooses nothing still does.
-/

namespace TileGrammar

lemma Dungeon.weight_pos : ∀ rule ∈ Dungeon.ruleSet.rules, 0 < rule.weight := by decide +kernel

lemma Generation.step_sweep {σ : Type} {g : Generation σ} {rs : RuleSet} {filter : NameFilter}
    (succeeded : (g.sweep rs filter).1 = true) : (g.sweep rs filter).2.step = g.step + 1 := by
  rw [sweep_of_succeeded succeeded]
  rfl

namespace Session

variable {σ : Type} {s t : Session σ} {settings : Settings}

lemma hasBudget_iff : s.hasBudget = true ↔
    s.settings.maxSteps = 0 ∨ s.generation.step < s.settings.maxSteps.toNat := by
  simp [hasBudget]

variable [RandomSource σ]

def TakesSingle (s : Session σ) : Prop :=
  s.hasBudget = true ∧ (s.generation.single s.rules .all).1 = true ∧
    s.advance = (true, { s with generation := (s.generation.single s.rules .all).2 })

def TakesSweep (s : Session σ) : Prop :=
  ∃ t stem, Stuck s t ∧ t.isSwept = false ∧ t.settings.finishWithSweep = some stem ∧
    (t.generation.sweep t.rules (.ofName stem true)).1 = true ∧
    s.advance = (true, { t with
      generation := (t.generation.sweep t.rules (.ofName stem true)).2, isSwept := true })

structure Closes (s : Session σ) : Prop where
  failed : s.advance.1 = false
  isFinished : s.advance.2.isFinished = true
  isSwept : s.advance.2.isSwept = true
  grid_eq : s.advance.2.generation.grid = s.generation.grid
  uses_eq : s.advance.2.generation.uses = s.generation.uses
  step_eq : s.advance.2.generation.step = s.generation.step

section Stuck

lemma Stuck.isSwept_eq (h : Stuck s t) : t.isSwept = s.isSwept := by
  cases h <;> rfl

lemma Stuck.isFinished_eq (h : Stuck s t) : t.isFinished = s.isFinished := by
  cases h <;> rfl

lemma Stuck.grid_eq (h : Stuck s t) : t.generation.grid = s.generation.grid := by
  cases h <;> rfl

lemma Stuck.uses_eq (h : Stuck s t) : t.generation.uses = s.generation.uses := by
  cases h <;> rfl

lemma Stuck.step_eq (h : Stuck s t) : t.generation.step = s.generation.step := by
  cases h <;> rfl

lemma Stuck.closes {u : Session σ} (h : Stuck s t) (adv : s.advance = (false, u))
    (isFinished : u.isFinished = true) (isSwept : u.isSwept = true)
    (grid_eq : u.generation.grid = t.generation.grid)
    (uses_eq : u.generation.uses = t.generation.uses)
    (step_eq : u.generation.step = t.generation.step) : Closes s where
  failed := by rw [adv]
  isFinished := by rw [adv, isFinished]
  isSwept := by rw [adv, isSwept]
  grid_eq := by rw [adv, grid_eq, h.grid_eq]
  uses_eq := by rw [adv, uses_eq, h.uses_eq]
  step_eq := by rw [adv, step_eq, h.step_eq]

lemma takes_or_closes (unfinished : s.isFinished = false) :
    TakesSingle s ∨ (∃ t, Stuck s t) ∧ (Closes s ∨ TakesSweep s) := by
  have h := step_advance s
  generalize adv : s.advance = r at h
  obtain ⟨b, u⟩ := r
  cases h with
  | finished finished =>
    rw [unfinished] at finished
    cases finished
  | single m source _ budget hc =>
    have single := Generation.single_of_choose_some hc
    refine .inl ⟨budget, ?_, ?_⟩
    · rw [single]
    · rw [adv, single]
  | closed t _ stuck swept => exact .inr ⟨⟨t, stuck⟩, .inl (stuck.closes adv rfl swept rfl rfl rfl)⟩
  | unswept t _ stuck _ _ => exact .inr ⟨⟨t, stuck⟩, .inl (stuck.closes adv rfl rfl rfl rfl rfl)⟩
  | nothing t stem _ stuck _ _ _ =>
    exact .inr ⟨⟨t, stuck⟩, .inl (stuck.closes adv rfl rfl rfl rfl rfl)⟩
  | sweep t stem _ stuck unswept hstem hk =>
    have sweep := Generation.sweep_of_keep_ne_nil hk
    refine .inr ⟨⟨t, stuck⟩, .inr ⟨t, stem, stuck, unswept, hstem, ?_, ?_⟩⟩
    · rw [sweep]
    · rw [adv, sweep, ← unfinished, ← stuck.isFinished_eq]

end Stuck

section Reasons

lemma findAll_eq_nil_of_choose (h : Sound settings s)
    (hc : (s.generation.choose s.rules .all).1 = none) (chooses : settings.strategy ≠ .unsupported) :
    findAll s.generation.grid s.rules s.generation.uses s.generation.step = [] := by
  have known := Generation.faithful_search h.faithful _ (Generation.found?_search _ _)
  by_cases hk : NameFilter.all.keep s.rules (s.generation.search s.rules).cache.found = []
  · rw [NameFilter.keep_all] at hk
    rw [hk] at known
    exact known.nil_eq.symm
  · rw [Generation.choose_of_keep_ne_nil hk, RuleSet.pick_eq_none_iff, h.strategy_eq] at hc
    rcases hc with hn | hu | ⟨-, hw⟩
    · exact absurd hn hk
    · exact absurd hu chooses
    · obtain ⟨m, hm⟩ := List.exists_mem_of_ne_nil _ hk
      apply absurd _ (hw m hm)
      obtain ⟨rule, v, o⟩ := mem_findAll.1 (known.mem_iff.1 hm)
      have hr := List.mem_of_getElem? o.rule_eq
      rw [h.rules_eq] at hr
      rw [RuleSet.weightOf, o.rule_eq]
      exact Dungeon.weight_pos rule hr

lemma not_takesSingle_of_unsupported (h : Sound settings s)
    (unsupported : settings.strategy = .unsupported) : ¬ TakesSingle s := by
  rintro ⟨-, succeeded, -⟩
  obtain ⟨m, hm⟩ := Generation.exists_choose_of_single succeeded
  have picked := Generation.pick_of_choose hm
  rw [h.strategy_eq, unsupported] at picked
  cases picked

lemma Stuck.reason (h : Sound settings s) (stuck : Stuck s t) :
    s.hasBudget = false ∨ settings.strategy = .unsupported ∨
      findAll s.generation.grid s.rules s.generation.uses s.generation.step = [] := by
  cases stuck with
  | budget hb => exact .inl hb
  | choice source _ hc =>
    by_cases hu : settings.strategy = .unsupported
    · exact .inr (.inl hu)
    · exact .inr (.inr (findAll_eq_nil_of_choose h (congrArg Prod.fst hc) hu))

lemma findAll_eq_nil_of_stuck (h : Sound settings s) (stuck : Stuck s t)
    (chooses : settings.strategy ≠ .unsupported)
    (left : settings.maxSteps = 0 ∨ s.generation.step < settings.maxSteps.toNat) :
    findAll s.generation.grid s.rules s.generation.uses s.generation.step = [] := by
  rcases stuck.reason h with used | unsupported | none
  · rw [← h.settings_eq] at left
    rw [hasBudget_iff.2 left] at used
    cases used
  · exact absurd unsupported chooses
  · exact none

lemma findAll_ne_nil_of_takesSweep (h : Sound settings s) (sweep : TakesSweep s) :
    findAll s.generation.grid s.rules s.generation.uses s.generation.step ≠ [] := by
  obtain ⟨t, stem, stuck, -, -, succeeded, -⟩ := sweep
  intro none
  have ht := sound_stuck h stuck
  have known := Generation.faithful_search ht.faithful _ (Generation.found?_search _ _)
  have rules_eq : t.rules = s.rules := ht.rules_eq.trans h.rules_eq.symm
  rw [rules_eq] at known succeeded
  rw [Generation.grid_search, Generation.uses_search, Generation.step_search, stuck.grid_eq,
    stuck.uses_eq, stuck.step_eq, none] at known
  have kept : (NameFilter.ofName stem true).keep s.rules
      (t.generation.search s.rules).cache.found = [] := by
    have sub := NameFilter.keep_sublist s.rules (.ofName stem true)
      (t.generation.search s.rules).cache.found
    rw [known.eq_nil] at sub ⊢
    exact List.sublist_nil.1 sub
  rw [Generation.sweep_of_keep_eq_nil kept] at succeeded
  cases succeeded

end Reasons

section Potential

def potential (s : Session σ) : Nat :=
  Dungeon.reserve s.generation.uses + s.generation.grid.count "C"

lemma exists_applyOne_of_takesSingle (h : TakesSingle s) : ∃ m source,
    m ∈ (s.generation.search s.rules).cache.found ∧
      s.advance.2 = { s with generation :=
        ({ s.generation.search s.rules with source } : Generation σ).applyOne s.rules m } := by
  obtain ⟨-, succeeded, adv⟩ := h
  obtain ⟨m, hm⟩ := Generation.exists_choose_of_single succeeded
  refine ⟨m, (s.generation.choose s.rules .all).2, Generation.mem_keep_of_choose hm, ?_⟩
  rw [adv, Generation.single_of_choose_some (Prod.ext hm rfl)]

lemma potential_lt (h : Sound settings s) (takes : TakesSingle s) :
    s.advance.2.potential < s.potential := by
  obtain ⟨m, source, hm, he⟩ := exists_applyOne_of_takesSingle takes
  obtain ⟨rule, v, o⟩ := (Generation.faithful_search h.faithful).exists_occurs
    (Generation.found?_search _ _) hm
  rw [he]
  simp only [potential, Generation.applyOne, h.rules_eq] at o ⊢
  exact Dungeon.reserve_lt o

lemma potential_after (h : Sound settings s) {n : Nat} (takes : ∀ i < n, TakesSingle (s.after i)) :
    (s.after n).potential + n ≤ s.potential := by
  induction n with
  | zero => exact Nat.le_refl _
  | succ n ih =>
    have before := ih fun i hi => takes i (by omega)
    have now := potential_lt (sound_after h n) (takes n (by omega))
    rw [after_succ]
    omega

lemma exists_not_takesSingle (h : Sound settings s) :
    ∃ k, (∀ i < k, TakesSingle (s.after i)) ∧ ¬ TakesSingle (s.after k) := by
  classical
  -- otherwise the potential would fall below zero
  have ends : ∃ k, ¬ TakesSingle (s.after k) := by
    by_contra! takes
    have := potential_after h (n := s.potential + 1) fun i _ => takes i
    omega
  refine ⟨Nat.find ends, fun i hi => ?_, Nat.find_spec ends⟩
  by_contra takes
  exact Nat.find_min ends hi takes

lemma frame_after {n : Nat} (takes : ∀ i < n, TakesSingle (s.after i)) :
    (s.after n).isFinished = s.isFinished ∧ (s.after n).isSwept = s.isSwept ∧
      (s.after n).generation.step = s.generation.step + n := by
  induction n with
  | zero => exact ⟨rfl, rfl, rfl⟩
  | succ n ih =>
    obtain ⟨finished, swept, step⟩ := ih fun i hi => takes i (by omega)
    obtain ⟨m, source, -, he⟩ := exists_applyOne_of_takesSingle (takes n (by omega))
    rw [after_succ, he]
    refine ⟨finished, swept, ?_⟩
    simp only [Generation.applyOne]
    rw [Generation.step_search, step]
    omega

end Potential

section End

lemma after_add (s : Session σ) (m n : Nat) : s.after (m + n) = (s.after m).after n := by
  rw [after, Nat.add_comm, Function.iterate_add_apply]
  rfl

lemma after_of_isFinished (h : s.isFinished = true) (n : Nat) : s.after n = s := by
  induction n with
  | zero => rfl
  | succ n ih => rw [after_succ, ih, advance, if_pos h]

lemma Closes.after_eq {n i : Nat} (h : Closes (s.after n)) (hi : n < i) :
    s.after i = (s.after n).advance.2 := by
  obtain ⟨d, rfl⟩ := Nat.exists_eq_add_of_lt hi
  rw [show n + d + 1 = n + 1 + d by omega, after_add, after_succ]
  exact after_of_isFinished h.isFinished d

lemma Closes.failed_after {n i : Nat} (h : Closes (s.after n)) (hi : n ≤ i) :
    (s.after i).advance.1 = false := by
  rcases Nat.eq_or_lt_of_le hi with rfl | hi
  · exact h.failed
  · rw [h.after_eq hi, advance, if_pos h.isFinished]

lemma Closes.same_after {n i : Nat} (h : Closes (s.after n)) (hi : n ≤ i) :
    (s.after i).generation.grid = (s.after n).generation.grid ∧
      (s.after i).generation.uses = (s.after n).generation.uses ∧
        (s.after i).generation.step = (s.after n).generation.step := by
  rcases Nat.eq_or_lt_of_le hi with rfl | hi
  · exact ⟨rfl, rfl, rfl⟩
  · rw [h.after_eq hi]
    exact ⟨h.grid_eq, h.uses_eq, h.step_eq⟩

end End

section Sweep

lemma closes_after_sweep (h : Sound settings s) (unfinished : s.isFinished = false)
    (sweep : TakesSweep s) : Closes s.advance.2 ∧
      s.advance.2.generation.step = s.generation.step + 1 := by
  have next := sound_step h (step_advance s)
  have nonempty := findAll_ne_nil_of_takesSweep h sweep
  obtain ⟨t, stem, stuck, -, -, succeeded, adv⟩ := sweep
  have swept : s.advance.2.isSwept = true := by rw [adv]
  have still : s.advance.2.isFinished = false := by
    rw [adv]
    exact stuck.isFinished_eq.trans unfinished
  have step : s.advance.2.generation.step = s.generation.step + 1 := by
    rw [adv]
    exact (Generation.step_sweep succeeded).trans (congrArg (· + 1) stuck.step_eq)
  have unsingled : ¬ TakesSingle s.advance.2 := by
    intro takes
    rcases stuck.reason h with used | unsupported | none
    · -- the sweep has been counted too, so the budget is still used up
      have more := hasBudget_iff.1 takes.1
      have few : ¬ s.hasBudget = true := by simp [used]
      rw [hasBudget_iff, h.settings_eq] at few
      rw [next.settings_eq, step] at more
      obtain ⟨limited, spent⟩ := not_or.1 few
      rcases more with unlimited | lt
      · exact limited unlimited
      · omega
    · exact not_takesSingle_of_unsupported next unsupported takes
    · exact nonempty none
  refine ⟨?_, step⟩
  rcases takes_or_closes still with takes | ⟨-, closes | ⟨t', _, stuck', unswept, -⟩⟩
  · exact absurd takes unsingled
  · exact closes
  · rw [stuck'.isSwept_eq, swept] at unswept
    cases unswept

end Sweep

/-- The course of a run: `k` single steps, then a closing sweep or none, then the end. -/
structure Course (s : Session σ) (k : Nat) (sweeps : Bool) : Prop where
  singles : ∀ i < k, TakesSingle (s.after i)
  sweep : sweeps = true → TakesSweep (s.after k)
  failed : ∀ i, k + sweeps.toNat ≤ i → (s.after i).advance.1 = false
  flags : ∀ i, k + sweeps.toNat < i → (s.after i).isFinished = true ∧ (s.after i).isSwept = true
  step_eq : ∀ i, k + sweeps.toNat ≤ i → (s.after i).generation.step = k + sweeps.toNat

lemma course_of_closes {k : Nat} {sweeps : Bool} (singles : ∀ i < k, TakesSingle (s.after i))
    (sweep : sweeps = true → TakesSweep (s.after k)) (closes : Closes (s.after (k + sweeps.toNat)))
    (step : (s.after (k + sweeps.toNat)).generation.step = k + sweeps.toNat) :
    Course s k sweeps where
  singles := singles
  sweep := sweep
  failed i hi := closes.failed_after hi
  flags i hi := by
    rw [closes.after_eq hi]
    exact ⟨closes.isFinished, closes.isSwept⟩
  step_eq i hi := (closes.same_after hi).2.2.trans step

lemma le_maxSteps (h : Sound settings s) (new : s.generation.step = 0) {k : Nat}
    (singles : ∀ i < k, TakesSingle (s.after i)) (limited : settings.maxSteps ≠ 0) :
    k ≤ settings.maxSteps.toNat := by
  cases k with
  | zero => exact Nat.zero_le _
  | succ k =>
    have budget := hasBudget_iff.1 (singles k (Nat.lt_succ_self k)).1
    obtain ⟨-, -, step⟩ := frame_after fun i hi => singles i (Nat.lt_succ_of_lt hi)
    rw [(sound_after h k).settings_eq, step, new] at budget
    rcases budget with unlimited | lt
    · exact absurd unlimited limited
    · omega

theorem exists_course (h : Reachable settings s) : ∃ k sweeps, Course s.restart k sweeps ∧
    (settings.maxSteps ≠ 0 → k ≤ settings.maxSteps.toNat) ∧
    (sweeps = true → settings.maxSteps ≠ 0 ∧ k = settings.maxSteps.toNat ∨
      settings.strategy = .unsupported ∧ k = 0) ∧
    (settings.strategy ≠ .unsupported →
      settings.maxSteps = 0 ∨ k < settings.maxSteps.toNat →
      sweeps = false ∧ ∀ i, k ≤ i →
        findAll (s.restart.after i).generation.grid s.rules (s.restart.after i).generation.uses
          (s.restart.after i).generation.step = []) := by
  have sound := sound_restart h.sound
  obtain ⟨k, singles, unsingled⟩ := exists_not_takesSingle sound
  obtain ⟨unfinished, -, step⟩ := frame_after singles
  have now := sound_after sound k
  have within := le_maxSteps sound rfl singles
  have step' : (s.restart.after k).generation.step = k := step.trans (Nat.zero_add k)
  have rules_eq : s.rules = (s.restart.after k).rules := h.sound.rules_eq.trans now.rules_eq.symm
  rcases takes_or_closes unfinished with takes | ⟨⟨t, stuck⟩, closes | sweep⟩
  · exact absurd takes unsingled
  · refine ⟨k, false, course_of_closes singles nofun closes step', within, nofun, ?_⟩
    intro chooses left
    refine ⟨rfl, fun i hi => ?_⟩
    obtain ⟨grid_eq, uses_eq, step_eq⟩ := closes.same_after hi
    rw [grid_eq, uses_eq, step_eq, rules_eq]
    exact findAll_eq_nil_of_stuck now stuck chooses (by rwa [step'])
  · obtain ⟨closes, step_succ⟩ := closes_after_sweep now unfinished sweep
    rw [← after_succ] at closes step_succ
    have nonempty := findAll_ne_nil_of_takesSweep now sweep
    refine ⟨k, true, course_of_closes singles (fun _ => sweep) closes ?_, within, fun _ => ?_, ?_⟩
    · rw [Bool.toNat_true, step_succ, step']
    · by_cases unsupported : settings.strategy = .unsupported
      · refine .inr ⟨unsupported, ?_⟩
        by_contra pos
        exact not_takesSingle_of_unsupported sound unsupported
          (singles 0 (Nat.pos_of_ne_zero pos))
      · have spent : ¬ (settings.maxSteps = 0 ∨ k < settings.maxSteps.toNat) := by
          intro left
          exact nonempty (findAll_eq_nil_of_stuck now stuck unsupported (by rwa [step']))
        obtain ⟨limited, le⟩ := not_or.1 spent
        exact .inl ⟨limited, Nat.le_antisymm (within limited) (Nat.not_lt.1 le)⟩
    · intro chooses left
      exact absurd (findAll_eq_nil_of_stuck now stuck chooses (by rwa [step'])) nonempty

theorem exists_course_short :
    let settings : Settings :=
      { gridSize := (9, 1, 9), strategy := .last, maxSteps := 4, finishWithSweep := some "cleanup" }
    ∃ s : Session Script, Reachable settings s ∧ ∃ k sweeps, Course s.restart k sweeps ∧
      k ≤ 4 ∧ (sweeps = true → k = 4) := by
  intro settings
  obtain ⟨s, hs, -⟩ := exists_create settings ({ numbers := [] } : Script) (by decide)
  have reachable : Reachable settings s := .create _ hs
  obtain ⟨k, sweeps, course, within, used, -⟩ := exists_course reachable
  refine ⟨s, reachable, k, sweeps, course, within (by decide), fun swept => ?_⟩
  rcases used swept with ⟨-, he⟩ | ⟨unsupported, -⟩
  · exact he
  · cases unsupported

end Session

end TileGrammar
