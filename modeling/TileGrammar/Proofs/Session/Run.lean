import TileGrammar.Proofs.Dungeon.Grammar
import TileGrammar.Proofs.Generation.Rescan
import TileGrammar.Proofs.Generation.Start
import TileGrammar.Session.Basic
import Mathlib.Logic.Function.Iterate

namespace TileGrammar

namespace Session

variable {σ : Type} {s t : Session σ} {settings : Settings}

structure Sound (settings : Settings) (s : Session σ) : Prop where
  settings_eq : s.settings = settings
  rules_eq : s.rules = Dungeon.ruleSet
  extent_eq : s.generation.grid.extent = settings.extent
  strategy_eq : s.generation.strategy = settings.strategy
  faithful : s.generation.Faithful s.rules

lemma exists_create (settings : Settings) (source : σ) (proper : settings.extent.Proper) :
    ∃ s, create settings source = .ok s ∧ Sound settings s := by
  rw [create, Settings.validate, if_pos proper, Dungeon.rules_eq]
  simp only [Except.mapError, bind, Except.bind, pure, Except.pure, Grid.create, dif_pos proper]
  exact ⟨_, rfl, rfl, rfl, rfl, rfl, Generation.faithful_of_found?_eq_none rfl⟩

lemma sound_create {source : σ} (h : create settings source = .ok s) : Sound settings s := by
  by_cases proper : settings.extent.Proper
  · obtain ⟨s', hs', sound⟩ := exists_create settings source proper
    rw [hs'] at h
    obtain rfl := Except.ok.inj h
    exact sound
  · rw [create, Settings.validate, if_neg proper] at h
    cases h

variable [RandomSource σ]

inductive Reachable (settings : Settings) : Session σ → Prop
  | create {s : Session σ} (source : σ) : create settings source = .ok s → Reachable settings s
  | reseed {s : Session σ} (seed : Option UInt64) :
      Reachable settings s → Reachable settings { s with seed }
  | restart {s : Session σ} : Reachable settings s → Reachable settings s.restart
  | advance {s : Session σ} : Reachable settings s → Reachable settings s.advance.2

def after (s : Session σ) (n : Nat) : Session σ := (fun s => s.advance.2)^[n] s

lemma after_succ (s : Session σ) (n : Nat) : s.after (n + 1) = (s.after n).advance.2 :=
  Function.iterate_succ_apply' _ n s

inductive Stuck (s : Session σ) : Session σ → Prop
  | budget : s.hasBudget = false → Stuck s s
  | choice (source : σ) : s.hasBudget = true →
      s.generation.choose s.rules .all = (none, source) →
      Stuck s { s with generation := { s.generation.search s.rules with source } }

inductive Step (s : Session σ) : Bool → Session σ → Prop
  | finished : s.isFinished = true → Step s false s
  | single (m : Match) (source : σ) : s.isFinished = false → s.hasBudget = true →
      s.generation.choose s.rules .all = (some m, source) →
      Step s true { s with generation :=
        ({ s.generation.search s.rules with source } : Generation σ).applyOne s.rules m }
  | closed (t : Session σ) : s.isFinished = false → Stuck s t → t.isSwept = true →
      Step s false { t with isFinished := true }
  | unswept (t : Session σ) : s.isFinished = false → Stuck s t → t.isSwept = false →
      t.settings.finishWithSweep = none →
      Step s false { t with isSwept := true, isFinished := true }
  | nothing (t : Session σ) (stem : String) : s.isFinished = false → Stuck s t →
      t.isSwept = false → t.settings.finishWithSweep = some stem →
      (NameFilter.ofName stem true).keep t.rules (t.generation.search t.rules).cache.found = [] →
      Step s false { t with
        generation := t.generation.search t.rules, isSwept := true, isFinished := true }
  | sweep (t : Session σ) (stem : String) : s.isFinished = false → Stuck s t →
      t.isSwept = false → t.settings.finishWithSweep = some stem →
      (NameFilter.ofName stem true).keep t.rules (t.generation.search t.rules).cache.found ≠ [] →
      Step s true { t with
        generation := (t.generation.search t.rules).applyAll t.rules
          ((NameFilter.ofName stem true).keep t.rules (t.generation.search t.rules).cache.found)
        isSwept := true, isFinished := false }

lemma step_close (hs : s.isFinished = false) (h : Stuck s t) : Step s t.close.1 t.close.2 := by
  by_cases swept : t.isSwept = true
  · have he : t.close = (false, { t with isFinished := true }) := by rw [close, if_pos swept]
    rw [he]
    exact .closed t hs h swept
  · have unswept : t.isSwept = false := by simpa using swept
    rw [close, if_neg swept]
    split
    · rename_i stem
      exact .unswept t hs h unswept stem
    · rename_i stem' stem
      by_cases hk : (NameFilter.ofName stem' true).keep t.rules
          (t.generation.search t.rules).cache.found = []
      · rw [Generation.sweep_of_keep_eq_nil hk]
        exact .nothing t stem' hs h unswept stem hk
      · rw [Generation.sweep_of_keep_ne_nil hk]
        exact .sweep t stem' hs h unswept stem hk

lemma step_advance (s : Session σ) : Step s s.advance.1 s.advance.2 := by
  by_cases finished : s.isFinished = true
  · rw [advance, if_pos finished]
    exact .finished finished
  · have hs : s.isFinished = false := by simpa using finished
    rw [advance, if_neg finished]
    by_cases budget : s.hasBudget = true
    · rw [if_pos budget]
      cases hc : (s.generation.choose s.rules .all).1 with
      | none =>
        rw [Generation.single_of_choose_none (Prod.ext hc rfl)]
        exact step_close hs (.choice _ budget (Prod.ext hc rfl))
      | some m =>
        rw [Generation.single_of_choose_some (Prod.ext hc rfl)]
        exact .single m _ hs budget (Prod.ext hc rfl)
    · rw [if_neg budget]
      exact step_close hs (.budget (by simpa using budget))

lemma sound_restart (h : Sound settings s) : Sound settings s.restart where
  settings_eq := h.settings_eq
  rules_eq := h.rules_eq
  extent_eq := (Grid.extent_placeStart _ _).trans h.extent_eq
  strategy_eq := h.strategy_eq
  faithful := Generation.faithful_of_found?_eq_none rfl

lemma sound_stuck (h : Sound settings s) (ht : Stuck s t) : Sound settings t := by
  cases ht with
  | budget _ => exact h
  | choice source _ _ => exact { h with faithful := Generation.faithful_search h.faithful }

lemma sound_step {b : Bool} (h : Sound settings s) (ht : Step s b t) : Sound settings t := by
  cases ht with
  | finished _ => exact h
  | single m source _ _ hc =>
    have found := Generation.mem_keep_of_choose (congrArg Prod.fst hc)
    exact {
      settings_eq := h.settings_eq
      rules_eq := h.rules_eq
      extent_eq := (Grid.extent_rewrite _ _ m).trans h.extent_eq
      strategy_eq := h.strategy_eq
      faithful := Generation.faithful_applyOne (Generation.faithful_search h.faithful)
        (Generation.found?_search _ _) found }
  | closed t _ stuck _ => exact { sound_stuck h stuck with }
  | unswept t _ stuck _ _ => exact { sound_stuck h stuck with }
  | nothing t stem _ stuck _ _ _ =>
    have ht := sound_stuck h stuck
    exact { ht with faithful := Generation.faithful_search ht.faithful }
  | sweep t stem _ stuck _ _ _ =>
    have ht := sound_stuck h stuck
    exact {
      settings_eq := ht.settings_eq
      rules_eq := ht.rules_eq
      extent_eq := (Grid.extent_foldl_rewrite _ _ _).trans ht.extent_eq
      strategy_eq := ht.strategy_eq
      faithful := Generation.faithful_of_found?_eq_none rfl }

lemma Reachable.sound (h : Reachable settings s) : Sound settings s := by
  induction h with
  | create source h => exact sound_create h
  | reseed seed _ ih => exact { ih with }
  | restart _ ih => exact sound_restart ih
  | advance _ ih => exact sound_step ih (step_advance _)

lemma sound_after (h : Sound settings s) (n : Nat) : Sound settings (s.after n) := by
  induction n with
  | zero => exact h
  | succ n ih =>
    rw [after_succ]
    exact sound_step ih (step_advance _)

end Session

end TileGrammar
