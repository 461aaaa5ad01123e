import TileGrammar.Proofs.Generation.Rescan
import TileGrammar.Proofs.Match.Weight

/-!
Steps that fail. Whatever the reason is, such a step leaves the generation as it was, down to the
source of random numbers, and at most fills an empty cache. It fails again when it is repeated.
-/

namespace TileGrammar.Generation

variable {σ : Type}

/-- The generations before and after a step which does nothing but make sure that there is a cache. -/
structure OnlySearched (rs : RuleSet) (g g' : Generation σ) : Prop where
  grid_eq : g'.grid = g.grid
  strategy_eq : g'.strategy = g.strategy
  source_eq : g'.source = g.source
  step_eq : g'.step = g.step
  uses_eq : g'.uses = g.uses
  phase_eq : g'.phase = g.phase
  kept : g.cache.found?.isSome = true → g'.cache = g.cache
  scanned : g.cache.found? = none → g'.cache.found? = some (findAll g.grid rs g.uses g.step)

variable {g : Generation σ} {rs : RuleSet} {filter : NameFilter}

lemma onlySearched_search (g : Generation σ) (rs : RuleSet) : OnlySearched rs g (g.search rs) where
  grid_eq := rfl
  strategy_eq := rfl
  source_eq := rfl
  step_eq := rfl
  uses_eq := rfl
  phase_eq := rfl
  kept h := by
    obtain ⟨ms, hms⟩ := Option.isSome_iff_exists.1 h
    rw [search, MatchCache.ensure, hms, Option.getD_some, ← hms]
  scanned h := by simp [search, MatchCache.ensure, h]

lemma sweep_search (g : Generation σ) (rs : RuleSet) (filter : NameFilter) :
    (g.search rs).sweep rs filter = g.sweep rs filter := rfl

variable [RandomSource σ]

lemma single_search (g : Generation σ) (rs : RuleSet) (filter : NameFilter) :
    (g.search rs).single rs filter = g.single rs filter := rfl

lemma choose_eq_of_fst_eq_none (h : (g.choose rs filter).1 = none) :
    g.choose rs filter = (none, g.source) := by
  by_cases hk : filter.keep rs (g.search rs).cache.found = []
  · exact choose_of_keep_eq_nil hk
  · rw [choose_of_keep_ne_nil hk] at h ⊢
    exact RuleSet.pick_eq_of_fst_eq_none h

lemma single_of_failed (failed : (g.single rs filter).1 = false) :
    g.single rs filter = (false, g.search rs) := by
  cases hc : (g.choose rs filter).1 with
  | none => exact single_of_choose_none (choose_eq_of_fst_eq_none hc)
  | some m =>
    rw [single_of_choose_some (Prod.ext hc rfl)] at failed
    cases failed

theorem failed_steps_only_search (g : Generation σ) (rs : RuleSet) (filter : NameFilter) :
    ((g.single rs filter).1 = false →
      OnlySearched rs g (g.single rs filter).2 ∧
        (g.single rs filter).2.single rs filter = (false, (g.single rs filter).2)) ∧
    ((g.sweep rs filter).1 = false →
      OnlySearched rs g (g.sweep rs filter).2 ∧
        (g.sweep rs filter).2.sweep rs filter = (false, (g.sweep rs filter).2)) := by
  constructor
  · intro failed
    have single := single_of_failed failed
    rw [single]
    exact ⟨onlySearched_search g rs, (single_search g rs filter).trans single⟩
  · intro failed
    have sweep := sweep_of_failed failed
    rw [sweep]
    exact ⟨onlySearched_search g rs, (sweep_search g rs filter).trans sweep⟩

namespace Relay

def weightless : RuleSet where
  rules := [{ Rule.change "begin" "A" "B" begin_ne with weight := 0, isWeight := by decide }]

end Relay

theorem failed_steps_only_search_weightless :
    let g := Relay.start .random
    let single := g.single Relay.weightless .all
    let sweep := g.sweep Relay.weightless (.exactly "finish")
    (single.1 = false ∧ single.2.cache.found.length = 3 ∧
      OnlySearched Relay.weightless g single.2 ∧
      single.2.single Relay.weightless .all = (false, single.2)) ∧
    sweep.1 = false ∧ sweep.2.cache.found.length = 3 ∧
      OnlySearched Relay.weightless g sweep.2 ∧
      sweep.2.sweep Relay.weightless (.exactly "finish") = (false, sweep.2) := by
  intro g single sweep
  have single_failed : single.1 = false := by decide +kernel
  have sweep_failed : sweep.1 = false := by decide +kernel
  have single_found : single.2.cache.found.length = 3 := by decide +kernel
  have sweep_found : sweep.2.cache.found.length = 3 := by decide +kernel
  exact ⟨⟨single_failed, single_found,
      (failed_steps_only_search g Relay.weightless .all).1 single_failed⟩,
    sweep_failed, sweep_found,
      (failed_steps_only_search g Relay.weightless (.exactly "finish")).2 sweep_failed⟩

end TileGrammar.Generation
