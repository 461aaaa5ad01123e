import TileGrammar.Generation.Command
import TileGrammar.Proofs.Match.Choice
import Mathlib.Logic.Relation

/-!
Every operation on a generation is a sequence of a few moves: resets, searches, draws, applications
of cached matches and changes of resolution. What all moves preserve holds in every run.
-/

namespace TileGrammar.Generation

variable {σ : Type}

section Search

variable (g : Generation σ) (rs : RuleSet) (filter : NameFilter)

@[simp] lemma grid_search : (g.search rs).grid = g.grid := rfl

@[simp] lemma uses_search : (g.search rs).uses = g.uses := rfl

@[simp] lemma step_search : (g.search rs).step = g.step := rfl

@[simp] lemma source_search : (g.search rs).source = g.source := rfl

@[simp] lemma strategy_search : (g.search rs).strategy = g.strategy := rfl

lemma found?_search : (g.search rs).cache.found? = some (g.search rs).cache.found := rfl

lemma sweep_of_keep_eq_nil {g : Generation σ} {rs : RuleSet} {filter : NameFilter}
    (h : filter.keep rs (g.search rs).cache.found = []) :
    g.sweep rs filter = (false, g.search rs) := by
  rw [sweep, candidates, MatchCache.candidates_eq_none.2 h]

lemma sweep_of_keep_ne_nil {g : Generation σ} {rs : RuleSet} {filter : NameFilter}
    (h : filter.keep rs (g.search rs).cache.found ≠ []) :
    g.sweep rs filter =
      (true, (g.search rs).applyAll rs (filter.keep rs (g.search rs).cache.found)) := by
  rw [sweep, candidates, MatchCache.candidates_eq_some.2 ⟨rfl, h⟩]

lemma sweep_of_failed {g : Generation σ} {rs : RuleSet} {filter : NameFilter}
    (failed : (g.sweep rs filter).1 = false) : g.sweep rs filter = (false, g.search rs) := by
  by_cases hk : filter.keep rs (g.search rs).cache.found = []
  · exact sweep_of_keep_eq_nil hk
  · rw [sweep_of_keep_ne_nil hk] at failed
    cases failed

lemma sweep_of_succeeded {g : Generation σ} {rs : RuleSet} {filter : NameFilter}
    (succeeded : (g.sweep rs filter).1 = true) : g.sweep rs filter =
      (true, (g.search rs).applyAll rs (filter.keep rs (g.search rs).cache.found)) := by
  by_cases hk : filter.keep rs (g.search rs).cache.found = []
  · rw [sweep_of_keep_eq_nil hk] at succeeded
    cases succeeded
  · exact sweep_of_keep_ne_nil hk

end Search

variable [RandomSource σ]

def choose (g : Generation σ) (rs : RuleSet) (filter : NameFilter) : Option Match × σ :=
  match (g.candidates rs filter).1 with
  | none => (none, g.source)
  | some ms => rs.pick g.strategy ms g.source

inductive Move (rs : RuleSet) : Generation σ → Generation σ → Prop
  | reset {g} (seed : Option UInt64) : Move rs g (g.reset rs seed)
  | search {g} : Move rs g (g.search rs)
  | draw {g} (source : σ) : Move rs g { g with source }
  | applyOne {g ms m} : g.cache.found? = some ms → m ∈ ms → Move rs g (g.applyOne rs m)
  | applyAll {g ms} (filter : NameFilter) : g.cache.found? = some ms →
      Move rs g (g.applyAll rs (filter.keep rs ms))
  | subdivide {g} (levels : Int) : Move rs g (g.subdivide levels)

abbrev Moves (rs : RuleSet) : Generation σ → Generation σ → Prop := Relation.ReflTransGen (Move rs)

variable {g g' : Generation σ} {rs : RuleSet} {filter : NameFilter} {m : Match} {source : σ}

lemma choose_of_keep_eq_nil (h : filter.keep rs (g.search rs).cache.found = []) :
    g.choose rs filter = (none, g.source) := by
  rw [choose, candidates, MatchCache.candidates_eq_none.2 h]

lemma choose_of_keep_ne_nil (h : filter.keep rs (g.search rs).cache.found ≠ []) :
    g.choose rs filter =
      rs.pick g.strategy (filter.keep rs (g.search rs).cache.found) g.source := by
  rw [choose, candidates, MatchCache.candidates_eq_some.2 ⟨rfl, h⟩]

lemma pick_of_choose (h : (g.choose rs filter).1 = some m) :
    (rs.pick g.strategy (filter.keep rs (g.search rs).cache.found) g.source).1 = some m := by
  by_cases hk : filter.keep rs (g.search rs).cache.found = []
  · rw [choose_of_keep_eq_nil hk] at h
    cases h
  · rwa [choose_of_keep_ne_nil hk] at h

lemma mem_keep_of_choose (h : (g.choose rs filter).1 = some m) :
    m ∈ filter.keep rs (g.search rs).cache.found :=
  RuleSet.mem_of_pick (pick_of_choose h)

lemma single_of_choose_none (h : g.choose rs filter = (none, source)) :
    g.single rs filter = (false, { g.search rs with source }) := by
  by_cases hk : filter.keep rs (g.search rs).cache.found = []
  · rw [choose_of_keep_eq_nil hk] at h
    obtain ⟨-, rfl⟩ := Prod.mk.inj h
    rw [single, candidates, MatchCache.candidates_eq_none.2 hk]
    rfl
  · rw [choose_of_keep_ne_nil hk] at h
    rw [single, candidates, MatchCache.candidates_eq_some.2 ⟨rfl, hk⟩]
    dsimp only
    rw [strategy_search, source_search, h]

lemma single_of_choose_some (h : g.choose rs filter = (some m, source)) :
    g.single rs filter = (true, ({ g.search rs with source } : Generation σ).applyOne rs m) := by
  by_cases hk : filter.keep rs (g.search rs).cache.found = []
  · rw [choose_of_keep_eq_nil hk] at h
    cases (Prod.mk.inj h).1
  · rw [choose_of_keep_ne_nil hk] at h
    rw [single, candidates, MatchCache.candidates_eq_some.2 ⟨rfl, hk⟩]
    dsimp only
    rw [strategy_search, source_search, h]

lemma exists_choose_of_single (succeeded : (g.single rs filter).1 = true) :
    ∃ m, (g.choose rs filter).1 = some m := by
  cases hc : (g.choose rs filter).1 with
  | none =>
    rw [single_of_choose_none (Prod.ext hc rfl)] at succeeded
    cases succeeded
  | some m => exact ⟨m, rfl⟩

lemma moves_single (g : Generation σ) (rs : RuleSet) (filter : NameFilter) :
    Moves rs g (g.single rs filter).2 := by
  have found : Moves rs g { g.search rs with source := (g.choose rs filter).2 } :=
    .tail (.single .search) (.draw _)
  cases hc : (g.choose rs filter).1 with
  | none =>
    rw [single_of_choose_none (Prod.ext hc rfl)]
    exact found
  | some m =>
    rw [single_of_choose_some (Prod.ext hc rfl)]
    apply found.tail
    exact .applyOne (found?_search g rs) (NameFilter.mem_of_mem_keep (mem_keep_of_choose hc))

lemma moves_sweep (g : Generation σ) (rs : RuleSet) (filter : NameFilter) :
    Moves rs g (g.sweep rs filter).2 := by
  by_cases h : filter.keep rs (g.search rs).cache.found = []
  · rw [sweep_of_keep_eq_nil h]
    exact .single .search
  · rw [sweep_of_keep_ne_nil h]
    exact .tail (.single .search) (.applyAll filter (found?_search g rs))

lemma moves_runFor (rs : RuleSet) (budget : Nat) (g : Generation σ) :
    Moves rs g (runFor rs budget g).2 := by
  induction budget generalizing g with
  | zero => exact .refl
  | succ budget ih =>
    have hs := moves_single g rs .all
    rw [runFor]
    split
    · rename_i g' he
      rwa [he] at hs
    · rename_i g' he
      rw [he] at hs
      exact hs.trans (ih g')

lemma runFor_of_run {fuel budget n : Nat} (h : g.run rs fuel budget = some (n, g')) :
    runFor rs (if budget = 0 then fuel else budget) g = (n, g') := by
  rw [run] at h
  by_cases unlimited : budget = 0
  · rw [if_pos unlimited] at h ⊢
    dsimp only at h
    split at h
    · exact Option.some.inj h
    · cases h
  · rw [if_neg unlimited] at h ⊢
    exact Option.some.inj h

lemma moves_execute {fuel : Nat} {c : Command} {o : Outcome}
    (h : g.execute rs fuel c = some (o, g')) : Moves rs g g' := by
  cases c with
  | reset seed =>
    obtain ⟨-, rfl⟩ := Prod.mk.inj (Option.some.inj h)
    exact .single (.reset seed)
  | candidates filter =>
    obtain ⟨-, rfl⟩ := Prod.mk.inj (Option.some.inj h)
    exact .single .search
  | single filter =>
    obtain ⟨-, rfl⟩ := Prod.mk.inj (Option.some.inj h)
    exact moves_single g rs filter
  | sweep filter =>
    obtain ⟨-, rfl⟩ := Prod.mk.inj (Option.some.inj h)
    exact moves_sweep g rs filter
  | run budget =>
    obtain ⟨r, hr, he⟩ := Option.map_eq_some_iff.1 h
    obtain ⟨-, rfl⟩ := Prod.mk.inj he
    have moves := moves_runFor rs (if budget = 0 then fuel else budget) g
    rwa [runFor_of_run hr] at moves
  | subdivide levels =>
    obtain ⟨-, rfl⟩ := Prod.mk.inj (Option.some.inj h)
    exact .single (.subdivide levels)

lemma exists_of_executeAll_cons {fuel : Nat} {c : Command} {cs : List Command} {os : List Outcome}
    (h : executeAll rs fuel (c :: cs) g = some (os, g')) : ∃ o g₁ os',
      g.execute rs fuel c = some (o, g₁) ∧ executeAll rs fuel cs g₁ = some (os', g') ∧
        os = o :: os' := by
  rw [executeAll] at h
  obtain ⟨⟨o, g₁⟩, h₁, h⟩ := Option.bind_eq_some_iff.1 h
  obtain ⟨⟨os', g₂⟩, h₂, h⟩ := Option.bind_eq_some_iff.1 h
  obtain ⟨rfl, rfl⟩ := Prod.mk.inj (Option.some.inj h)
  exact ⟨o, g₁, os', h₁, h₂, rfl⟩

lemma moves_executeAll {fuel : Nat} {cs : List Command} {os : List Outcome}
    (h : executeAll rs fuel cs g = some (os, g')) : Moves rs g g' := by
  induction cs generalizing g os with
  | nil =>
    obtain ⟨-, rfl⟩ := Prod.mk.inj (Option.some.inj h)
    exact .refl
  | cons c cs ih =>
    obtain ⟨o, g₁, os', first, rest, -⟩ := exists_of_executeAll_cons h
    exact (moves_execute first).trans (ih rest)

end TileGrammar.Generation
