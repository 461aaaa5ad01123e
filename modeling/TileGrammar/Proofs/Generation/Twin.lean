import TileGrammar.Proofs.Generation.Rescan
import TileGrammar.Proofs.Generation.Reply
import TileGrammar.Proofs.Grid.Twin
import TileGrammar.Random.Stream

/-!
Generations that only the announcements of their grids tell apart. Such twins give the same replies
forever. A reset with a seed makes twins of any two generations that have one strategy and grids with
the same tiles, so nothing else of what they did before has any influence.
-/

namespace TileGrammar

lemma Grid.Twins.placeStart {g h : Grid} (t : g.Twins h) (rs : RuleSet) :
    (g.placeStart rs).Twins (h.placeStart rs) := by
  rw [Grid.placeStart, Grid.placeStart, t.extent_eq]
  cases rs.start with
  | none => exact t
  | some p =>
    dsimp only
    split
    · exact t.stamp p _
    · exact t

namespace Generation

variable {σ : Type}

/-- Generations that differ at most in what their grids have announced and have yet to announce. -/
structure Twins (g h : Generation σ) : Prop where
  grid : g.grid.Twins h.grid
  strategy_eq : g.strategy = h.strategy
  source_eq : g.source = h.source
  step_eq : g.step = h.step
  uses_eq : g.uses = h.uses
  cache_eq : g.cache = h.cache
  phase_eq : g.phase = h.phase

def SameReply {α : Type} (r s : α × Generation σ) : Prop := r.1 = s.1 ∧ r.2.Twins s.2

namespace Twins

variable {g h : Generation σ}

lemma search (t : g.Twins h) (rs : RuleSet) : (g.search rs).Twins (h.search rs) := by
  refine { t with cache_eq := ?_ }
  rw [Generation.search, Generation.search, MatchCache.ensure, MatchCache.ensure, t.cache_eq,
    t.uses_eq, t.step_eq, t.grid.findAll_eq]

lemma applyOne (t : g.Twins h) (rs : RuleSet) (m : Match) :
    (g.applyOne rs m).Twins (h.applyOne rs m) := by
  have grid := t.grid.rewrite rs m
  refine { t with grid, step_eq := ?_, uses_eq := ?_, cache_eq := ?_, phase_eq := rfl }
  · exact congrArg (· + 1) t.step_eq
  · exact congrArg (·.use rs m) t.uses_eq
  · simp only [Generation.applyOne, MatchCache.patch, grid.findIn_eq, t.step_eq, t.uses_eq, t.cache_eq]

lemma applyAll (t : g.Twins h) (rs : RuleSet) (ms : List Match) :
    (g.applyAll rs ms).Twins (h.applyAll rs ms) where
  grid := t.grid.foldl_rewrite rs ms
  strategy_eq := t.strategy_eq
  source_eq := t.source_eq
  step_eq := congrArg (· + 1) t.step_eq
  uses_eq := by rw [Generation.applyAll, Generation.applyAll, t.uses_eq]
  cache_eq := rfl
  phase_eq := rfl

lemma subdivide (t : g.Twins h) (levels : Int) : (g.subdivide levels).Twins (h.subdivide levels) :=
  { t with grid := t.grid.subdivide levels, cache_eq := rfl }

lemma candidates (t : g.Twins h) (rs : RuleSet) (filter : NameFilter) :
    SameReply (g.candidates rs filter) (h.candidates rs filter) :=
  ⟨congrArg (·.candidates rs filter) (t.search rs).cache_eq, t.search rs⟩

lemma sweep (t : g.Twins h) (rs : RuleSet) (filter : NameFilter) :
    SameReply (g.sweep rs filter) (h.sweep rs filter) := by
  have found := congrArg MatchCache.found (t.search rs).cache_eq
  by_cases hk : filter.keep rs (g.search rs).cache.found = []
  · rw [sweep_of_keep_eq_nil hk, sweep_of_keep_eq_nil (found ▸ hk)]
    exact ⟨rfl, t.search rs⟩
  · rw [sweep_of_keep_ne_nil hk, sweep_of_keep_ne_nil (found ▸ hk), found]
    exact ⟨rfl, (t.search rs).applyAll rs _⟩

variable [RandomSource σ]

lemma of_reset (grid : g.grid.Twins h.grid) (strategy : g.strategy = h.strategy) (rs : RuleSet)
    {seed : Option UInt64} (source : (g.reset rs seed).source = (h.reset rs seed).source) :
    (g.reset rs seed).Twins (h.reset rs seed) where
  grid := grid.placeStart rs
  strategy_eq := strategy
  source_eq := source
  step_eq := rfl
  uses_eq := rfl
  cache_eq := rfl
  phase_eq := rfl

lemma reset (t : g.Twins h) (rs : RuleSet) (seed : Option UInt64) :
    (g.reset rs seed).Twins (h.reset rs seed) := by
  apply of_reset t.grid t.strategy_eq
  rw [Generation.reset, Generation.reset, t.source_eq]

lemma choose_eq (t : g.Twins h) (rs : RuleSet) (filter : NameFilter) :
    g.choose rs filter = h.choose rs filter := by
  rw [choose, choose, (t.candidates rs filter).1, t.strategy_eq, t.source_eq]

lemma single (t : g.Twins h) (rs : RuleSet) (filter : NameFilter) :
    SameReply (g.single rs filter) (h.single rs filter) := by
  have drawn (source : σ) : ({ g.search rs with source } : Generation σ).Twins
      { h.search rs with source } := { t.search rs with source_eq := rfl }
  have same := t.choose_eq rs filter
  cases hc : (g.choose rs filter).1 with
  | none =>
    rw [single_of_choose_none (Prod.ext hc rfl), single_of_choose_none (Prod.ext (same ▸ hc) rfl),
      same]
    exact ⟨rfl, drawn _⟩
  | some m =>
    rw [single_of_choose_some (Prod.ext hc rfl), single_of_choose_some (Prod.ext (same ▸ hc) rfl),
      same]
    exact ⟨rfl, (drawn _).applyOne rs m⟩

lemma runFor (t : g.Twins h) (rs : RuleSet) (budget : Nat) :
    SameReply (Generation.runFor rs budget g) (Generation.runFor rs budget h) := by
  induction budget generalizing g h with
  | zero => exact ⟨rfl, t⟩
  | succ budget ih =>
    have step := t.single rs .all
    rw [Generation.runFor, Generation.runFor]
    generalize g.single rs .all = r at step
    generalize h.single rs .all = s at step
    obtain ⟨succeeded, g'⟩ := r
    obtain ⟨succeeded', h'⟩ := s
    obtain ⟨rfl, next⟩ := step
    cases succeeded with
    | false => exact ⟨rfl, next⟩
    | true =>
      obtain ⟨steps, last⟩ := ih next
      exact ⟨congrArg (· + 1) steps, last⟩

lemma run (t : g.Twins h) (rs : RuleSet) (fuel budget : Nat) :
    Option.Rel SameReply (g.run rs fuel budget) (h.run rs fuel budget) := by
  rw [Generation.run, Generation.run]
  by_cases unlimited : budget = 0
  · rw [if_pos unlimited, if_pos unlimited]
    obtain ⟨steps, last⟩ := t.runFor rs fuel
    dsimp only
    rw [steps]
    split
    · exact .some ⟨rfl, last⟩
    · exact .none
  · rw [if_neg unlimited, if_neg unlimited]
    exact .some (t.runFor rs budget)

lemma execute (t : g.Twins h) (rs : RuleSet) (fuel : Nat) (c : Command) :
    Option.Rel SameReply (g.execute rs fuel c) (h.execute rs fuel c) := by
  cases c with
  | reset seed => exact .some ⟨rfl, t.reset rs seed⟩
  | candidates filter =>
    obtain ⟨same, next⟩ := t.candidates rs filter
    exact .some ⟨congrArg Outcome.candidates same, next⟩
  | single filter =>
    obtain ⟨same, next⟩ := t.single rs filter
    exact .some ⟨congrArg Outcome.stepped same, next⟩
  | sweep filter =>
    obtain ⟨same, next⟩ := t.sweep rs filter
    exact .some ⟨congrArg Outcome.stepped same, next⟩
  | run budget =>
    have ran := t.run rs fuel budget
    rw [Generation.execute, Generation.execute]
    generalize g.run rs fuel budget = r at ran
    generalize h.run rs fuel budget = s at ran
    cases ran with
    | none => exact .none
    | some ran => exact .some ⟨congrArg Outcome.ran ran.1, ran.2⟩
  | subdivide levels => exact .some ⟨rfl, t.subdivide levels⟩

lemma replies (t : g.Twins h) (fuel : Nat) (calls : List (RuleSet × Command)) :
    List.Forall₂ SameReply (Generation.replies fuel calls g) (Generation.replies fuel calls h) := by
  induction calls generalizing g h with
  | nil => exact .nil
  | cons call calls ih =>
    obtain ⟨rs, c⟩ := call
    have same := t.execute rs fuel c
    rw [Generation.replies, Generation.replies]
    generalize g.execute rs fuel c = r at same
    generalize h.execute rs fuel c = s at same
    cases same with
    | none => exact .nil
    | some reply => exact .cons reply (ih reply.2)

end Twins

theorem seeded_reset_erases_history [RandomSource σ] (law : RandomSource.SeedDetermines σ)
    {g h : Generation σ} (strategy : g.strategy = h.strategy)
    (extent : g.grid.extent = h.grid.extent) (tiles : g.grid.tiles = h.grid.tiles) (rs : RuleSet)
    (seed : UInt64) :
    let g := g.reset rs (some seed)
    let h := h.reset rs (some seed)
    g.Twins h ∧ ∀ fuel calls, List.Forall₂ SameReply (replies fuel calls g) (replies fuel calls h) := by
  intro g h
  have twins : g.Twins h := .of_reset ⟨extent, tiles⟩ strategy rs (law _ _ seed)
  exact ⟨twins, twins.replies⟩

namespace Relay

def idle : RuleSet where
  rules := [.change "begin" "A" "A" begin_ne]

def seeded (seed : UInt64) : Generation Stream where
  grid := (start .random).grid
  strategy := .random
  source := .ofSeed seed

end Relay

theorem seeded_reset_erases_history_relay :
    let g := Relay.seeded 1
    let h := ((Relay.seeded 2).single Relay.idle .all).2
    let calls := [(Relay.rules, .single .all), (Relay.idle, .sweep .all), (Relay.rules, .run 0)]
    RandomSource.SeedDetermines Stream ∧
      (h.step = 1 ∧ h.uses.count "begin" = 1 ∧ h.source.draws = 1 ∧ h.cache.found.length = 3) ∧
      (g.strategy = h.strategy ∧ g.grid.extent = h.grid.extent ∧ g.grid.tiles = h.grid.tiles) ∧
      List.Forall₂ SameReply (replies 9 calls (g.reset Relay.rules (some 5)))
        (replies 9 calls (h.reset Relay.rules (some 5))) := by
  intro g h calls
  have past : h.step = 1 ∧ h.uses.count "begin" = 1 ∧ h.source.draws = 1 ∧
      h.cache.found.length = 3 := by decide +kernel
  have same : g.strategy = h.strategy ∧ g.grid.extent = h.grid.extent ∧
      g.grid.tiles = h.grid.tiles := by decide +kernel
  obtain ⟨strategy, extent, tiles⟩ := same
  obtain ⟨-, replies⟩ :=
    seeded_reset_erases_history Stream.seedDetermines strategy extent tiles Relay.rules 5
  exact ⟨Stream.seedDetermines, past, ⟨strategy, extent, tiles⟩, replies 9 calls⟩

end Generation

end TileGrammar
