import TileGrammar.Proofs.Generation.Rescan
import TileGrammar.Proofs.Generation.Start
import TileGrammar.Proofs.Match.Access

namespace TileGrammar.Logged

def placeStart (g : Grid) (rs : RuleSet) : Logged Grid :=
  match rs.start with
  | none => pure g
  | some p => if p.extent ≤ g.extent then stamp g p (centeredCorner g.extent p.extent) else pure g

lemma yields_placeStart (g : Grid) (rs : RuleSet) :
    (placeStart g rs).Yields (g.placeStart rs) := by
  rw [placeStart, Grid.placeStart]
  cases rs.start with
  | none => exact yields_pure g
  | some p =>
    dsimp only
    split
    · rename_i fits
      exact yields_stamp (inside_centeredCorner fits)
    · exact yields_pure g

variable {σ : Type}

section Operations

def search (g : Generation σ) (rs : RuleSet) : Logged (Generation σ) := do
  let cache ← ensure g.cache g.grid rs g.uses g.step
  return { g with cache }

def candidates (g : Generation σ) (rs : RuleSet) (filter : NameFilter) :
    Logged (Option (List Match) × Generation σ) := do
  let g ← search g rs
  return (g.cache.candidates rs filter, g)

def applyOne (g : Generation σ) (rs : RuleSet) (m : Match) : Logged (Generation σ) := do
  let grid ← rewrite g.grid rs m
  let uses := g.uses.use rs m
  let step := g.step + 1
  let cache ← renew g.cache grid rs uses step (rs.editedBox m)
  return { g with grid, uses, step, cache, phase := .stepping }

def applyAll (g : Generation σ) (rs : RuleSet) (ms : List Match) : Logged (Generation σ) := do
  let grid ← rewriteAll g.grid rs ms
  return {
    g with
    grid
    uses := ms.foldl (fun uses m => uses.use rs m) g.uses
    step := g.step + 1
    cache := g.cache.invalidate
    phase := .stepping }

def sweep (g : Generation σ) (rs : RuleSet) (filter : NameFilter) :
    Logged (Bool × Generation σ) := do
  match ← candidates g rs filter with
  | (none, g) => return (false, g)
  | (some ms, g) =>
    let g ← applyAll g rs ms
    return (true, g)

def subdivide (g : Generation σ) (levels : Int) : Logged (Generation σ) := do
  let grid ← subdivideGrid g.grid levels
  return { g with grid, cache := g.cache.invalidate }

variable [RandomSource σ]

def reset (g : Generation σ) (rs : RuleSet) (seed : Option UInt64) : Logged (Generation σ) := do
  let grid ← placeStart g.grid rs
  return {
    g with
    grid
    source := seed.elim g.source (RandomSource.reseed g.source)
    step := 0
    uses := Tally.zero rs.names
    cache := g.cache.invalidate
    phase := .seeded }

def single (g : Generation σ) (rs : RuleSet) (filter : NameFilter) :
    Logged (Bool × Generation σ) := do
  match ← candidates g rs filter with
  | (none, g) => return (false, g)
  | (some ms, g) =>
    match rs.pick g.strategy ms g.source with
    | (none, source) => return (false, { g with source })
    | (some m, source) =>
      let g ← applyOne { g with source } rs m
      return (true, g)

def runFor (rs : RuleSet) : Nat → Generation σ → Logged (Nat × Generation σ)
  | 0, g => pure (0, g)
  | budget + 1, g => do
    match ← single g rs .all with
    | (false, g) => return (0, g)
    | (true, g) =>
      let r ← runFor rs budget g
      return r.map (· + 1) id

def run (g : Generation σ) (rs : RuleSet) (fuel budget : Nat) :
    Logged (Option (Nat × Generation σ)) :=
  if budget = 0 then do
    let (steps, g) ← runFor rs fuel g
    return if steps < fuel then some (steps, g) else none
  else do
    let r ← runFor rs budget g
    return some r

def execute (g : Generation σ) (rs : RuleSet) (fuel : Nat) :
    Command → Logged (Option (Outcome × Generation σ))
  | .reset seed => do
    let g ← reset g rs seed
    return some (.done, g)
  | .candidates filter => do
    let r ← candidates g rs filter
    return some (r.map .candidates id)
  | .single filter => do
    let r ← single g rs filter
    return some (r.map .stepped id)
  | .sweep filter => do
    let r ← sweep g rs filter
    return some (r.map .stepped id)
  | .run budget => do
    let r? ← run g rs fuel budget
    return r?.map fun r => r.map .ran id
  | .subdivide levels => do
    let g ← subdivide g levels
    return some (.done, g)

end Operations

section Yields

variable {g : Generation σ} {rs : RuleSet} {ms : List Match}

lemma yields_search (g : Generation σ) (rs : RuleSet) : (search g rs).Yields (g.search rs) :=
  (yields_ensure g.cache g.grid rs g.uses g.step).then _

lemma yields_candidates (g : Generation σ) (rs : RuleSet) (filter : NameFilter) :
    (candidates g rs filter).Yields (g.candidates rs filter) := (yields_search g rs).then _

lemma yields_applyOne (hg : g.Faithful rs) (hms : g.cache.found? = some ms) {m : Match}
    (hm : m ∈ ms) : (applyOne g rs m).Yields (g.applyOne rs m) := by
  apply (yields_rewrite ((hg ms hms).mem_iff.1 hm) rfl).bind
  exact (yields_renew g.cache (g.grid.rewrite rs m) rs (g.uses.use rs m) (g.step + 1) _).then _

lemma yields_applyAll (hg : g.Faithful rs) (hms : g.cache.found? = some ms)
    (filter : NameFilter) :
    (applyAll g rs (filter.keep rs ms)).Yields (g.applyAll rs (filter.keep rs ms)) := by
  have found : ∀ m ∈ filter.keep rs ms, m ∈ TileGrammar.findAll g.grid rs g.uses g.step := by
    intro m hm
    exact (hg ms hms).mem_iff.1 (NameFilter.mem_of_mem_keep hm)
  exact (yields_rewriteAll found).then _

lemma yields_sweep (hg : g.Faithful rs) (filter : NameFilter) :
    (sweep g rs filter).Yields (g.sweep rs filter) := by
  apply (yields_candidates g rs filter).bind
  rw [Generation.sweep, Generation.candidates]
  cases hc : (g.search rs).cache.candidates rs filter with
  | none => exact yields_pure _
  | some ms =>
    obtain ⟨rfl, -⟩ := MatchCache.candidates_eq_some.1 hc
    have faithful := Generation.faithful_search hg
    exact (yields_applyAll faithful (Generation.found?_search g rs) filter).then _

lemma yields_subdivide (g : Generation σ) (levels : Int) :
    (subdivide g levels).Yields (g.subdivide levels) := (yields_subdivideGrid levels).then _

variable [RandomSource σ]

lemma yields_reset (g : Generation σ) (rs : RuleSet) (seed : Option UInt64) :
    (reset g rs seed).Yields (g.reset rs seed) := (yields_placeStart g.grid rs).then _

lemma yields_single (hg : g.Faithful rs) (filter : NameFilter) :
    (single g rs filter).Yields (g.single rs filter) := by
  apply (yields_candidates g rs filter).bind
  rw [Generation.single, Generation.candidates]
  cases hc : (g.search rs).cache.candidates rs filter with
  | none => exact yields_pure _
  | some ms =>
    obtain ⟨rfl, -⟩ := MatchCache.candidates_eq_some.1 hc
    dsimp only
    rcases picked : rs.pick (g.search rs).strategy (filter.keep rs (g.search rs).cache.found)
      (g.search rs).source with ⟨_ | m, source⟩
    · exact yields_pure _
    · have mem := NameFilter.mem_of_mem_keep (RuleSet.mem_of_pick (congrArg Prod.fst picked))
      have faithful : Generation.Faithful rs { g.search rs with source } :=
        Generation.faithful_search hg
      exact (yields_applyOne faithful (Generation.found?_search g rs) mem).then _

lemma yields_runFor (hg : g.Faithful rs) (budget : Nat) :
    (runFor rs budget g).Yields (Generation.runFor rs budget g) := by
  induction budget generalizing g with
  | zero => exact yields_pure _
  | succ budget ih =>
    have next := Generation.faithful_moves (Generation.moves_single g rs .all) hg
    apply (yields_single hg .all).bind
    rw [Generation.runFor]
    generalize g.single rs .all = r at next
    obtain ⟨succeeded, g'⟩ := r
    cases succeeded with
    | false => exact yields_pure _
    | true => exact (ih next).then _

lemma yields_run (hg : g.Faithful rs) (fuel budget : Nat) :
    (run g rs fuel budget).Yields (g.run rs fuel budget) := by
  rw [run, Generation.run]
  split
  · exact (yields_runFor hg fuel).then _
  · exact (yields_runFor hg budget).then _

lemma yields_execute (hg : g.Faithful rs) (fuel : Nat) (c : Command) :
    (execute g rs fuel c).Yields (g.execute rs fuel c) := by
  cases c with
  | reset seed => exact (yields_reset g rs seed).then _
  | candidates filter => exact (yields_candidates g rs filter).then _
  | single filter => exact (yields_single hg filter).then _
  | sweep filter => exact (yields_sweep hg filter).then _
  | run budget => exact (yields_run hg fuel budget).then _
  | subdivide levels => exact (yields_subdivide g levels).then _

end Yields

end TileGrammar.Logged

namespace TileGrammar.Generation

variable {σ : Type} [RandomSource σ] {g g' : Generation σ} {rs : RuleSet}

theorem accesses_inside {fuel : Nat} {cs : List Command} {os : List Outcome}
    (fresh : g.cache.found? = none) (run : executeAll rs fuel cs g = some (os, g')) :
    (∀ ms, g'.cache.found? = some ms → ∀ m ∈ ms, m.bounds.Inside g'.grid.extent) ∧
      ∀ fuel c, (Logged.execute g' rs fuel c).value = g'.execute rs fuel c ∧
        ∀ a ∈ (Logged.execute g' rs fuel c).log, a.Safe := by
  have faithful := faithful_moves (moves_executeAll run) (faithful_of_found?_eq_none fresh)
  constructor
  · intro ms hms m hm
    obtain ⟨rule, v, o⟩ := faithful.exists_occurs hms hm
    exact o.inside
  · intro fuel c
    have h := Logged.yields_execute faithful fuel c
    exact ⟨h.value_eq, h.safe⟩

theorem accesses_inside_relay :
    ∃ os g' ms, executeAll Relay.rules 0 [.subdivide 1, .reset none, .single .all]
        (Relay.start .first) = some (os, g') ∧ g'.cache.found? = some ms ∧ ms.length = 6 ∧
      (∀ m ∈ ms, m.bounds.Inside g'.grid.extent) ∧
      (Logged.execute g' Relay.rules 0 (.single .all)).log.length = 3 ∧
      (Logged.execute g' Relay.rules 0 (.single .all)).value =
        g'.execute Relay.rules 0 (.single .all) ∧
      ∀ a ∈ (Logged.execute g' Relay.rules 0 (.single .all)).log, a.Safe := by
  have h : ((executeAll Relay.rules 0 [.subdivide 1, .reset none, .single .all]
      (Relay.start .first)).any fun r => r.2.cache.found?.any (·.length = 6) &&
        decide ((Logged.execute r.2 Relay.rules 0 (.single .all)).log.length = 3)) = true := by
    decide +kernel
  simp only [Option.any_eq_true, Bool.and_eq_true, decide_eq_true_eq] at h
  obtain ⟨⟨os, g'⟩, run, ⟨ms, cached, size⟩, count⟩ := h
  obtain ⟨inside, accesses⟩ := accesses_inside rfl run
  exact ⟨os, g', ms, run, cached, size, inside ms cached, count, accesses 0 (.single .all)⟩

end TileGrammar.Generation
