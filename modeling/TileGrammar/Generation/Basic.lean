import TileGrammar.Grid.Resolution
import TileGrammar.Match.Cache
import TileGrammar.Match.Rewrite

/-!
A generation rewrites a grid step by step under a rule set. It owns the random source, the step
counter, the counters of uses and the cache of matches; the rule set is given with every operation.
-/

namespace TileGrammar

inductive Phase where
  | uninitialized
  | seeded
  | stepping
deriving DecidableEq, Repr, Inhabited

structure Generation (σ : Type) where
  grid : Grid
  strategy : Strategy
  source : σ
  step : Nat := 0
  uses : Tally := .empty
  cache : MatchCache := {}
  phase : Phase := .uninitialized

/-- The corner at which a block lies in the middle of a grid. On an axis with an odd rest the block
lies one cell nearer to the origin. -/
def centeredCorner (grid block : Cell) : Cell := (grid - block).map (Int.tdiv · 2)

def Grid.placeStart (g : Grid) (rs : RuleSet) : Grid :=
  match rs.start with
  | none => g
  | some p => if p.extent ≤ g.extent then g.stamp p (centeredCorner g.extent p.extent) else g

namespace Generation

variable {σ : Type}

def search (g : Generation σ) (rs : RuleSet) : Generation σ :=
  { g with cache := g.cache.ensure g.grid rs g.uses g.step }

def candidates (g : Generation σ) (rs : RuleSet) (filter : NameFilter) :
    Option (List Match) × Generation σ :=
  let g := g.search rs
  (g.cache.candidates rs filter, g)

def applyOne (g : Generation σ) (rs : RuleSet) (m : Match) : Generation σ :=
  let grid := g.grid.rewrite rs m
  let uses := g.uses.use rs m
  let step := g.step + 1
  let cache :=
    if rs.opensAt step then g.cache.invalidate
    else g.cache.patch grid rs uses step (rs.editedBox m)
  { g with grid, uses, step, cache, phase := .stepping }

def applyAll (g : Generation σ) (rs : RuleSet) (ms : List Match) : Generation σ :=
  { g with
    grid := ms.foldl (fun grid m => grid.rewrite rs m) g.grid
    uses := ms.foldl (fun uses m => uses.use rs m) g.uses
    step := g.step + 1
    cache := g.cache.invalidate
    phase := .stepping }

def sweep (g : Generation σ) (rs : RuleSet) (filter : NameFilter) : Bool × Generation σ :=
  match g.candidates rs filter with
  | (none, g) => (false, g)
  | (some ms, g) => (true, g.applyAll rs ms)

def subdivide (g : Generation σ) (levels : Int) : Generation σ :=
  { g with grid := g.grid.subdivide levels, cache := g.cache.invalidate }

variable [RandomSource σ]

def reset (g : Generation σ) (rs : RuleSet) (seed : Option UInt64) : Generation σ :=
  { g with
    grid := g.grid.placeStart rs
    source := seed.elim g.source (RandomSource.reseed g.source)
    step := 0
    uses := Tally.zero rs.names
    cache := g.cache.invalidate
    phase := .seeded }

def single (g : Generation σ) (rs : RuleSet) (filter : NameFilter) : Bool × Generation σ :=
  match g.candidates rs filter with
  | (none, g) => (false, g)
  | (some ms, g) =>
    match rs.pick g.strategy ms g.source with
    | (none, source) => (false, { g with source })
    | (some m, source) => (true, { g with source }.applyOne rs m)

def runFor (rs : RuleSet) : Nat → Generation σ → Nat × Generation σ
  | 0, g => (0, g)
  | budget + 1, g =>
    match g.single rs .all with
    | (false, g) => (0, g)
    | (true, g) => (runFor rs budget g).map (· + 1) id

/-- Single steps until one fails, within a budget unless it is zero. There is no answer if a run
without a budget has not ended after `fuel` steps. -/
def run (g : Generation σ) (rs : RuleSet) (fuel budget : Nat) : Option (Nat × Generation σ) :=
  if budget = 0 then
    let (steps, g) := runFor rs fuel g
    if steps < fuel then some (steps, g) else none
  else some (runFor rs budget g)

end Generation

end TileGrammar
