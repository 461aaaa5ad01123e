import TileGrammar.Dungeon
import TileGrammar.Generation.Basic
import TileGrammar.Settings

/-!
A session generates dungeons under its settings. A run takes single steps while there are any and
the budget lasts, then at most one closing sweep, and is finished.
-/

namespace TileGrammar

inductive SessionError where
  | settings (cause : SettingsError)
  | grid (cause : GridError)
  | rules (cause : RuleError)
deriving DecidableEq

def SessionError.message : SessionError → String
  | .settings cause => s!"config: {cause.message}"
  | .grid cause => s!"grid: {cause.message}"
  | .rules cause => s!"rules: {cause.message}"

structure Session (σ : Type) where
  settings : Settings
  rules : RuleSet
  generation : Generation σ
  /-- The seed of the next run; without one the source goes on. -/
  seed : Option UInt64
  isSwept : Bool := false
  isFinished : Bool := false

namespace Session

def create {σ : Type} (settings : Settings) (source : σ) : Except SessionError (Session σ) := do
  let settings ← settings.validate.mapError .settings
  let rules ← Dungeon.rules.mapError .rules
  let grid ← (Grid.create settings.extent ⟨settings.fill⟩).mapError .grid
  let generation := { grid, strategy := settings.strategy, source }
  return { settings, rules, generation, seed := settings.seed }

variable {σ : Type} [RandomSource σ]

/-- A session that draws from a source, from the seed of the settings on if they have one. -/
def start (settings : Settings) (source : σ) : Except SessionError (Session σ) :=
  create settings (settings.seed.elim source (RandomSource.reseed source))

def restart (s : Session σ) : Session σ :=
  let cleared := { s.generation with grid := s.generation.grid.fill ⟨s.settings.fill⟩ }
  { s with generation := cleared.reset s.rules s.seed, isSwept := false, isFinished := false }

def hasBudget (s : Session σ) : Bool :=
  s.settings.maxSteps = 0 || s.generation.step < s.settings.maxSteps.toNat

def close (s : Session σ) : Bool × Session σ :=
  if s.isSwept then (false, { s with isFinished := true })
  else
    match s.settings.finishWithSweep with
    | none => (false, { s with isSwept := true, isFinished := true })
    | some stem =>
      let (succeeded, generation) := s.generation.sweep s.rules (.ofName stem true)
      (succeeded, { s with generation, isSwept := true, isFinished := !succeeded })

def advance (s : Session σ) : Bool × Session σ :=
  if s.isFinished then (false, s)
  else if s.hasBudget then
    match s.generation.single s.rules .all with
    | (true, generation) => (true, { s with generation })
    | (false, generation) => { s with generation }.close
  else s.close

def advanceAll : Nat → Session σ → Session σ
  | 0, s => s
  | fuel + 1, s =>
    match s.advance with
    | (true, s) => advanceAll fuel s
    | (false, s) => s

def cappedUses : Nat := 6 + 120 + 12

def addedCorridors : Nat := 6 + 120

/-- The number of advances after which a run is finished, for a grid of this many cells. A single
step uses a capped rule or removes a corridor cell, one of those of the start or one of those
that the capped rules added; then there are a closing sweep and the end. -/
def advanceBound (cells : Nat) : Nat := cappedUses + addedCorridors + cells + 2

def generate (s : Session σ) : Session σ :=
  let s := s.restart
  advanceAll (advanceBound s.generation.grid.extent.volume) s

end Session

end TileGrammar
