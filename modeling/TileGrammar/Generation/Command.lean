import TileGrammar.Generation.Basic

namespace TileGrammar

inductive Command where
  | reset (seed : Option UInt64)
  | candidates (filter : NameFilter)
  | single (filter : NameFilter)
  | sweep (filter : NameFilter)
  | run (budget : Nat)
  | subdivide (levels : Int)
deriving DecidableEq, Repr

inductive Outcome where
  | done
  | candidates (matches? : Option (List Match))
  | stepped (succeeded : Bool)
  | ran (steps : Nat)
deriving DecidableEq, Repr

namespace Generation

variable {σ : Type} [RandomSource σ]

def execute (g : Generation σ) (rs : RuleSet) (fuel : Nat) :
    Command → Option (Outcome × Generation σ)
  | .reset seed => some (.done, g.reset rs seed)
  | .candidates filter => some ((g.candidates rs filter).map .candidates id)
  | .single filter => some ((g.single rs filter).map .stepped id)
  | .sweep filter => some ((g.sweep rs filter).map .stepped id)
  | .run budget => (g.run rs fuel budget).map fun r => r.map .ran id
  | .subdivide levels => some (.done, g.subdivide levels)

def executeAll (rs : RuleSet) (fuel : Nat) :
    List Command → Generation σ → Option (List Outcome × Generation σ)
  | [], g => some ([], g)
  | c :: cs, g => do
    let (outcome, g) ← g.execute rs fuel c
    let (outcomes, g) ← executeAll rs fuel cs g
    return (outcome :: outcomes, g)

end Generation

end TileGrammar
