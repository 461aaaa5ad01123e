import TileGrammar.Match.Search
import TileGrammar.Random.Source

namespace TileGrammar

inductive NameFilter where
  | all
  | startsWith (stem : String)
  | exactly (name : String)
deriving DecidableEq, Repr, Inhabited

namespace NameFilter

def ofName (name : String) (isStem : Bool) : NameFilter :=
  if name = "" then all
  else if isStem then startsWith name
  else exactly name

def accepts : NameFilter → String → Bool
  | all, _ => true
  | startsWith stem, name => stem.toList.isPrefixOf name.toList
  | exactly expected, name => name = expected

def keep (f : NameFilter) (rs : RuleSet) (ms : List Match) : List Match :=
  match f with
  | all => ms
  | f => ms.filter fun m => (rs.rule? m.rule).any fun rule => f.accepts rule.name

end NameFilter

inductive Strategy where
  | first
  | last
  | random
  | unsupported
deriving DecidableEq, Repr, Inhabited

namespace Strategy

def name : Strategy → String
  | first => "first"
  | last => "last"
  | random => "random"
  | unsupported => "unsupported"

def ofName : String → Strategy
  | "first" => first
  | "last" => last
  | "random" => random
  | _ => unsupported

end Strategy

namespace RuleSet

def weightOf (rs : RuleSet) (m : Match) : Float := ((rs.rule? m.rule).map Rule.weight).getD 0

def totalWeight (rs : RuleSet) (ms : List Match) : Float :=
  ms.foldl (fun sum m => sum + rs.weightOf m) 0

/-- Runs through the matches of positive weight and stops where the sum of the weights exceeds the
target. If rounding keeps it below, the last such match is taken. -/
def pickFrom (rs : RuleSet) (target : Float) : Float → Option Match → List Match → Option Match
  | _, last, [] => last
  | sum, last, m :: ms =>
    let weight := rs.weightOf m
    if weight ≤ 0 then pickFrom rs target sum last ms
    else if target < sum + weight then some m
    else pickFrom rs target (sum + weight) (some m) ms

variable {σ : Type} [RandomSource σ]

def pickByWeight (rs : RuleSet) (ms : List Match) (source : σ) : Option Match × σ :=
  let total := rs.totalWeight ms
  if total ≤ 0 then (none, source)
  else
    let (draw, source) := RandomSource.next source
    (rs.pickFrom (draw * total) 0 none ms, source)

def pick (rs : RuleSet) (strategy : Strategy) (ms : List Match) (source : σ) : Option Match × σ :=
  match strategy with
  | .first => (ms.head?, source)
  | .last => (ms.getLast?, source)
  | .random => rs.pickByWeight ms source
  | .unsupported => (none, source)

end RuleSet

end TileGrammar
