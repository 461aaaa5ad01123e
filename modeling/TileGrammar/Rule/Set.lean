import TileGrammar.Rule.Basic
import TileGrammar.Tally

namespace TileGrammar

structure RuleSet where
  rules : List Rule
  start : Option Pattern := none

namespace RuleSet

def rule? (rs : RuleSet) (r : Nat) : Option Rule := rs.rules[r]?

def names (rs : RuleSet) : List String := rs.rules.map Rule.name

/-- Whether some rule waits for this step. A rule that does not wait counts at no step. -/
def opensAt (rs : RuleSet) (step : Nat) : Bool :=
  0 < step && rs.rules.any fun r => r.wait = step

theorem opensAt_iff {rs : RuleSet} {step : Nat} :
    rs.opensAt step = true ↔ 0 < step ∧ ∃ r ∈ rs.rules, r.wait = step := by
  simp [opensAt]

end RuleSet

end TileGrammar
