import TileGrammar.Match.Selection

/-!
A cache of all matches of a grid. After a single rewrite it is patched: matches of capped rules and
matches that share a cell with the edited box are dropped, and the matches that now share a cell
with the box are added.
-/

namespace TileGrammar

/-- The known matches, or nothing if the next access has to search the whole grid. -/
structure MatchCache where
  found? : Option (List Match) := none
deriving DecidableEq, Repr

namespace MatchCache

inductive Status where
  | uninitialized
  | empty
  | ready (count : Nat)
deriving DecidableEq, Repr

def found (c : MatchCache) : List Match := c.found?.getD []

def isInitialized (c : MatchCache) : Bool := c.found?.isSome

def status (c : MatchCache) : Status :=
  match c.found? with
  | none => .uninitialized
  | some [] => .empty
  | some ms => .ready ms.length

def ensure (c : MatchCache) (g : Grid) (rs : RuleSet) (uses : Tally) (step : Nat) : MatchCache :=
  ⟨some (c.found?.getD (findAll g rs uses step))⟩

def survives (rs : RuleSet) (uses : Tally) (edited : Box) (m : Match) : Bool :=
  ((rs.rule? m.rule).any fun rule => !rule.isCapped (uses.count rule.name)) &&
    !m.bounds.overlaps edited

def patch (c : MatchCache) (g : Grid) (rs : RuleSet) (uses : Tally) (step : Nat) (edited : Box) :
    MatchCache :=
  ⟨c.found?.map fun ms => ms.filter (survives rs uses edited) ++ findIn g rs uses step edited⟩

def invalidate (_ : MatchCache) : MatchCache := ⟨none⟩

def candidates (c : MatchCache) (rs : RuleSet) (filter : NameFilter) : Option (List Match) :=
  match filter.keep rs c.found with
  | [] => none
  | ms => some ms

end MatchCache

end TileGrammar
