import TileGrammar.Grid.Basic
import TileGrammar.Rule.Set

/-!
Search for matches. A match is an occurrence of the left side of a rule variant in a grid. The order
of the search is that of the rules, then of the variants, then of the corners by x, y and z.
-/

namespace TileGrammar

structure Match where
  rule : Nat
  variant : Nat
  corner : Cell
  extent : Cell
deriving DecidableEq, Repr

def Match.bounds (m : Match) : Box := ⟨m.corner, m.extent⟩

def Grid.allows (g : Grid) (cells : List (Cell × Tile)) (corner : Cell) : Bool :=
  cells.all fun (offset, tile) => tile.accepts (g.tileAt (corner + offset))

def Pattern.occursAt (p : Pattern) (g : Grid) (corner : Cell) : Bool := g.allows p.cells corner

/-- The corners at which a block of an extent lies inside the grid and shares a cell with a region,
or nothing if there are none. -/
def anchorWindow (region : Box) (extent grid : Cell) : Option Box :=
  if region.isEmpty then none
  else
    let low := max (region.corner - (extent - Cell.unit)) Cell.origin
    let high := min region.top (grid - extent + Cell.unit)
    if low < high then some ⟨low, high - low⟩ else none

def Pattern.occurrences (p : Pattern) (g : Grid) (region : Box) : List Cell :=
  match anchorWindow region p.extent g.extent with
  | none => []
  | some window =>
    let cells := p.cells
    window.sweep.filter fun corner => g.allows cells corner

def Rule.matchesIn (rule : Rule) (place : Nat) (g : Grid) (region : Box) : List Match :=
  rule.variants.zipIdx.flatMap fun (v, k) =>
    (v.left.occurrences g region).map fun corner => ⟨place, k, corner, v.left.extent⟩

def findIn (g : Grid) (rs : RuleSet) (uses : Tally) (step : Nat) (region : Box) : List Match :=
  rs.rules.zipIdx.flatMap fun (rule, r) =>
    if rule.isEligible (uses.count rule.name) step then rule.matchesIn r g region else []

def findAll (g : Grid) (rs : RuleSet) (uses : Tally) (step : Nat) : List Match :=
  findIn g rs uses step g.bounds

end TileGrammar
