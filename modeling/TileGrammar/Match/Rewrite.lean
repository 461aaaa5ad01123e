import TileGrammar.Match.Search

namespace TileGrammar

def Pattern.blockAt (p : Pattern) (corner : Cell) : Box := ⟨corner, p.extent⟩

def Grid.stamp (g : Grid) (p : Pattern) (corner : Cell) : Grid :=
  (p.cells.foldl
    (fun g (offset, tile) => if tile.isWildcard then g else g.write (corner + offset) tile) g).flush

namespace RuleSet

def replacement? (rs : RuleSet) (m : Match) : Option (String × Pattern) := do
  let rule ← rs.rule? m.rule
  let variant ← rule.variants[m.variant]?
  return (rule.name, variant.right)

def editedBox (rs : RuleSet) (m : Match) : Box :=
  match rs.replacement? m with
  | none => ⟨m.corner, Cell.origin⟩
  | some (_, right) => right.blockAt m.corner

end RuleSet

def Grid.rewrite (g : Grid) (rs : RuleSet) (m : Match) : Grid :=
  match rs.replacement? m with
  | none => g
  | some (_, right) => g.stamp right m.corner

def Tally.use (uses : Tally) (rs : RuleSet) (m : Match) : Tally :=
  match rs.replacement? m with
  | none => uses
  | some (name, _) => uses.increment name

end TileGrammar
