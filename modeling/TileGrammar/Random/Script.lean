import TileGrammar.Random.Source

namespace TileGrammar

/-- The numbers are drawn in order, and the last one is drawn again from then on. `position`
counts the draws since the list was started, `draws` counts all. -/
structure Script where
  numbers : List Float
  position : Nat := 0
  draws : Nat := 0

namespace Script

def current (s : Script) : Float := (s.numbers[min s.position (s.numbers.length - 1)]?).getD 0

instance : RandomSource Script where
  next s := (s.current, { s with position := s.position + 1, draws := s.draws + 1 })
  reseed s _ := { s with position := 0 }

end Script

end TileGrammar
