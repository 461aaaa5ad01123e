import TileGrammar.Geometry.Box
import TileGrammar.Geometry.Space

namespace TileGrammar

structure WireScale where
  cellSize : Float32 := 1
  inset : Float32 := 0.05

namespace Box

def wireCorners (b : Box) (s : WireScale) : Point × Point :=
  let low := (Point.ofCell b.corner).scale s.cellSize
  let size := (Point.ofCell b.extent).scale s.cellSize
  (low + .diagonal s.inset, low + size - .diagonal s.inset)

def edges (b : Box) (s : WireScale) : List (Point × Point) :=
  let (low, high) := b.wireCorners s
  let ring (y : Float32) : List Point :=
    [⟨low.x, y, low.z⟩, ⟨high.x, y, low.z⟩, ⟨high.x, y, high.z⟩, ⟨low.x, y, high.z⟩]
  let around (ps : List Point) : List (Point × Point) := ps.zip (ps.drop 1 ++ ps.take 1)
  around (ring low.y) ++ around (ring high.y) ++ (ring low.y).zip (ring high.y)

end Box

end TileGrammar
