import TileGrammar.Geometry.Cell

namespace TileGrammar

structure Point where
  x : Float32
  y : Float32
  z : Float32

namespace Point

def diagonal (x : Float32) : Point := ⟨x, x, x⟩

def ofCell (c : Cell) : Point := ⟨Float32.ofInt c.x, Float32.ofInt c.y, Float32.ofInt c.z⟩

def add (p q : Point) : Point := ⟨p.x + q.x, p.y + q.y, p.z + q.z⟩

def sub (p q : Point) : Point := ⟨p.x - q.x, p.y - q.y, p.z - q.z⟩

def scale (p : Point) (s : Float32) : Point := ⟨p.x * s, p.y * s, p.z * s⟩

instance : Add Point := ⟨add⟩

instance : Sub Point := ⟨sub⟩

end Point

structure Color where
  red : Nat
  green : Nat
  blue : Nat
deriving DecidableEq, Repr, Inhabited

namespace Color

def white : Color := ⟨100, 100, 100⟩

def magenta : Color := ⟨100, 0, 100⟩

end Color

end TileGrammar
