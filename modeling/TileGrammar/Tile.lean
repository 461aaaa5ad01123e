import TileGrammar.Text.Quoted

namespace TileGrammar

structure Tile where
  label : String
deriving DecidableEq, Repr, Hashable, Inhabited

namespace Tile

def ofChar (c : Char) : Tile := ⟨String.singleton c⟩

def wildcard : Tile := ⟨"*"⟩

def isWildcard (t : Tile) : Bool := t = wildcard

def accepts (t u : Tile) : Bool := t.isWildcard || t = u

@[simp] theorem isWildcard_iff {t : Tile} : t.isWildcard = true ↔ t = wildcard := by
  simp [isWildcard]

theorem accepts_iff {t u : Tile} : t.accepts u = true ↔ t = wildcard ∨ t = u := by
  simp [accepts]

instance : Ord Tile := ⟨fun t u => compare t.label u.label⟩

def describe (t : Tile) : String := s!"Tile({Text.quoted t.label})"

end Tile

end TileGrammar
