import TileGrammar.Geometry.Layout
import TileGrammar.Tile

/-!
A pattern is a block of tiles. As a template its wildcards allow any tile, as a replacement they
leave the cell below unchanged.
-/

namespace TileGrammar

inductive PatternError where
  | empty
  | ragged
  | improper (extent : Cell)
  | tileCount (expected actual : Nat)
deriving DecidableEq, Repr

def PatternError.message : PatternError → String
  | .empty => "empty pattern"
  | .ragged => "non-rectangular pattern"
  | .improper extent => s!"pattern size {extent.text} must be at least 1 on every axis"
  | .tileCount expected actual => s!"expected {expected} tiles, got {actual}"

structure Pattern where
  extent : Cell
  tiles : Array Tile
  proper : extent.Proper
  size_tiles : tiles.size = extent.volume
deriving DecidableEq

namespace Pattern

theorem ext_tiles {p q : Pattern} (he : p.extent = q.extent) (ht : p.tiles = q.tiles) : p = q := by
  cases p
  cases q
  simp_all

def ofTiles (extent : Cell) (tiles : Array Tile) : Except PatternError Pattern :=
  if proper : extent.Proper then
    if size_tiles : tiles.size = extent.volume then
      .ok { extent, tiles, proper, size_tiles }
    else
      .error (.tileCount (Box.ofExtent extent).volume tiles.size)
  else
    .error (.improper extent)

def tabulate (extent : Cell) (proper : extent.Proper) (f : Cell → Tile) : Pattern where
  extent := extent
  tiles := Array.ofFn fun n : Fin extent.volume => f (extent.ofPosition n)
  proper := proper
  size_tiles := Array.size_ofFn

def filled (extent : Cell) (tile : Tile) : Except PatternError Pattern :=
  if proper : extent.Proper then .ok (tabulate extent proper fun _ => tile)
  else .error (.improper extent)

/-- The tile stored at the place of an offset. Outside the block this place may be that of another
cell; there is no tile only where the place is outside the storage. -/
def get? (p : Pattern) (o : Cell) : Option Tile :=
  let n := p.extent.position o
  if n < 0 then none else p.tiles[n.toNat]?

def tileAt (p : Pattern) (o : Cell) : Tile := (p.get? o).getD .wildcard

def cells (p : Pattern) : List (Cell × Tile) :=
  p.tiles.toList.zipIdx.map fun (t, n) => (p.extent.ofPosition n, t)

def isAllWildcard (p : Pattern) : Bool := p.tiles.all Tile.isWildcard

def turned (p : Pattern) : Pattern :=
  tabulate ⟨p.extent.z, p.extent.y, p.extent.x⟩
    (by obtain ⟨hx, hy, hz⟩ := Cell.proper_iff.1 p.proper; exact Cell.proper_iff.2 ⟨hz, hy, hx⟩)
    fun o => p.tileAt ⟨p.extent.x - 1 - o.z, o.y, o.x⟩

def mirrored (p : Pattern) : Pattern :=
  tabulate p.extent p.proper fun o => p.tileAt ⟨p.extent.x - 1 - o.x, o.y, o.z⟩

theorem length_cells (p : Pattern) : p.cells.length = p.extent.volume := by
  simp [cells, p.size_tiles]

theorem get?_of_mem {p : Pattern} {o : Cell} (h : o ∈ Box.ofExtent p.extent) :
    p.get? o = some (p.tileAt o) := by
  have h₀ := Cell.position_nonneg p.proper h
  have h₁ := Cell.position_lt p.proper h
  have h₂ : (p.extent.position o).toNat < p.tiles.size := by
    rw [p.size_tiles]
    omega
  simp [tileAt, get?, Int.not_lt.2 h₀, h₂]

theorem tileAt_tabulate {e : Cell} (he : e.Proper) (f : Cell → Tile) {o : Cell}
    (h : o ∈ Box.ofExtent e) : (tabulate e he f).tileAt o = f o := by
  have h₀ := Cell.position_nonneg he h
  have h₁ := Cell.position_lt he h
  have h₂ : (e.position o).toNat < e.volume := by omega
  simp [tileAt, get?, tabulate, Int.not_lt.2 h₀, h₂, Cell.ofPosition_position he h]

theorem mem_cells {p : Pattern} {o : Cell} {t : Tile} :
    (o, t) ∈ p.cells ↔ o ∈ Box.ofExtent p.extent ∧ p.tileAt o = t := by
  simp only [cells, List.mem_map, Prod.exists, Prod.mk.injEq]
  constructor
  · rintro ⟨u, n, hn, rfl, rfl⟩
    rw [List.mem_zipIdx_iff_getElem?] at hn
    have hlt : n < p.extent.volume := by
      rw [← p.size_tiles]
      exact (List.getElem?_eq_some_iff.1 hn).1
    refine ⟨Cell.ofPosition_mem p.proper hlt, ?_⟩
    have : p.tiles[n]? = some u := by simpa using hn
    have h₀ : ¬ (n : Int) < 0 := by omega
    simp [tileAt, get?, Cell.position_ofPosition p.proper, this, h₀]
  · rintro ⟨ho, rfl⟩
    refine ⟨p.tileAt o, (p.extent.position o).toNat, ?_, Cell.ofPosition_position p.proper ho, rfl⟩
    have h₀ := Cell.position_nonneg p.proper ho
    have := get?_of_mem ho
    rw [get?, if_neg (Int.not_lt.2 h₀)] at this
    simpa [List.mem_zipIdx_iff_getElem?] using this

end Pattern

end TileGrammar
