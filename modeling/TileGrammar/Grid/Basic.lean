import TileGrammar.Geometry.Interval
import TileGrammar.Geometry.Layout
import TileGrammar.Tile

/-!
A grid is a block of tiles that records its changes: silent writes gather in one pending box until
they are announced, and announced boxes wait in a queue until they are taken.
-/

namespace TileGrammar

inductive GridError where
  | improper (extent : Cell)
deriving DecidableEq, Repr

def GridError.message : GridError → String
  | .improper extent => s!"grid size {extent.text} must be at least 1 on every axis"

structure Grid where
  extent : Cell
  tiles : Array Tile
  pending : Option Box := none
  events : Array Box := #[]
  proper : extent.Proper
  size_tiles : tiles.size = extent.volume

namespace Grid

def create (extent : Cell) (fill : Tile) : Except GridError Grid :=
  if proper : extent.Proper then
    .ok {
      extent, proper
      tiles := Array.replicate extent.volume fill
      size_tiles := Array.size_replicate }
  else .error (.improper extent)

def bounds (g : Grid) : Box := Box.ofExtent g.extent

def place? (g : Grid) (c : Cell) : Option Nat :=
  if c ∈ g.bounds then some (g.extent.position c).toNat else none

/-- The cell at a storage place. Coordinates are words of 32 bits, which matters only far outside
the storage. -/
def cellAt (g : Grid) (n : Nat) : Cell :=
  let c := g.extent.ofPosition n
  { c with z := c.z.bmod 4294967296 }

def get? (g : Grid) (c : Cell) : Option Tile :=
  if c ∈ g.bounds then g.tiles[(g.extent.position c).toNat]? else none

/-- The tile at the storage place of a cell. For a cell outside the grid this may be the tile of
another cell, or a wildcard where the place is outside the storage. -/
def tileAt (g : Grid) (c : Cell) : Tile :=
  let n := g.extent.position c
  if n < 0 then .wildcard else g.tiles.getD n.toNat .wildcard

def store (g : Grid) (c : Cell) (t : Tile) : Grid :=
  let n := g.extent.position c
  if n < 0 then g
  else
    { g with
      tiles := g.tiles.setIfInBounds n.toNat t
      size_tiles := Array.size_setIfInBounds.trans g.size_tiles }

def mark (g : Grid) (b : Box) : Grid :=
  { g with pending := some (match g.pending with
      | none => b
      | some p => p.hull b) }

def announce (g : Grid) (b : Box) : Grid := { g with events := g.events.push b }

def write (g : Grid) (c : Cell) (t : Tile) : Grid := (g.store c t).mark (Box.single c)

def writeLoudly (g : Grid) (c : Cell) (t : Tile) : Grid := (g.store c t).announce (Box.single c)

def flush (g : Grid) : Grid :=
  match g.pending with
  | none => g
  | some b => { g.announce b with pending := none }

def announceAll (g : Grid) : Grid := { g.announce g.bounds with pending := none }

def fill (g : Grid) (t : Tile) : Grid :=
  announceAll
    { g with tiles := Array.replicate g.extent.volume t, size_tiles := Array.size_replicate }

def drain (g : Grid) : Grid := { g with events := #[] }

def count (g : Grid) (label : String) : Nat := g.tiles.countP fun t => t.label = label

def layersText (g : Grid) : String :=
  String.join <| (interval 0 g.extent.y).map fun y =>
    s!"y={y}\n" ++ String.join ((interval 0 g.extent.z).map fun z =>
      String.join ((interval 0 g.extent.x).map fun x => (g.tileAt ⟨x, y, z⟩).label) ++ "\n")

theorem tileAt_of_mem {g : Grid} {c : Cell} (h : c ∈ g.bounds) :
    g.get? c = some (g.tileAt c) := by
  have h₀ := Cell.position_nonneg g.proper h
  have h₁ := Cell.position_lt g.proper h
  have h₂ : (g.extent.position c).toNat < g.tiles.size := by
    rw [g.size_tiles]
    omega
  simp [get?, tileAt, h, Int.not_lt.2 h₀, h₂]

theorem get?_eq_none {g : Grid} {c : Cell} (h : c ∉ g.bounds) : g.get? c = none := by
  simp [get?, h]

theorem position_inj {g : Grid} {c d : Cell} (hc : c ∈ g.bounds) (hd : d ∈ g.bounds)
    (h : g.extent.position c = g.extent.position d) : c = d := by
  rw [← Cell.ofPosition_position g.proper hc, h, Cell.ofPosition_position g.proper hd]

theorem tileAt_store {g : Grid} {c d : Cell} (hc : c ∈ g.bounds) (hd : d ∈ g.bounds) (t : Tile) :
    (g.store c t).tileAt d = if d = c then t else g.tileAt d := by
  have h₀ := Cell.position_nonneg g.proper hc
  have h₁ := Cell.position_lt g.proper hc
  have h₂ : (g.extent.position c).toNat < g.tiles.size := by
    rw [g.size_tiles]
    omega
  have h₃ := Cell.position_nonneg g.proper hd
  by_cases h : d = c
  · subst h
    simp [store, tileAt, Int.not_lt.2 h₀, h₂]
  · have hn : (g.extent.position c).toNat ≠ (g.extent.position d).toNat := fun he =>
      h (position_inj hd hc (by omega))
    simp [store, tileAt, Int.not_lt.2 h₀, Int.not_lt.2 h₃, h, Array.getElem?_setIfInBounds_ne hn]

end Grid

end TileGrammar
