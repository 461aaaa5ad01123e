import TileGrammar.Grid.Basic

/-!
Changes of resolution. A split repeats every cell along the axes that are longer than one cell; a
merge keeps the lowest cell of every block and never shrinks an axis below one cell. Of the levels
no more than `maxLevels` count, and a split into more than `maxCells` cells is refused.
-/

namespace TileGrammar.Grid

def maxLevels : Nat := 8

def maxCells : Nat := 67108864

def resample (g : Grid) (extent : Cell) (proper : extent.Proper) (source : Cell → Cell) : Grid where
  extent := extent
  tiles := Array.ofFn fun n : Fin extent.volume => g.tileAt (source (extent.ofPosition n))
  pending := g.pending
  events := g.events
  proper := proper
  size_tiles := Array.size_ofFn

def splitScale (extent : Cell) (factor : Int) : Cell :=
  extent.map fun n => if 1 < n then factor else 1

def splitExtent (extent : Cell) (factor : Int) : Cell :=
  extent.zipWith (· * ·) (splitScale extent factor)

def mergeExtent (extent : Cell) (factor : Int) : Cell := extent.map fun n => max (n / factor) 1

theorem proper_splitExtent {extent : Cell} (h : extent.Proper) {factor : Int} (hf : 1 ≤ factor) :
    (splitExtent extent factor).Proper := by
  obtain ⟨hx, hy, hz⟩ := Cell.proper_iff.1 h
  have axis : ∀ n : Int, 1 ≤ n → 1 ≤ n * (if 1 < n then factor else 1) := by
    intro n hn
    split
    · have := Int.mul_le_mul hn hf (by omega) (by omega)
      omega
    · omega
  exact Cell.proper_iff.2 ⟨axis _ hx, axis _ hy, axis _ hz⟩

theorem proper_mergeExtent (extent : Cell) (factor : Int) : (mergeExtent extent factor).Proper :=
  Cell.proper_iff.2 ⟨Int.le_max_right _ _, Int.le_max_right _ _, Int.le_max_right _ _⟩

def split (g : Grid) (factor : Nat) : Grid :=
  if h : 1 ≤ factor ∧ (splitExtent g.extent factor).volume ≤ maxCells then
    let scale := splitScale g.extent factor
    (g.resample (splitExtent g.extent factor) (proper_splitExtent g.proper (by omega))
      fun c => c.zipWith (· / ·) scale).announceAll
  else g

def merge (g : Grid) (factor : Nat) : Grid :=
  (g.resample (mergeExtent g.extent factor) (proper_mergeExtent g.extent factor)
    fun c => min (c.map (· * factor)) (g.extent - Cell.unit)).announceAll

def subdivide (g : Grid) (levels : Int) : Grid :=
  let factor := Nat.pow 2 (min levels.natAbs maxLevels)
  if levels = 0 then g
  else if 0 < levels then g.split factor
  else g.merge factor

end TileGrammar.Grid
