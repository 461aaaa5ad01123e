import TileGrammar.Proofs.Grid.Resolution

namespace TileGrammar

def Pattern.Draws (p : Pattern) (t : Tile) : Prop := t ∈ p.tiles ∧ t ≠ .wildcard

def Grid.DrawnFrom (g : Grid) (palette : Tile → Prop) : Prop := ∀ t ∈ g.tiles, palette t

namespace Pattern

variable {p : Pattern} {o : Cell} {t : Tile}

lemma tileAt_mem (ho : o ∈ Box.ofExtent p.extent) : p.tileAt o ∈ p.tiles := by
  have stored := get?_of_mem ho
  have h₀ := Cell.position_nonneg p.proper ho
  rw [get?, if_neg (Int.not_lt.2 h₀)] at stored
  exact Array.mem_of_getElem? stored

lemma draws_of_mem_cells (h : (o, t) ∈ p.cells) (solid : t ≠ .wildcard) : p.Draws t := by
  obtain ⟨ho, rfl⟩ := mem_cells.1 h
  exact ⟨tileAt_mem ho, solid⟩

end Pattern

namespace Grid.DrawnFrom

variable {g : Grid} {palette : Tile → Prop}

lemma store (hg : g.DrawnFrom palette) (c : Cell) {t : Tile} (ht : palette t) :
    (g.store c t).DrawnFrom palette := by
  rw [Grid.store]
  split
  · exact hg
  · intro u hu
    rcases Array.mem_or_eq_of_mem_setIfInBounds hu with hu | rfl
    · exact hg u hu
    · exact ht

lemma writeCells (hg : g.DrawnFrom palette) (corner : Cell) {cells : List (Cell × Tile)}
    (drawn : ∀ p ∈ cells, p.2 ≠ .wildcard → palette p.2) :
    (g.writeCells corner cells).DrawnFrom palette := by
  induction cells generalizing g with
  | nil => exact hg
  | cons p cells ih =>
    obtain ⟨o, t⟩ := p
    rw [List.forall_mem_cons] at drawn
    rw [writeCells_cons]
    split
    · exact ih hg drawn.2
    · rename_i solid
      exact ih (hg.store _ (drawn.1 fun wild => solid (Tile.isWildcard_iff.2 wild))) drawn.2

lemma stamp (hg : g.DrawnFrom palette) {p : Pattern} (drawn : ∀ t, p.Draws t → palette t)
    (corner : Cell) : (g.stamp p corner).DrawnFrom palette := by
  rw [DrawnFrom, stamp_eq, tiles_flush]
  apply hg.writeCells corner
  intro q hq solid
  exact drawn q.2 (Pattern.draws_of_mem_cells hq solid)

lemma resample (hg : g.DrawnFrom palette) {extent : Cell} (proper : extent.Proper)
    {source : Cell → Cell} (inside : ∀ c ∈ Box.ofExtent extent, source c ∈ g.bounds) :
    (g.resample extent proper source).DrawnFrom palette := by
  intro t ht
  obtain ⟨n, rfl⟩ := Array.mem_ofFn.1 ht
  exact hg _ (tileAt_mem (inside _ (Cell.ofPosition_mem proper n.isLt)))

lemma announceAll (hg : g.DrawnFrom palette) : g.announceAll.DrawnFrom palette := hg

lemma split (hg : g.DrawnFrom palette) (factor : Nat) : (g.split factor).DrawnFrom palette := by
  rw [Grid.split]
  split
  · rename_i fits
    have positive : 1 ≤ (factor : Int) := Int.ofNat_le.2 fits.1
    exact (hg.resample _ fun _ hc => zipWith_div_mem_bounds positive hc).announceAll
  · exact hg

lemma merge (hg : g.DrawnFrom palette) (factor : Nat) : (g.merge factor).DrawnFrom palette :=
  (hg.resample _ fun _ hc => min_map_mul_mem_bounds factor hc).announceAll

lemma subdivide (hg : g.DrawnFrom palette) (levels : Int) :
    (g.subdivide levels).DrawnFrom palette := by
  rw [Grid.subdivide]
  split
  · exact hg
  · split
    · exact hg.split _
    · exact hg.merge _

end Grid.DrawnFrom

end TileGrammar
