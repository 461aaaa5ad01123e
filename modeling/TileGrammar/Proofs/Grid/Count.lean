import TileGrammar.Proofs.Grid.Stamp
import Mathlib.Data.List.Nodup

namespace TileGrammar

namespace Pattern

lemma fst_cells (p : Pattern) :
    p.cells.map Prod.fst = (List.range p.extent.volume).map p.extent.ofPosition := by
  apply List.ext_getElem
  · simp [length_cells]
  · intro n h₁ h₂
    simp [cells]

lemma nodup_fst_cells (p : Pattern) : (p.cells.map Prod.fst).Nodup := by
  rw [fst_cells]
  apply List.Nodup.map_on _ List.nodup_range
  intro a _ b _ h
  have ha := Cell.position_ofPosition p.proper a
  rw [h, Cell.position_ofPosition p.proper b] at ha
  omega

end Pattern

namespace Grid

variable {g : Grid}

lemma count_le_volume (g : Grid) (label : String) : g.count label ≤ g.extent.volume := by
  rw [← g.size_tiles]
  exact Array.countP_le_size

lemma count_write (label : String) {c : Cell} (hc : c ∈ g.bounds) (t : Tile) :
    (g.write c t).count label + (if (g.tileAt c).label = label then 1 else 0) =
      g.count label + if t.label = label then 1 else 0 := by
  have h₀ := Cell.position_nonneg g.proper hc
  have h₁ := Cell.position_lt g.proper hc
  have h₂ : (g.extent.position c).toNat < g.tiles.size := by
    rw [g.size_tiles]
    omega
  have tile : g.tileAt c = g.tiles[(g.extent.position c).toNat] := by
    simp [tileAt, Int.not_lt.2 h₀, h₂]
  have tiles : (g.write c t).tiles = g.tiles.set (g.extent.position c).toNat t h₂ := by
    simp [write, mark, store, Int.not_lt.2 h₀, Array.setIfInBounds, h₂]
  have old := Array.boole_getElem_le_countP (p := fun t => t.label = label) h₂
  rw [count, count, tiles, Array.countP_set h₂, tile]
  simp only [decide_eq_true_eq] at old ⊢
  omega

@[simp] lemma count_flush (g : Grid) (label : String) : g.flush.count label = g.count label := by
  rw [count, tiles_flush, count]

lemma count_fill (g : Grid) (t : Tile) (label : String) :
    (g.fill t).count label = if t.label = label then g.extent.volume else 0 := by
  simp [count, fill, announceAll, announce, Array.countP_replicate]

def written (label : String) (cells : List (Cell × Tile)) : Nat :=
  cells.countP fun p => !p.2.isWildcard && p.2.label = label

def covered (label : String) (below : Cell → Tile) (cells : List (Cell × Tile)) : Nat :=
  cells.countP fun p => !p.2.isWildcard && (below p.1).label = label

lemma covered_congr {label : String} {f h : Cell → Tile} {cells : List (Cell × Tile)}
    (agree : ∀ p ∈ cells, p.2 ≠ .wildcard → f p.1 = h p.1) :
    covered label f cells = covered label h cells := by
  apply List.countP_congr
  intro p hp
  by_cases hw : p.2 = .wildcard
  · simp [Tile.isWildcard, hw]
  · rw [agree p hp hw]

lemma written_of_forall {label : String} {t : Tile} {cells : List (Cell × Tile)}
    (solid : t ≠ .wildcard) (same : ∀ p ∈ cells, p.2 = t) :
    written label cells = if t.label = label then cells.length else 0 := by
  have congr : written label cells = cells.countP fun _ => t.label = label := by
    apply List.countP_congr
    intro p hp
    simp [same p hp, Tile.isWildcard, solid]
  rw [congr]
  split
  · simp [*]
  · simp [*]

lemma covered_of_forall {label : String} {t : Tile} {below : Cell → Tile}
    {cells : List (Cell × Tile)} (solid : ∀ p ∈ cells, p.2 ≠ .wildcard)
    (same : ∀ p ∈ cells, below p.1 = t) :
    covered label below cells = if t.label = label then cells.length else 0 := by
  have congr : covered label below cells = cells.countP fun _ => t.label = label := by
    apply List.countP_congr
    intro p hp
    simp [same p hp, Tile.isWildcard, solid p hp]
  rw [congr]
  split
  · simp [*]
  · simp [*]

lemma written_cons (label : String) (o : Cell) (t : Tile) (cells : List (Cell × Tile)) :
    written label ((o, t) :: cells) = written label cells +
      if t ≠ .wildcard ∧ t.label = label then 1 else 0 := by
  simp [written, List.countP_cons, Tile.isWildcard]

lemma covered_cons (label : String) (below : Cell → Tile) (o : Cell) (t : Tile)
    (cells : List (Cell × Tile)) :
    covered label below ((o, t) :: cells) = covered label below cells +
      if t ≠ .wildcard ∧ (below o).label = label then 1 else 0 := by
  simp [covered, List.countP_cons, Tile.isWildcard]

lemma count_writeCells {label : String} {corner : Cell} {cells : List (Cell × Tile)}
    (inside : ∀ p ∈ cells, corner + p.1 ∈ g.bounds) (distinct : (cells.map Prod.fst).Nodup) :
    (g.writeCells corner cells).count label +
        covered label (fun o => g.tileAt (corner + o)) cells =
      g.count label + written label cells := by
  induction cells generalizing g with
  | nil => rfl
  | cons p cells ih =>
    obtain ⟨o, t⟩ := p
    rw [List.map_cons, List.nodup_cons] at distinct
    rw [List.forall_mem_cons] at inside
    rw [writeCells_cons, written_cons, covered_cons]
    by_cases ht : t = .wildcard
    · have h := ih inside.2 distinct.2
      simpa [ht] using h
    · have hw : ¬ t.isWildcard = true := fun h => ht (Tile.isWildcard_iff.1 h)
      have hb : (g.write (corner + o) t).bounds = g.bounds := by
        rw [bounds, extent_write, bounds]
      have later := ih (g := g.write (corner + o) t) (fun p hp => hb ▸ inside.2 p hp) distinct.2
      have now := count_write label inside.1 t
      have same : covered label (fun o' => (g.write (corner + o) t).tileAt (corner + o')) cells =
          covered label (fun o' => g.tileAt (corner + o')) cells := by
        apply covered_congr
        intro p hp _
        rw [tileAt_write inside.1 (inside.2 p hp), if_neg]
        intro he
        apply distinct.1
        have ho : p.1 = o := by
          simp only [Cell.ext_iff, Cell.add_x, Cell.add_y, Cell.add_z] at he ⊢
          omega
        exact List.mem_map.2 ⟨p, hp, ho⟩
      rw [if_neg hw]
      simp only [ne_eq, ht, not_false_eq_true, true_and] at now ⊢
      omega

lemma count_stamp {label : String} {p : Pattern} {corner : Cell}
    (inside : (⟨corner, p.extent⟩ : Box).Inside g.extent) :
    (g.stamp p corner).count label + covered label (fun o => g.tileAt (corner + o)) p.cells =
      g.count label + written label p.cells := by
  rw [stamp_eq, count_flush]
  exact count_writeCells (forall_cells_mem_bounds inside) p.nodup_fst_cells

end Grid

end TileGrammar
