import TileGrammar.Match.Rewrite
import TileGrammar.Proofs.Geometry.Overlap

namespace TileGrammar.Grid

section Tiles

variable (g : Grid) (c : Cell) (t : Tile)

@[simp] lemma extent_store : (g.store c t).extent = g.extent := by
  rw [store]
  split
  · rfl
  · rfl

@[simp] lemma extent_write : (g.write c t).extent = g.extent := extent_store g c t

@[simp] lemma extent_flush : g.flush.extent = g.extent := by
  rw [flush]
  cases g.pending with
  | none => rfl
  | some b => rfl

@[simp] lemma tiles_flush : g.flush.tiles = g.tiles := by
  rw [flush]
  cases g.pending with
  | none => rfl
  | some b => rfl

lemma tileAt_congr {g h : Grid} (he : h.extent = g.extent) (ht : h.tiles = g.tiles) :
    h.tileAt = g.tileAt := by
  funext c
  simp only [tileAt, he, ht]

@[simp] lemma tileAt_flush : g.flush.tileAt = g.tileAt :=
  tileAt_congr (extent_flush g) (tiles_flush g)

lemma tileAt_write {g : Grid} {c d : Cell} (hc : c ∈ g.bounds) (hd : d ∈ g.bounds) (t : Tile) :
    (g.write c t).tileAt d = if d = c then t else g.tileAt d := by
  rw [← tileAt_store hc hd]
  exact congrFun (tileAt_congr rfl rfl) d

lemma get?_eq_some_iff {g : Grid} {c : Cell} {t : Tile} :
    g.get? c = some t ↔ c ∈ g.bounds ∧ g.tileAt c = t := by
  by_cases hc : c ∈ g.bounds
  · rw [tileAt_of_mem hc, Option.some.injEq]
    exact (and_iff_right hc).symm
  · rw [get?_eq_none hc]
    exact ⟨fun h => (by cases h), fun h => absurd h.1 hc⟩

lemma get?_eq_of_tileAt {g h : Grid} {c : Cell} (extent : g.extent = h.extent)
    (tileAt : c ∈ g.bounds → g.tileAt c = h.tileAt c) : g.get? c = h.get? c := by
  have bounds_eq : g.bounds = h.bounds := congrArg Box.ofExtent extent
  by_cases hc : c ∈ g.bounds
  · rw [tileAt_of_mem hc, tileAt_of_mem (bounds_eq ▸ hc), tileAt hc]
  · rw [get?_eq_none hc, get?_eq_none (bounds_eq ▸ hc)]

@[simp] lemma extent_fill : (g.fill t).extent = g.extent := rfl

lemma tileAt_fill {g : Grid} {c : Cell} (hc : c ∈ g.bounds) (t : Tile) :
    (g.fill t).tileAt c = t := by
  have h₀ := Cell.position_nonneg g.proper hc
  have h₁ := Cell.position_lt g.proper hc
  have h₂ : (g.extent.position c).toNat < g.extent.volume := by omega
  simp [tileAt, fill, announceAll, announce, Int.not_lt.2 h₀, h₂]

end Tiles

def writeCells (g : Grid) (corner : Cell) (cells : List (Cell × Tile)) : Grid :=
  cells.foldl (fun g p => if p.2.isWildcard then g else g.write (corner + p.1) p.2) g

lemma stamp_eq (g : Grid) (p : Pattern) (corner : Cell) :
    g.stamp p corner = (g.writeCells corner p.cells).flush := rfl

section WriteCells

variable {g : Grid} {corner c : Cell} {cells : List (Cell × Tile)}

lemma writeCells_cons (g : Grid) (corner o : Cell) (t : Tile) (cells : List (Cell × Tile)) :
    g.writeCells corner ((o, t) :: cells) =
      (if t.isWildcard then g else g.write (corner + o) t).writeCells corner cells := rfl

@[simp] lemma extent_writeCells : (g.writeCells corner cells).extent = g.extent := by
  induction cells generalizing g with
  | nil => rfl
  | cons p cells ih =>
    rw [writeCells_cons, ih]
    split
    · rfl
    · rw [extent_write]

lemma tileAt_writeCells_of_forall (inside : ∀ p ∈ cells, corner + p.1 ∈ g.bounds)
    (hc : c ∈ g.bounds) (free : ∀ p ∈ cells, corner + p.1 = c → p.2 = .wildcard) :
    (g.writeCells corner cells).tileAt c = g.tileAt c := by
  induction cells generalizing g with
  | nil => rfl
  | cons p cells ih =>
    obtain ⟨o, t⟩ := p
    rw [List.forall_mem_cons] at inside free
    rw [writeCells_cons]
    by_cases ht : t.isWildcard = true
    · rw [if_pos ht, ih inside.2 hc free.2]
    · rw [if_neg ht, ih (by simpa [bounds] using inside.2) (by simpa [bounds] using hc) free.2,
        tileAt_write inside.1 hc, if_neg]
      intro h
      exact ht (Tile.isWildcard_iff.2 (free.1 h.symm))

lemma tileAt_writeCells_of_mem (inside : ∀ p ∈ cells, corner + p.1 ∈ g.bounds) {o : Cell}
    {t : Tile} (h : (o, t) ∈ cells) (ht : t ≠ .wildcard)
    (unique : ∀ p ∈ cells, p.1 = o → p.2 = t) :
    (g.writeCells corner cells).tileAt (corner + o) = t := by
  induction cells generalizing g with
  | nil => cases h
  | cons p cells ih =>
    have hc : corner + o ∈ g.bounds := inside _ h
    obtain ⟨o', t'⟩ := p
    rw [List.forall_mem_cons] at inside unique
    rw [writeCells_cons]
    have inside' : ∀ p ∈ cells,
        corner + p.1 ∈ (if t'.isWildcard then g else g.write (corner + o') t').bounds := by
      split
      · exact inside.2
      · simpa [bounds] using inside.2
    by_cases hm : (o, t) ∈ cells
    · exact ih inside' hm unique.2
    · -- no later tile falls on the cell, for it would be the same one
      obtain ⟨rfl, rfl⟩ : o = o' ∧ t = t' := by simpa [hm] using h
      have hw : ¬ t.isWildcard = true := fun h => ht (Tile.isWildcard_iff.1 h)
      rw [tileAt_writeCells_of_forall inside' (by simpa [hw, bounds] using hc), if_neg hw,
        tileAt_write hc hc, if_pos rfl]
      intro p hp he
      have ho : p.1 = o := by
        simp only [Cell.ext_iff, Cell.add_x, Cell.add_y, Cell.add_z] at he ⊢
        omega
      have := unique.2 p hp ho
      exact absurd (show (o, t) ∈ cells by rwa [← ho, ← this]) hm

end WriteCells

section Stamp

variable {g : Grid} {p : Pattern} {corner : Cell}

@[simp] lemma extent_stamp : (g.stamp p corner).extent = g.extent := by
  rw [stamp_eq, extent_flush, extent_writeCells]

lemma add_mem_bounds (inside : (⟨corner, p.extent⟩ : Box).Inside g.extent) {o : Cell}
    (ho : o ∈ Box.ofExtent p.extent) : corner + o ∈ g.bounds :=
  inside.mem (Box.add_mem_iff.2 ho)

lemma forall_cells_mem_bounds (inside : (⟨corner, p.extent⟩ : Box).Inside g.extent) :
    ∀ q ∈ p.cells, corner + q.1 ∈ g.bounds := fun _ hq =>
  add_mem_bounds inside (Pattern.mem_cells.1 hq).1

lemma tileAt_stamp_of_notMem (inside : (⟨corner, p.extent⟩ : Box).Inside g.extent) {c : Cell}
    (hc : c ∈ g.bounds) (out : c ∉ (⟨corner, p.extent⟩ : Box)) :
    (g.stamp p corner).tileAt c = g.tileAt c := by
  rw [stamp_eq, tileAt_flush]
  apply tileAt_writeCells_of_forall (forall_cells_mem_bounds inside) hc
  rintro q hq rfl
  exact absurd (Box.add_mem_iff.2 (Pattern.mem_cells.1 hq).1) out

lemma tileAt_stamp_add (inside : (⟨corner, p.extent⟩ : Box).Inside g.extent) {o : Cell}
    (ho : o ∈ Box.ofExtent p.extent) :
    (g.stamp p corner).tileAt (corner + o) =
      if p.tileAt o = .wildcard then g.tileAt (corner + o) else p.tileAt o := by
  rw [stamp_eq, tileAt_flush]
  have tile_eq : ∀ q ∈ p.cells, q.1 = o → q.2 = p.tileAt o := by
    rintro q hq rfl
    exact (Pattern.mem_cells.1 hq).2.symm
  have hin := forall_cells_mem_bounds inside
  split
  · rename_i hw
    apply tileAt_writeCells_of_forall hin (add_mem_bounds inside ho)
    intro q hq he
    rw [tile_eq q hq, hw]
    simp only [Cell.ext_iff, Cell.add_x, Cell.add_y, Cell.add_z] at he ⊢
    omega
  · rename_i hw
    exact tileAt_writeCells_of_mem hin (Pattern.mem_cells.2 ⟨ho, rfl⟩) hw tile_eq

end Stamp

end TileGrammar.Grid
