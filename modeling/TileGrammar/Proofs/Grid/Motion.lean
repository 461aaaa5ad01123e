import TileGrammar.Proofs.Grid.Count
import TileGrammar.Proofs.Grid.Notice
import TileGrammar.Proofs.Grid.Resolution
import TileGrammar.Proofs.Pattern.Motion

namespace TileGrammar

namespace Motion

variable (t : Motion)

def grid (g : Grid) : Grid :=
  { g.resample (t.extent g.extent) (t.proper_extent.2 g.proper) (t.source g.extent) with
    pending := g.pending.map (t.box g.extent)
    events := g.events.map (t.box g.extent) }

section Grid

variable {g : Grid} {c : Cell}

@[simp] lemma extent_grid (g : Grid) : (t.grid g).extent = t.extent g.extent := rfl

lemma tileAt_grid (hc : c ∈ g.bounds) : (t.grid g).tileAt (t.cell g.extent c) = g.tileAt c := by
  have moved := t.cell_mem_ofExtent.2 hc
  have resampled := g.tileAt_resample (t.proper_extent.2 g.proper) (t.source g.extent) moved
  rw [source_cell] at resampled
  rw [← resampled]
  exact congrFun (Grid.tileAt_congr rfl rfl) _

lemma exists_cell_of_mem_bounds (hc : c ∈ (t.grid g).bounds) :
    ∃ d ∈ g.bounds, c = t.cell g.extent d :=
  ⟨t.source g.extent c, t.source_mem_ofExtent.2 hc, (t.cell_source _ _).symm⟩

end Grid

section Notice

lemma touch_map_box (e c : Cell) (pending : Option Box) :
    Grid.touch (pending.map (t.box e)) (t.cell e c) = (Grid.touch pending c).map (t.box e) := by
  cases pending with
  | none => simp only [Grid.touch, Option.map, box_single]
  | some b => simp only [Grid.touch, Option.map, box_hull, box_single]

lemma noticed_map_box (e : Cell) (b : Box) (cells : List (Cell × Tile)) (pending : Option Box) :
    Grid.noticed (t.corner e b) (cells.map fun q => (t.cell b.extent q.1, q.2))
        (pending.map (t.box e)) =
      (Grid.noticed b.corner cells pending).map (t.box e) := by
  induction cells generalizing pending with
  | nil => rfl
  | cons q cells ih =>
    obtain ⟨o, u⟩ := q
    rw [List.map_cons, Grid.noticed_cons, Grid.noticed_cons, ← ih]
    split
    · rfl
    · rw [corner_add_cell, touch_map_box]

lemma cells_pattern_perm (p : Pattern) :
    (t.pattern p).cells.Perm (p.cells.map fun q => (t.cell p.extent q.1, q.2)) := by
  have nodup (p : Pattern) : p.cells.Nodup := p.nodup_fst_cells.of_map
  apply (List.perm_ext_iff_of_nodup (nodup _) _).2
  · rintro ⟨o, u⟩
    simp only [Pattern.mem_cells, List.mem_map, Prod.exists, Prod.mk.injEq, extent_pattern]
    constructor
    · rintro ⟨ho, hu⟩
      refine ⟨t.source p.extent o, u, ⟨t.source_mem_ofExtent.2 ho, ?_⟩, t.cell_source _ _, rfl⟩
      rw [← hu, tileAt_pattern t ho]
    · rintro ⟨o, u, ⟨ho, hu⟩, rfl, rfl⟩
      exact ⟨t.cell_mem_ofExtent.2 ho, (tileAt_pattern_cell t ho).trans hu⟩
  · apply (nodup p).map_on
    intro q _ q' _ h
    obtain ⟨ho, hu⟩ := Prod.mk.inj h
    exact Prod.ext (t.cell_injective ho) hu

end Notice

section Stamp

variable {g : Grid} {p : Pattern} {corner : Cell}

lemma tileAt_grid_stamp (inside : (⟨corner, p.extent⟩ : Box).Inside g.extent) {c : Cell}
    (hc : c ∈ g.bounds) :
    ((t.grid g).stamp (t.pattern p) (t.corner g.extent ⟨corner, p.extent⟩)).tileAt
        (t.cell g.extent c) = (g.stamp p corner).tileAt c := by
  have inside' : (⟨t.corner g.extent ⟨corner, p.extent⟩, (t.pattern p).extent⟩ : Box).Inside
      (t.grid g).extent := by
    rw [extent_pattern, extent_grid]
    exact t.inside_box.2 inside
  by_cases hm : c ∈ (⟨corner, p.extent⟩ : Box)
  · obtain ⟨o, ho, rfl⟩ := Box.exists_add_of_mem hm
    have moved : t.cell p.extent o ∈ Box.ofExtent (t.pattern p).extent := by
      rw [extent_pattern]
      exact t.cell_mem_ofExtent.2 ho
    have place := t.corner_add_cell g.extent o ⟨corner, p.extent⟩
    rw [Grid.tileAt_stamp_add inside ho, ← tileAt_pattern_cell t ho, ← tileAt_grid t hc, ← place]
    exact Grid.tileAt_stamp_add inside' moved
  · rw [Grid.tileAt_stamp_of_notMem inside hc hm, ← tileAt_grid t hc]
    apply Grid.tileAt_stamp_of_notMem inside' (t.cell_mem_ofExtent.2 hc)
    rw [extent_pattern]
    exact fun h => hm (t.cell_mem_box.1 h)

lemma stamp_grid (inside : (⟨corner, p.extent⟩ : Box).Inside g.extent) :
    (t.grid g).stamp (t.pattern p) (t.corner g.extent ⟨corner, p.extent⟩) =
      t.grid (g.stamp p corner) := by
  have extent : (g.stamp p corner).extent = g.extent := Grid.extent_stamp
  apply Grid.ext_tileAt
  · rw [Grid.extent_stamp, extent_grid, extent_grid, extent]
  · intro c hc
    have hc' : c ∈ (t.grid g).bounds := by rwa [Grid.bounds, Grid.extent_stamp] at hc
    obtain ⟨d, hd, rfl⟩ := t.exists_cell_of_mem_bounds hc'
    rw [tileAt_grid_stamp t inside hd]
    have hd' : d ∈ (g.stamp p corner).bounds := by rwa [Grid.bounds, extent]
    rw [← tileAt_grid t hd', extent]
  · rw [Grid.pending_stamp, grid, Grid.pending_stamp]
    rfl
  · have noticed : Grid.noticed (t.corner g.extent ⟨corner, p.extent⟩) (t.pattern p).cells
        (t.grid g).pending = (Grid.noticed corner p.cells g.pending).map (t.box g.extent) := by
      rw [Grid.noticed_perm (t.cells_pattern_perm p)]
      exact t.noticed_map_box g.extent ⟨corner, p.extent⟩ p.cells g.pending
    rw [Grid.events_stamp, noticed]
    simp only [grid, Grid.events_stamp, extent]
    cases Grid.noticed corner p.cells g.pending with
    | none => rfl
    | some b => simp

end Stamp

end Motion

end TileGrammar
