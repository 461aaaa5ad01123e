import TileGrammar.Proofs.Generation.Rescan
import TileGrammar.Proofs.Generation.Start
import TileGrammar.Proofs.Grid.Imprint
import TileGrammar.Proofs.Tally.Total

namespace TileGrammar

/-- On every axis the margin below the box is that above it, or one cell less. -/
def Box.Centered (b : Box) (e : Cell) : Prop :=
  b.corner ≤ e - b.top ∧ e - b.top ≤ b.corner + Cell.unit

structure Grid.Seeded (p : Pattern) (corner : Cell) (g h : Grid) : Prop where
  inside : (p.blockAt corner).Inside g.extent
  centered : (p.blockAt corner).Centered g.extent
  extent_eq : h.extent = g.extent
  tileAt_of_written : ∀ q ∈ p.cells, q.2 ≠ .wildcard → h.tileAt (corner + q.1) = q.2
  tileAt_of_unwritten : ∀ c ∈ g.bounds, ¬ p.WritesAt corner c → h.tileAt c = g.tileAt c

lemma centered_centeredCorner {e block : Cell} (h : block ≤ e) :
    (⟨centeredCorner e block, block⟩ : Box).Centered e := by
  rw [Cell.le_iff] at h
  simp only [Box.Centered, Cell.le_iff, centeredCorner, Cell.map, Box.top, Cell.add_x, Cell.add_y,
    Cell.add_z, Cell.sub_x, Cell.sub_y, Cell.sub_z, Cell.unit, Cell.diagonal]
  rw [Int.tdiv_eq_ediv_of_nonneg (by omega), Int.tdiv_eq_ediv_of_nonneg (by omega),
    Int.tdiv_eq_ediv_of_nonneg (by omega)]
  omega

namespace Grid

variable {g : Grid} {rs : RuleSet} {p : Pattern}

lemma seeded_placeStart (start : rs.start = some p) (fits : p.extent ≤ g.extent) :
    Seeded p (centeredCorner g.extent p.extent) g (g.placeStart rs) := by
  have inside := inside_centeredCorner fits
  have placed : g.placeStart rs = g.stamp p (centeredCorner g.extent p.extent) := by
    rw [placeStart, start]
    exact if_pos fits
  rw [placed]
  exact {
    inside
    centered := centered_centeredCorner fits
    extent_eq := extent_stamp
    tileAt_of_written := fun _ hq solid => tileAt_stamp_of_mem_cells inside hq solid
    tileAt_of_unwritten := fun _ hc unwritten => tileAt_stamp_of_unwritten inside hc unwritten }

lemma placeStart_of_oversized (start : rs.start = some p) (oversized : ¬ p.extent ≤ g.extent) :
    g.placeStart rs = g := by
  rw [placeStart, start]
  exact if_neg oversized

end Grid

namespace Generation

variable {σ : Type}

structure Fresh (rs : RuleSet) (g : Generation σ) : Prop where
  step_eq : g.step = 0
  count_eq : ∀ name, g.uses.count name = 0
  mem_names_iff : ∀ name, name ∈ g.uses.names ↔ name ∈ rs.names
  status_eq : g.cache.status = .uninitialized
  phase_eq : g.phase = .seeded

variable [RandomSource σ]

lemma fresh_reset (g : Generation σ) (rs : RuleSet) (seed : Option UInt64) :
    (g.reset rs seed).Fresh rs where
  step_eq := rfl
  count_eq := Tally.count_zero rs.names
  mem_names_iff _ := Tally.mem_names_zero
  status_eq := rfl
  phase_eq := rfl

theorem reset_seeds_grid (g : Generation σ) {rs : RuleSet} {p : Pattern} (start : rs.start = some p)
    (seed : Option UInt64) :
    (p.extent ≤ g.grid.extent → ∃ corner, Grid.Seeded p corner g.grid (g.reset rs seed).grid) ∧
    (¬ p.extent ≤ g.grid.extent → (g.reset rs seed).grid = g.grid) ∧
    (g.reset rs seed).Fresh rs :=
  ⟨fun fits => ⟨_, Grid.seeded_placeStart start fits⟩, Grid.placeStart_of_oversized start,
    g.fresh_reset rs seed⟩

theorem reset_seeds_grid_holed :
    let holed : Pattern := {
      extent := ⟨2, 1, 2⟩
      tiles := #[⟨"S"⟩, ⟨"*"⟩, ⟨"S"⟩, ⟨"S"⟩]
      proper := by decide
      size_tiles := rfl }
    let deep : Pattern := {
      extent := ⟨1, 1, 5⟩
      tiles := .replicate 5 ⟨"S"⟩
      proper := by decide
      size_tiles := rfl }
    let g : Generation Script := {
      grid := {
        extent := ⟨5, 1, 4⟩
        tiles := .replicate 20 ⟨"."⟩
        proper := by decide
        size_tiles := rfl }
      strategy := .first
      source := { numbers := [] }
      step := 7
      uses := Tally.empty.increment "begin"
      cache := ⟨some []⟩
      phase := .stepping }
    let rules (p : Pattern) : RuleSet := { Relay.rules with start := some p }
    holed.extent ≤ g.grid.extent ∧
      (∃ corner, Grid.Seeded holed corner g.grid (g.reset (rules holed) none).grid) ∧
      (g.reset (rules holed) none).grid.layersText = "y=0\n.....\n.S...\n.SS..\n.....\n" ∧
      ¬ deep.extent ≤ g.grid.extent ∧ (g.reset (rules deep) none).grid = g.grid ∧
      (g.reset (rules deep) none).Fresh (rules deep) := by
  intro holed deep g rules
  have fits : holed.extent ≤ g.grid.extent := by decide
  have oversized : ¬ deep.extent ≤ g.grid.extent := by decide
  have small := reset_seeds_grid g (show (rules holed).start = some holed from rfl) none
  have large := reset_seeds_grid g (show (rules deep).start = some deep from rfl) none
  exact ⟨fits, small.1 fits, by decide +kernel, oversized, large.2.1 oversized, large.2.2⟩

end Generation

end TileGrammar
