import TileGrammar.Grid.Resolution
import TileGrammar.Match.Search
import TileGrammar.Proofs.Grid.Stamp

namespace TileGrammar

structure Grid.Twins (g h : Grid) : Prop where
  extent_eq : g.extent = h.extent
  tiles_eq : g.tiles = h.tiles

namespace Grid.Twins

variable {g h : Grid}

lemma tileAt_eq (t : g.Twins h) : g.tileAt = h.tileAt := tileAt_congr t.extent_eq t.tiles_eq

-- the proofs inside a grid depend on its extent, so the second grid is rewritten as a whole
lemma exists_eq (t : g.Twins h) : ∃ pending events, h = { g with pending, events } := by
  obtain ⟨extent, tiles, pending, events, proper, size_tiles⟩ := h
  obtain ⟨rfl, rfl⟩ := t
  exact ⟨pending, events, rfl⟩

section Write

lemma store (t : g.Twins h) (c : Cell) (tile : Tile) : (g.store c tile).Twins (h.store c tile) := by
  obtain ⟨pending, events, rfl⟩ := t.exists_eq
  by_cases negative : g.extent.position c < 0
  · simp only [Grid.store, if_pos negative]
    exact t
  · simp only [Grid.store, if_neg negative]
    exact ⟨rfl, rfl⟩

lemma write (t : g.Twins h) (c : Cell) (tile : Tile) : (g.write c tile).Twins (h.write c tile) :=
  ⟨(t.store c tile).extent_eq, (t.store c tile).tiles_eq⟩

lemma writeCells (t : g.Twins h) (corner : Cell) (cells : List (Cell × Tile)) :
    (g.writeCells corner cells).Twins (h.writeCells corner cells) := by
  induction cells generalizing g h with
  | nil => exact t
  | cons p cells ih =>
    obtain ⟨o, tile⟩ := p
    rw [writeCells_cons, writeCells_cons]
    apply ih
    split
    · exact t
    · exact t.write (corner + o) tile

lemma flush (t : g.Twins h) : g.flush.Twins h.flush where
  extent_eq := by rw [extent_flush, extent_flush, t.extent_eq]
  tiles_eq := by rw [tiles_flush, tiles_flush, t.tiles_eq]

lemma stamp (t : g.Twins h) (p : Pattern) (corner : Cell) :
    (g.stamp p corner).Twins (h.stamp p corner) := by
  rw [stamp_eq, stamp_eq]
  exact (t.writeCells corner p.cells).flush

lemma of_fill (extent : g.extent = h.extent) (tile : Tile) : (g.fill tile).Twins (h.fill tile) :=
  ⟨extent, congrArg (fun e : Cell => Array.replicate e.volume tile) extent⟩

lemma rewrite (t : g.Twins h) (rs : RuleSet) (m : Match) :
    (g.rewrite rs m).Twins (h.rewrite rs m) := by
  rw [Grid.rewrite, Grid.rewrite]
  cases rs.replacement? m with
  | none => exact t
  | some r => exact t.stamp r.2 m.corner

lemma foldl_rewrite (t : g.Twins h) (rs : RuleSet) (ms : List Match) :
    (ms.foldl (fun g m => g.rewrite rs m) g).Twins (ms.foldl (fun h m => h.rewrite rs m) h) := by
  induction ms generalizing g h with
  | nil => exact t
  | cons m ms ih => exact ih (t.rewrite rs m)

end Write

section Resolution

lemma resample (t : g.Twins h) (extent : Cell) (proper : extent.Proper) (source : Cell → Cell) :
    (g.resample extent proper source).Twins (h.resample extent proper source) := by
  refine ⟨rfl, ?_⟩
  simp only [Grid.resample, t.tileAt_eq]

lemma announceAll (t : g.Twins h) : g.announceAll.Twins h.announceAll :=
  ⟨t.extent_eq, t.tiles_eq⟩

lemma split (t : g.Twins h) (factor : Nat) : (g.split factor).Twins (h.split factor) := by
  obtain ⟨pending, events, rfl⟩ := t.exists_eq
  by_cases fits : 1 ≤ factor ∧ (splitExtent g.extent factor).volume ≤ maxCells
  · simp only [Grid.split, dif_pos fits]
    exact (t.resample _ _ _).announceAll
  · simp only [Grid.split, dif_neg fits]
    exact t

lemma merge (t : g.Twins h) (factor : Nat) : (g.merge factor).Twins (h.merge factor) := by
  obtain ⟨pending, events, rfl⟩ := t.exists_eq
  exact (t.resample _ _ _).announceAll

lemma subdivide (t : g.Twins h) (levels : Int) :
    (g.subdivide levels).Twins (h.subdivide levels) := by
  rw [Grid.subdivide, Grid.subdivide]
  split
  · exact t
  · split
    · exact t.split _
    · exact t.merge _

end Resolution

section Search

variable (rs : RuleSet) (uses : Tally) (step : Nat)

lemma occurrences_eq (t : g.Twins h) (p : Pattern) (region : Box) :
    p.occurrences g region = p.occurrences h region := by
  have allows_eq : g.allows p.cells = h.allows p.cells := by
    funext corner
    rw [Grid.allows, Grid.allows, t.tileAt_eq]
  rw [Pattern.occurrences, Pattern.occurrences, t.extent_eq]
  dsimp only
  rw [allows_eq]

lemma findIn_eq (t : g.Twins h) (region : Box) :
    findIn g rs uses step region = findIn h rs uses step region := by
  have matchesIn_eq : ∀ (rule : Rule) (place : Nat),
      rule.matchesIn place g region = rule.matchesIn place h region := by
    intro rule place
    simp only [Rule.matchesIn, t.occurrences_eq]
  simp only [findIn, matchesIn_eq]

lemma findAll_eq (t : g.Twins h) : findAll g rs uses step = findAll h rs uses step := by
  rw [findAll, t.findIn_eq, bounds, t.extent_eq]
  rfl

end Search

end Grid.Twins

end TileGrammar
