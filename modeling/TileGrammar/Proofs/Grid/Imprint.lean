import TileGrammar.Proofs.Grid.Notice
import TileGrammar.Proofs.Grid.Resolution
import TileGrammar.Proofs.Match.Occurrence

namespace TileGrammar

def Pattern.WritesAt (p : Pattern) (corner c : Cell) : Prop :=
  ∃ q ∈ p.cells, q.2 ≠ .wildcard ∧ corner + q.1 = c

namespace Grid

structure Imprinted (p : Pattern) (corner : Cell) (g h : Grid) : Prop where
  extent_eq : h.extent = g.extent
  get?_of_written : ∀ q ∈ p.cells, q.2 ≠ .wildcard → h.get? (corner + q.1) = some q.2
  get?_of_unwritten : ∀ c, ¬ p.WritesAt corner c → h.get? c = g.get? c
  occursAt : p.occursAt h corner = true
  tiles_stamp : (h.stamp p corner).tiles = h.tiles
  pending_eq : h.pending = none
  announced : g.pending ≠ none ∨ (∃ c, p.WritesAt corner c) → ∃ b, h.events = g.events.push b ∧
    b.IsHullOf fun c => (∃ d, g.pending = some d ∧ c ∈ d) ∨ p.WritesAt corner c
  silent : g.pending = none → (∀ c, ¬ p.WritesAt corner c) → h.events = g.events
  corner_blockAt : (p.blockAt corner).corner = corner
  extent_blockAt : (p.blockAt corner).extent = p.extent
  mem_blockAt : ∀ c, p.WritesAt corner c → c ∈ p.blockAt corner

section Announced

variable {b : Box} {written : Cell → Prop} {pending : Option Box}

lemma exists_noticed_eq_some (h : b.IsHullOf written) (corner : Cell)
    (cells : List (Cell × Tile)) : ∃ d, noticed corner cells (some b) = some d ∧
      d.IsHullOf fun e => written e ∨ ∃ q ∈ cells, q.2 ≠ .wildcard ∧ corner + q.1 = e := by
  induction cells generalizing b written with
  | nil => exact ⟨b, rfl, by simpa using h⟩
  | cons q cells ih =>
    obtain ⟨o, t⟩ := q
    rw [noticed_cons]
    by_cases ht : t.isWildcard = true
    · have wild := Tile.isWildcard_iff.1 ht
      rw [if_pos ht]
      simpa [wild] using ih h
    · have solid : t ≠ .wildcard := fun wild => ht (Tile.isWildcard_iff.2 wild)
      rw [if_neg ht]
      simpa [touch, solid, or_assoc, eq_comm] using ih (h.hull_single (corner + o))

end Announced

section Stamp

variable {g : Grid} {p : Pattern} {corner c : Cell}

lemma tileAt_stamp_of_unwritten (inside : (p.blockAt corner).Inside g.extent) (hc : c ∈ g.bounds)
    (unwritten : ¬ p.WritesAt corner c) : (g.stamp p corner).tileAt c = g.tileAt c := by
  rw [stamp_eq, tileAt_flush]
  apply tileAt_writeCells_of_forall (forall_cells_mem_bounds inside) hc
  intro q hq he
  by_cases wild : q.2 = .wildcard
  · exact wild
  · exact absurd ⟨q, hq, wild, he⟩ unwritten

lemma tileAt_stamp_of_mem_cells (inside : (p.blockAt corner).Inside g.extent) {q : Cell × Tile}
    (hq : q ∈ p.cells) (solid : q.2 ≠ .wildcard) :
    (g.stamp p corner).tileAt (corner + q.1) = q.2 := by
  obtain ⟨ho, ht⟩ := Pattern.mem_cells.1 hq
  rw [tileAt_stamp_add inside ho, if_neg (ht ▸ solid), ht]

lemma occursAt_stamp (inside : (p.blockAt corner).Inside g.extent) :
    p.occursAt (g.stamp p corner) corner = true := by
  rw [Pattern.occursAt_iff]
  intro o ho
  rw [Tile.accepts_iff, tileAt_stamp_add inside ho]
  by_cases wild : p.tileAt o = .wildcard
  · exact .inl wild
  · exact .inr (if_neg wild).symm

lemma tiles_stamp_stamp (inside : (p.blockAt corner).Inside g.extent) :
    ((g.stamp p corner).stamp p corner).tiles = (g.stamp p corner).tiles := by
  have inside' : (p.blockAt corner).Inside (g.stamp p corner).extent := by rwa [extent_stamp]
  apply tiles_eq_of_tileAt extent_stamp
  intro c hc
  rw [bounds, extent_stamp] at hc
  by_cases written : p.WritesAt corner c
  · obtain ⟨q, hq, solid, rfl⟩ := written
    rw [tileAt_stamp_of_mem_cells inside' hq solid, tileAt_stamp_of_mem_cells inside hq solid]
  · rw [tileAt_stamp_of_unwritten inside' hc written]

lemma announced_stamp (b : Box) (pending : g.pending = some b) (p : Pattern) (corner : Cell) :
    ∃ d, (g.stamp p corner).events = g.events.push d ∧
      d.IsHullOf fun c => c ∈ b ∨ p.WritesAt corner c := by
  have self : b.IsHullOf (· ∈ b) := ⟨fun _ he => he, fun _ hold _ he => hold _ he⟩
  obtain ⟨d, noticed, hull⟩ := exists_noticed_eq_some self corner p.cells
  exact ⟨d, by rw [events_stamp, pending, noticed, Option.elim_some], hull⟩

lemma encloses_noticed_none (p : Pattern) (corner : Cell) :
    Encloses (noticed corner p.cells none) (p.WritesAt corner) := by
  have calm : Encloses none fun _ => False := fun _ => id
  have same : p.WritesAt corner =
      fun c => False ∨ ∃ q ∈ p.cells, q.2 ≠ .wildcard ∧ corner + q.1 = c :=
    funext fun _ => (false_or _).symm
  rw [same]
  exact calm.noticed corner p.cells

lemma silent_stamp (calm : g.pending = none) (unwritten : ∀ c, ¬ p.WritesAt corner c) :
    (g.stamp p corner).events = g.events := by
  have encloses := encloses_noticed_none p corner
  rw [events_stamp, calm]
  cases noticed : noticed corner p.cells none with
  | none => rfl
  | some b =>
    rw [noticed] at encloses
    obtain ⟨c, hc⟩ := encloses.1
    exact absurd hc (unwritten c)

lemma announced_stamp_of_calm (calm : g.pending = none) (written : ∃ c, p.WritesAt corner c) :
    ∃ d, (g.stamp p corner).events = g.events.push d ∧ d.IsHullOf (p.WritesAt corner) := by
  have encloses := encloses_noticed_none p corner
  rw [events_stamp, calm]
  cases noticed : noticed corner p.cells none with
  | none =>
    rw [noticed] at encloses
    obtain ⟨c, hc⟩ := written
    exact absurd hc (encloses c)
  | some b =>
    rw [noticed] at encloses
    exact ⟨b, rfl, encloses.2⟩

end Stamp

theorem stamp_imprints {g : Grid} {p : Pattern} {corner : Cell}
    (inside : (p.blockAt corner).Inside g.extent) :
    Imprinted p corner g (g.stamp p corner) where
  extent_eq := extent_stamp
  get?_of_written := by
    intro q hq solid
    have hc := forall_cells_mem_bounds inside q hq
    rw [← tileAt_stamp_of_mem_cells inside hq solid]
    apply tileAt_of_mem
    rwa [bounds, extent_stamp]
  get?_of_unwritten := fun _ unwritten => get?_eq_of_tileAt extent_stamp fun hc => by
    rw [bounds, extent_stamp] at hc
    exact tileAt_stamp_of_unwritten inside hc unwritten
  occursAt := occursAt_stamp inside
  tiles_stamp := tiles_stamp_stamp inside
  pending_eq := pending_stamp g corner p
  announced := by
    intro due
    cases pending : g.pending with
    | none =>
      have written := due.resolve_left (not_not_intro pending)
      simpa using announced_stamp_of_calm pending written
    | some b => simpa using announced_stamp b pending p corner
  silent := silent_stamp
  corner_blockAt := rfl
  extent_blockAt := rfl
  mem_blockAt := by
    rintro c ⟨q, hq, -, rfl⟩
    exact Box.add_mem_iff.2 (Pattern.mem_cells.1 hq).1

theorem stamp_imprints_holed :
    let g : Grid := {
      extent := ⟨4, 1, 2⟩
      tiles := #[⟨"."⟩, ⟨"."⟩, ⟨"o"⟩, ⟨"."⟩, ⟨"."⟩, ⟨"."⟩, ⟨"."⟩, ⟨"."⟩]
      proper := by decide
      size_tiles := rfl }
    let p : Pattern := {
      extent := ⟨3, 1, 1⟩
      tiles := #[⟨"X"⟩, ⟨"*"⟩, ⟨"Y"⟩]
      proper := by decide
      size_tiles := rfl }
    let written := g.write ⟨0, 0, 1⟩ ⟨"q"⟩
    (p.blockAt ⟨1, 0, 0⟩).Inside written.extent ∧
      (written.stamp p ⟨1, 0, 0⟩).tiles =
        #[⟨"."⟩, ⟨"X"⟩, ⟨"o"⟩, ⟨"Y"⟩, ⟨"q"⟩, ⟨"."⟩, ⟨"."⟩, ⟨"."⟩] ∧
      (written.stamp p ⟨1, 0, 0⟩).events = #[⟨⟨0, 0, 0⟩, ⟨4, 1, 2⟩⟩] ∧
      Imprinted p ⟨1, 0, 0⟩ written (written.stamp p ⟨1, 0, 0⟩) := by
  intro g p written
  have inside : (p.blockAt ⟨1, 0, 0⟩).Inside written.extent := by decide
  exact ⟨inside, by decide +kernel, by decide +kernel, stamp_imprints inside⟩

end Grid

end TileGrammar
