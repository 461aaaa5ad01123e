import TileGrammar.Proofs.Geometry.Hull
import TileGrammar.Proofs.Grid.Stamp

namespace TileGrammar.Grid

section Fields

variable (g : Grid) (c : Cell) (t : Tile)

@[simp] lemma pending_store : (g.store c t).pending = g.pending := by
  rw [store]
  split <;> rfl

@[simp] lemma events_store : (g.store c t).events = g.events := by
  rw [store]
  split <;> rfl

@[simp] lemma events_write : (g.write c t).events = g.events := events_store g c t

def touch (pending : Option Box) (c : Cell) : Option Box :=
  some (match pending with
    | none => Box.single c
    | some b => b.hull (Box.single c))

lemma pending_write : (g.write c t).pending = touch g.pending c := by
  simp only [write, mark, pending_store]
  rfl

@[simp] lemma pending_flush : g.flush.pending = none := by
  rw [flush]
  split
  · assumption
  · rfl

lemma events_flush : g.flush.events = g.pending.elim g.events g.events.push := by
  rw [flush]
  split <;> simp_all [announce]

end Fields

lemma touch_right_comm (pending : Option Box) (c d : Cell) :
    touch (touch pending c) d = touch (touch pending d) c := by
  cases pending with
  | none =>
    exact congrArg some (Box.hull_comm_of_proper (Box.proper_single c) (Box.proper_single d))
  | some b =>
    exact congrArg some (Box.hull_right_comm b (Box.proper_single c) (Box.proper_single d))

def noticed (corner : Cell) (cells : List (Cell × Tile)) (pending : Option Box) : Option Box :=
  cells.foldl (fun b p => if p.2.isWildcard then b else touch b (corner + p.1)) pending

lemma noticed_cons (corner o : Cell) (t : Tile) (cells : List (Cell × Tile))
    (pending : Option Box) : noticed corner ((o, t) :: cells) pending =
      noticed corner cells (if t.isWildcard then pending else touch pending (corner + o)) := rfl

lemma noticed_perm {cells cells' : List (Cell × Tile)} (h : cells.Perm cells') (corner : Cell)
    (pending : Option Box) : noticed corner cells pending = noticed corner cells' pending := by
  apply h.foldl_eq'
  intro p _ q _ b
  by_cases hp : p.2.isWildcard = true
  · simp [hp]
  · by_cases hq : q.2.isWildcard = true
    · simp [hq]
    · simp only [hp, hq]
      exact touch_right_comm b _ _

def Encloses (pending : Option Box) (cells : Cell → Prop) : Prop :=
  pending.elim (∀ e, ¬ cells e) fun b => (∃ e, cells e) ∧ b.IsHullOf cells

namespace Encloses

variable {pending : Option Box} {written : Cell → Prop}

lemma touch (h : Encloses pending written) (c : Cell) :
    Encloses (touch pending c) fun e => written e ∨ e = c := by
  refine ⟨⟨c, .inr rfl⟩, ?_⟩
  cases pending with
  | none =>
    have same : (fun e => written e ∨ e = c) = (· = c) := by
      funext e
      exact propext (or_iff_right (h e))
    rw [same]
    exact Box.isHullOf_single c
  | some b => exact h.2.hull_single c

lemma noticed (h : Encloses pending written) (corner : Cell) (cells : List (Cell × Tile)) :
    Encloses (noticed corner cells pending) fun e =>
      written e ∨ ∃ p ∈ cells, p.2 ≠ .wildcard ∧ corner + p.1 = e := by
  induction cells generalizing pending written with
  | nil => simpa [Grid.noticed] using h
  | cons q cells ih =>
    obtain ⟨o, t⟩ := q
    rw [noticed_cons]
    by_cases ht : t.isWildcard = true
    · have wild := Tile.isWildcard_iff.1 ht
      rw [if_pos ht]
      simpa [wild] using ih h
    · have solid : t ≠ .wildcard := fun wild => ht (Tile.isWildcard_iff.2 wild)
      rw [if_neg ht]
      simpa [solid, or_assoc, eq_comm] using ih (h.touch (corner + o))

end Encloses

section Stamp

variable (g : Grid) (corner : Cell) (cells : List (Cell × Tile)) (p : Pattern)

lemma pending_writeCells :
    (g.writeCells corner cells).pending = noticed corner cells g.pending := by
  induction cells generalizing g with
  | nil => rfl
  | cons q cells ih =>
    obtain ⟨o, t⟩ := q
    rw [writeCells_cons, noticed_cons, ih]
    split
    · rfl
    · rw [pending_write]

lemma events_writeCells : (g.writeCells corner cells).events = g.events := by
  induction cells generalizing g with
  | nil => rfl
  | cons q cells ih =>
    obtain ⟨o, t⟩ := q
    rw [writeCells_cons, ih]
    split
    · rfl
    · rw [events_write]

@[simp] lemma pending_stamp : (g.stamp p corner).pending = none := by
  rw [stamp_eq, pending_flush]

lemma events_stamp : (g.stamp p corner).events =
    (noticed corner p.cells g.pending).elim g.events g.events.push := by
  rw [stamp_eq, events_flush, pending_writeCells, events_writeCells]

end Stamp

end TileGrammar.Grid
