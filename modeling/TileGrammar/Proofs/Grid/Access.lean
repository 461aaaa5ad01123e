import TileGrammar.Proofs.Grid.Resolution
import Mathlib.Data.List.Basic

/-!
Grids whose accesses are logged. The operations of this file and of those that build on it are the
operations on grids with every access to the storage written to a log, and yield the same values.
An access is safe if its cell lies inside the grid as it is at that moment.
-/

namespace TileGrammar

structure Access where
  grid : Grid
  cell : Cell

namespace Access

/-- The place of the cell is one of the storage, and no other cell of the grid is stored there. -/
structure Safe (a : Access) : Prop where
  mem_bounds : a.cell ∈ a.grid.bounds
  position_nonneg : 0 ≤ a.grid.extent.position a.cell
  position_lt : a.grid.extent.position a.cell < a.grid.tiles.size
  unique : ∀ c ∈ a.grid.bounds,
    a.grid.extent.position c = a.grid.extent.position a.cell → c = a.cell

lemma safe_iff {a : Access} : a.Safe ↔ a.cell ∈ a.grid.bounds := by
  constructor
  · exact Safe.mem_bounds
  · intro h
    refine ⟨h, Cell.position_nonneg a.grid.proper h, ?_, fun c hc => Grid.position_inj hc h⟩
    rw [a.grid.size_tiles]
    exact Cell.position_lt a.grid.proper h

end Access

structure Logged (α : Type) where
  value : α
  log : List Access

namespace Logged

instance : Monad Logged where
  pure a := ⟨a, []⟩
  bind x f := ⟨(f x.value).value, x.log ++ (f x.value).log⟩

variable {α β : Type}

def select (p : α → Logged Bool) (l : List α) : Logged (List α) where
  value := l.filter fun a => (p a).value
  log := l.flatMap fun a => (p a).log

def collect (f : α → Logged (List β)) (l : List α) : Logged (List β) where
  value := l.flatMap fun a => (f a).value
  log := l.flatMap fun a => (f a).log

def tabulate {n : Nat} (f : Fin n → Logged α) : Logged (Fin n → α) where
  value i := (f i).value
  log := (List.finRange n).flatMap fun i => (f i).log

structure Yields (x : Logged α) (a : α) : Prop where
  value_eq : x.value = a
  safe : ∀ e ∈ x.log, e.Safe

section Yields

lemma yields_pure (a : α) : (pure a : Logged α).Yields a := by
  refine ⟨rfl, fun e he => ?_⟩
  cases he

lemma Yields.bind {x : Logged α} {a : α} {f : α → Logged β} {b : β} (hx : x.Yields a)
    (hf : (f a).Yields b) : (x >>= f).Yields b := by
  obtain ⟨rfl, hx⟩ := hx
  refine ⟨hf.value_eq, fun e he => ?_⟩
  rcases List.mem_append.1 he with he | he
  · exact hx e he
  · exact hf.safe e he

lemma Yields.then {x : Logged α} {a : α} (hx : x.Yields a) (f : α → β) :
    (x >>= fun a => pure (f a)).Yields (f a) := hx.bind (yields_pure (f a))

lemma yields_select {p : α → Logged Bool} {q : α → Bool} {l : List α}
    (h : ∀ a ∈ l, (p a).Yields (q a)) : (select p l).Yields (l.filter q) where
  value_eq := List.filter_congr fun a ha => (h a ha).value_eq
  safe e he := by
    obtain ⟨a, ha, he⟩ := List.mem_flatMap.1 he
    exact (h a ha).safe e he

lemma yields_collect {f : α → Logged (List β)} {g : α → List β} {l : List α}
    (h : ∀ a ∈ l, (f a).Yields (g a)) : (collect f l).Yields (l.flatMap g) where
  value_eq := List.flatMap_congr fun a ha => (h a ha).value_eq
  safe e he := by
    obtain ⟨a, ha, he⟩ := List.mem_flatMap.1 he
    exact (h a ha).safe e he

lemma yields_tabulate {n : Nat} {f : Fin n → Logged α} {g : Fin n → α}
    (h : ∀ i, (f i).Yields (g i)) : (tabulate f).Yields g where
  value_eq := funext fun i => (h i).value_eq
  safe e he := by
    obtain ⟨i, -, he⟩ := List.mem_flatMap.1 he
    exact (h i).safe e he

lemma yields_allM {p : α → Logged Bool} {q : α → Bool} {l : List α}
    (h : ∀ a ∈ l, (p a).Yields (q a)) : (l.allM p).Yields (l.all q) := by
  induction l with
  | nil => exact yields_pure true
  | cons a l ih =>
    rw [List.forall_mem_cons] at h
    refine h.1.bind ?_
    rw [List.all_cons]
    cases q a with
    | false => exact yields_pure false
    | true => exact ih h.2

lemma yields_foldlM {f : β → α → Logged β} {g : β → α → β} {l : List α} (Inv : β → Prop)
    (h : ∀ b, Inv b → ∀ a ∈ l, (f b a).Yields (g b a) ∧ Inv (g b a)) {b : β} (hb : Inv b) :
    (l.foldlM f b).Yields (l.foldl g b) := by
  induction l generalizing b with
  | nil => exact yields_pure b
  | cons a l ih =>
    obtain ⟨now, next⟩ := h b hb a List.mem_cons_self
    exact now.bind (ih (fun b hb a ha => h b hb a (List.mem_cons_of_mem _ ha)) next)

end Yields

section Cells

def readAt (g : Grid) (c : Cell) : Logged Tile := ⟨g.tileAt c, [⟨g, c⟩]⟩

def writeAt (g : Grid) (c : Cell) (t : Tile) : Logged Grid := ⟨g.write c t, [⟨g, c⟩]⟩

def allows (g : Grid) (cells : List (Cell × Tile)) (corner : Cell) : Logged Bool :=
  cells.allM fun (offset, tile) => do
    let found ← readAt g (corner + offset)
    return tile.accepts found

def stamp (g : Grid) (p : Pattern) (corner : Cell) : Logged Grid := do
  let g ← p.cells.foldlM (fun g (offset, tile) =>
    if tile.isWildcard then pure g else writeAt g (corner + offset) tile) g
  return g.flush

variable {g : Grid} {c corner : Cell} {p : Pattern}

lemma yields_readAt (h : c ∈ g.bounds) : (readAt g c).Yields (g.tileAt c) := by
  refine ⟨rfl, fun e he => ?_⟩
  rw [List.mem_singleton.1 he]
  exact Access.safe_iff.2 h

lemma yields_writeAt (h : c ∈ g.bounds) (t : Tile) : (writeAt g c t).Yields (g.write c t) := by
  refine ⟨rfl, fun e he => ?_⟩
  rw [List.mem_singleton.1 he]
  exact Access.safe_iff.2 h

lemma yields_allows (inside : (⟨corner, p.extent⟩ : Box).Inside g.extent) :
    (allows g p.cells corner).Yields (p.occursAt g corner) := by
  apply yields_allM
  intro q hq
  exact (yields_readAt (Grid.forall_cells_mem_bounds inside q hq)).then _

lemma yields_stamp (inside : (⟨corner, p.extent⟩ : Box).Inside g.extent) :
    (stamp g p corner).Yields (g.stamp p corner) := by
  refine Yields.then (yields_foldlM (fun h => h.extent = g.extent) ?_ rfl) Grid.flush
  intro h he q hq
  have mem : corner + q.1 ∈ h.bounds := by
    rw [Grid.bounds, he]
    exact Grid.forall_cells_mem_bounds inside q hq
  dsimp only
  split
  · exact ⟨yields_pure h, he⟩
  · exact ⟨yields_writeAt mem q.2, (Grid.extent_write h _ _).trans he⟩

end Cells

section Resolution

def resample (g : Grid) (extent : Cell) (proper : extent.Proper) (source : Cell → Cell) :
    Logged Grid := do
  let tile ← tabulate fun n : Fin extent.volume => readAt g (source (extent.ofPosition n))
  return {
    extent, proper
    tiles := Array.ofFn tile
    pending := g.pending
    events := g.events
    size_tiles := Array.size_ofFn }

def split (g : Grid) (factor : Int) : Logged Grid :=
  if h : 1 ≤ factor ∧ (Grid.splitExtent g.extent factor).volume ≤ Grid.maxCells then do
    let scale := Grid.splitScale g.extent factor
    let g ← resample g (Grid.splitExtent g.extent factor) (Grid.proper_splitExtent g.proper h.1)
      fun c => c.zipWith (· / ·) scale
    return g.announceAll
  else pure g

def merge (g : Grid) (factor : Int) : Logged Grid := do
  let g ← resample g (Grid.mergeExtent g.extent factor) (Grid.proper_mergeExtent g.extent factor)
    fun c => min (c.map (· * factor)) (g.extent - Cell.unit)
  return g.announceAll

def subdivideGrid (g : Grid) (levels : Int) : Logged Grid :=
  let factor := Nat.pow 2 (min levels.natAbs Grid.maxLevels)
  if levels = 0 then pure g
  else if 0 < levels then split g factor
  else merge g factor

variable {g : Grid}

lemma yields_resample {extent : Cell} (proper : extent.Proper) {source : Cell → Cell}
    (h : ∀ c ∈ Box.ofExtent extent, source c ∈ g.bounds) :
    (resample g extent proper source).Yields (g.resample extent proper source) := by
  refine (yields_tabulate (g := fun n => g.tileAt (source (extent.ofPosition n))) ?_).then _
  intro n
  exact yields_readAt (h _ (Cell.ofPosition_mem proper n.isLt))

lemma yields_split (factor : Nat) : (split g factor).Yields (g.split factor) := by
  have cast : 1 ≤ (factor : Int) ↔ 1 ≤ factor := by omega
  simp only [split, Grid.split, cast]
  split
  · rename_i h
    exact (yields_resample _ fun c hc => Grid.zipWith_div_mem_bounds (cast.2 h.1) hc).then _
  · exact yields_pure g

lemma yields_merge (factor : Nat) : (merge g factor).Yields (g.merge factor) :=
  (yields_resample _ fun _ hc => Grid.min_map_mul_mem_bounds factor hc).then _

lemma yields_subdivideGrid (levels : Int) :
    (subdivideGrid g levels).Yields (g.subdivide levels) := by
  rw [subdivideGrid, Grid.subdivide]
  split
  · exact yields_pure g
  · split
    · exact yields_split _
    · exact yields_merge _

end Resolution

end Logged

end TileGrammar
