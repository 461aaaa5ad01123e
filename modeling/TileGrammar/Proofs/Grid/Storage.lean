import TileGrammar.Proofs.Grid.Scale
import Mathlib.Logic.Equiv.Defs

namespace TileGrammar

namespace Cell

def IsWord (c : Cell) : Prop := diagonal (-2147483648) ≤ c ∧ c < diagonal 2147483648

lemma isWord_iff {c : Cell} : c.IsWord ↔
    (-2147483648 ≤ c.x ∧ -2147483648 ≤ c.y ∧ -2147483648 ≤ c.z) ∧
      c.x < 2147483648 ∧ c.y < 2147483648 ∧ c.z < 2147483648 := Iff.rfl

instance : DecidablePred IsWord := fun _ => decidable_of_iff _ isWord_iff.symm

lemma IsWord.of_le {d e : Cell} (he : e.IsWord) (proper : d.Proper) (le : d ≤ e) : d.IsWord := by
  rw [isWord_iff] at he ⊢
  rw [proper_iff] at proper
  rw [le_iff] at le
  omega

lemma le_diagonal_volume {e : Cell} (h : e.Proper) : e ≤ diagonal e.volume := by
  obtain ⟨hx, hy, hz⟩ := proper_iff.1 h
  have px : 0 < e.x.toNat := by omega
  have py : 0 < e.y.toNat := by omega
  have pz : 0 < e.z.toNat := by omega
  have vx : e.x.toNat ≤ e.volume := by
    rw [volume, Nat.mul_assoc]
    exact Nat.le_mul_of_pos_right _ (Nat.mul_pos py pz)
  have vy : e.y.toNat ≤ e.volume := by
    rw [volume, Nat.mul_comm e.x.toNat, Nat.mul_assoc]
    exact Nat.le_mul_of_pos_right _ (Nat.mul_pos px pz)
  have vz : e.z.toNat ≤ e.volume := Nat.le_mul_of_pos_left _ (Nat.mul_pos px py)
  refine le_iff.2 ⟨?_, ?_, ?_⟩ <;>
  · simp only [diagonal]
    omega

end Cell

namespace Grid

inductive Reachable : Grid → Prop where
  | create {extent : Cell} {fill : Tile} {g : Grid} (word : extent.IsWord)
      (created : create extent fill = .ok g) : Reachable g
  | change {g : Grid} {a : Change} (reached : Reachable g) (admits : g.Admits a) :
      Reachable (g.change a)
  | drain {g : Grid} (reached : Reachable g) : Reachable g.drain

structure Stored (g : Grid) : Prop where
  one_le_extent : 1 ≤ g.extent.x ∧ 1 ≤ g.extent.y ∧ 1 ≤ g.extent.z
  size_eq : (g.tiles.size : Int) = g.extent.x * g.extent.y * g.extent.z
  exists_equiv : ∃ places : {c // c ∈ g.bounds} ≃ Fin g.tiles.size,
    (∀ c, g.place? c.1 = some (places c).1) ∧ ∀ n, g.cellAt n.1 = (places.symm n).1
  place?_eq_none : ∀ c, c ∉ g.bounds → g.place? c = none
  get?_write : ∀ c ∈ g.bounds, ∀ t d, (g.write c t).get? d = if d = c then some t else g.get? d
  get?_writeLoudly : ∀ c ∈ g.bounds, ∀ t d,
    (g.writeLoudly c t).get? d = if d = c then some t else g.get? d
  size_subdivide_le : ∀ levels, g.tiles.size ≤ maxCells →
    (g.subdivide levels).tiles.size ≤ maxCells
  split_refused_iff : ∀ levels, 0 < levels →
    (g.subdivide levels = g ↔ ¬ (splitExtent g.extent (levelFactor levels)).IsWord ∨
      maxCells < (splitExtent g.extent (levelFactor levels)).volume)
  extent_of_split : ∀ levels, 0 < levels → g.subdivide levels ≠ g →
    (g.subdivide levels).extent = splitExtent g.extent (levelFactor levels)

section Place

variable {g : Grid} {c : Cell} {n : Nat}

lemma place?_of_mem (hc : c ∈ g.bounds) : g.place? c = some (g.extent.position c).toNat :=
  if_pos hc

lemma toNat_position_lt (hc : c ∈ g.bounds) : (g.extent.position c).toNat < g.tiles.size := by
  have h₀ := Cell.position_nonneg g.proper hc
  have h₁ := Cell.position_lt g.proper hc
  rw [g.size_tiles]
  omega

lemma cellAt_of_lt (word : g.extent.IsWord) (hn : n < g.tiles.size) :
    g.cellAt n = g.extent.ofPosition n := by
  have mem := Cell.ofPosition_mem g.proper (g.size_tiles ▸ hn)
  obtain ⟨⟨-, -, z₀⟩, -, -, z₁⟩ := Box.mem_ofExtent.1 mem
  have z₂ := (Cell.isWord_iff.1 word).2.2.2
  have small : (g.extent.ofPosition n).z.bmod 4294967296 = (g.extent.ofPosition n).z :=
    Int.bmod_eq_of_le (by omega) (by omega)
  simp only [cellAt, small]

lemma cellAt_mem (word : g.extent.IsWord) (hn : n < g.tiles.size) : g.cellAt n ∈ g.bounds := by
  rw [cellAt_of_lt word hn]
  exact Cell.ofPosition_mem g.proper (g.size_tiles ▸ hn)

lemma cellAt_position (word : g.extent.IsWord) (hc : c ∈ g.bounds) :
    g.cellAt (g.extent.position c).toNat = c := by
  rw [cellAt_of_lt word (toNat_position_lt hc)]
  exact Cell.ofPosition_position g.proper hc

lemma position_cellAt (word : g.extent.IsWord) (hn : n < g.tiles.size) :
    (g.extent.position (g.cellAt n)).toNat = n := by
  rw [cellAt_of_lt word hn, Cell.position_ofPosition g.proper, Int.toNat_natCast]

def places (g : Grid) (word : g.extent.IsWord) : {c // c ∈ g.bounds} ≃ Fin g.tiles.size where
  toFun c := ⟨(g.extent.position c.1).toNat, toNat_position_lt c.2⟩
  invFun n := ⟨g.cellAt n, cellAt_mem word n.2⟩
  left_inv c := Subtype.ext (cellAt_position word c.2)
  right_inv n := Fin.ext (position_cellAt word n.2)

end Place

section Write

variable {g h : Grid} {c : Cell} {t : Tile}

lemma get?_of_tileAt (extent : h.extent = g.extent) (hc : c ∈ g.bounds)
    (tileAt : ∀ d ∈ g.bounds, h.tileAt d = if d = c then t else g.tileAt d) (d : Cell) :
    h.get? d = if d = c then some t else g.get? d := by
  have bounds_eq : h.bounds = g.bounds := congrArg Box.ofExtent extent
  by_cases hd : d ∈ g.bounds
  · rw [tileAt_of_mem (bounds_eq ▸ hd), tileAt_of_mem hd, tileAt d hd]
    split <;> rfl
  · rw [get?_eq_none (bounds_eq ▸ hd), get?_eq_none hd, if_neg]
    rintro rfl
    exact hd hc

end Write

section Resolution

variable {g : Grid} {levels : Int}

lemma acceptsLevels_iff (positive : 0 < levels) : g.AcceptsLevels levels ↔
    (splitExtent g.extent (levelFactor levels)).volume ≤ maxCells :=
  ⟨fits_of_acceptsLevels positive, fun fits => .inr ⟨positive, fits⟩⟩

lemma subdivide_ne (accepted : g.AcceptsLevels levels) : g.subdivide levels ≠ g := by
  intro h
  have size := congrArg Array.size (events_subdivide accepted)
  rw [h, Array.size_push] at size
  omega

lemma subdivide_eq_self_iff : g.subdivide levels = g ↔ ¬ g.AcceptsLevels levels :=
  ⟨fun h accepted => subdivide_ne accepted h, subdivide_of_refused⟩

lemma isWord_of_volume_le {e : Cell} (proper : e.Proper) (fits : e.volume ≤ maxCells) :
    e.IsWord := by
  have le := Cell.le_iff.1 (Cell.le_diagonal_volume proper)
  rw [Cell.proper_iff] at proper
  rw [maxCells] at fits
  rw [Cell.isWord_iff]
  simp only [Cell.diagonal] at le
  omega

lemma split_refused_iff (positive : 0 < levels) : g.subdivide levels = g ↔
    ¬ (splitExtent g.extent (levelFactor levels)).IsWord ∨
      maxCells < (splitExtent g.extent (levelFactor levels)).volume := by
  have proper : (splitExtent g.extent (levelFactor levels)).Proper :=
    proper_splitExtent g.proper (Int.ofNat_le.2 (one_le_levelFactor levels))
  rw [subdivide_eq_self_iff, acceptsLevels_iff positive, Nat.not_le]
  constructor
  · exact .inr
  · rintro (long | many)
    · -- an extent that is no word alone makes too many cells
      exact Nat.lt_of_not_le (mt (isWord_of_volume_le proper) long)
    · exact many

lemma extent_of_split (positive : 0 < levels) (changed : g.subdivide levels ≠ g) :
    (g.subdivide levels).extent = splitExtent g.extent (levelFactor levels) := by
  rw [Ne, subdivide_eq_self_iff, not_not, acceptsLevels_iff positive] at changed
  rw [subdivide_of_pos g positive, extent_split (one_le_levelFactor levels) changed]

lemma mergeExtent_le {e : Cell} (h : e.Proper) (f : Nat) : mergeExtent e f ≤ e := by
  have axis (n : Int) (hn : 1 ≤ n) : max (n / f) 1 ≤ n := by
    have := Int.ediv_le_self f (show 0 ≤ n by omega)
    omega
  obtain ⟨hx, hy, hz⟩ := Cell.proper_iff.1 h
  exact Cell.le_iff.2 ⟨axis _ hx, axis _ hy, axis _ hz⟩

lemma extent_subdivide_cases (g : Grid) (levels : Int) :
    (g.subdivide levels).extent ≤ g.extent ∨ (g.subdivide levels).extent.volume ≤ maxCells := by
  have same : g.extent ≤ g.extent := Cell.le_iff.2 ⟨Int.le_refl _, Int.le_refl _, Int.le_refl _⟩
  rcases Int.lt_trichotomy levels 0 with negative | rfl | positive
  · rw [subdivide_of_neg g negative, extent_merge]
    exact .inl (mergeExtent_le g.proper _)
  · exact .inl same
  · by_cases fits : (splitExtent g.extent (levelFactor levels)).volume ≤ maxCells
    · rw [subdivide_of_pos g positive, extent_split (one_le_levelFactor levels) fits]
      exact .inr fits
    · rw [subdivide_of_refused (mt (acceptsLevels_iff positive).1 fits)]
      exact .inl same

lemma size_subdivide_le (g : Grid) (levels : Int) (fits : g.tiles.size ≤ maxCells) :
    (g.subdivide levels).tiles.size ≤ maxCells := by
  rw [size_tiles] at fits ⊢
  rcases extent_subdivide_cases g levels with le | fits'
  · exact Nat.le_trans (Cell.volume_mono le) fits
  · exact fits'

lemma isWord_subdivide (word : g.extent.IsWord) (levels : Int) :
    (g.subdivide levels).extent.IsWord := by
  have proper := (g.subdivide levels).proper
  rcases extent_subdivide_cases g levels with le | fits
  · exact word.of_le proper le
  · exact isWord_of_volume_le proper fits

end Resolution

section Reachable

variable {g : Grid}

lemma isWord_change (word : g.extent.IsWord) (a : Change) : (g.change a).extent.IsWord := by
  cases a with
  | write c t => rwa [change, extent_write]
  | writeLoudly c t => rwa [change, writeLoudly, announce, extent_store]
  | fill t => rwa [change, extent_fill]
  | flush => rwa [change, extent_flush]
  | subdivide levels => exact isWord_subdivide word levels

lemma Reachable.isWord (reached : g.Reachable) : g.extent.IsWord := by
  induction reached with
  | @create extent fill g word created =>
    rw [Grid.create] at created
    split at created
    · obtain rfl := Except.ok.inj created
      exact word
    · cases created
  | change reached admits ih => exact isWord_change ih _
  | drain reached ih => exact ih

end Reachable

theorem reachable_stored {g : Grid} (reached : g.Reachable) : g.Stored := by
  have word := reached.isWord
  exact {
    one_le_extent := Cell.proper_iff.1 g.proper
    size_eq := by rw [g.size_tiles, g.proper.cast_volume]
    exists_equiv := ⟨g.places word, fun c => place?_of_mem c.2, fun _ => rfl⟩
    place?_eq_none := fun c out => if_neg out
    get?_write := fun c hc t => get?_of_tileAt (extent_write g c t) hc fun d hd =>
      tileAt_write hc hd t
    get?_writeLoudly := fun c hc t => get?_of_tileAt (extent_store g c t) hc fun d hd =>
      tileAt_writeLoudly hc hd t
    size_subdivide_le := g.size_subdivide_le
    split_refused_iff := fun _ => split_refused_iff
    extent_of_split := fun _ => extent_of_split }

theorem reachable_stored_full : ∃ g : Grid,
    Grid.create ⟨2048, 1, 8192⟩ ⟨"."⟩ = .ok g ∧ (g.change (.subdivide 1)).Reachable ∧
      (g.change (.subdivide 1)).Stored ∧
      (g.change (.subdivide 1)).extent = ⟨4096, 1, 16384⟩ ∧
      (g.change (.subdivide 1)).tiles.size = maxCells ∧
      (g.change (.subdivide 1)).subdivide 1 = g.change (.subdivide 1) := by
  have proper : (⟨2048, 1, 8192⟩ : Cell).Proper := by decide
  have made : ∃ g, Grid.create ⟨2048, 1, 8192⟩ ⟨"."⟩ = .ok g ∧ g.extent = ⟨2048, 1, 8192⟩ :=
    ⟨_, dif_pos proper, rfl⟩
  obtain ⟨g, created, extent⟩ := made
  have start : g.Reachable := .create (by decide) created
  have finer : (g.subdivide 1).extent = ⟨4096, 1, 16384⟩ := by
    have stored := reachable_stored start
    have accepted : g.subdivide 1 ≠ g := by
      rw [Ne, stored.split_refused_iff 1 (by decide), extent]
      decide
    rw [stored.extent_of_split 1 (by decide) accepted, extent]
    decide
  have reached : (g.change (.subdivide 1)).Reachable := start.change trivial
  have stored := reachable_stored reached
  refine ⟨g, created, reached, stored, finer, ?_, ?_⟩
  · rw [size_tiles, Grid.change, finer]
    decide
  · apply (stored.split_refused_iff 1 (by decide)).2
    rw [Grid.change, finer]
    exact .inr (by decide)

end Grid

end TileGrammar
