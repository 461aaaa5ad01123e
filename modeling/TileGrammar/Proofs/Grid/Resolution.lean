import TileGrammar.Grid.Resolution
import TileGrammar.Proofs.Grid.Stamp

namespace TileGrammar.Grid

section Storage

variable {g h : Grid} {c : Cell}

lemma tileAt_ofPosition (g : Grid) {n : Nat} (hn : n < g.tiles.size) :
    g.tileAt (g.extent.ofPosition n) = g.tiles[n] := by
  have h₀ : ¬ (n : Int) < 0 := by omega
  simp [tileAt, Cell.position_ofPosition g.proper, hn, h₀]

lemma tileAt_mem (hc : c ∈ g.bounds) : g.tileAt c ∈ g.tiles := by
  have stored := tileAt_of_mem hc
  rw [get?, if_pos hc] at stored
  exact Array.mem_of_getElem? stored

lemma tiles_eq_of_tileAt (extent : g.extent = h.extent)
    (tileAt : ∀ c ∈ g.bounds, g.tileAt c = h.tileAt c) : g.tiles = h.tiles := by
  apply Array.ext
  · rw [g.size_tiles, h.size_tiles, extent]
  · intro n hg hh
    have hn : n < g.extent.volume := g.size_tiles ▸ hg
    rw [← tileAt_ofPosition g hg, ← tileAt_ofPosition h hh, ← extent]
    exact tileAt _ (Cell.ofPosition_mem g.proper hn)

lemma tiles_eq_of_get? (extent : g.extent = h.extent) (get?_eq : ∀ c, g.get? c = h.get? c) :
    g.tiles = h.tiles := by
  apply tiles_eq_of_tileAt extent
  intro c hc
  have hc' : c ∈ h.bounds := by rwa [bounds, extent] at hc
  have stored := get?_eq c
  rw [tileAt_of_mem hc, tileAt_of_mem hc'] at stored
  exact Option.some.inj stored

lemma ext_tileAt (extent : g.extent = h.extent)
    (tileAt : ∀ c ∈ g.bounds, g.tileAt c = h.tileAt c) (pending : g.pending = h.pending)
    (events : g.events = h.events) : g = h := by
  have tiles := tiles_eq_of_tileAt extent tileAt
  cases g
  cases h
  simp_all

end Storage

section Resolution

variable {g : Grid} {c : Cell}

lemma tileAt_resample (g : Grid) {e : Cell} (proper : e.Proper) (source : Cell → Cell)
    (hc : c ∈ Box.ofExtent e) : (g.resample e proper source).tileAt c = g.tileAt (source c) := by
  have h₀ := Cell.position_nonneg proper hc
  have h₁ := Cell.position_lt proper hc
  have h₂ : (e.position c).toNat < e.volume := by omega
  rw [tileAt]
  simp [resample, Int.not_lt.2 h₀, h₂, Cell.ofPosition_position proper hc]

lemma zipWith_div_mem_bounds {factor : Int} (hf : 1 ≤ factor)
    (hc : c ∈ Box.ofExtent (splitExtent g.extent factor)) :
    c.zipWith (· / ·) (splitScale g.extent factor) ∈ g.bounds := by
  have axis : ∀ n k : Int, 0 ≤ k → k < n * (if 1 < n then factor else 1) →
      0 ≤ k / (if 1 < n then factor else 1) ∧ k / (if 1 < n then factor else 1) < n := by
    intro n k hk hlt
    have hs : 0 < if 1 < n then factor else 1 := by split <;> omega
    exact ⟨Int.ediv_nonneg hk (Int.le_of_lt hs), Int.ediv_lt_of_lt_mul hs hlt⟩
  obtain ⟨⟨x₀, y₀, z₀⟩, x₁, y₁, z₁⟩ := Box.mem_ofExtent.1 hc
  obtain ⟨hx, hx'⟩ := axis _ _ x₀ x₁
  obtain ⟨hy, hy'⟩ := axis _ _ y₀ y₁
  obtain ⟨hz, hz'⟩ := axis _ _ z₀ z₁
  exact Box.mem_ofExtent.2 ⟨⟨hx, hy, hz⟩, hx', hy', hz'⟩

lemma min_map_mul_mem_bounds (factor : Nat) {extent : Cell} (hc : c ∈ Box.ofExtent extent) :
    min (c.map (· * factor)) (g.extent - Cell.unit) ∈ g.bounds := by
  obtain ⟨⟨hx, hy, hz⟩, -⟩ := Box.mem_ofExtent.1 hc
  have proper := Cell.proper_iff.1 g.proper
  have hx' := Int.mul_nonneg hx (Int.natCast_nonneg factor)
  have hy' := Int.mul_nonneg hy (Int.natCast_nonneg factor)
  have hz' := Int.mul_nonneg hz (Int.natCast_nonneg factor)
  rw [bounds, Box.mem_ofExtent]
  simp only [Cell.min_x, Cell.min_y, Cell.min_z, Cell.map, Cell.sub_x, Cell.sub_y, Cell.sub_z,
    Cell.unit, Cell.diagonal]
  omega

end Resolution

end TileGrammar.Grid
