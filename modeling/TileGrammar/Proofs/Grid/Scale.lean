import TileGrammar.Proofs.Grid.Announcement
import TileGrammar.Proofs.Grid.Resolution
import TileGrammar.Proofs.Grid.Twin

/-!
Changes of resolution one after the other. Two splits make one split and two merges one merge, by
the product of their factors, and a merge takes back the split before it.
-/

namespace TileGrammar

lemma Cell.volume_mono {d e : Cell} (h : d ≤ e) : d.volume ≤ e.volume := by
  obtain ⟨hx, hy, hz⟩ := Cell.le_iff.1 h
  exact Nat.mul_le_mul (Nat.mul_le_mul (Int.toNat_le_toNat hx) (Int.toNat_le_toNat hy))
    (Int.toNat_le_toNat hz)

namespace Grid

def splitSource (extent : Cell) (factor : Int) (c : Cell) : Cell :=
  c.zipWith (· / ·) (splitScale extent factor)

def mergeSource (extent : Cell) (factor : Int) (c : Cell) : Cell :=
  min (c.map (· * factor)) (extent - Cell.unit)

section Extent

variable {e : Cell} {f k : Int}

lemma splitScale_splitExtent (e : Cell) (hf : 1 ≤ f) (k : Int) :
    splitScale (splitExtent e f) k = splitScale e k := by
  have axis (n : Int) : (1 < n * if 1 < n then f else 1) ↔ 1 < n := by
    split
    · rename_i h
      have := Int.mul_le_mul_of_nonneg_left hf (show 0 ≤ n by omega)
      omega
    · omega
  simp only [splitScale, splitExtent, Cell.map, Cell.zipWith, axis]

lemma splitExtent_splitExtent (e : Cell) (hf : 1 ≤ f) (k : Int) :
    splitExtent (splitExtent e f) k = splitExtent e (f * k) := by
  have axis (n : Int) : n * (if 1 < n then f else 1) * (if 1 < n then k else 1) =
      n * if 1 < n then f * k else 1 := by
    split
    · exact Int.mul_assoc n f k
    · omega
  rw [splitExtent, splitScale_splitExtent e hf]
  simp only [splitScale, splitExtent, Cell.map, Cell.zipWith, axis]

lemma splitExtent_le (he : e.Proper) (hf : 1 ≤ f) (hk : 1 ≤ k) :
    splitExtent e f ≤ splitExtent e (f * k) := by
  have axis (n : Int) (hn : 1 ≤ n) :
      (n * if 1 < n then f else 1) ≤ n * if 1 < n then f * k else 1 := by
    split
    · apply Int.mul_le_mul_of_nonneg_left _ (by omega)
      have := Int.mul_le_mul_of_nonneg_left hk (show 0 ≤ f by omega)
      omega
    · omega
  obtain ⟨hx, hy, hz⟩ := Cell.proper_iff.1 he
  exact Cell.le_iff.2 ⟨axis _ hx, axis _ hy, axis _ hz⟩

lemma mergeExtent_splitExtent (he : e.Proper) (hf : 1 ≤ f) :
    mergeExtent (splitExtent e f) f = e := by
  have axis (n : Int) (hn : 1 ≤ n) : max ((n * if 1 < n then f else 1) / f) 1 = n := by
    split
    · rw [Int.mul_ediv_cancel n (by omega)]
      omega
    · obtain rfl : n = 1 := by omega
      have := Int.ediv_le_self f (show (0 : Int) ≤ 1 by omega)
      rw [Int.one_mul]
      omega
  obtain ⟨hx, hy, hz⟩ := Cell.proper_iff.1 he
  exact Cell.ext (axis _ hx) (axis _ hy) (axis _ hz)

lemma mergeExtent_mergeExtent (e : Cell) (hf : 1 ≤ f) (hk : 1 ≤ k) :
    mergeExtent (mergeExtent e f) k = mergeExtent e (f * k) := by
  have axis (n : Int) : max (max (n / f) 1 / k) 1 = max (n / (f * k)) 1 := by
    rw [← Int.ediv_ediv_of_nonneg (by omega)]
    rcases Int.le_total 1 (n / f) with h | h
    · rw [Int.max_eq_left h]
    · -- the axis has shrunk to one cell, and stays so
      have one := Int.ediv_le_self k (show (0 : Int) ≤ 1 by omega)
      have below := Int.ediv_le_ediv (show 0 < k by omega) h
      rw [Int.max_eq_right h]
      omega
  exact Cell.ext (axis _) (axis _) (axis _)

end Extent

section Source

variable {e c : Cell} {f k : Int}

lemma splitSource_splitSource (e c : Cell) (hf : 1 ≤ f) (hk : 1 ≤ k) :
    splitSource e f (splitSource (splitExtent e f) k c) = splitSource e (f * k) c := by
  have axis (n p : Int) : p / (if 1 < n then k else 1) / (if 1 < n then f else 1) =
      p / if 1 < n then f * k else 1 := by
    split
    · rw [Int.ediv_ediv_of_nonneg (by omega), Int.mul_comm k f]
    · simp only [Int.ediv_one]
  rw [splitSource, splitSource, splitScale_splitExtent e hf]
  exact Cell.ext (axis _ _) (axis _ _) (axis _ _)

lemma splitSource_mergeSource (he : e.Proper) (hf : 1 ≤ f) (hc : c ∈ Box.ofExtent e) :
    splitSource e f (mergeSource (splitExtent e f) f c) = c := by
  have axis (n p : Int) (hn : 1 ≤ n) (hp : 0 ≤ p) (lt : p < n) :
      min (p * f) ((n * if 1 < n then f else 1) - 1) / (if 1 < n then f else 1) = p := by
    split
    · have := Int.mul_le_mul_of_nonneg_right (show p + 1 ≤ n by omega) (show 0 ≤ f by omega)
      rw [Int.add_mul] at this
      rw [Int.min_eq_left (by omega), Int.mul_ediv_cancel p (by omega)]
    · obtain rfl : p = 0 := by omega
      obtain rfl : n = 1 := by omega
      simp
  obtain ⟨hx, hy, hz⟩ := Cell.proper_iff.1 he
  obtain ⟨⟨x₀, y₀, z₀⟩, x₁, y₁, z₁⟩ := Box.mem_ofExtent.1 hc
  exact Cell.ext (axis _ _ hx x₀ x₁) (axis _ _ hy y₀ y₁) (axis _ _ hz z₀ z₁)

lemma mergeSource_mergeSource (hf : 1 ≤ f) (hk : 1 ≤ k)
    (hc : c ∈ Box.ofExtent (mergeExtent e (f * k))) :
    mergeSource e f (mergeSource (mergeExtent e f) k c) = mergeSource e (f * k) c := by
  have axis (n p : Int) (hp : 0 ≤ p) (lt : p < max (n / (f * k)) 1) :
      min (min (p * k) (max (n / f) 1 - 1) * f) (n - 1) = min (p * (f * k)) (n - 1) := by
    have inner : min (p * k) (max (n / f) 1 - 1) = p * k := by
      rcases Int.lt_or_eq_of_le hp with pos | rfl
      · -- a whole block of the first merge lies below the end of the axis
        rw [← Int.ediv_ediv_of_nonneg (by omega)] at lt
        have blocks : p + 1 ≤ n / f / k := by omega
        have := (Int.le_ediv_iff_mul_le (by omega)).1 blocks
        rw [Int.add_mul] at this
        omega
      · omega
    rw [inner, Int.mul_assoc, Int.mul_comm k f]
  obtain ⟨⟨x₀, y₀, z₀⟩, x₁, y₁, z₁⟩ := Box.mem_ofExtent.1 hc
  exact Cell.ext (axis _ _ x₀ x₁) (axis _ _ y₀ y₁) (axis _ _ z₀ z₁)

end Source

section Tiles

variable {g h : Grid} {c : Cell} {f k : Nat}

lemma tileAt_announceAll (g : Grid) : g.announceAll.tileAt = g.tileAt := tileAt_congr rfl rfl

lemma twins_of_tileAt (extent : g.extent = h.extent)
    (tileAt : ∀ c ∈ g.bounds, g.tileAt c = h.tileAt c) : g.Twins h :=
  ⟨extent, tiles_eq_of_tileAt extent tileAt⟩

lemma extent_split (hf : 1 ≤ f) (fits : (splitExtent g.extent f).volume ≤ maxCells) :
    (g.split f).extent = splitExtent g.extent f := by
  rw [split, dif_pos ⟨hf, fits⟩]
  rfl

lemma tileAt_split (hf : 1 ≤ f) (fits : (splitExtent g.extent f).volume ≤ maxCells)
    (hc : c ∈ Box.ofExtent (splitExtent g.extent f)) :
    (g.split f).tileAt c = g.tileAt (splitSource g.extent f c) := by
  rw [split, dif_pos ⟨hf, fits⟩, tileAt_announceAll, tileAt_resample g _ _ hc]
  rfl

lemma extent_merge (g : Grid) (f : Nat) : (g.merge f).extent = mergeExtent g.extent f := rfl

lemma tileAt_merge (hc : c ∈ Box.ofExtent (mergeExtent g.extent f)) :
    (g.merge f).tileAt c = g.tileAt (mergeSource g.extent f c) := by
  rw [merge, tileAt_announceAll, tileAt_resample g _ _ hc]
  rfl

lemma splitSource_mem {f : Int} (hf : 1 ≤ f) (hc : c ∈ Box.ofExtent (splitExtent g.extent f)) :
    splitSource g.extent f c ∈ g.bounds := zipWith_div_mem_bounds hf hc

lemma mergeSource_mem (g : Grid) (f : Nat) (hc : c ∈ Box.ofExtent (mergeExtent g.extent f)) :
    mergeSource g.extent f c ∈ g.bounds := min_map_mul_mem_bounds f hc

lemma merge_split (hf : 1 ≤ f) (fits : (splitExtent g.extent f).volume ≤ maxCells) :
    ((g.split f).merge f).Twins g := by
  have positive : 1 ≤ (f : Int) := Int.ofNat_le.2 hf
  have finer := extent_split hf fits
  have extent : ((g.split f).merge f).extent = g.extent := by
    rw [extent_merge, finer, mergeExtent_splitExtent g.proper positive]
  apply twins_of_tileAt extent
  intro c hc
  have inside := mergeSource_mem (g.split f) f hc
  rw [bounds, finer] at inside
  rw [tileAt_merge hc, finer, tileAt_split hf fits inside]
  rw [bounds, extent] at hc
  exact congrArg g.tileAt (splitSource_mergeSource g.proper positive hc)

lemma fits_of_mul (hf : 1 ≤ f) (hk : 1 ≤ k)
    (fits : (splitExtent g.extent (f * k : Nat)).volume ≤ maxCells) :
    (splitExtent g.extent f).volume ≤ maxCells := by
  rw [Int.natCast_mul] at fits
  have le := splitExtent_le g.proper (Int.ofNat_le.2 hf) (Int.ofNat_le.2 hk)
  exact Nat.le_trans (Cell.volume_mono le) fits

lemma splitExtent_split (hf : 1 ≤ f) (fits : (splitExtent g.extent f).volume ≤ maxCells)
    (k : Nat) : splitExtent (g.split f).extent k = splitExtent g.extent (f * k : Nat) := by
  rw [extent_split hf fits, splitExtent_splitExtent g.extent (Int.ofNat_le.2 hf), Int.natCast_mul]

lemma split_split (hf : 1 ≤ f) (hk : 1 ≤ k)
    (fits : (splitExtent g.extent (f * k : Nat)).volume ≤ maxCells) :
    (g.split (f * k)).Twins ((g.split f).split k) := by
  have positive : 1 ≤ (f : Int) := Int.ofNat_le.2 hf
  have positive' : 1 ≤ (k : Int) := Int.ofNat_le.2 hk
  have both : 1 ≤ f * k := Nat.mul_le_mul hf hk
  have first := fits_of_mul hf hk fits
  have finer := splitExtent_split hf first k
  have second : (splitExtent (g.split f).extent k).volume ≤ maxCells := by rwa [finer]
  apply twins_of_tileAt
  · rw [extent_split both fits, extent_split hk second, finer]
  · intro c hc
    rw [bounds, extent_split both fits] at hc
    have hc' : c ∈ Box.ofExtent (splitExtent (g.split f).extent k) := by rwa [finer]
    have inside := splitSource_mem positive' hc'
    rw [bounds, extent_split hf first] at inside
    rw [tileAt_split both fits hc, tileAt_split hk second hc', extent_split hf first,
      tileAt_split hf first inside, Int.natCast_mul]
    exact congrArg g.tileAt (splitSource_splitSource g.extent c positive positive').symm

lemma merge_merge (g : Grid) (hf : 1 ≤ f) (hk : 1 ≤ k) :
    ((g.merge f).merge k).Twins (g.merge (f * k)) := by
  have positive : 1 ≤ (f : Int) := Int.ofNat_le.2 hf
  have positive' : 1 ≤ (k : Int) := Int.ofNat_le.2 hk
  have extent : ((g.merge f).merge k).extent = (g.merge (f * k)).extent := by
    simp only [extent_merge, Int.natCast_mul, mergeExtent_mergeExtent g.extent positive positive']
  apply twins_of_tileAt extent
  intro c hc
  have hc' : c ∈ Box.ofExtent (mergeExtent g.extent (f * k : Nat)) := by
    rwa [bounds, extent] at hc
  rw [tileAt_merge hc, tileAt_merge (mergeSource_mem (g.merge f) k hc), tileAt_merge hc',
    extent_merge]
  rw [Int.natCast_mul] at hc' ⊢
  exact congrArg g.tileAt (mergeSource_mergeSource positive positive' hc')

end Tiles

section Levels

variable {g : Grid} {a b : Int}

def levelFactor (levels : Int) : Nat := Nat.pow 2 (min levels.natAbs maxLevels)

lemma one_le_levelFactor (levels : Int) : 1 ≤ levelFactor levels := Nat.one_le_two_pow

lemma levelFactor_neg (levels : Int) : levelFactor (-levels) = levelFactor levels := by
  rw [levelFactor, Int.natAbs_neg, levelFactor]

lemma levelFactor_add (ha : 1 ≤ a) (hb : 1 ≤ b) (hab : a + b ≤ maxLevels) :
    levelFactor (a + b) = levelFactor a * levelFactor b := by
  have power (n : Int) (hn : n.natAbs ≤ maxLevels) : levelFactor n = 2 ^ n.natAbs := by
    rw [levelFactor, Nat.min_eq_left hn]
    rfl
  rw [power _ (by omega), power _ (by omega), power _ (by omega), ← Nat.pow_add]
  congr 1
  omega

lemma subdivide_of_pos (g : Grid) (ha : 0 < a) : g.subdivide a = g.split (levelFactor a) := by
  rw [subdivide, if_neg (by omega), if_pos ha, levelFactor]

lemma subdivide_of_neg (g : Grid) (ha : a < 0) : g.subdivide a = g.merge (levelFactor a) := by
  rw [subdivide, if_neg (by omega), if_neg (by omega), levelFactor]

lemma fits_of_acceptsLevels (ha : 0 < a) (accepted : g.AcceptsLevels a) :
    (splitExtent g.extent (levelFactor a)).volume ≤ maxCells := by
  rcases accepted with negative | ⟨-, fits⟩
  · omega
  · exact fits

end Levels

theorem subdivisions_compose (g : Grid) {a b : Int} (ha : 1 ≤ a) (hb : 1 ≤ b)
    (hab : a + b ≤ maxLevels) :
    (g.AcceptsLevels a → ((g.subdivide a).subdivide (-a)).Twins g) ∧
    (g.AcceptsLevels (a + b) → (g.subdivide (a + b)).Twins ((g.subdivide a).subdivide b)) ∧
    ((g.subdivide (-a)).subdivide (-b)).Twins (g.subdivide (-(a + b))) := by
  have factors := levelFactor_add ha hb hab
  refine ⟨fun accepted => ?_, fun accepted => ?_, ?_⟩
  · rw [subdivide_of_pos g (by omega), subdivide_of_neg _ (by omega), levelFactor_neg]
    exact merge_split (one_le_levelFactor a) (fits_of_acceptsLevels (by omega) accepted)
  · have fits := fits_of_acceptsLevels (by omega) accepted
    rw [factors] at fits
    rw [subdivide_of_pos g (by omega), subdivide_of_pos g (by omega), subdivide_of_pos _ (by omega),
      factors]
    exact split_split (one_le_levelFactor a) (one_le_levelFactor b) fits
  · rw [subdivide_of_neg g (by omega), subdivide_of_neg g (by omega), subdivide_of_neg _ (by omega),
      levelFactor_neg, levelFactor_neg, levelFactor_neg, factors]
    exact merge_merge g (one_le_levelFactor a) (one_le_levelFactor b)

theorem subdivisions_compose_odd :
    let g : Grid := {
      extent := ⟨5, 1, 2⟩
      tiles := #[⟨"a"⟩, ⟨"b"⟩, ⟨"c"⟩, ⟨"d"⟩, ⟨"e"⟩, ⟨"A"⟩, ⟨"B"⟩, ⟨"C"⟩, ⟨"D"⟩, ⟨"E"⟩]
      proper := by decide
      size_tiles := rfl }
    (g.subdivide 1).extent = ⟨10, 1, 4⟩ ∧ ((g.subdivide 1).subdivide (-1)).Twins g ∧
      (g.subdivide 2).extent = ⟨20, 1, 8⟩ ∧ (g.subdivide 2).Twins ((g.subdivide 1).subdivide 1) ∧
      (g.subdivide (-1)).tiles = #[⟨"a"⟩, ⟨"c"⟩] ∧ (g.subdivide (-2)).tiles = #[⟨"a"⟩] ∧
      ((g.subdivide (-1)).subdivide (-1)).Twins (g.subdivide (-2)) := by
  intro g
  have once : g.AcceptsLevels 1 := .inr ⟨by decide, by decide⟩
  have twice : g.AcceptsLevels 2 := .inr ⟨by decide, by decide⟩
  obtain ⟨undo, add, merge⟩ := subdivisions_compose g (a := 1) (b := 1) (by decide) (by decide)
    (by decide)
  exact ⟨by decide +kernel, undo once, by decide +kernel, add twice, by decide +kernel,
    by decide +kernel, merge⟩

end Grid

end TileGrammar
