import TileGrammar.Proofs.Pattern.Rows

/-!
Patterns and their text form are inverse to each other. Both are compared through the table of a
pattern, its tiles by layers and rows: a text is read as a pattern if and only if the table of the
pattern is that of the characters between the separators.
-/

namespace TileGrammar

section Tables

variable {α β : Type} {layers layers' : List (List (List α))} {width height : Nat}

def Rectangular (layers : List (List (List α))) (width height : Nat) : Prop :=
  ∀ layer ∈ layers, layer.length = height ∧ ∀ row ∈ layer, row.length = width

lemma rectangular_map (f : α → β) :
    Rectangular (layers.map (·.map (·.map f))) width height ↔ Rectangular layers width height := by
  simp [Rectangular]

lemma Rectangular.flatten (h : Rectangular layers width height) {row : List α}
    (hr : row ∈ layers.flatten) : row.length = width := by
  obtain ⟨layer, hl, hr⟩ := List.mem_flatten.1 hr
  exact (h layer hl).2 row hr

lemma Rectangular.length_flatten (h : Rectangular layers width height) :
    layers.flatten.length = layers.length * height := by
  rw [List.length_flatten, List.map_eq_replicate_iff.2 fun layer hl => (h layer hl).1,
    List.sum_replicate_nat]

lemma Rectangular.length_headD (h : Rectangular layers width height) (hd : layers ≠ []) :
    (layers.headD []).length = height := by
  obtain ⟨layer, tail, rfl⟩ := List.exists_cons_of_ne_nil hd
  exact (h layer List.mem_cons_self).1

lemma Rectangular.length_headD_headD (h : Rectangular layers width height) (hd : layers ≠ [])
    (hh : 0 < height) : ((layers.headD []).headD []).length = width := by
  obtain ⟨layer, tail, rfl⟩ := List.exists_cons_of_ne_nil hd
  obtain ⟨rfl, hw⟩ := h layer List.mem_cons_self
  obtain ⟨row, tail, rfl⟩ := List.exists_cons_of_length_pos hh
  exact hw row List.mem_cons_self

lemma Rectangular.eq_of_flatten (h : Rectangular layers width height)
    (h' : Rectangular layers' width height) (depth : layers.length = layers'.length)
    (same : layers.flatten.flatten = layers'.flatten.flatten) : layers = layers' := by
  have rows : layers.flatten = layers'.flatten := by
    apply List.eq_iff_flatten_eq.2 ⟨same, ?_⟩
    rw [List.map_eq_replicate_iff.2 fun row => h.flatten,
      List.map_eq_replicate_iff.2 fun row => h'.flatten, h.length_flatten, h'.length_flatten, depth]
  apply List.eq_iff_flatten_eq.2 ⟨rows, ?_⟩
  rw [List.map_eq_replicate_iff.2 fun layer hl => (h layer hl).1,
    List.map_eq_replicate_iff.2 fun layer hl => (h' layer hl).1, depth]

lemma map_table_eq_self {f : α → α} (h : ∀ layer ∈ layers, ∀ row ∈ layer, ∀ a ∈ row, f a = a) :
    layers.map (·.map (·.map f)) = layers :=
  map_eq_self fun layer hl => map_eq_self fun row hr => map_eq_self (h layer hl row hr)

lemma flatMap_range_map (f : Nat → α) (width height : Nat) :
    ((List.range height).flatMap fun j => (List.range width).map fun i => f (i + width * j)) =
      (List.range (width * height)).map f := by
  induction height with
  | zero => simp
  | succ height ih =>
    rw [List.range_succ, List.flatMap_append, ih, Nat.mul_succ, List.range_add, List.map_append,
      List.map_map]
    simp [Nat.add_comm, Function.comp_def]

end Tables

namespace Pattern

def table (p : Pattern) : List (List (List Tile)) :=
  (interval 0 p.extent.z).map fun z => (interval 0 p.extent.y).map fun y =>
    (interval 0 p.extent.x).map fun x => p.tileAt ⟨x, y, z⟩

section Table

variable (p : Pattern)

lemma length_table : p.table.length = p.extent.z.toNat := by
  simp [table, interval]

lemma rectangular_table : Rectangular p.table p.extent.x.toNat p.extent.y.toNat := by
  simp [Rectangular, table, interval]

def stored (n : Nat) : Tile := p.tiles[n]?.getD .wildcard

lemma tileAt_eq_stored (i j k : Nat) : p.tileAt ⟨i, j, k⟩ =
    p.stored (i + p.extent.x.toNat * j + p.extent.x.toNat * p.extent.y.toNat * k) := by
  obtain ⟨hx, hy, -⟩ := Cell.proper_iff.1 p.proper
  have place : p.extent.position ⟨i, j, k⟩ =
      (i + p.extent.x.toNat * j + p.extent.x.toNat * p.extent.y.toNat * k : Nat) := by
    push_cast
    rw [Int.toNat_of_nonneg (by omega), Int.toNat_of_nonneg (by omega), Cell.position]
    grind
  simp only [tileAt, get?, place, stored, Int.toNat_natCast]
  rw [if_neg (Int.not_lt.2 (Int.natCast_nonneg _))]

lemma map_stored_range : (List.range p.tiles.size).map p.stored = p.tiles.toList := by
  apply List.ext_getElem
  · simp
  · intro n hn hn'
    have hn : n < p.tiles.size := by simpa using hn'
    simp [stored, hn]

lemma flatten_table : p.table.flatten.flatten = p.tiles.toList := by
  let width := p.extent.x.toNat
  let height := p.extent.y.toNat
  have rows : p.table.flatten.flatten = (List.range p.extent.z.toNat).flatMap fun k =>
      (List.range height).flatMap fun j => (List.range width).map fun i =>
        p.stored (i + width * j + width * height * k) := by
    simp only [table, interval, Int.sub_zero, Int.zero_add, List.map_map, List.flatten_eq_flatMap,
      List.flatMap_map, List.flatMap_assoc, Function.comp_def, id, tileAt_eq_stored]
    rfl
  rw [rows]
  have layers (k : Nat) : ((List.range height).flatMap fun j => (List.range width).map fun i =>
      p.stored (i + width * j + width * height * k)) =
        (List.range (width * height)).map fun n => p.stored (n + width * height * k) :=
    flatMap_range_map (fun n => p.stored (n + width * height * k)) width height
  simp only [layers]
  rw [flatMap_range_map p.stored, ← map_stored_range, p.size_tiles]
  rfl

lemma table_ne_nil : p.table ≠ [] := by
  have hz := (Cell.proper_iff.1 p.proper).2.2
  rw [← List.length_pos_iff, length_table]
  omega

lemma ofTiles_tiles : ofTiles p.extent p.tiles = .ok p := by
  rw [ofTiles, dif_pos p.proper, dif_pos p.size_tiles]

end Table

section Parse

variable {p : Pattern} {s : List Char} {t : String} {layers : List (List (List Char))}

lemma isRectangular_iff {width height : Nat} :
    isRectangular layers width height = true ↔ Rectangular layers width height := by
  simp [isRectangular, Rectangular]

lemma eq_of_ofTiles {extent : Cell} {tiles : Array Tile} (h : ofTiles extent tiles = .ok p) :
    p.extent = extent ∧ p.tiles = tiles := by
  rw [ofTiles] at h
  split at h
  · split at h
    · obtain rfl := Except.ok.inj h
      exact ⟨rfl, rfl⟩
    · cases h
  · cases h

lemma parse_eq_ok_iff : parse t = .ok p ↔
    p.table = (rows t.toList).map (·.map (·.map Tile.ofChar)) := by
  generalize he : rows t.toList = layers
  rw [parse, he]
  constructor
  · intro h
    split at h
    · cases h
    · split at h
      · rename_i hw hr
        rw [isRectangular_iff] at hr
        obtain ⟨extent, tiles⟩ := eq_of_ofTiles h
        have ht := rectangular_table p
        have hd := length_table p
        rw [extent] at ht hd
        refine ht.eq_of_flatten ((rectangular_map Tile.ofChar).2 hr) ?_ ?_
        · simpa using hd
        · rw [flatten_table, tiles]
          simp [List.map_flatten]
      · cases h
  · intro h
    have hr : Rectangular layers p.extent.x.toNat p.extent.y.toNat := by
      rw [← rectangular_map Tile.ofChar, ← h]
      exact rectangular_table p
    have hd : layers.length = p.extent.z.toNat := by
      rw [← length_table, h, List.length_map]
    obtain ⟨hx, hy, hz⟩ := Cell.proper_iff.1 p.proper
    have hne : layers ≠ [] := List.ne_nil_of_length_pos (by omega)
    have extent : (⟨p.extent.x.toNat, p.extent.y.toNat, p.extent.z.toNat⟩ : Cell) = p.extent := by
      ext <;> dsimp only <;> omega
    have tiles : (layers.flatten.flatten.map Tile.ofChar).toArray = p.tiles := by
      apply Array.toList_inj.1
      rw [← flatten_table, h]
      simp [List.map_flatten]
    rw [hr.length_headD_headD hne (by omega), hr.length_headD hne, if_neg (by omega),
      if_pos (isRectangular_iff.2 hr), hd, extent, tiles, ofTiles_tiles]

lemma toList_text (h : p.table = layers.map (·.map (·.map Tile.ofChar))) :
    p.text.toList = [' '].intercalate (layers.map ['/'].intercalate) := by
  have row (cs : List Char) : (cs.map Tile.ofChar).flatMap (·.label.toList) = cs := by
    induction cs with
    | nil => rfl
    | cons c cs ih => simp [Tile.ofChar, ih]
  have text : p.text.toList = [' '].intercalate (p.table.map fun layer =>
      ['/'].intercalate (layer.map (·.flatMap (·.label.toList)))) := by
    simp [Pattern.text, rowText, table, String.toList_intercalate, String.toList_join,
      Function.comp_def, List.flatMap_map]
  rw [text, h, List.map_map]
  simp [Function.comp_def, row]

lemma text_of_parse (h : parse t = .ok p) : p.text = t := by
  apply String.toList_inj.1
  rw [toList_text (parse_eq_ok_iff.1 h), (splits_rows t.toList).joined]

lemma mem_tiles_iff {tile : Tile} :
    tile ∈ p.tiles ↔ ∃ layer ∈ p.table, ∃ row ∈ layer, tile ∈ row := by
  rw [← Array.mem_toList_iff, ← flatten_table]
  simp only [List.mem_flatten]
  constructor
  · rintro ⟨row, ⟨layer, hl, hr⟩, ht⟩
    exact ⟨layer, hl, row, hr, ht⟩
  · rintro ⟨layer, hl, row, hr, ht⟩
    exact ⟨row, ⟨layer, hl, hr⟩, ht⟩

lemma rows_text (h : p.table = layers.map (·.map (·.map Tile.ofChar)))
    (plain : ∀ layer ∈ layers, ∀ row ∈ layer, ∀ c ∈ row, c ≠ '/' ∧ c ≠ ' ') :
    rows p.text.toList = layers := by
  have hr : Rectangular layers p.extent.x.toNat p.extent.y.toNat := by
    rw [← rectangular_map Tile.ofChar, ← h]
    exact rectangular_table p
  have hne : layers ≠ [] := by
    rintro rfl
    exact table_ne_nil p h
  obtain ⟨-, hy, -⟩ := Cell.proper_iff.1 p.proper
  have split : Splits p.text.toList layers := {
    ne_nil := hne
    layer_ne_nil layer hl := List.ne_nil_of_length_pos (by have := (hr layer hl).1; omega)
    plain
    joined := (toList_text h).symm }
  exact split.rows_eq

lemma exists_chars (plain : ∀ tile ∈ p.tiles, ∃ c, tile.label.toList = [c] ∧ c ≠ '/' ∧ c ≠ ' ') :
    ∃ layers : List (List (List Char)), p.table = layers.map (·.map (·.map Tile.ofChar)) ∧
      ∀ layer ∈ layers, ∀ row ∈ layer, ∀ c ∈ row, c ≠ '/' ∧ c ≠ ' ' := by
  let char (tile : Tile) : Char := tile.label.toList.headD ' '
  refine ⟨p.table.map (·.map (·.map char)), ?_, ?_⟩
  · simp only [List.map_map, Function.comp_def]
    symm
    apply map_table_eq_self
    intro layer hl row hr tile ht
    obtain ⟨c, hc, -⟩ := plain tile (mem_tiles_iff.2 ⟨layer, hl, row, hr, ht⟩)
    obtain ⟨label⟩ := tile
    obtain rfl : label = String.singleton c := String.toList_inj.1 (by simpa using hc)
    simp [char, Tile.ofChar]
  · simp only [List.forall_mem_map]
    intro layer hl row hr tile ht
    obtain ⟨c, hc, ne⟩ := plain tile (mem_tiles_iff.2 ⟨layer, hl, row, hr, ht⟩)
    simpa only [char, hc, List.headD_cons] using ne

end Parse

theorem text_and_parse_inverse :
    (∀ t p, parse t = .ok p → p.text = t) ∧
      ∀ p : Pattern, parse p.text = .ok p ↔
        ∀ tile ∈ p.tiles, ∃ c, tile.label.toList = [c] ∧ c ≠ '/' ∧ c ≠ ' ' := by
  refine ⟨fun t p => text_of_parse, fun p => ⟨fun h tile ht => ?_, fun plain => ?_⟩⟩
  · obtain ⟨layer, hl, row, hr, ht⟩ := mem_tiles_iff.1 ht
    rw [parse_eq_ok_iff.1 h] at hl
    obtain ⟨layer', hl', rfl⟩ := List.mem_map.1 hl
    obtain ⟨row', hr', rfl⟩ := List.mem_map.1 hr
    obtain ⟨c, hc, rfl⟩ := List.mem_map.1 ht
    exact ⟨c, String.toList_singleton c, ne_separator_of_mem_rows hl' hr' hc⟩
  · obtain ⟨layers, h, plain⟩ := exists_chars plain
    rw [parse_eq_ok_iff, rows_text h plain]
    exact h

theorem text_and_parse_inverse_block :
    (∃ p, parse "AB/CD EF/*H" = .ok p ∧ p.text = "AB/CD EF/*H" ∧ parse p.text = .ok p) ∧
      ∃ q, filled Cell.unit ⟨"AB"⟩ = .ok q ∧ parse q.text ≠ .ok q := by
  constructor
  · have h : (parse "AB/CD EF/*H").isOk = true := by decide +kernel
    cases hp : parse "AB/CD EF/*H" with
    | error e =>
      rw [hp] at h
      cases h
    | ok p =>
      have text := text_and_parse_inverse.1 _ p hp
      exact ⟨p, rfl, text, text ▸ hp⟩
  · refine ⟨_, dif_pos (by decide), fun h => ?_⟩
    obtain ⟨c, hc, -⟩ := (text_and_parse_inverse.2 _).1 h ⟨"AB"⟩ (by decide +kernel)
    have one : "AB".toList.length = 1 := congrArg List.length hc
    exact absurd one (by decide)

end Pattern

end TileGrammar
