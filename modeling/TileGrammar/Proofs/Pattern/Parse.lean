import TileGrammar.Proofs.Pattern.Text

namespace TileGrammar

lemma Rectangular.length_flatten_flatten {α : Type} {layers : List (List (List α))}
    {width height : Nat} (h : Rectangular layers width height) :
    layers.flatten.flatten.length = width * height * layers.length := by
  rw [List.length_flatten, List.map_eq_replicate_iff.2 fun row => h.flatten, h.length_flatten,
    List.sum_replicate_nat]
  grind

namespace Pattern

variable {t : String} {layers : List (List (List Char))} {p : Pattern} {width height : Nat}

def BeginsEmpty (layers : List (List (List Char))) : Prop :=
  ∃ rest later, layers = ([] :: rest) :: later

def IsBlock (layers : List (List (List Char))) : Prop :=
  ∃ width height, 0 < width ∧ Rectangular layers width height

lemma exists_rows_eq (s : List Char) : ∃ row rest later, rows s = (row :: rest) :: later := by
  have split := splits_rows s
  obtain ⟨layer, later, hl⟩ := List.exists_cons_of_ne_nil split.ne_nil
  obtain ⟨row, rest, rfl⟩ := List.exists_cons_of_ne_nil (split.layer_ne_nil layer (by simp [hl]))
  exact ⟨row, rest, later, hl⟩

section Outcome

lemma exists_ofTiles_eq_ok {extent : Cell} {tiles : Array Tile} (proper : extent.Proper)
    (size : tiles.size = extent.volume) : ∃ p, ofTiles extent tiles = .ok p :=
  ⟨_, by rw [ofTiles, dif_pos proper, dif_pos size]⟩

lemma exists_parse_eq_ok (pos : 0 < width) (h : Rectangular (rows t.toList) width height) :
    ∃ p, parse t = .ok p := by
  obtain ⟨row, rest, later, hl⟩ := exists_rows_eq t.toList
  have size := h.length_flatten_flatten
  have isRectangular := isRectangular_iff.2 h
  rw [hl] at h size isRectangular
  obtain ⟨rfl, hw⟩ := h _ List.mem_cons_self
  obtain rfl := hw row List.mem_cons_self
  simp only [parse, hl, List.headD_cons, isRectangular, Nat.ne_of_gt pos, if_true, if_false]
  apply exists_ofTiles_eq_ok
  · simp only [Cell.proper_iff, List.length_cons]
    omega
  · simpa only [List.size_toArray, List.length_map, Cell.volume, Int.toNat_natCast] using size

lemma parse_of_beginsEmpty (h : BeginsEmpty (rows t.toList)) : parse t = .error .empty := by
  obtain ⟨rest, later, hl⟩ := h
  simp [parse, hl]

lemma parse_of_ragged (begins : ¬ BeginsEmpty (rows t.toList)) (block : ¬ IsBlock (rows t.toList)) :
    parse t = .error .ragged := by
  obtain ⟨row, rest, later, hl⟩ := exists_rows_eq t.toList
  have ne : row ≠ [] := by
    rintro rfl
    exact begins ⟨rest, later, hl⟩
  have pos := List.length_pos_iff.2 ne
  have uneven : isRectangular (rows t.toList) row.length (rest.length + 1) = false := by
    rw [← Bool.not_eq_true, isRectangular_iff]
    exact fun h => block ⟨_, _, pos, h⟩
  rw [hl] at uneven
  simp [parse, hl, ne, uneven]

lemma rectangular_of_parse (h : parse t = .ok p) :
    Rectangular (rows t.toList) p.extent.x.toNat p.extent.y.toNat := by
  rw [← rectangular_map Tile.ofChar, ← parse_eq_ok_iff.1 h]
  exact rectangular_table p

lemma isBlock_of_parse (h : parse t = .ok p) : IsBlock (rows t.toList) := by
  obtain ⟨hx, -, -⟩ := Cell.proper_iff.1 p.proper
  exact ⟨_, _, by omega, rectangular_of_parse h⟩

lemma extent_of_parse (h : parse t = .ok p) (hr : Rectangular (rows t.toList) width height) :
    p.extent = ⟨width, height, (rows t.toList).length⟩ := by
  obtain ⟨row, rest, later, hl⟩ := exists_rows_eq t.toList
  have known := rectangular_of_parse h
  have depth := length_table p
  rw [parse_eq_ok_iff.1 h, List.length_map] at depth
  rw [hl] at hr known
  obtain ⟨rfl, hw⟩ := hr _ List.mem_cons_self
  obtain rfl := hw row List.mem_cons_self
  obtain ⟨hy, hx⟩ := known _ List.mem_cons_self
  have hx := hx row List.mem_cons_self
  obtain ⟨px, py, pz⟩ := Cell.proper_iff.1 p.proper
  ext <;> dsimp only <;> omega

lemma parse_cases (t : String) :
    BeginsEmpty (rows t.toList) ∧ parse t = .error .empty ∨
      IsBlock (rows t.toList) ∧ (∃ p, parse t = .ok p) ∨
        ¬ BeginsEmpty (rows t.toList) ∧ ¬ IsBlock (rows t.toList) ∧ parse t = .error .ragged := by
  by_cases begins : BeginsEmpty (rows t.toList)
  · exact .inl ⟨begins, parse_of_beginsEmpty begins⟩
  · by_cases block : IsBlock (rows t.toList)
    · obtain ⟨width, height, pos, h⟩ := block
      exact .inr (.inl ⟨⟨width, height, pos, h⟩, exists_parse_eq_ok pos h⟩)
    · exact .inr (.inr ⟨begins, block, parse_of_ragged begins block⟩)

lemma isBlock_iff : IsBlock (rows t.toList) ↔ ∃ p, parse t = .ok p := by
  constructor
  · exact fun ⟨width, height, pos, h⟩ => exists_parse_eq_ok pos h
  · exact fun ⟨p, h⟩ => isBlock_of_parse h

lemma parse_eq_empty_iff : parse t = .error .empty ↔ BeginsEmpty (rows t.toList) := by
  constructor
  · intro h
    obtain ⟨begins, -⟩ | ⟨-, p, ok⟩ | ⟨-, -, ragged⟩ := parse_cases t
    · exact begins
    · rw [ok] at h
      cases h
    · rw [ragged] at h
      cases h
  · exact parse_of_beginsEmpty

lemma parse_eq_ragged_iff :
    parse t = .error .ragged ↔ ¬ BeginsEmpty (rows t.toList) ∧ ¬ IsBlock (rows t.toList) := by
  constructor
  · intro h
    obtain ⟨-, empty⟩ | ⟨-, p, ok⟩ | ⟨begins, block, -⟩ := parse_cases t
    · rw [empty] at h
      cases h
    · rw [ok] at h
      cases h
    · exact ⟨begins, block⟩
  · exact fun ⟨begins, block⟩ => parse_of_ragged begins block

lemma error_eq_of_parse {e : PatternError} (h : parse t = .error e) : e = .empty ∨ e = .ragged := by
  obtain ⟨-, empty⟩ | ⟨-, p, ok⟩ | ⟨-, -, ragged⟩ := parse_cases t
  · rw [empty] at h
    exact .inl (Except.error.inj h).symm
  · rw [ok] at h
    cases h
  · rw [ragged] at h
    exact .inr (Except.error.inj h).symm

end Outcome

section Cells

lemma getElem?_interval_zero {n a : Int} {i : Nat} :
    (interval 0 n)[i]? = some a ↔ a = i ∧ a < n := by
  rw [interval, List.getElem?_map, Option.map_eq_some_iff]
  simp only [List.getElem?_eq_some_iff, List.length_range, List.getElem_range, Int.zero_add]
  constructor
  · rintro ⟨_, ⟨hi, rfl⟩, rfl⟩
    omega
  · rintro ⟨rfl, hi⟩
    exact ⟨i, ⟨by omega, rfl⟩, rfl⟩

lemma get?_of_table {x y z : Nat} {layer : List (List Tile)} {row : List Tile} {tile : Tile}
    (hl : p.table[z]? = some layer) (hr : layer[y]? = some row) (ht : row[x]? = some tile) :
    p.get? ⟨x, y, z⟩ = some tile := by
  rw [table, List.getElem?_map, Option.map_eq_some_iff] at hl
  obtain ⟨z', hz, rfl⟩ := hl
  rw [List.getElem?_map, Option.map_eq_some_iff] at hr
  obtain ⟨y', hy, rfl⟩ := hr
  rw [List.getElem?_map, Option.map_eq_some_iff] at ht
  obtain ⟨x', hx, rfl⟩ := ht
  rw [getElem?_interval_zero] at hx hy hz
  obtain ⟨⟨rfl, hx⟩, ⟨rfl, hy⟩, rfl, hz⟩ := And.intro hx (And.intro hy hz)
  apply get?_of_mem
  rw [Box.mem_ofExtent]
  dsimp only
  omega

end Cells

theorem parse_reads_blocks (t : String) : ∃ layers, (∀ ls, Splits t.toList ls ↔ ls = layers) ∧
    ((∃ p, parse t = .ok p) ↔ IsBlock layers) ∧
    (∀ p width height, parse t = .ok p → Rectangular layers width height →
      p.extent = ⟨width, height, layers.length⟩ ∧
        ∀ (x y z : Nat) layer row c, layers[z]? = some layer → layer[y]? = some row →
          row[x]? = some c → p.get? ⟨x, y, z⟩ = some (Tile.ofChar c)) ∧
    (parse t = .error .empty ↔ BeginsEmpty layers) ∧
    (parse t = .error .ragged ↔ ¬ BeginsEmpty layers ∧ ¬ IsBlock layers) ∧
    ∀ e, parse t = .error e → e = .empty ∨ e = .ragged := by
  refine ⟨rows t.toList, fun ls => splits_iff, isBlock_iff.symm, ?_, parse_eq_empty_iff,
    parse_eq_ragged_iff, fun e => error_eq_of_parse⟩
  intro p width height h hr
  refine ⟨extent_of_parse h hr, fun x y z layer row c hl hrow hc => ?_⟩
  have table := parse_eq_ok_iff.1 h
  have layer_eq : p.table[z]? = some (layer.map (·.map Tile.ofChar)) := by simp [table, hl]
  apply get?_of_table layer_eq
  · rw [List.getElem?_map, hrow]
    rfl
  · rw [List.getElem?_map, hc]
    rfl

theorem parse_reads_blocks_accented :
    (∃ p, parse "Aé/*C DE/FG" = .ok p ∧ p.extent = ⟨2, 2, 2⟩ ∧
      p.get? ⟨1, 0, 0⟩ = some (Tile.ofChar 'é') ∧ p.get? ⟨0, 1, 1⟩ = some (Tile.ofChar 'F')) ∧
    parse " é" = .error .empty := by
  constructor
  · obtain ⟨layers, splits, accepted, read, -⟩ := parse_reads_blocks "Aé/*C DE/FG"
    have split : Splits "Aé/*C DE/FG".toList
        [[['A', 'é'], ['*', 'C']], [['D', 'E'], ['F', 'G']]] :=
      ⟨by simp, by simp, by simp, by decide +kernel⟩
    obtain rfl := (splits _).1 split
    have block : Rectangular [[['A', 'é'], ['*', 'C']], [['D', 'E'], ['F', 'G']]] 2 2 := by
      simp [Rectangular]
    obtain ⟨p, h⟩ := accepted.2 ⟨2, 2, by decide, block⟩
    obtain ⟨extent, cells⟩ := read p 2 2 h block
    exact ⟨p, h, extent, cells 1 0 0 _ _ _ rfl rfl rfl, cells 0 1 1 _ _ _ rfl rfl rfl⟩
  · obtain ⟨layers, splits, -, -, empty, -⟩ := parse_reads_blocks " é"
    obtain rfl := (splits [[[]], [['é']]]).1 ⟨by simp, by simp, by simp, by decide +kernel⟩
    exact empty.2 ⟨[], [[['é']]], rfl⟩

end Pattern

end TileGrammar
