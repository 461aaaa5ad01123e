import TileGrammar.Pattern.Text
import Mathlib.Tactic.Lemma

namespace TileGrammar

lemma map_eq_self {α : Type} {f : α → α} {l : List α} (h : ∀ a ∈ l, f a = a) : l.map f = l :=
  (List.map_congr_left h).trans (List.map_id l)

namespace Pattern

structure Splits (s : List Char) (layers : List (List (List Char))) : Prop where
  ne_nil : layers ≠ []
  layer_ne_nil : ∀ layer ∈ layers, layer ≠ []
  plain : ∀ layer ∈ layers, ∀ row ∈ layer, ∀ c ∈ row, c ≠ '/' ∧ c ≠ ' '
  joined : [' '].intercalate (layers.map ['/'].intercalate) = s

variable {s : List Char} {layers : List (List (List Char))}

lemma ne_separator_of_mem_rows {layer : List (List Char)} {row : List Char} {c : Char}
    (hl : layer ∈ rows s) (hr : row ∈ layer) (hc : c ∈ row) : c ≠ '/' ∧ c ≠ ' ' := by
  obtain ⟨f, hf, rfl⟩ := List.mem_map.1 hl
  constructor
  · rintro rfl
    exact Text.not_mem_of_mem_fields hr hc
  · rintro rfl
    exact Text.not_mem_of_mem_fields hf (Text.mem_of_mem_fields hr hc)

lemma splits_rows (s : List Char) : Splits s (rows s) where
  ne_nil := by simpa [rows] using Text.fields_ne_nil ' ' s
  layer_ne_nil layer hl := by
    obtain ⟨f, -, rfl⟩ := List.mem_map.1 hl
    exact Text.fields_ne_nil '/' f
  plain layer hl row hr c hc := ne_separator_of_mem_rows hl hr hc
  joined := by simp [rows, Function.comp_def, Text.intercalate_fields]

lemma Splits.rows_eq (h : Splits s layers) : rows s = layers := by
  rw [← h.joined, rows, Text.fields_intercalate (by simpa using h.ne_nil), List.map_map]
  · apply map_eq_self
    intro layer hl
    apply Text.fields_intercalate
    · exact h.layer_ne_nil layer hl
    · exact fun row hr hc => (h.plain layer hl row hr _ hc).1 rfl
  · -- a blank is neither in a row nor the separator of the rows
    intro f hf hc
    obtain ⟨layer, hl, rfl⟩ := List.mem_map.1 hf
    obtain h' | ⟨row, hr, hc⟩ := Text.eq_or_exists_of_mem_intercalate hc
    · exact absurd h' (by decide)
    · exact (h.plain layer hl row hr _ hc).2 rfl

lemma splits_iff : Splits s layers ↔ layers = rows s := by
  constructor
  · exact fun h => h.rows_eq.symm
  · rintro rfl
    exact splits_rows s

end Pattern

end TileGrammar
