import TileGrammar.Settings
import TileGrammar.Proofs.Json.Standard
import Mathlib.Data.List.Induction

namespace TileGrammar

lemma Strategy.ofName_name (s : Strategy) : ofName s.name = s := by
  cases s <;> rfl

namespace Settings

/-- The settings with the fields of some names taken from others. -/
def replacing (c : Settings) (names : List String) (d : Settings) : Settings where
  gridSize := if "grid_size" ∈ names then d.gridSize else c.gridSize
  fill := if "fill" ∈ names then d.fill else c.fill
  seed := if "seed" ∈ names then d.seed else c.seed
  strategy := if "strategy" ∈ names then d.strategy else c.strategy
  maxSteps := if "max_steps" ∈ names then d.maxSteps else c.maxSteps
  finishWithSweep := if "finish_with_sweep" ∈ names then d.finishWithSweep else c.finishWithSweep
  overlay := if "overlay" ∈ names then d.overlay else c.overlay

def fieldNames : List String :=
  ["grid_size", "fill", "seed", "strategy", "max_steps", "finish_with_sweep", "overlay"]

variable (c d : Settings)

lemma ite_mem_concat {α : Type} (key name : String) (names : List String) (a b : α) :
    (if key ∈ [name] then a else if key ∈ names then a else b) =
      if key ∈ names ++ [name] then a else b := by
  by_cases last : key = name <;> by_cases other : key ∈ names <;> simp [last, other]

lemma replacing_replacing (names : List String) (name : String) :
    (d.replacing names c).replacing [name] c = d.replacing (names ++ [name]) c := by
  simp only [replacing, ite_mem_concat]

lemma replacing_comm {names removed : List String}
    (kept : ∀ name ∈ fieldNames, name ∈ names ↔ name ∉ removed) :
    d.replacing names c = c.replacing removed d := by
  simp only [fieldNames, List.forall_mem_cons, List.not_mem_nil] at kept
  simp [replacing, kept]

section Library

variable {json : Json.Library} {Takes : ∀ {α : Type}, json.Codec α → Json.Datum → α → Prop}
  {Gives : ∀ {ρ : Type}, List (Json.Field json.Codec ρ) → ρ → Json.Items → ρ → Prop}

lemma map_name_fields : (fields json).map (·.name) = fieldNames := rfl

lemma set_get {field : Json.Field json.Codec Settings} (h : field ∈ fields json) :
    field.set d (field.get c) = d.replacing [field.name] c := by
  simp only [fields, List.mem_cons, List.not_mem_nil, or_false] at h
  rcases h with rfl | rfl | rfl | rfl | rfl | rfl | rfl <;> rfl

lemma takes_field (laws : json.Laws Takes Gives) {field : Json.Field json.Codec Settings}
    (h : field ∈ fields json) :
    Takes field.codec (json.datum field.codec (field.get c)) (field.get c) := by
  simp only [fields, List.mem_cons, List.not_mem_nil, or_false] at h
  obtain rfl | rfl | rfl | rfl | rfl | rfl | rfl := h
  · exact laws.int32Triple.takes_datum _
  · exact laws.string.takes_datum _
  · exact (laws.optional laws.uint64 fun _ => nofun).takes_datum _
  · exact (laws.choice Strategy.ofName_name).takes_datum _
  · exact laws.uint64.takes_datum _
  · exact (laws.optional laws.string fun _ => nofun).takes_datum _
  · exact laws.bool.takes_datum _

def itemOf (field : Json.Field json.Codec Settings) : String × Json.Datum :=
  (field.name, json.datum field.codec (field.get c))

lemma items_eq (laws : json.Laws Takes Gives) : c.items json = (fields json).map c.itemOf := by
  rw [items, laws.items_eq, List.map_map]
  rfl

lemma gives_replacing (laws : json.Laws Takes Gives) {items : Json.Items}
    (known : ∀ item ∈ items, item ∈ c.items json) (distinct : (items.map (·.1)).Nodup) :
    Gives (fields json) {} items (replacing {} (items.map (·.1)) c) := by
  induction items using List.reverseRecOn with
  | nil => exact laws.gives_default _ _
  | append_singleton items item ih =>
    rw [List.map_append, List.map_singleton, List.nodup_append_comm, List.singleton_append,
      List.nodup_cons] at distinct
    rw [List.forall_mem_append, items_eq c laws] at known
    obtain ⟨field, member, rfl⟩ := List.mem_map.1 (known.2 item (List.mem_singleton_self item))
    have given := ih (by rw [items_eq c laws]; exact known.1) distinct.2
    have fields_nodup : ((fields json).map (·.name)).Nodup := by
      rw [map_name_fields]
      decide
    rw [List.map_append, List.map_singleton, ← replacing_replacing, itemOf, ← set_get c _ member]
    exact laws.gives_concat given fields_nodup member distinct.1 (takes_field c laws member)

lemma parse_write (laws : json.Laws Takes Gives) (l : Json.Layout) (removed : List String)
    {items : Json.Items} (left : items.Perm ((c.items json).filter (·.1 ∉ removed))) :
    parse json (json.write l items) = (c.replacing removed {}).validate := by
  have names : (items.map (·.1)).Perm (fieldNames.filter (· ∉ removed)) := by
    have all : (c.items json).map (·.1) = fieldNames := by
      rw [items_eq c laws, List.map_map]
      rfl
    rw [← all, List.filter_map]
    exact left.map _
  have distinct : (items.map (·.1)).Nodup := names.nodup_iff.2 (List.Nodup.filter _ (by decide))
  have kept : ∀ name ∈ fieldNames, name ∈ items.map (·.1) ↔ name ∉ removed := by
    intro name known
    rw [names.mem_iff, List.mem_filter, decide_eq_true_iff, and_iff_right known]
  have known : ∀ item ∈ items, item ∈ c.items json :=
    fun item h => (List.mem_filter.1 (left.mem_iff.1 h)).1
  have read := laws.read_write (gives_replacing c laws known distinct) l
  rw [replacing_comm c {} kept] at read
  rw [parse, read]
  rfl

theorem parse_written (laws : json.Laws Takes Gives) (c : Settings) :
    parse json (c.text json) =
        (if c.extent.Proper then .ok c else .error (.improperGrid c.extent)) ∧
      ∀ (l : Json.Layout) (removed : List String) (items : Json.Items),
        items.Perm ((c.items json).filter (·.1 ∉ removed)) →
          let d := c.replacing removed {}
          parse json (json.write l items) =
            if d.extent.Proper then .ok d else .error (.improperGrid d.extent) := by
  refine ⟨?_, fun l removed items left => parse_write c laws l removed left⟩
  have all : (c.items json).filter (·.1 ∉ []) = c.items json := List.filter_eq_self.2 (by simp)
  exact parse_write c laws ⟨true⟩ [] (.of_eq all.symm)

end Library

theorem parse_written_reversed :
    let json := Json.standard
    let c : Settings :=
      { gridSize := (0, 1, 5), fill := "\"\\\x1f", seed := some 18446744073709551615,
        strategy := .unsupported, finishWithSweep := some "" }
    let items := ((c.items json).filter (·.1 ∉ ["grid_size", "overlay"])).reverse
    json.Laws Json.StandardCodec.Takes Json.StandardCodec.Gives ∧
      items.Perm ((c.items json).filter (·.1 ∉ ["grid_size", "overlay"])) ∧
      parse json (c.text json) = .error (.improperGrid ⟨0, 1, 5⟩) ∧
      parse json (json.write ⟨false⟩ items) = .ok { c with gridSize := (32, 1, 32) } := by
  intro json c items
  have left : items.Perm ((c.items json).filter (·.1 ∉ ["grid_size", "overlay"])) :=
    List.reverse_perm _
  obtain ⟨whole, part⟩ := parse_written Json.standard_laws c
  have improper : ¬c.extent.Proper := by decide
  have proper : (c.replacing ["grid_size", "overlay"] {}).extent.Proper := by decide
  refine ⟨Json.standard_laws, left, ?_, ?_⟩
  · rw [whole, if_neg improper]
    rfl
  · exact (part ⟨false⟩ _ _ left).trans (if_pos proper)

end Settings

end TileGrammar
