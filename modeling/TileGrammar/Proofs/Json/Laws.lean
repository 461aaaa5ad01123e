import TileGrammar.Json.Library
import Mathlib.Data.List.Nodup
import Mathlib.Tactic.Lemma

/-!
What is relied on of a library for JSON. It reads back what it writes, and a record that is not
given in full is completed from the default.
-/

namespace TileGrammar.Json.Library

variable (json : Library) (Takes : ∀ {α : Type}, json.Codec α → Datum → α → Prop)

/-- Every value is written as a function of it, and taken back from there. -/
def Keeps {α : Type} (codec : json.Codec α) (f : α → Datum) : Prop :=
  ∀ a, json.datum codec a = f a ∧ Takes codec (f a) a

variable {json Takes} in
lemma Keeps.takes_datum {α : Type} {codec : json.Codec α} {f : α → Datum}
    (keeps : json.Keeps Takes codec f) (a : α) : Takes codec (json.datum codec a) a := by
  rw [(keeps a).1]
  exact (keeps a).2

/-- The laws, given which datum a codec takes for which value and which record the items of an
object give. -/
structure Laws (Gives : ∀ {ρ : Type}, List (Field json.Codec ρ) → ρ → Items → ρ → Prop) :
    Prop where
  string : json.Keeps Takes json.string .string
  bool : json.Keeps Takes json.bool .bool
  uint64 : json.Keeps Takes json.uint64 fun n => .int n.toNat
  int32Triple : json.Keeps Takes json.int32Triple fun n =>
    .ints [n.1.toInt, n.2.1.toInt, n.2.2.toInt]
  optional {α : Type} {codec : json.Codec α} {f : α → Datum} : json.Keeps Takes codec f →
    (∀ a, f a ≠ .null) → json.Keeps Takes (json.optional codec) fun a? => a?.elim .null f
  choice {α : Type} {name : α → String} {ofName : String → α} : (∀ a, ofName (name a) = a) →
    json.Keeps Takes (json.choice name ofName) fun a => .string (name a)
  items_eq {ρ : Type} (members : List (Member json.Codec ρ)) (r : ρ) :
    json.items members r = members.map fun m => (m.name, json.datum m.codec (m.get r))
  gives_default {ρ : Type} (fields : List (Field json.Codec ρ)) (default : ρ) :
    Gives fields default [] default
  gives_concat {ρ : Type} {fields : List (Field json.Codec ρ)} {default r : ρ} {items : Items}
    {field : Field json.Codec ρ} {d : Datum} {a : field.Kind} :
    Gives fields default items r → (fields.map (·.name)).Nodup → field ∈ fields →
      field.name ∉ items.map (·.1) → Takes field.codec d a →
        Gives fields default (items ++ [(field.name, d)]) (field.set r a)
  read_write {ρ : Type} {fields : List (Field json.Codec ρ)} {default r : ρ} {items : Items} :
    Gives fields default items r → ∀ l, json.read fields default (json.write l items) = .ok r

end TileGrammar.Json.Library
