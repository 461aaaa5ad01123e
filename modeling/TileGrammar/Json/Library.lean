/-!
What a library for JSON offers: codecs for the types of fields, and texts for flat records of such
fields.
-/

namespace TileGrammar.Json

/-- Why a text is refused: it ends too early, it breaks the grammar, or it holds a value of the
wrong kind. -/
inductive Fault where
  | truncated
  | malformed
  | mistyped
deriving DecidableEq, Repr

inductive Datum where
  | null
  | bool (b : Bool)
  | int (n : Int)
  | string (s : String)
  | ints (ns : List Int)
deriving DecidableEq, Repr

abbrev Items := List (String × Datum)

structure Layout where
  isIndented : Bool

structure Member (Codec : Type → Type) (ρ : Type) where
  name : String
  {Kind : Type}
  codec : Codec Kind
  get : ρ → Kind

structure Field (Codec : Type → Type) (ρ : Type) extends Member Codec ρ where
  set : ρ → Kind → ρ

structure Library where
  Codec : Type → Type
  string : Codec String
  bool : Codec Bool
  uint64 : Codec UInt64
  int32Triple : Codec (Int32 × Int32 × Int32)
  optional {α : Type} : Codec α → Codec (Option α)
  choice {α : Type} (name : α → String) (ofName : String → α) : Codec α
  datum {α : Type} : Codec α → α → Datum
  items {ρ : Type} : List (Member Codec ρ) → ρ → Items
  write : Layout → Items → String
  /-- Reads a record. What is not given is as in the default. -/
  read {ρ : Type} : List (Field Codec ρ) → ρ → String → Except Fault ρ

end TileGrammar.Json
