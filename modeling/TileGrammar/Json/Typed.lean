import TileGrammar.Json.Skip

/-!
Readers for values of a known kind. A value of another kind is refused as soon as its kind is clear,
but its own text has to be well-formed.
-/

namespace TileGrammar.Json

def refuse {α : Type} : Reader α := do
  match ← get with
  | [] => throw .truncated
  | c :: _ =>
    if c = 'n' then constant "null".toList
    else if c = 't' then constant "true".toList
    else if c = 'f' then constant "false".toList
    else if c = '"' then
      skip
      let _ ← stringBody
    else if c = '-' || c.isDigit then
      let _ ← number
    else if c ≠ '[' && c ≠ '\x7b' then throw .malformed
    throw .mistyped

def string : Reader String := do
  match ← peek with
  | some '"' =>
    skip
    stringBody
  | _ => refuse

def integerIn (low high : Int) : Reader Int := do
  match ← peek with
  | none => throw .truncated
  | some c =>
    if c = '-' || c.isDigit then
      match (← number).integer? with
      | none => throw .mistyped
      | some n => if low ≤ n ∧ n ≤ high then return n else throw .mistyped
    else refuse

def int32 : Reader Int32 := do
  return Int32.ofInt (← integerIn (-2147483648) 2147483647)

def uint64 : Reader UInt64 := do
  return UInt64.ofNat (← integerIn 0 18446744073709551615).toNat

def bool : Reader Bool := do
  match ← peek with
  | some 't' =>
    constant "true".toList
    return true
  | some 'f' =>
    constant "false".toList
    return false
  | _ => refuse

def null : Reader Unit := do
  match ← peek with
  | some 'n' => constant "null".toList
  | _ => refuse

def optional {α : Type} (value : Reader α) : Reader (Option α) := do
  match ← peek with
  | some 'n' =>
    constant "null".toList
    return none
  | _ => return some (← value)

def nextItem (isFirst : Bool) : Reader Bool := do
  match ← peek with
  | none => throw .truncated
  | some ']' => return false
  | some c =>
    if isFirst then return true
    else if c = ',' then
      skip
      match ← peek with
      | none => throw .truncated
      | some ']' => throw .malformed
      | some _ => return true
    else throw .malformed

def close (bracket : Char) : Reader Unit := do
  match ← peek with
  | none => throw .truncated
  | some c => if c = bracket then skip else throw .malformed

def triple {α : Type} (value : Reader α) : Reader (α × α × α) := do
  let item (isFirst : Bool) : Reader α := do
    if ← nextItem isFirst then value else throw .mistyped
  match ← peek with
  | some '[' =>
    skip
    let a ← item true
    let b ← item false
    let c ← item false
    close ']'
    return (a, b, c)
  | _ => refuse

def itemName : Reader String := do
  match ← peek with
  | none => throw .truncated
  | some '"' =>
    skip
    stringBody
  | some _ => throw .malformed

def nextName (isFirst : Bool) : Reader (Option String) := do
  match ← peek with
  | none => throw .truncated
  | some '\x7d' => return none
  | some c =>
    unless isFirst do
      if c = ',' then skip else throw .malformed
    return some (← itemName)

def choice {α : Type} (ofName : String → Option α) : Reader α := do
  let resolve (name : String) : Reader α :=
    match ofName name with
    | none => throw .mistyped
    | some a => return a
  match ← peek with
  | none => throw .truncated
  | some '"' =>
    skip
    resolve (← stringBody)
  | some '\x7b' =>
    skip
    let a ← resolve (← itemName)
    colon
    null
    close '\x7d'
    return a
  | some _ => throw .malformed

structure Slot (ρ : Type) where
  name : String
  readInto : ρ → Reader ρ

def listedFields {ρ : Type} : Bool → List (Slot ρ) → ρ → Reader ρ
  | _, [], r => pure r
  | isFirst, slot :: slots, r => do
    if ← nextItem isFirst then listedFields false slots (← slot.readInto r) else pure r

def namedFields {ρ : Type} (slots : List (Slot ρ)) : Nat → List String → Bool → ρ → Reader ρ
  | 0, _, _, _ => throw .truncated
  | fuel + 1, seen, isFirst, r => do
    match ← nextName isFirst with
    | none => pure r
    | some name =>
      if name ∈ seen then throw .mistyped
      match slots.find? (·.name = name) with
      | some slot =>
        colon
        namedFields slots fuel (name :: seen) false (← slot.readInto r)
      | none =>
        colon
        skipValue
        namedFields slots fuel seen false r

def record {ρ : Type} (slots : List (Slot ρ)) (default : ρ) : Reader ρ := do
  match ← peek with
  | some '[' =>
    skip
    let r ← listedFields true slots default
    close ']'
    return r
  | some '\x7b' =>
    skip
    let r ← namedFields slots ((← get).length + 1) [] true default
    close '\x7d'
    return r
  | _ => refuse

def document {α : Type} (value : Reader α) (text : String) : Except Fault α := do
  let (a, rest) ← value.run text.toList
  if (rest.dropWhile isBlank).isEmpty then return a else throw .malformed

end TileGrammar.Json
