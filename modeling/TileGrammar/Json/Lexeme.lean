import TileGrammar.Json.Library

/-!
The words of JSON: blanks, names of constants, strings and numbers. A reader takes what it reads off
the front of the text, and tells a text that ends too early from one that is malformed.
-/

namespace TileGrammar.Json

abbrev Reader (α : Type) := StateT (List Char) (Except Fault) α

def isBlank (c : Char) : Bool := c = ' ' || c = '\n' || c = '\t' || c = '\r'

def skipBlanks : Reader Unit := modify (·.dropWhile isBlank)

def peek : Reader (Option Char) := do
  skipBlanks
  return (← get).head?

def skip : Reader Unit := modify (·.drop 1)

def constant : List Char → Reader Unit
  | [] => pure ()
  | c :: cs => do
    match ← get with
    | [] => throw .truncated
    | d :: rest =>
      if c = d then
        set rest
        constant cs
      else throw .malformed

def hexDigit? (c : Char) : Option Nat :=
  if '0' ≤ c ∧ c ≤ '9' then some (c.toNat - '0'.toNat)
  else if 'a' ≤ c ∧ c ≤ 'f' then some (c.toNat - 'a'.toNat + 10)
  else if 'A' ≤ c ∧ c ≤ 'F' then some (c.toNat - 'A'.toNat + 10)
  else none

def codeUnit? (a b c d : Char) : Option Nat := do
  return (((← hexDigit? a) * 16 + (← hexDigit? b)) * 16 + (← hexDigit? c)) * 16 + (← hexDigit? d)

def codeFault (rest : List Char) : Fault :=
  if (String.ofList rest).utf8ByteSize < 4 then .truncated else .malformed

def shortEscape? : Char → Option Char
  | '"' => some '"'
  | '\\' => some '\\'
  | '/' => some '/'
  | 'b' => some '\x08'
  | 'f' => some '\x0c'
  | 'n' => some '\n'
  | 'r' => some '\r'
  | 't' => some '\t'
  | _ => none

inductive Unit16 where
  | char (c : Char)
  | lead (high : Nat)
  | stray

def Unit16.ofCode : Option Nat → Nat → Unit16
  | none, n =>
    if 0xd800 ≤ n ∧ n < 0xdc00 then lead n
    else if 0xdc00 ≤ n ∧ n < 0xe000 then stray
    else char (Char.ofNat n)
  | some high, n =>
    if 0xdc00 ≤ n ∧ n < 0xe000 then
      char (Char.ofNat (0x10000 + (high - 0xd800) * 0x400 + (n - 0xdc00)))
    else stray

/-- The characters of a string and what follows its closing quote. A leading half of a pair of codes
waits for the other half, which has to follow at once. -/
def stringTail : Option Nat → List Char → Except Fault (List Char × List Char)
  | _, [] => .error .truncated
  | lead, '\\' :: 'u' :: a :: b :: c :: d :: rest =>
    match codeUnit? a b c d with
    | none => .error .malformed
    | some n =>
      match Unit16.ofCode lead n with
      | .char e => (stringTail none rest).map fun (s, rest) => (e :: s, rest)
      | .lead high => stringTail (some high) rest
      | .stray => .error .malformed
  | _, '\\' :: 'u' :: rest => .error (codeFault rest)
  | _, ['\\'] => .error .truncated
  | some _, _ => .error .malformed
  | none, '"' :: rest => .ok ([], rest)
  | none, '\\' :: c :: rest =>
    match shortEscape? c with
    | none => .error .malformed
    | some e => (stringTail none rest).map fun (s, rest) => (e :: s, rest)
  | none, c :: rest =>
    if c.toNat < 0x20 then .error .malformed
    else (stringTail none rest).map fun (s, rest) => (c :: s, rest)

def stringBody : Reader String := do
  let (s, rest) ← stringTail none (← get)
  set rest
  return String.ofList s

def skipStringTail : List Char → Except Fault (List Char)
  | [] => .error .truncated
  | '\\' :: 'u' :: a :: b :: c :: d :: rest =>
    if (codeUnit? a b c d).isSome then skipStringTail rest else .error .malformed
  | '\\' :: 'u' :: rest => .error (codeFault rest)
  | ['\\'] => .error .truncated
  | '"' :: rest => .ok rest
  | '\\' :: c :: rest =>
    if (shortEscape? c).isSome then skipStringTail rest else .error .malformed
  | c :: rest => if c.toNat < 0x20 then .error .malformed else skipStringTail rest

structure Numeral where
  isNegative : Bool
  whole : List Char
  fraction : List Char := []
  exponent : Int := 0
  isWhole : Bool := true
deriving DecidableEq, Repr

namespace Numeral

def wordSize : Nat := 18446744073709551616

def appendDigits (n : Nat) : List Char → Nat × Nat
  | [] => (n, 0)
  | c :: cs =>
    let m := n * 10 + (c.toNat - '0'.toNat)
    if m < wordSize then appendDigits m cs else (n, cs.length + 1)

def digitsValue (cs : List Char) : Nat :=
  cs.foldl (fun n c => n * 10 + (c.toNat - '0'.toNat)) 0

def isTooLarge (n : Numeral) : Bool :=
  let (m, leftOut) := appendDigits 0 n.whole
  let (m, ignored) := appendDigits m n.fraction
  let exponent := n.exponent + leftOut - (n.fraction.length - ignored : Nat)
  m ≠ 0 && 0 < exponent &&
    (308 < exponent || (m.toUInt64.toFloat * Float.ofScientific 1 false exponent.toNat).isInf)

def integer? (n : Numeral) : Option Int :=
  let m := digitsValue n.whole
  if !n.isWhole || (n.isNegative && m = 0) then none
  else some (if n.isNegative then -m else m)

end Numeral

def digits : Reader (List Char) := do
  let s ← get
  if s.isEmpty then throw .truncated
  let ds := s.takeWhile Char.isDigit
  if ds.isEmpty then throw .malformed
  set (s.drop ds.length)
  return ds

def wholeDigits : Reader (List Char) := do
  let ds ← digits
  if ds.length ≠ 1 ∧ ds.head? = some '0' then throw .malformed
  return ds

def exponent? : Reader (Option Int) := do
  let s ← get
  if s.head? ≠ some 'e' ∧ s.head? ≠ some 'E' then return none
  skip
  let sign := (← get).head?
  if sign = some '+' ∨ sign = some '-' then skip
  let n := Numeral.digitsValue (← digits)
  return some (if sign = some '-' then -n else n)

def numeral : Reader Numeral := do
  let isNegative := (← get).head? = some '-'
  if isNegative then skip
  let whole ← wholeDigits
  let hasPoint := (← get).head? = some '.'
  let fraction ← if hasPoint then skip *> digits else pure []
  let exponent ← exponent?
  return {
    isNegative, whole, fraction
    exponent := exponent.getD 0
    isWhole := !hasPoint && exponent.isNone }

def number : Reader Numeral := do
  let n ← numeral
  if n.isTooLarge then throw .malformed
  return n

def skipNumber : Reader Unit :=
  tryCatch (numeral *> pure ()) fun _ => throw .malformed

end TileGrammar.Json
