import TileGrammar.Json.Library

namespace TileGrammar.Json

def hexPair (n : Nat) : List Char := [Nat.digitChar (n / 16 % 16), Nat.digitChar (n % 16)]

def escape (c : Char) : List Char :=
  if c = '"' then ['\\', '"']
  else if c = '\\' then ['\\', '\\']
  else if c = '\x08' then ['\\', 'b']
  else if c = '\x0c' then ['\\', 'f']
  else if c = '\n' then ['\\', 'n']
  else if c = '\r' then ['\\', 'r']
  else if c = '\t' then ['\\', 't']
  else if c.toNat < 0x20 then ['\\', 'u', '0', '0'] ++ hexPair c.toNat
  else [c]

def stringText (s : String) : List Char := '"' :: s.toList.flatMap escape ++ ['"']

def intText (n : Int) : List Char :=
  (if n < 0 then ['-'] else []) ++ Nat.toDigits 10 n.natAbs

namespace Layout

def lineBreak (l : Layout) (depth : Nat) : List Char :=
  if l.isIndented then '\n' :: List.replicate (2 * depth) ' ' else []

def bracketed (l : Layout) (depth : Nat) (opening closing : Char) (items : List (List Char)) :
    List Char :=
  if items.isEmpty then [opening, closing]
  else
    opening :: l.lineBreak (depth + 1) ++
      (',' :: l.lineBreak (depth + 1)).intercalate items ++ l.lineBreak depth ++ [closing]

def datumText (l : Layout) (depth : Nat) : Datum → List Char
  | .null => "null".toList
  | .bool b => (if b then "true" else "false").toList
  | .int n => intText n
  | .string s => stringText s
  | .ints ns => l.bracketed depth '[' ']' (ns.map intText)

def itemText (l : Layout) (depth : Nat) (item : String × Datum) : List Char :=
  stringText item.1 ++ ':' :: (if l.isIndented then [' '] else []) ++ l.datumText depth item.2

def recordText (l : Layout) (items : Items) : String :=
  String.ofList (l.bracketed 0 '\x7b' '\x7d' (items.map (l.itemText 1)))

end Layout

end TileGrammar.Json
