import TileGrammar.Json.Lexeme

namespace TileGrammar.Json

inductive Frame where
  | list
  | object
deriving DecidableEq, Repr

namespace Frame

def closing : Frame → Char
  | list => ']'
  | object => '}'

end Frame

inductive Place where
  | value
  | firstItem
  | nextItem
deriving DecidableEq, Repr

def skipScalar : Reader Unit := do
  match ← get with
  | [] => throw .truncated
  | c :: _ =>
    if c = 'n' then constant "null".toList
    else if c = 't' then constant "true".toList
    else if c = 'f' then constant "false".toList
    else if c = '"' then
      skip
      set (← skipStringTail (← get))
    else if c = '-' || c.isDigit then skipNumber
    else throw .malformed

def colon : Reader Unit := do
  match ← peek with
  | none => throw .truncated
  | some ':' => skip
  | some _ => throw .malformed

def skipName : Frame → Reader Unit
  | .list => pure ()
  | .object => do
    match ← peek with
    | none => throw .truncated
    | some '"' =>
      skip
      set (← skipStringTail (← get))
      colon
    | some _ => throw .malformed

def skipFrom : Nat → Place → List Frame → Reader Unit
  | 0, _, _ => throw .truncated
  | fuel + 1, .value, frames => do
    match ← peek with
    | some '[' =>
      skip
      skipFrom fuel .firstItem (.list :: frames)
    | some '\x7b' =>
      skip
      skipFrom fuel .firstItem (.object :: frames)
    | _ =>
      skipScalar
      skipFrom fuel .nextItem frames
  | _ + 1, _, [] => pure ()
  | fuel + 1, place, frame :: frames => do
    match ← peek with
    | none => throw .truncated
    | some c =>
      if c = frame.closing then
        skip
        skipFrom fuel .nextItem frames
      else if place = .firstItem then
        skipName frame
        skipFrom fuel .value (frame :: frames)
      else if c = ',' then
        skip
        skipName frame
        skipFrom fuel .value (frame :: frames)
      else throw .malformed

/-- Skips one value. Every two steps take at least one character. -/
def skipValue : Reader Unit := do
  skipFrom (2 * (← get).length + 2) .value []

end TileGrammar.Json
