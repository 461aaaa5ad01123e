import TileGrammar.Grid.Basic
import TileGrammar.Json.Library
import TileGrammar.Match.Selection

/-!
The settings of a session and their JSON form. Every field has a default, so a text gives only what
it changes; the extents of the grid have to be positive.
-/

namespace TileGrammar

structure Settings where
  gridSize : Int32 × Int32 × Int32 := (32, 1, 32)
  fill : String := "."
  seed : Option UInt64 := none
  strategy : Strategy := .random
  /-- The number of single steps, without a limit if it is zero. -/
  maxSteps : UInt64 := 0
  finishWithSweep : Option String := none
  overlay : Bool := true
deriving DecidableEq

inductive SettingsError where
  | unreadable
  | json (fault : Json.Fault)
  | improperGrid (extent : Cell)
deriving DecidableEq, Repr

namespace SettingsError

def faultText : Json.Fault → String
  | .truncated => "the text ends too early"
  | .malformed => "the text is malformed"
  | .mistyped => "a value does not fit its field"

def message : SettingsError → String
  | unreadable => "IO error: the file cannot be read as text"
  | json fault => s!"JSON error: {faultText fault}"
  | improperGrid extent =>
    s!"Invalid grid size {extent.text}: every extent must be at least 1"

end SettingsError

namespace Settings

def extent (c : Settings) : Cell :=
  ⟨c.gridSize.1.toInt, c.gridSize.2.1.toInt, c.gridSize.2.2.toInt⟩

def validate (c : Settings) : Except SettingsError Settings :=
  if c.extent.Proper then .ok c else .error (.improperGrid c.extent)

section Library

variable (json : Json.Library)

def fields : List (Json.Field json.Codec Settings) :=
  [⟨⟨"grid_size", json.int32Triple, gridSize⟩, fun c gridSize => { c with gridSize }⟩,
   ⟨⟨"fill", json.string, fill⟩, fun c fill => { c with fill }⟩,
   ⟨⟨"seed", json.optional json.uint64, seed⟩, fun c seed => { c with seed }⟩,
   ⟨⟨"strategy", json.choice Strategy.name Strategy.ofName, strategy⟩,
    fun c strategy => { c with strategy }⟩,
   ⟨⟨"max_steps", json.uint64, maxSteps⟩, fun c maxSteps => { c with maxSteps }⟩,
   ⟨⟨"finish_with_sweep", json.optional json.string, finishWithSweep⟩,
    fun c finishWithSweep => { c with finishWithSweep }⟩,
   ⟨⟨"overlay", json.bool, overlay⟩, fun c overlay => { c with overlay }⟩]

def parse (text : String) : Except SettingsError Settings := do
  let c ← (json.read (fields json) {} text).mapError .json
  c.validate

def load (content : Option ByteArray) : Except SettingsError Settings :=
  match content.bind String.fromUTF8? with
  | none => .error .unreadable
  | some text => parse json text

def items (c : Settings) : Json.Items := json.items ((fields json).map (·.toMember)) c

def text (c : Settings) : String := json.write ⟨true⟩ (c.items json)

end Library

end Settings

end TileGrammar
