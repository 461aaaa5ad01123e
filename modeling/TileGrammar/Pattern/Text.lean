import TileGrammar.Geometry.Interval
import TileGrammar.Pattern.Basic
import TileGrammar.Text.Fields
import TileGrammar.Text.Quoted

/-!
The text form of patterns: one character per tile, a slash between the rows of a layer and a blank
between the layers. `parse` reads it and `text` writes it.
-/

namespace TileGrammar.Pattern

def rows (s : List Char) : List (List (List Char)) :=
  (Text.fields ' ' s).map (Text.fields '/')

def isRectangular (layers : List (List (List Char))) (width height : Nat) : Bool :=
  layers.all fun layer => layer.length = height && layer.all fun row => row.length = width

def parse (text : String) : Except PatternError Pattern :=
  let layers := rows text.toList
  let height := (layers.headD []).length
  let width := ((layers.headD []).headD []).length
  if width = 0 then .error .empty
  else if isRectangular layers width height then
    ofTiles ⟨width, height, layers.length⟩ (layers.flatten.flatten.map Tile.ofChar).toArray
  else .error .ragged

def rowText (p : Pattern) (y z : Int) : String :=
  String.join ((interval 0 p.extent.x).map fun x => (p.tileAt ⟨x, y, z⟩).label)

def text (p : Pattern) : String :=
  " ".intercalate <| (interval 0 p.extent.z).map fun z =>
    "/".intercalate <| (interval 0 p.extent.y).map fun y => p.rowText y z

def describe (p : Pattern) : String :=
  let size := s!"[{p.extent.x}x{p.extent.y}x{p.extent.z}]"
  Text.record "Pattern" [("size", Text.quoted size), ("text", Text.quoted p.text)]

end TileGrammar.Pattern
