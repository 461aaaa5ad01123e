import TileGrammar.Json.Library
import TileGrammar.Match.Cache
import TileGrammar.Overlay.Wireframe

/-!
The overlay shows the known matches as wireframes. It draws a copy of the matches, which is renewed
from the cache and never makes the cache search.
-/

namespace TileGrammar

structure ShownMatch where
  name : String
  bounds : Box
deriving DecidableEq, Repr

namespace ShownMatch

def ofCache (cache : MatchCache) (rs : RuleSet) : List ShownMatch :=
  cache.found.filterMap fun m => (rs.rule? m.rule).map fun rule => ⟨rule.name, m.bounds⟩

def coordinates (c : Cell) : Int32 × Int32 × Int32 := (.ofInt c.x, .ofInt c.y, .ofInt c.z)

def members (json : Json.Library) : List (Json.Member json.Codec ShownMatch) :=
  [⟨"name", json.string, name⟩,
   ⟨"position", json.int32Triple, fun m => coordinates m.bounds.corner⟩,
   ⟨"size", json.int32Triple, fun m => coordinates m.bounds.extent⟩]

def text (json : Json.Library) (m : ShownMatch) : String :=
  json.write ⟨false⟩ (json.items (members json) m)

end ShownMatch

structure Overlay where
  isEnabled : Bool := true
  scale : WireScale := {}
  color : Color := .magenta
  shown : List ShownMatch := []

namespace Overlay

def sync (o : Overlay) (cache : MatchCache) (rs : RuleSet) : Overlay :=
  { o with shown := ShownMatch.ofCache cache rs }

def lines (o : Overlay) : List (Point × Point) :=
  if o.isEnabled then o.shown.flatMap fun m => m.bounds.edges o.scale else []

end Overlay

end TileGrammar
