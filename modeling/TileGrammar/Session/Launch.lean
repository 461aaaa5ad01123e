import TileGrammar.Session.Basic

namespace TileGrammar

structure Launch where
  settingsPath : Option String := none
  hasWindow : Bool := false
deriving DecidableEq, Repr

namespace Launch

def ofArgs (args : List String) : Launch where
  settingsPath := args.find? (· ≠ "--view")
  hasWindow := args.contains "--view"

def settings (json : Json.Library) (l : Launch) (content : Option ByteArray) : Settings :=
  match l.settingsPath with
  | none => {}
  | some _ => (Settings.load json content).toOption.getD {}

end Launch

def Settings.printout {σ : Type} [RandomSource σ] (settings : Settings) (source : σ) : String :=
  match Session.start settings source with
  | .error _ => ""
  | .ok s => s.generate.generation.grid.layersText ++ "\n"

end TileGrammar
