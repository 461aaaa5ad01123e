import TileGrammar.Overlay.Basic
import TileGrammar.Session.Launch

/-!
The viewer takes one step of a session per frame and draws the tiles and the overlay. The space bar
pauses it, `R` starts a run from the next seed, and `O` switches the overlay.
-/

namespace TileGrammar

inductive Key where
  | space
  | r
  | o
deriving DecidableEq, Repr

structure Viewer (σ : Type) where
  session : Session σ
  overlay : Overlay := {}
  isPaused : Bool := false

namespace Viewer

variable {σ : Type}

def cameraPosition (v : Viewer σ) : Point :=
  let size := Point.ofCell v.session.generation.grid.extent
  let distance := max (max size.x (max size.y size.z)) 8
  size.scale 0.5 + ⟨0, distance * 1.2, distance * 0.6⟩

def camera? (played : List (Viewer σ)) : Option Point := played.head?.map cameraPosition

def labelColor : String → Option Color
  | "R" => some ⟨90, 60, 20⟩
  | "C" => some ⟨60, 60, 60⟩
  | "D" => some ⟨100, 10, 10⟩
  | "." => none
  | _ => some .white

def drawnCells (v : Viewer σ) : List (Color × Cell) :=
  let grid := v.session.generation.grid
  grid.tiles.toList.zipIdx.filterMap fun (tile, n) =>
    if tile.label = v.session.settings.fill then none
    else (labelColor tile.label).map fun color => (color, grid.cellAt n)

variable [RandomSource σ]

def start (settings : Settings) (source : σ) : Except SessionError (Viewer σ) := do
  let session ← Session.start settings source
  return { session := session.restart, overlay := { isEnabled := settings.overlay } }

def restartNext (v : Viewer σ) : Viewer σ :=
  { v with session := { v.session with seed := v.session.seed.map (· + 1) }.restart }

def handle (v : Viewer σ) (keys : List Key) : Viewer σ :=
  let v := if .space ∈ keys then { v with isPaused := !v.isPaused } else v
  let v := if .r ∈ keys then v.restartNext else v
  if .o ∈ keys then { v with overlay.isEnabled := !v.overlay.isEnabled } else v

def step (v : Viewer σ) : Viewer σ :=
  if v.isPaused then v else { v with session := v.session.advance.2 }

def sync (v : Viewer σ) : Viewer σ :=
  if v.overlay.isEnabled then
    { v with overlay := v.overlay.sync v.session.generation.cache v.session.rules }
  else v

def frame (v : Viewer σ) (keys : List Key) : Viewer σ := (v.handle keys).step.sync

def play : List (List Key) → Viewer σ → List (Viewer σ)
  | [], _ => []
  | keys :: frames, v =>
    let v := v.frame keys
    v :: play frames v

end Viewer

end TileGrammar
