import TileGrammar.Json.Standard
import TileGrammar.Random.Stream
import TileGrammar.Session.Launch

namespace TileGrammar.CommandLine

def readFile? (path : String) : IO (Option ByteArray) := do
  try
    return some (← IO.FS.readBinFile path)
  catch _ =>
    return none

def entropy : IO Stream := do
  let bytes := (← IO.getRandomBytes 32).toList
  let word (i : Nat) : UInt32 :=
    ((bytes.drop (4 * i)).take 4).foldr (fun b w => w * 256 + b.toUInt32) 0
  return { key := Vector.ofFn fun i => word i }

end TileGrammar.CommandLine

open TileGrammar CommandLine in
def main (args : List String) : IO Unit := do
  let launch := Launch.ofArgs args
  if launch.hasWindow then
    IO.eprintln "there is no window to view the grid in"
  else
    let content ← match launch.settingsPath with
      | none => pure none
      | some path => readFile? path
    IO.print ((launch.settings Json.standard content).printout (← entropy))
