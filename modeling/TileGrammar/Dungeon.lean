import TileGrammar.Rule.Set

/-!
The grammar of dungeons. The labels are `.` for nothing, `R` for a room, `C` for a corridor and `D`
for a door. A generation starts from one room, breaks doors through its walls, extends corridors
from the doors, adds rooms beside corridors once there is some layout, and trims corridors that lead
nowhere.
-/

namespace TileGrammar.Dungeon

def cleanup : String := "cleanup"

def rules : Except RuleError RuleSet := do
  let start ← Rule.parse "corridor/start" "R.." "RDC"
  let start := (start.withSymmetry .rotate).withCap 6
  let extend ← Rule.parse "corridor/extend" "C.." "CC."
  let extend ← (extend.withSymmetry .rotate).withWeight 4
  let extend := extend.withCap 120
  let place ← Rule.parse "room/place" "*... C... *..." "*RRR CDRR *RRR"
  let place ← (place.withSymmetry .rotate).withWeight 2
  let place := (place.withWait 8).withCap 12
  let trim ← Rule.parse "cleanup/dead_end" "*C* .C. *.*" "*** *.* ***"
  let trim := trim.withSymmetry .rotate
  let room ← (Pattern.parse "RRR RRR RRR").mapError .pattern
  return { rules := [start, extend, place, trim], start := some room }

end TileGrammar.Dungeon
