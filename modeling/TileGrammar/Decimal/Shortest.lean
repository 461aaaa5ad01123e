/-!
The shortest decimal of a double: of the decimals that round to it, one with the fewest digits, and
of those the nearest. All comparisons are made between natural numbers.
-/

namespace TileGrammar

structure Decimal where
  digits : Nat
  exponent : Int
deriving DecidableEq, Repr

namespace Decimal

/-- A positive double `mantissa * 2 ^ exponent`. Below a power of two the doubles lie twice as
close, which `isNarrowBelow` records. -/
structure Dyadic where
  mantissa : Nat
  exponent : Int
  isNarrowBelow : Bool
deriving DecidableEq, Repr

def Dyadic.ofBits (bits : UInt64) : Dyadic :=
  let exponent := (bits >>> 52 &&& 0x7ff).toNat
  let fraction := (bits &&& 0xfffffffffffff).toNat
  if exponent = 0 then ⟨fraction, -1074, false⟩
  else ⟨0x10000000000000 + fraction, exponent - 1075, fraction = 0 && 1 < exponent⟩

/-- The multiple of `10 ^ k` that is nearest to a double, the upper one of two, provided that it
rounds to the double; otherwise the other neighbour, under the same condition. -/
def Dyadic.onGrid? (d : Dyadic) (k : Int) : Option Nat :=
  -- in units of a quarter of the last place
  let scale := Nat.pow 2 (d.exponent - 2).toNat * Nat.pow 10 (-k).toNat
  let step := Nat.pow 2 (2 - d.exponent).toNat * Nat.pow 10 k.toNat
  let value := 4 * d.mantissa * scale
  let low := value - (if d.isNarrowBelow then 1 else 2) * scale
  let high := value + 2 * scale
  let rounds (n : Nat) : Bool :=
    if d.mantissa % 2 = 0 then low ≤ n * step && n * step ≤ high
    else low < n * step && n * step < high
  let below := value / step
  let above := below + 1
  let (near, far) :=
    if 2 * (value - below * step) < step then (below, above) else (above, below)
  if rounds near then some near
  else if rounds far then some far
  else none

def shortest (d : Dyadic) : Decimal :=
  let grids := (List.range 634).map fun (i : Nat) => (309 - i : Int)
  (grids.findSome? fun k => (d.onGrid? k).map (⟨·, k⟩)).getD ⟨0, 0⟩

end Decimal

end TileGrammar
