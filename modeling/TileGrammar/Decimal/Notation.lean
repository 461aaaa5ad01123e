import TileGrammar.Decimal.Shortest

namespace TileGrammar.Decimal

def digitChars (n : Nat) : List Char := Nat.toDigits 10 n

def positional (places : Nat) (d : Decimal) : List Char :=
  let digits := digitChars d.digits
  let whole := digits ++ List.replicate d.exponent.toNat '0'
  let drop := (-d.exponent).toNat
  let padded := List.replicate (drop + 1 - whole.length) '0' ++ whole
  let front := padded.take (padded.length - drop)
  let back := padded.drop (padded.length - drop)
  let back := back ++ List.replicate (places - back.length) '0'
  if back.isEmpty then front else front ++ '.' :: back

def exponential (d : Decimal) : List Char :=
  let digits := digitChars d.digits
  let exponent := d.exponent + digits.length - 1
  let back := digits.drop 1
  digits.take 1 ++ (if back.isEmpty then [] else '.' :: back) ++
    'e' :: (if exponent < 0 then ['-'] else []) ++ digitChars exponent.natAbs

structure Style where
  places : Nat
  hasExponents : Bool

def isExtreme (x : Float) : Bool := 1e16 ≤ x || x < 1e-4

def Style.text (style : Style) (x : Float) : String :=
  if x.isNaN then "NaN"
  else
    let size := x.abs
    let sign := if x.toBits >>> 63 = 1 then ['-'] else []
    let body :=
      if x.isInf then ['i', 'n', 'f']
      else if size = 0 then positional style.places ⟨0, 0⟩
      else
        let d := shortest (Dyadic.ofBits x.toBits)
        if style.hasExponents && isExtreme size then exponential d
        else positional style.places d
    String.ofList (sign ++ body)

end TileGrammar.Decimal
