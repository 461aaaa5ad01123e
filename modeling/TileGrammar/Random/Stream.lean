import TileGrammar.Random.Source

/-!
The standard source: a ChaCha key stream of twelve rounds. A 64-bit seed is spread to a key by a
linear congruential generator.
-/

namespace TileGrammar

namespace ChaCha

abbrev Block := Vector UInt32 16

def rotateLeft (w : UInt32) (n : UInt32) : UInt32 := w <<< n ||| w >>> (32 - n)

def rotateRight (w : UInt32) (n : UInt32) : UInt32 := w >>> n ||| w <<< ((32 - n) % 32)

def quarterRound (a b c d : Fin 16) (v : Block) : Block :=
  let half (m n : UInt32) (v : Block) : Block :=
    let v := v.set a (v[a] + v[b])
    let v := v.set d (rotateLeft (v[d] ^^^ v[a]) m)
    let v := v.set c (v[c] + v[d])
    v.set b (rotateLeft (v[b] ^^^ v[c]) n)
  half 8 7 (half 16 12 v)

def doubleRound (v : Block) : Block :=
  let v := quarterRound 0 4 8 12 v
  let v := quarterRound 1 5 9 13 v
  let v := quarterRound 2 6 10 14 v
  let v := quarterRound 3 7 11 15 v
  let v := quarterRound 0 5 10 15 v
  let v := quarterRound 1 6 11 12 v
  let v := quarterRound 2 7 8 13 v
  quarterRound 3 4 9 14 v

def constants : Vector UInt32 4 := #v[0x61707865, 0x3320646e, 0x79622d32, 0x6b206574]

def block (key : Vector UInt32 8) (counter : UInt64) : Block :=
  let start : Block := constants ++ key ++ #v[counter.toUInt32, (counter >>> 32).toUInt32, 0, 0]
  (Nat.repeat doubleRound 6 start).zipWith (· + ·) start

end ChaCha

structure Stream where
  key : Vector UInt32 8
  draws : Nat := 0
deriving DecidableEq, Repr

namespace Stream

def spreadStep (s : UInt64) : UInt64 := s * 6364136223846793005 + 11634580027462260723

def spreadWord (s : UInt64) : UInt32 :=
  ChaCha.rotateRight (((s >>> 18) ^^^ s) >>> 27).toUInt32 (s >>> 59).toUInt32

def ofSeed (seed : UInt64) : Stream where
  key := Vector.ofFn fun i => spreadWord (Nat.repeat spreadStep (i + 1) seed)

/-- The number of a place in the stream: two words of the key stream make 64 bits, the upper 53 of
which are the binary digits of the number. -/
def number (key : Vector UInt32 8) (n : Nat) : Float :=
  let words := ChaCha.block key (UInt64.ofNat (n / 8))
  let low := words.getD (n % 8 * 2) 0
  let high := words.getD (n % 8 * 2 + 1) 0
  ((high.toUInt64 <<< 32 ||| low.toUInt64) >>> 11).toFloat / 9007199254740992

instance : RandomSource Stream where
  next s := (number s.key s.draws, { s with draws := s.draws + 1 })
  reseed _ seed := ofSeed seed

theorem seedDetermines : RandomSource.SeedDetermines Stream := fun _ _ _ => rfl

end Stream

end TileGrammar
