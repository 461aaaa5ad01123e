namespace TileGrammar

class RandomSource (σ : Type) where
  next : σ → Float × σ
  reseed : σ → UInt64 → σ

namespace RandomSource

variable {σ τ : Type} [RandomSource σ] [RandomSource τ]

/-- What a source is after it is given a seed depends on the seed alone. -/
def SeedDetermines (σ : Type) [RandomSource σ] : Prop :=
  ∀ (s t : σ) (seed : UInt64), reseed s seed = reseed t seed

def scaleBelow (draw : Float) (bound : UInt64) : UInt64 :=
  min (draw * bound.toFloat).toUInt64 (bound - 1)

def below (s : σ) (bound : UInt64) : UInt64 × σ :=
  if bound = 0 then (0, s)
  else
    let (draw, s) := next s
    (scaleBelow draw bound, s)

instance : RandomSource (σ ⊕ τ) where
  next
    | .inl s => (next s).map id .inl
    | .inr s => (next s).map id .inr
  reseed
    | .inl s, seed => .inl (reseed s seed)
    | .inr s, seed => .inr (reseed s seed)

end RandomSource

end TileGrammar
