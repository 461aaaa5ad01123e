import TileGrammar.Proofs.Generation.Move

namespace TileGrammar.Generation

variable {σ : Type} [RandomSource σ]

def replies (fuel : Nat) : List (RuleSet × Command) → Generation σ → List (Outcome × Generation σ)
  | [], _ => []
  | (rs, c) :: calls, g =>
    (g.execute rs fuel c).elim [] fun reply => reply :: replies fuel calls reply.2

variable {g : Generation σ} {rs : RuleSet} {fuel : Nat} {c : Command}

lemma replies_cons_of_none {calls : List (RuleSet × Command)} (h : g.execute rs fuel c = none) :
    replies fuel ((rs, c) :: calls) g = [] := by
  rw [replies, h, Option.elim_none]

lemma replies_cons_of_some {calls : List (RuleSet × Command)} {reply : Outcome × Generation σ}
    (h : g.execute rs fuel c = some reply) :
    replies fuel ((rs, c) :: calls) g = reply :: replies fuel calls reply.2 := by
  rw [replies, h, Option.elim_some]

def final? (rs : RuleSet) (fuel : Nat) (cs : List Command) (g : Generation σ) :
    Option (Generation σ) := (executeAll rs fuel cs g).map Prod.snd

lemma final?_cons_of_none {cs : List Command} (h : g.execute rs fuel c = none) :
    final? rs fuel (c :: cs) g = none := by
  rw [final?, executeAll, h]
  rfl

lemma final?_cons_of_some {cs : List Command} {reply : Outcome × Generation σ}
    (h : g.execute rs fuel c = some reply) :
    final? rs fuel (c :: cs) g = final? rs fuel cs reply.2 := by
  obtain ⟨o, g₁⟩ := reply
  rw [final?, executeAll, h, final?]
  dsimp only [Option.bind_eq_bind, Option.bind_some]
  cases executeAll rs fuel cs g₁ with
  | none => rfl
  | some r => rfl

end TileGrammar.Generation
