import TileGrammar.Proofs.Dungeon.Grammar

namespace TileGrammar.Dungeon

@[mk_iff]
inductive Role (rule : Rule) (v : Variant) : Prop
  | start : rule.name = "corridor/start" → rule.cap = some 6 → v.Adds "C" 1 → Role rule v
  | extend : rule.name = "corridor/extend" → rule.cap = some 120 → v.Adds "C" 1 → Role rule v
  | place : rule.name = "room/place" → rule.cap = some 12 → v.Adds "C" 0 → Role rule v
  | trim : rule.name = "cleanup/dead_end" → v.Adds "C" (-1) → Role rule v

instance (rule : Rule) (v : Variant) : Decidable (Role rule v) :=
  decidable_of_iff _ (role_iff rule v).symm

lemma definite_and_role :
    ∀ rule ∈ ruleSet.rules, ∀ v ∈ rule.variants, v.Definite ∧ Role rule v := by
  decide +kernel

def reserve (uses : Tally) : Nat :=
  2 * (6 - uses.count "corridor/start") + 2 * (120 - uses.count "corridor/extend") +
    (12 - uses.count "room/place")

lemma reserve_lt {m : Match} {rule : Rule} {v : Variant} {g : Grid} {uses : Tally} {step : Nat}
    (o : m.Occurs rule v g ruleSet uses step) :
    reserve (uses.use ruleSet m) + (g.rewrite ruleSet m).count "C" <
      reserve uses + g.count "C" := by
  obtain ⟨definite, role⟩ := definite_and_role rule (List.mem_of_getElem? o.rule_eq) v
    (List.mem_of_getElem? o.variant_eq)
  have lt_cap := Rule.isCapped_eq_false_iff.1 (Rule.isEligible_iff.1 o.isEligible).1
  simp only [reserve, o.use_eq, Tally.count_increment]
  cases role with
  | start name cap adds =>
    have uses_lt := lt_cap _ cap
    have count := o.count_of_adds definite adds
    rw [name] at uses_lt ⊢
    simp
    omega
  | extend name cap adds =>
    have uses_lt := lt_cap _ cap
    have count := o.count_of_adds definite adds
    rw [name] at uses_lt ⊢
    simp
    omega
  | place name cap adds =>
    have uses_lt := lt_cap _ cap
    have count := o.count_of_adds definite adds
    rw [name] at uses_lt ⊢
    simp
    omega
  | trim name adds =>
    have count := o.count_of_adds definite adds
    rw [name]
    simp
    omega

end TileGrammar.Dungeon
