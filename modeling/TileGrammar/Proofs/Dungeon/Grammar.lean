import TileGrammar.Dungeon
import TileGrammar.Match.Selection
import TileGrammar.Proofs.Dungeon.Shape

namespace TileGrammar.Dungeon

lemma isSome_rules : rules.toOption.isSome = true := by decide +kernel

def ruleSet : RuleSet := rules.toOption.get isSome_rules

lemma eq_ok_get {ε α : Type} (r : Except ε α) (h : r.toOption.isSome = true) :
    r = .ok (r.toOption.get h) := by
  cases r with
  | error e => cases h
  | ok a => rfl

lemma rules_eq : rules = .ok ruleSet := eq_ok_get rules isSome_rules

attribute [irreducible] ruleSet

lemma grows_or_clears : ∀ rule ∈ ruleSet.rules, ∀ v ∈ rule.variants, v.Grows ∨ v.Clears := by
  decide +kernel

lemma clears_of_cleanup : ∀ rule ∈ ruleSet.rules,
    (NameFilter.ofName cleanup true).accepts rule.name = true → ∀ v ∈ rule.variants, v.Clears := by
  decide +kernel

end TileGrammar.Dungeon
