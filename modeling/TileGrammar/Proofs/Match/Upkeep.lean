import TileGrammar.Proofs.Match.Patch
import TileGrammar.Proofs.Tally.Count

namespace TileGrammar.MatchCache

variable {c : MatchCache} {rs : RuleSet} {uses uses' : Tally} {step step' : Nat} {g h : Grid}
  {edited : Box}

namespace Strip

def rules : RuleSet where
  rules := [
    { name := "pair", left := .pair "A" "B", right := .pair "B" "A", name_ne := by decide
      extent_eq := Pattern.extent_pair _ _ _ _, isWeight := isWeight_one },
    { name := "once", left := .one "B", right := .one "A", cap := some 1, name_ne := by decide
      extent_eq := Pattern.extent_one _ _, isWeight := isWeight_one },
    { name := "late", left := .one "A", right := .one "B", wait := 5, name_ne := by decide
      extent_eq := Pattern.extent_one _ _, isWeight := isWeight_one }]

def grid (last : String) : Grid where
  extent := ⟨4, 1, 1⟩
  tiles := #[⟨"A"⟩, ⟨"B"⟩, ⟨"A"⟩, ⟨last⟩]
  proper := by decide
  size_tiles := rfl

def cache : MatchCache := ⟨some [⟨1, 0, ⟨1, 0, 0⟩, Cell.unit⟩, ⟨0, 0, ⟨0, 0, 0⟩, ⟨2, 1, 1⟩⟩]⟩

end Strip

end TileGrammar.MatchCache
