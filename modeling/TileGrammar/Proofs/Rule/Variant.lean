import TileGrammar.Rule.Set
import TileGrammar.Match.Rewrite
import Mathlib.Tactic.Lemma

namespace TileGrammar

section SmallRules

lemma Pattern.proper_pair : (⟨2, 1, 1⟩ : Cell).Proper := by decide

def Pattern.one (label : String) : Pattern :=
  .tabulate Cell.unit Cell.proper_unit fun _ => ⟨label⟩

def Pattern.pair (left right : String) : Pattern :=
  .tabulate ⟨2, 1, 1⟩ proper_pair fun o => if o.x = 0 then ⟨left⟩ else ⟨right⟩

lemma Pattern.extent_one (a b : String) : (one a).extent = (one b).extent := rfl

lemma Pattern.extent_pair (a b c d : String) : (pair a b).extent = (pair c d).extent := rfl

def Rule.change (name old new : String) (name_ne : name ≠ "") : Rule where
  name := name
  left := .one old
  right := .one new
  name_ne := name_ne
  extent_eq := Pattern.extent_one old new
  isWeight := isWeight_one

end SmallRules

namespace Orientation

lemma extent_repeat_turned {p q : Pattern} (h : p.extent = q.extent) (n : Nat) :
    (Nat.repeat Pattern.turned n p).extent = (Nat.repeat Pattern.turned n q).extent := by
  induction n with
  | zero => exact h
  | succ n ih => simp only [Nat.repeat, Pattern.turned, Pattern.tabulate, ih]

lemma extent_apply {p q : Pattern} (o : Orientation) (h : p.extent = q.extent) :
    (o.apply p).extent = (o.apply q).extent := by
  have hr := extent_repeat_turned h o.quarters
  obtain ⟨quarters, isMirrored⟩ := o
  cases isMirrored with
  | false => exact hr
  | true => exact hr

end Orientation

lemma Rule.extent_variant {r : Rule} {v : Variant} (h : v ∈ r.variants) :
    v.left.extent = v.right.extent := by
  rw [variants, Variant.images, List.mem_eraseDups, List.mem_map] at h
  obtain ⟨o, _, rfl⟩ := h
  exact o.extent_apply r.extent_eq

namespace RuleSet

variable {rs : RuleSet} {m : Match} {rule : Rule} {v : Variant}

lemma replacement?_eq_some (hr : rs.rule? m.rule = some rule)
    (hv : rule.variants[m.variant]? = some v) :
    rs.replacement? m = some (rule.name, v.right) := by
  simp [replacement?, hr, hv]

lemma editedBox_eq (hr : rs.rule? m.rule = some rule)
    (hv : rule.variants[m.variant]? = some v) :
    rs.editedBox m = ⟨m.corner, v.right.extent⟩ := by
  rw [editedBox, replacement?_eq_some hr hv]
  rfl

end RuleSet

end TileGrammar
