import TileGrammar.Decimal.Notation
import TileGrammar.Pattern.Text
import TileGrammar.Symmetry

/-!
A rule rewrites a block that its left side allows by its right side, in every orientation of its
symmetry. The weight is its share in random choice; the cap bounds how often it is applied, and the
wait is the first step at which it may be applied.
-/

namespace TileGrammar

inductive RuleError where
  | unnamed
  | extentMismatch (rule : String)
  | badWeight (rule : String) (weight : Float)
  | pattern (cause : PatternError)
deriving DecidableEq

namespace RuleError

def weightStyle : Decimal.Style := ⟨0, false⟩

def message : RuleError → String
  | unnamed => "rule name is empty"
  | extentMismatch rule => s!"rule '{rule}': left and right dimensions don't match"
  | badWeight rule weight => s!"rule '{rule}': invalid weight {weightStyle.text weight}"
  | pattern cause => s!"pattern error: {cause.message}"

end RuleError

def IsWeight (w : Float) : Prop := w.isFinite = true ∧ ¬ w < 0

instance : DecidablePred IsWeight := fun w =>
  inferInstanceAs (Decidable (w.isFinite = true ∧ ¬ w < 0))

theorem isWeight_one : IsWeight 1 := by decide

structure Rule where
  name : String
  left : Pattern
  right : Pattern
  weight : Float := 1
  cap : Option Nat := none
  wait : Nat := 0
  symmetry : Symmetry := .none
  name_ne : name ≠ ""
  extent_eq : left.extent = right.extent
  isWeight : IsWeight weight := by decide

namespace Rule

def create (name : String) (left right : Pattern) : Except RuleError Rule :=
  if name_ne : name ≠ "" then
    if extent_eq : left.extent = right.extent then
      .ok { name, left, right, name_ne, extent_eq }
    else .error (.extentMismatch name)
  else .error .unnamed

def parse (name left right : String) : Except RuleError Rule := do
  let left ← (Pattern.parse left).mapError .pattern
  let right ← (Pattern.parse right).mapError .pattern
  create name left right

def withWeight (r : Rule) (weight : Float) : Except RuleError Rule :=
  if isWeight : IsWeight weight then .ok { r with weight, isWeight }
  else .error (.badWeight r.name weight)

/-- A negative cap stands for no cap. -/
def withCap (r : Rule) (cap : Int) : Rule :=
  { r with cap := if cap < 0 then none else some cap.toNat }

def withWait (r : Rule) (wait : Nat) : Rule := { r with wait }

def withSymmetry (r : Rule) (symmetry : Symmetry) : Rule := { r with symmetry }

def variants (r : Rule) : List Variant := Variant.images ⟨r.left, r.right⟩ r.symmetry

def isCapped (r : Rule) (uses : Nat) : Bool := r.cap.any (· ≤ uses)

def isEligible (r : Rule) (uses step : Nat) : Bool := !r.isCapped uses && r.wait ≤ step

theorem isCapped_iff {r : Rule} {uses : Nat} :
    r.isCapped uses = true ↔ ∃ cap, r.cap = some cap ∧ cap ≤ uses := by
  simp [isCapped, Option.any_eq_true]

theorem isCapped_eq_false_iff {r : Rule} {uses : Nat} :
    r.isCapped uses = false ↔ ∀ cap, r.cap = some cap → uses < cap := by
  simp [isCapped, Option.any_eq_false]

theorem isEligible_iff {r : Rule} {uses step : Nat} :
    r.isEligible uses step = true ↔ r.isCapped uses = false ∧ r.wait ≤ step := by
  simp [isEligible]

def weightStyle : Decimal.Style := ⟨1, true⟩

def describe (r : Rule) : String :=
  let cap := match r.cap with
    | none => "None"
    | some n => s!"Some({n})"
  Text.record "Rule"
    [("name", Text.quoted r.name),
     ("left", Text.quoted r.left.text),
     ("right", Text.quoted r.right.text),
     ("weight", weightStyle.text r.weight),
     ("max_applications", cap),
     ("wait_steps", toString r.wait),
     ("permutations", toString r.variants.length)]

end Rule

end TileGrammar
