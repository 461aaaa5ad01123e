import TileGrammar.Proofs.Match.Choice
import TileGrammar.Proofs.Weight.Sum

namespace TileGrammar

lemma Rule.weight_nonneg (r : Rule) : 0 ≤ r.weight := by
  obtain ⟨finite, notNeg⟩ := r.isWeight
  exact Binary64.nonneg_of_isFinite finite notNeg

namespace RuleSet

variable {σ : Type} [RandomSource σ] {rs : RuleSet} {m : Match} {ms : List Match}

lemma weightOf_nonneg (rs : RuleSet) (m : Match) : 0 ≤ rs.weightOf m := by
  rw [weightOf]
  cases rs.rule? m.rule with
  | none => exact show (0 : Float) ≤ 0 by decide
  | some r => exact r.weight_nonneg

lemma weightOf_nonpos_iff : rs.weightOf m ≤ 0 ↔ ¬ 0 < rs.weightOf m :=
  Binary64.nonpos_iff (rs.weightOf_nonneg m)

lemma weightOf_pos (h : ¬ rs.weightOf m ≤ 0) : 0 < rs.weightOf m :=
  not_not.1 (mt weightOf_nonpos_iff.2 h)

lemma foldl_weightOf (rs : RuleSet) (ms : List Match) {sum : Float} (h : 0 ≤ sum) :
    let total := ms.foldl (fun sum m => sum + rs.weightOf m) sum
    0 ≤ total ∧ (0 < total ↔ 0 < sum ∨ ∃ m ∈ ms, 0 < rs.weightOf m) := by
  induction ms generalizing sum with
  | nil => simpa using h
  | cons m ms ih =>
    obtain ⟨nonneg, pos⟩ := ih (Binary64.add_nonneg h (rs.weightOf_nonneg m))
    refine ⟨nonneg, ?_⟩
    rw [List.foldl_cons, pos, Binary64.add_pos_iff h (rs.weightOf_nonneg m), or_assoc]
    simp

lemma totalWeight_nonpos_iff :
    rs.totalWeight ms ≤ 0 ↔ ∀ m ∈ ms, ¬ 0 < rs.weightOf m := by
  have zero : (0 : Float) ≤ 0 := by decide
  have notPos : ¬ (0 : Float) < 0 := by decide
  obtain ⟨nonneg, pos⟩ := foldl_weightOf rs ms zero
  rw [totalWeight, Binary64.nonpos_iff nonneg, pos]
  simp [notPos]

lemma pickFrom_eq_none_iff {target sum : Float} {last : Option Match} :
    rs.pickFrom target sum last ms = none ↔
      last = none ∧ ∀ m ∈ ms, ¬ 0 < rs.weightOf m := by
  induction ms generalizing sum last with
  | nil => simp [pickFrom]
  | cons m ms ih =>
    rw [pickFrom, List.forall_mem_cons]
    split
    · rename_i h
      rw [ih]
      simp [weightOf_nonpos_iff.1 h]
    · rename_i h
      have pos : 0 < rs.weightOf m := weightOf_pos h
      split
      · simp [pos]
      · rw [ih]
        simp [pos]

lemma pickByWeight_eq_none_iff {source : σ} :
    (rs.pickByWeight ms source).1 = none ↔ ∀ m ∈ ms, ¬ 0 < rs.weightOf m := by
  rw [pickByWeight]
  dsimp only
  split
  · rename_i h
    simpa using totalWeight_nonpos_iff.1 h
  · rw [pickFrom_eq_none_iff]
    simp

lemma pick_eq_none_iff {strategy : Strategy} {source : σ} :
    (rs.pick strategy ms source).1 = none ↔ ms = [] ∨ strategy = .unsupported ∨
      strategy = .random ∧ ∀ m ∈ ms, ¬ 0 < rs.weightOf m := by
  cases strategy with
  | first => simp [pick]
  | last => simp [pick]
  | random =>
    rw [pick, pickByWeight_eq_none_iff]
    constructor
    · intro h
      exact .inr (.inr ⟨rfl, h⟩)
    · rintro (rfl | h | ⟨-, h⟩)
      · simp
      · cases h
      · exact h
  | unsupported => simp [pick]

lemma pick_eq_of_fst_eq_none {strategy : Strategy} {source : σ}
    (h : (rs.pick strategy ms source).1 = none) :
    rs.pick strategy ms source = (none, source) := by
  cases strategy with
  | first => exact Prod.ext h rfl
  | last => exact Prod.ext h rfl
  | random =>
    have none := pickByWeight_eq_none_iff.1 h
    exact if_pos (totalWeight_nonpos_iff.2 none)
  | unsupported => rfl

end RuleSet

end TileGrammar
