import TileGrammar.Proofs.Match.Weight
import TileGrammar.Proofs.Rule.Variant
import TileGrammar.Random.Script

/-!
Random choice takes a match whose rule has a positive weight, whatever number is drawn. It draws once
if there is such a match, and not at all otherwise. The draw zero stands for the first such match as
long as the total of the weights is finite; the target of an infinite total is no number, and the
last such match is left.
-/

namespace TileGrammar.RuleSet

def Selectable (rs : RuleSet) (m : Match) : Prop :=
  ∃ rule, rs.rule? m.rule = some rule ∧ 0 < rule.weight

variable {σ : Type} [RandomSource σ] {rs : RuleSet} {m : Match} {ms : List Match}

lemma selectable_iff : rs.Selectable m ↔ 0 < rs.weightOf m := by
  have notPos : ¬ (0 : Float) < 0 := by decide
  rw [Selectable, weightOf]
  cases rs.rule? m.rule with
  | none => simp [notPos]
  | some rule => simp

lemma forall_not_selectable_iff :
    (∀ m ∈ ms, ¬ rs.Selectable m) ↔ ∀ m ∈ ms, ¬ 0 < rs.weightOf m := by
  simp only [selectable_iff]

lemma selectable_of_pickFrom {target sum : Float} {last : Option Match}
    (h : rs.pickFrom target sum last ms = some m) :
    last = some m ∨ m ∈ ms ∧ rs.Selectable m := by
  induction ms generalizing sum last with
  | nil => exact .inl h
  | cons n ms ih =>
    rw [pickFrom] at h
    split at h
    · rcases ih h with hn | ⟨hm, pos⟩
      · exact .inl hn
      · exact .inr ⟨List.mem_cons_of_mem n hm, pos⟩
    · rename_i heavy
      have pos : rs.Selectable n := selectable_iff.2 (weightOf_pos heavy)
      split at h
      · obtain rfl := Option.some.inj h
        exact .inr ⟨List.mem_cons_self, pos⟩
      · rcases ih h with hn | ⟨hm, pos'⟩
        · obtain rfl := Option.some.inj hn
          exact .inr ⟨List.mem_cons_self, pos⟩
        · exact .inr ⟨List.mem_cons_of_mem n hm, pos'⟩

lemma pickByWeight_of_selectable (h : ∃ m ∈ ms, rs.Selectable m) (source : σ) :
    ∃ m ∈ ms, rs.Selectable m ∧
      rs.pickByWeight ms source = (some m, (RandomSource.next source).2) := by
  obtain ⟨n, hn, pos⟩ := h
  have heavy : ¬ rs.totalWeight ms ≤ 0 := fun light =>
    totalWeight_nonpos_iff.1 light n hn (selectable_iff.1 pos)
  cases picked : rs.pickFrom ((RandomSource.next source).1 * rs.totalWeight ms) 0 none ms with
  | none => exact absurd (selectable_iff.1 pos) ((pickFrom_eq_none_iff.1 picked).2 n hn)
  | some m =>
    rcases selectable_of_pickFrom picked with absent | ⟨hm, pos'⟩
    · cases absent
    · refine ⟨m, hm, pos', ?_⟩
      rw [pickByWeight]
      dsimp only
      rw [if_neg heavy, picked]

theorem random_takes_selectable (rs : RuleSet) (ms : List Match) (source : σ) :
    ((rs.pick .random ms source).1 = none ↔ ∀ m ∈ ms, ¬ rs.Selectable m) ∧
    ((∀ m ∈ ms, ¬ rs.Selectable m) → rs.pick .random ms source = (none, source)) ∧
    ((∃ m ∈ ms, rs.Selectable m) → ∃ m ∈ ms, rs.Selectable m ∧
      rs.pick .random ms source = (some m, (RandomSource.next source).2)) := by
  have none_iff : (rs.pick .random ms source).1 = none ↔ ∀ m ∈ ms, ¬ rs.Selectable m := by
    rw [forall_not_selectable_iff]
    exact pickByWeight_eq_none_iff
  exact ⟨none_iff, fun h => pick_eq_of_fst_eq_none (none_iff.2 h),
    fun h => pickByWeight_of_selectable h source⟩

namespace Heavy

def keep (weight : Float) (isWeight : IsWeight weight) : Rule :=
  { Rule.change "keep" "." "." (by decide) with weight, isWeight }

lemma isWeight_large : IsWeight 1e308 := by decide +kernel

lemma isWeight_negativeZero : IsWeight (-0.0) := by decide +kernel

def grammar : RuleSet where
  rules := [keep (-0.0) isWeight_negativeZero, keep 1e308 isWeight_large]

end Heavy

theorem random_takes_selectable_infinite :
    let ms : List Match := [0, 1, 1, 0].map fun rule => ⟨rule, 0, Cell.origin, Cell.unit⟩
    let source : Script := { numbers := [0] }
    (Heavy.grammar.totalWeight ms).isFinite = false ∧
      ∃ m ∈ ms, Heavy.grammar.Selectable m ∧
        Heavy.grammar.pick .random ms source =
          (some m, { numbers := [0], position := 1, draws := 1 }) := by
  intro ms source
  have selectable : ∃ m ∈ ms, Heavy.grammar.Selectable m :=
    ⟨_, List.mem_cons_of_mem _ List.mem_cons_self, _, rfl, by decide +kernel⟩
  exact ⟨by decide +kernel, (random_takes_selectable Heavy.grammar ms source).2.2 selectable⟩

section ZeroDraw

variable {target sum : Float} {last : Option Match} {source : σ}

instance (rs : RuleSet) : DecidablePred rs.Selectable :=
  fun _ => decidable_of_iff _ selectable_iff.symm

def selectable (rs : RuleSet) (ms : List Match) : List Match := ms.filter fun m => rs.Selectable m

lemma selectable_cons_of_light (light : rs.weightOf m ≤ 0) :
    rs.selectable (m :: ms) = rs.selectable ms :=
  List.filter_cons_of_neg (by simpa [selectable_iff] using weightOf_nonpos_iff.1 light)

lemma selectable_cons_of_heavy (heavy : ¬ rs.weightOf m ≤ 0) :
    rs.selectable (m :: ms) = m :: rs.selectable ms :=
  List.filter_cons_of_pos (by simpa [selectable_iff] using weightOf_pos heavy)

lemma add_weightOf_pos (heavy : ¬ rs.weightOf m ≤ 0) (nonneg : 0 ≤ sum) :
    0 < sum + rs.weightOf m :=
  (Binary64.add_pos_iff nonneg (rs.weightOf_nonneg m)).2 (.inr (weightOf_pos heavy))

lemma pickFrom_of_low (low : ∀ y, 0 < y → target < y) (nonneg : 0 ≤ sum) :
    rs.pickFrom target sum last ms = (rs.selectable ms).head?.or last := by
  induction ms generalizing sum last with
  | nil => rfl
  | cons m ms ih =>
    rw [pickFrom]
    by_cases light : rs.weightOf m ≤ 0
    · rw [if_pos light, ih nonneg, selectable_cons_of_light light]
    · rw [if_neg light, if_pos (low _ (add_weightOf_pos light nonneg)),
        selectable_cons_of_heavy light]
      rfl

lemma pickFrom_of_incomparable (incomparable : ∀ y, 0 < y → ¬ target < y) (nonneg : 0 ≤ sum) :
    rs.pickFrom target sum last ms = (rs.selectable ms).getLast?.or last := by
  induction ms generalizing sum last with
  | nil => rfl
  | cons m ms ih =>
    rw [pickFrom]
    by_cases light : rs.weightOf m ≤ 0
    · rw [if_pos light, ih nonneg, selectable_cons_of_light light]
    · have pos := add_weightOf_pos light nonneg
      rw [if_neg light, if_neg (incomparable _ pos), ih (Binary64.nonneg_of_pos pos),
        selectable_cons_of_heavy light, List.getLast?_cons]
      cases (rs.selectable ms).getLast? <;> rfl

lemma totalWeight_pos (h : ∃ m ∈ ms, rs.Selectable m) : 0 < rs.totalWeight ms := by
  obtain ⟨m, hm, pos⟩ := h
  have zero : (0 : Float) ≤ 0 := by decide
  exact (foldl_weightOf rs ms zero).2.2 (.inr ⟨m, hm, selectable_iff.1 pos⟩)

lemma pickByWeight_of_draw_zero (zero : (RandomSource.next source).1 = 0)
    (pos : 0 < rs.totalWeight ms) : rs.pickByWeight ms source =
      (if (rs.totalWeight ms).isFinite = true then (rs.selectable ms).head?
        else (rs.selectable ms).getLast?, (RandomSource.next source).2) := by
  have heavy : ¬ rs.totalWeight ms ≤ 0 := fun light =>
    (Binary64.nonpos_iff (Binary64.nonneg_of_pos pos)).1 light pos
  have nonneg : (0 : Float) ≤ 0 := by decide
  rw [pickByWeight]
  dsimp only
  rw [if_neg heavy, zero]
  by_cases finite : (rs.totalWeight ms).isFinite = true
  · have low : ∀ y, 0 < y → 0 * rs.totalWeight ms < y := fun y hy =>
      (Binary64.zero_mul_lt_iff pos hy).2 finite
    rw [if_pos finite, pickFrom_of_low low nonneg, Option.or_none]
  · have incomparable : ∀ y, 0 < y → ¬ 0 * rs.totalWeight ms < y := fun y hy =>
      mt (Binary64.zero_mul_lt_iff pos hy).1 finite
    rw [if_neg finite, pickFrom_of_incomparable incomparable nonneg, Option.or_none]

end ZeroDraw

theorem zero_draw_takes_first_iff {source : σ} (zero : (RandomSource.next source).1 = 0)
    (exists_selectable : ∃ m ∈ ms, rs.Selectable m) :
    ∃ first last, (rs.selectable ms).head? = some first ∧
      (rs.selectable ms).getLast? = some last ∧
      rs.pick .random ms source =
        (some (if (rs.totalWeight ms).isFinite = true then first else last),
          (RandomSource.next source).2) ∧
      ((rs.pick .random ms source).1 = some first ↔
        (rs.totalWeight ms).isFinite = true ∨ last = first) := by
  have nonempty : rs.selectable ms ≠ [] := by
    obtain ⟨m, hm, pos⟩ := exists_selectable
    exact List.ne_nil_of_mem (List.mem_filter.2 ⟨hm, decide_eq_true pos⟩)
  have first := List.head?_eq_some_head nonempty
  have last := List.getLast?_eq_some_getLast nonempty
  have picked : rs.pick .random ms source = _ :=
    pickByWeight_of_draw_zero zero (totalWeight_pos exists_selectable)
  rw [first, last, ← apply_ite some] at picked
  refine ⟨_, _, first, last, picked, ?_⟩
  rw [picked, Option.some.injEq, ite_eq_left_iff, or_iff_not_imp_left]

theorem zero_draw_takes_first_iff_infinite :
    let ms : List Match := [(0, 0), (1, 1), (1, 2), (0, 3)].map fun (rule, x) =>
      ⟨rule, 0, ⟨x, 0, 0⟩, Cell.unit⟩
    let source : Script := { numbers := [0] }
    (RandomSource.next source).1 = 0 ∧ (∃ m ∈ ms, Heavy.grammar.Selectable m) ∧
      ∃ first last, (Heavy.grammar.selectable ms).head? = some first ∧
        (Heavy.grammar.selectable ms).getLast? = some last ∧
        Heavy.grammar.pick .random ms source =
          (some (if (Heavy.grammar.totalWeight ms).isFinite = true then first else last),
            (RandomSource.next source).2) ∧
        ((Heavy.grammar.pick .random ms source).1 = some first ↔
          (Heavy.grammar.totalWeight ms).isFinite = true ∨ last = first) := by
  intro ms source
  have zero : (RandomSource.next source).1 = 0 := rfl
  have selectable : ∃ m ∈ ms, Heavy.grammar.Selectable m :=
    ⟨_, List.mem_cons_of_mem _ List.mem_cons_self, _, rfl, by decide +kernel⟩
  exact ⟨zero, selectable, zero_draw_takes_first_iff zero selectable⟩

/-- A choice between two matches of weight 1e308 has an infinite total. -/
theorem zero_draw_misses_first_infinite : ¬ ∀ (rs : RuleSet) (ms : List Match) (source : Script),
    (RandomSource.next source).1 = 0 → (∃ m ∈ ms, rs.Selectable m) →
      (rs.pick .random ms source).1 = (rs.selectable ms).head? := by
  intro takes_first
  let ms : List Match := [0, 1].map fun x => ⟨1, 0, ⟨x, 0, 0⟩, Cell.unit⟩
  let source : Script := { numbers := [0] }
  have selectable : ∃ m ∈ ms, Heavy.grammar.Selectable m :=
    ⟨_, List.mem_cons_self, _, rfl, by decide +kernel⟩
  have picked := takes_first Heavy.grammar ms source rfl selectable
  revert picked
  decide +kernel

end TileGrammar.RuleSet
