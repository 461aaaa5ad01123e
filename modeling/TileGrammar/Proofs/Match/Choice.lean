import TileGrammar.Match.Cache
import Mathlib.Tactic.Lemma

namespace TileGrammar

namespace NameFilter

variable {rs : RuleSet} {f : NameFilter} {m : Match} {ms : List Match}

@[simp] lemma keep_all : all.keep rs ms = ms := rfl

lemma keep_eq_filter (hf : f ≠ all) : f.keep rs ms =
    ms.filter fun m => (rs.rule? m.rule).any fun rule => f.accepts rule.name := by
  cases f with
  | all => exact absurd rfl hf
  | startsWith stem => rfl
  | exactly name => rfl

lemma keep_sublist (rs : RuleSet) (f : NameFilter) (ms : List Match) :
    (f.keep rs ms).Sublist ms := by
  by_cases hf : f = all
  · subst hf
    exact .refl ms
  · rw [keep_eq_filter hf]
    exact List.filter_sublist

lemma mem_of_mem_keep (h : m ∈ f.keep rs ms) : m ∈ ms := (keep_sublist rs f ms).subset h

lemma perm_keep (rs : RuleSet) (f : NameFilter) {ns : List Match} (h : ms.Perm ns) :
    (f.keep rs ms).Perm (f.keep rs ns) := by
  by_cases hf : f = all
  · simpa only [hf, keep_all] using h
  · simpa only [keep_eq_filter hf] using h.filter _

end NameFilter

namespace MatchCache

variable {c : MatchCache} {rs : RuleSet} {f : NameFilter} {ms : List Match}

lemma candidates_eq_none : c.candidates rs f = none ↔ f.keep rs c.found = [] := by
  rw [candidates]
  split <;> simp_all

lemma candidates_eq_some :
    c.candidates rs f = some ms ↔ f.keep rs c.found = ms ∧ ms ≠ [] := by
  rw [candidates]
  split <;> grind

end MatchCache

namespace RuleSet

variable {σ : Type} [RandomSource σ] {rs : RuleSet} {m : Match} {ms : List Match}

lemma mem_of_pickFrom {target sum : Float} {last : Option Match}
    (h : rs.pickFrom target sum last ms = some m) : last = some m ∨ m ∈ ms := by
  induction ms generalizing sum last with
  | nil => exact .inl h
  | cons n ms ih =>
    rw [pickFrom] at h
    split at h
    · exact (ih h).imp id (List.mem_cons_of_mem n)
    · split at h
      · exact .inr (by simp_all)
      · rcases ih h with hn | hm
        · exact .inr (by simp_all)
        · exact .inr (List.mem_cons_of_mem n hm)

lemma pick_nil (rs : RuleSet) (strategy : Strategy) (source : σ) :
    rs.pick strategy [] source = (none, source) := by
  cases strategy with
  | first => rfl
  | last => rfl
  | random => exact if_pos (show (0 : Float) ≤ 0 by decide)
  | unsupported => rfl

lemma mem_of_pick {strategy : Strategy} {source : σ}
    (h : (rs.pick strategy ms source).1 = some m) : m ∈ ms := by
  cases strategy with
  | first => exact List.mem_of_head? h
  | last => exact List.mem_of_getLast? h
  | random =>
    simp only [pick, pickByWeight] at h
    split at h
    · cases h
    · rcases mem_of_pickFrom h with hn | hm
      · cases hn
      · exact hm
  | unsupported => cases h

end RuleSet

end TileGrammar
