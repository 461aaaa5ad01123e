import TileGrammar.Proofs.Generation.Stride

/-!
Caps and waits hold in every run. A match is applied only while the uses of its rule are below the
cap and the wait of its rule is over, as they are right before the step. The uses never fall between
two resets, so a rule whose cap is reached is not applied again.
-/

namespace TileGrammar.Generation

variable {σ : Type} {rs : RuleSet}

def Account.Admits (a : Account) (rs : RuleSet) (m : Match) : Prop :=
  ∃ rule, rs.rule? m.rule = some rule ∧ (∀ cap, rule.cap = some cap → a.uses.count rule.name < cap) ∧
    rule.wait ≤ a.step

namespace Stride

variable {s : Stride rs σ}

def Found (s : Stride rs σ) : Prop :=
  ∀ m ∈ s.applied, m ∈ findAll s.before.grid rs s.before.uses s.before.step

lemma Found.exists_occurs (h : s.Found) {m : Match} (hm : m ∈ s.applied) :
    ∃ rule v, m.Occurs rule v s.before.grid rs s.before.uses s.before.step :=
  mem_findAll.1 (h m hm)

lemma Found.admits (h : s.Found) {m : Match} (hm : m ∈ s.applied) :
    s.before.account.Admits rs m := by
  obtain ⟨rule, v, o⟩ := h.exists_occurs hm
  obtain ⟨uncapped, waited⟩ := Rule.isEligible_iff.1 o.isEligible
  exact ⟨rule, o.rule_eq, Rule.isCapped_eq_false_iff.1 uncapped, waited⟩

lemma count_le (s : Stride rs σ) (name : String) :
    s.before.uses.count name ≤ s.after.uses.count name := by
  rw [s.uses_eq]
  exact Tally.count_le_foldl_use _ rs s.applied name

lemma count_of_applied_eq (h : s.Found) {m : Match} (hm : s.applied = [m]) {rule : Rule}
    (hr : rs.rule? m.rule = some rule) :
    s.after.uses.count rule.name = s.before.uses.count rule.name + 1 := by
  obtain ⟨rule', v, o⟩ := h.exists_occurs (m := m) (by simp [hm])
  obtain rfl := Option.some.inj (o.rule_eq.symm.trans hr)
  rw [s.uses_eq, hm, List.foldl_cons, List.foldl_nil, o.use_eq, Tally.count_increment, if_pos rfl]

end Stride

section Linked

variable {a b : Account} {ss : List (Stride rs σ)}

lemma Linked.count_le (h : Linked a ss b) (name : String) :
    ∀ s ∈ ss, a.uses.count name ≤ s.before.uses.count name := by
  induction h with
  | nil a => exact fun s hs => nomatch hs
  | @cons s ss b _ ih =>
    refine List.forall_mem_cons.2 ⟨Nat.le_refl _, fun t ht => ?_⟩
    exact Nat.le_trans (s.count_le name) (ih t ht)

lemma Linked.pairwise_count_le (h : Linked a ss b) (name : String) :
    ss.Pairwise fun s t => s.after.uses.count name ≤ t.before.uses.count name := by
  induction h with
  | nil a => exact .nil
  | cons linked ih => exact List.pairwise_cons.2 ⟨linked.count_le name, ih⟩

lemma Linked.countP_rule_le (h : Linked a ss b) (found : ∀ s ∈ ss, s.Found)
    (single : ∀ s ∈ ss, ∃ m, s.applied = [m]) {r : Nat} {rule : Rule} {cap : Nat}
    (hr : rs.rule? r = some rule) (hcap : rule.cap = some cap) :
    (ss.flatMap Stride.applied).countP (fun m => m.rule = r) ≤ cap - a.uses.count rule.name := by
  induction h with
  | nil a => exact Nat.zero_le _
  | @cons s ss b _ ih =>
    rw [List.forall_mem_cons] at found single
    obtain ⟨m, hm⟩ := single.1
    have rest := ih found.2 single.2
    rw [List.flatMap_cons, hm, List.singleton_append, List.countP_cons]
    by_cases hmr : m.rule = r
    · subst hmr
      have now := Stride.count_of_applied_eq found.1 hm hr
      obtain ⟨rule', hr', below, -⟩ := found.1.admits (m := m) (by simp [hm])
      obtain rfl := Option.some.inj (hr'.symm.trans hr)
      have lt := below cap hcap
      simp only [account] at rest lt ⊢
      simp only [decide_true, if_true]
      omega
    · have more := s.count_le rule.name
      simp only [account] at rest ⊢
      simp only [hmr, decide_false, Bool.false_eq_true, if_false]
      omega

end Linked

section Journal

variable [RandomSource σ] {g : Generation σ} {s : Stride rs σ} {filter : NameFilter}
  {fuel : Nat} {cs : List Command}

lemma exists_applied_eq_of_mem_singleStrides (h : s ∈ g.singleStrides rs filter) :
    s.before = g ∧ ∃ m ∈ (g.search rs).cache.found, s.applied = [m] := by
  by_cases hs : (g.single rs filter).1 = true
  · rw [singleStrides, dif_pos hs, List.mem_singleton] at h
    obtain ⟨m, hm⟩ := exists_choose_of_single hs
    subst h
    exact ⟨rfl, m, NameFilter.mem_of_mem_keep (mem_keep_of_choose hm), congrArg Option.toList hm⟩
  · rw [singleStrides, dif_neg hs] at h
    cases h

omit [RandomSource σ] in
lemma applied_eq_of_mem_sweepStrides (h : s ∈ g.sweepStrides rs filter) :
    s.before = g ∧ s.applied = filter.keep rs (g.search rs).cache.found := by
  by_cases hs : (g.sweep rs filter).1 = true
  · rw [sweepStrides, dif_pos hs, List.mem_singleton] at h
    subst h
    exact ⟨rfl, rfl⟩
  · rw [sweepStrides, dif_neg hs] at h
    cases h

lemma found_of_mem_journal (hg : Faithful rs g) (hs : s ∈ journal rs fuel cs g) : s.Found := by
  obtain ⟨g', filter, moves, origin⟩ := origin_of_mem_journal hs
  have known := faithful_search (faithful_moves moves hg) _ (found?_search g' rs)
  intro m hm
  rcases origin with origin | ⟨-, origin⟩
  · obtain ⟨rfl, n, hn, he⟩ := exists_applied_eq_of_mem_singleStrides origin
    rw [he, List.mem_singleton] at hm
    exact known.mem_iff.1 (hm ▸ hn)
  · obtain ⟨rfl, he⟩ := applied_eq_of_mem_sweepStrides origin
    rw [he] at hm
    exact known.mem_iff.1 (NameFilter.mem_of_mem_keep hm)

lemma exists_applied_eq_of_mem_journal (unswept : ∀ filter, .sweep filter ∉ cs)
    (hs : s ∈ journal rs fuel cs g) : ∃ m, s.applied = [m] := by
  obtain ⟨g', filter, -, origin | ⟨sweep, -⟩⟩ := origin_of_mem_journal hs
  · obtain ⟨-, m, -, he⟩ := exists_applied_eq_of_mem_singleStrides origin
    exact ⟨m, he⟩
  · exact absurd sweep (unswept filter)

theorem caps_and_waits_hold {past : List Command} {os : List Outcome} {g₀ : Generation σ}
    {fuel₀ : Nat} (fresh : g₀.cache.found? = none)
    (run : executeAll rs fuel₀ past g₀ = some (os, g)) (fuel : Nat) (cs : List Command) :
    let strides := journal rs fuel cs g
    (∀ s ∈ strides, ∀ m ∈ s.applied, s.before.account.Admits rs m) ∧
      ((∀ seed, .reset seed ∉ cs) → ∀ r rule cap, rs.rule? r = some rule → rule.cap = some cap →
        (cap ≤ g.uses.count rule.name → ∀ s ∈ strides, ∀ m ∈ s.applied, m.rule ≠ r) ∧
        strides.Pairwise (fun s t =>
          cap ≤ s.after.uses.count rule.name → ∀ m ∈ t.applied, m.rule ≠ r) ∧
        ((∀ filter, .sweep filter ∉ cs) →
          (strides.flatMap Stride.applied).countP (fun m => m.rule = r) ≤ cap)) := by
  have faithful := faithful_moves (moves_executeAll run) (faithful_of_found?_eq_none fresh)
  have found : ∀ s ∈ journal rs fuel cs g, s.Found := fun s hs => found_of_mem_journal faithful hs
  refine ⟨fun s hs m hm => (found s hs).admits hm, fun unreset r rule cap hr hcap => ?_⟩
  obtain ⟨b, linked, -⟩ := linked_journal g rs fuel unreset
  have unapplied : ∀ s ∈ journal rs fuel cs g, cap ≤ s.before.uses.count rule.name →
      ∀ m ∈ s.applied, m.rule ≠ r := by
    rintro s hs reached m hm rfl
    obtain ⟨rule', hr', below, -⟩ := (found s hs).admits hm
    obtain rfl := Option.some.inj (hr'.symm.trans hr)
    exact Nat.not_lt.2 reached (below cap hcap)
  refine ⟨fun reached s hs => ?_, ?_, fun unswept => ?_⟩
  · exact unapplied s hs (Nat.le_trans reached (linked.count_le rule.name s hs))
  · apply (linked.pairwise_count_le rule.name).imp_of_mem
    intro s t _ ht le reached
    exact unapplied t ht (Nat.le_trans reached le)
  · have single : ∀ s ∈ journal rs fuel cs g, ∃ m, s.applied = [m] := fun s hs =>
      exists_applied_eq_of_mem_journal unswept hs
    exact Nat.le_trans (linked.countP_rule_le found single hr hcap) (Nat.sub_le _ _)

end Journal

namespace Relay

def capped : RuleSet where
  rules := [{ Rule.change "finish" "B" "C" finish_ne with cap := some 1, wait := 2 },
    { Rule.change "begin" "A" "B" begin_ne with cap := some 2 }]

end Relay

theorem caps_and_waits_hold_relay :
    ∃ os g, executeAll Relay.capped 0 [.reset none, .single .all] (Relay.start .first) =
        some (os, g) ∧
      let strides := journal Relay.capped 5 [.candidates .all, .single .all, .run 0] g
      strides.map (fun s => s.applied.map Match.rule) = [[1], [0]] ∧
      (∀ s ∈ strides, ∀ m ∈ s.applied, s.before.account.Admits Relay.capped m) ∧
      strides.Pairwise (fun s t =>
        2 ≤ s.after.uses.count "begin" → ∀ m ∈ t.applied, m.rule ≠ 1) ∧
      (strides.flatMap Stride.applied).countP (fun m => m.rule = 1) ≤ 2 := by
  have h : (executeAll Relay.capped 0 [.reset none, .single .all] (Relay.start .first)).any
      (fun r => (journal Relay.capped 5 [.candidates .all, .single .all, .run 0] r.2).map
        (fun s => s.applied.map Match.rule) = [[1], [0]]) = true := by
    decide +kernel
  simp only [Option.any_eq_true, decide_eq_true_eq] at h
  obtain ⟨⟨os, g⟩, run, rules⟩ := h
  obtain ⟨admitted, capped⟩ := caps_and_waits_hold rfl run 5 [.candidates .all, .single .all, .run 0]
  obtain ⟨-, reached, few⟩ := capped (by simp) 1 _ 2 rfl rfl
  exact ⟨os, g, run, rules, admitted, reached, few (by simp)⟩

end TileGrammar.Generation
