import TileGrammar.Proofs.Generation.Budget

/-!
Runs without a budget end if every rule has a cap. The measure is the allowance, which is what the
caps leave of the uses of all rules. Rules that share a name share their uses, so one use may lower
several terms of the sum; it lowers that of the rule which is applied.
-/

namespace TileGrammar

def Rule.allowance (rule : Rule) (uses : Tally) : Nat :=
  rule.cap.elim 0 fun cap => cap - uses.count rule.name

namespace RuleSet

variable {rs : RuleSet}

def allowance (rs : RuleSet) (uses : Tally) : Nat := (rs.rules.map (·.allowance uses)).sum

lemma allowance_use_lt {m : Match} {rule : Rule} {v : Variant} {g : Grid} {uses : Tally} {step : Nat}
    (capped : ∀ rule ∈ rs.rules, ∃ cap, rule.cap = some cap)
    (o : m.Occurs rule v g rs uses step) : rs.allowance (uses.use rs m) < rs.allowance uses := by
  have mem : rule ∈ rs.rules := List.mem_of_getElem? o.rule_eq
  obtain ⟨cap, hcap⟩ := capped rule mem
  have below : uses.count rule.name < cap :=
    Rule.isCapped_eq_false_iff.1 (Rule.isEligible_iff.1 o.isEligible).1 cap hcap
  apply List.sum_lt_sum
  · intro other _
    have le := uses.count_le_use rs m other.name
    cases hc : other.cap with
    | none => simp [Rule.allowance, hc]
    | some c =>
      simp only [Rule.allowance, hc, Option.elim_some]
      omega
  · refine ⟨rule, mem, ?_⟩
    simp only [Rule.allowance, hcap, Option.elim_some, o.use_eq, Tally.count_increment, if_true]
    omega

end RuleSet

namespace Generation

variable {σ : Type} [RandomSource σ] {g : Generation σ} {rs : RuleSet} {filter : NameFilter}

lemma exists_occurs_of_single (known : Faithful rs g) (succeeded : (g.single rs filter).1 = true) :
    ∃ m rule v, m.Occurs rule v g.grid rs g.uses g.step ∧
      (g.single rs filter).2.uses = g.uses.use rs m := by
  obtain ⟨m, hm⟩ := exists_choose_of_single succeeded
  have found := NameFilter.mem_of_mem_keep (mem_keep_of_choose hm)
  obtain ⟨rule, v, o⟩ := (faithful_search known).exists_occurs (found?_search g rs) found
  refine ⟨m, rule, v, o, ?_⟩
  rw [single_of_choose_some (Prod.ext hm rfl)]
  rfl

lemma faithful_single (known : Faithful rs g) (filter : NameFilter) :
    Faithful rs (g.single rs filter).2 :=
  faithful_moves (moves_single g rs filter) known

lemma runFor_fst_add_allowance_le (capped : ∀ rule ∈ rs.rules, ∃ cap, rule.cap = some cap)
    (known : Faithful rs g) (budget : Nat) :
    (runFor rs budget g).1 + rs.allowance (runFor rs budget g).2.uses ≤ rs.allowance g.uses := by
  induction budget generalizing g with
  | zero => simp [runFor]
  | succ budget ih =>
    cases hs : (g.single rs .all).1 with
    | false => simp [runFor_succ_of_failed hs]
    | true =>
      obtain ⟨m, rule, v, o, uses⟩ := exists_occurs_of_single known hs
      have lt := RuleSet.allowance_use_lt capped o
      have rest := ih (faithful_single known .all)
      rw [uses] at rest
      rw [runFor_succ_of_succeeded hs]
      simp only [Prod.map_fst, Prod.map_snd, id]
      omega

theorem capped_run_ends {past : List Command} {os : List Outcome} {g₀ : Generation σ} {fuel₀ : Nat}
    (fresh : g₀.cache.found? = none) (reached : executeAll rs fuel₀ past g₀ = some (os, g))
    (capped : ∀ rule ∈ rs.rules, ∃ cap, rule.cap = some cap) :
    ∃ n g', n ≤ rs.allowance g.uses ∧
      (∀ fuel, g.run rs fuel 0 = if n < fuel then some (n, g') else none) ∧
      (g'.single rs .all).1 = false := by
  have known := faithful_moves (moves_executeAll reached) (faithful_of_found?_eq_none fresh)
  let bound := rs.allowance g.uses
  have few := runFor_fst_add_allowance_le capped known (bound + 1)
  have early : (runFor rs (bound + 1) g).1 < bound + 1 := by omega
  refine ⟨(runFor rs (bound + 1) g).1, (runFor rs (bound + 1) g).2, by omega, ?_, ?_⟩
  · exact run_zero_of_lt early
  · exact congrArg Prod.fst (exhausted_of_runFor_lt early)

namespace Relay

def toggle : RuleSet where
  rules := [{ Rule.change "begin" "A" "B" begin_ne with cap := some 3 },
    { Rule.change "begin" "B" "A" begin_ne with cap := some 2 }]

end Relay

theorem capped_run_ends_toggle :
    ∃ os g g', executeAll Relay.toggle 0 [.reset none, .single .all] (Relay.start .first) =
        some (os, g) ∧
      (∀ rule ∈ Relay.toggle.rules, ∃ cap, rule.cap = some cap) ∧
      2 ≤ Relay.toggle.allowance g.uses ∧ Relay.toggle.allowance g.uses = 3 ∧
      (∀ fuel, g.run Relay.toggle fuel 0 = if 2 < fuel then some (2, g') else none) ∧
      (g'.single Relay.toggle .all).1 = false := by
  have h : (executeAll Relay.toggle 0 [.reset none, .single .all] (Relay.start .first)).any
      (fun r => Relay.toggle.allowance r.2.uses = 3 ∧
        (r.2.run Relay.toggle 3 0).map Prod.fst = some 2) = true := by
    decide +kernel
  simp only [Option.any_eq_true, decide_eq_true_eq] at h
  obtain ⟨⟨os, g⟩, reached, allowance, two⟩ := h
  have capped : ∀ rule ∈ Relay.toggle.rules, ∃ cap, rule.cap = some cap := by
    simp [Relay.toggle]
  obtain ⟨n, g', le, runs, stuck⟩ := capped_run_ends rfl reached capped
  obtain rfl : n = 2 := by
    rw [runs 3] at two
    split at two
    · exact Option.some.inj two
    · cases two
  exact ⟨os, g, g', reached, capped, le, allowance, runs, stuck⟩

end Generation

end TileGrammar
