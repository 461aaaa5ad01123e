import TileGrammar.Proofs.Generation.Admission
import TileGrammar.Proofs.Tally.Total
import Mathlib.Algebra.GroupWithZero.Nat
import Mathlib.Data.List.DropRight

/-!
The counters of a generation agree with what has been applied since the latest reset, or since the
creation if there was none. The strides since then account for the step counter and for the uses; the
names that have a counter and the phase are kept right by every move.
-/

namespace TileGrammar

section Uses

def Match.IsCounted (rs : RuleSet) (m : Match) : Prop :=
  ∃ rule, rs.rule? m.rule = some rule ∧ ∀ uses : Tally, uses.use rs m = uses.increment rule.name

def RuleSet.bears (rs : RuleSet) (name : String) (m : Match) : Bool :=
  (rs.rule? m.rule).any fun rule => rule.name = name

lemma Match.Occurs.isCounted {m : Match} {rule : Rule} {v : Variant} {g : Grid} {rs : RuleSet}
    {uses : Tally} {step : Nat} (o : m.Occurs rule v g rs uses step) : m.IsCounted rs :=
  ⟨rule, o.rule_eq, o.use_eq⟩

namespace Tally

variable {rs : RuleSet} {ms : List Match}

lemma count_foldl_use (counted : ∀ m ∈ ms, m.IsCounted rs) (t : Tally) (name : String) :
    (ms.foldl (fun t m => t.use rs m) t).count name = t.count name + ms.countP (rs.bears name) := by
  induction ms generalizing t with
  | nil => rfl
  | cons m ms ih =>
    rw [List.forall_mem_cons] at counted
    obtain ⟨rule, hr, use_eq⟩ := counted.1
    have bears_eq : rs.bears name m = decide (name = rule.name) := by
      rw [RuleSet.bears, hr]
      exact decide_eq_decide.2 eq_comm
    rw [List.foldl_cons, ih counted.2, use_eq, count_increment, List.countP_cons, bears_eq]
    simp only [decide_eq_true_eq]
    omega

lemma total_foldl_use (counted : ∀ m ∈ ms, m.IsCounted rs) (t : Tally) :
    (ms.foldl (fun t m => t.use rs m) t).total = t.total + ms.length := by
  induction ms generalizing t with
  | nil => rfl
  | cons m ms ih =>
    rw [List.forall_mem_cons] at counted
    obtain ⟨rule, -, use_eq⟩ := counted.1
    rw [List.foldl_cons, ih counted.2, use_eq, total_increment, List.length_cons]
    omega

lemma names_use {t : Tally} (h : ∀ name ∈ t.names, name ∈ rs.names) (m : Match) :
    ∀ name ∈ (t.use rs m).names, name ∈ rs.names := by
  intro name hname
  rw [use] at hname
  cases hr : rs.replacement? m with
  | none =>
    rw [hr] at hname
    exact h name hname
  | some r =>
    rw [hr] at hname
    rcases mem_names_adjust.1 hname with rfl | hname
    · obtain ⟨rule, hrule, hr⟩ := Option.bind_eq_some_iff.1 hr
      obtain ⟨v, -, hr⟩ := Option.bind_eq_some_iff.1 hr
      obtain rfl := Option.some.inj hr
      exact List.mem_map_of_mem (List.mem_of_getElem? hrule)
    · exact h name hname

lemma names_foldl_use {t : Tally} (h : ∀ name ∈ t.names, name ∈ rs.names) :
    ∀ name ∈ (ms.foldl (fun t m => t.use rs m) t).names, name ∈ rs.names := by
  induction ms generalizing t with
  | nil => exact h
  | cons m ms ih => exact ih (names_use h m)

end Tally

end Uses

namespace Generation

variable {σ : Type} {rs : RuleSet} {g g' : Generation σ}

section Moves

structure Kept (rs : RuleSet) (g : Generation σ) : Prop where
  names : ∀ name ∈ g.uses.names, name ∈ rs.names
  phase_iff : g.phase = .stepping ↔ 0 < g.step

lemma kept_new (grid : Grid) (strategy : Strategy) (source : σ) :
    Kept rs { grid, strategy, source } where
  names name h := by cases h
  phase_iff := by simp

variable [RandomSource σ]

lemma kept_move (h : Move rs g g') (hg : Kept rs g) : Kept rs g' := by
  cases h with
  | reset seed => exact ⟨fun _ => Tally.mem_names_zero.1, by simp [reset]⟩
  | search => exact { hg with }
  | draw source => exact { hg with }
  | applyOne hms hm => exact ⟨Tally.names_use hg.names _, by simp [applyOne]⟩
  | applyAll filter hms => exact ⟨Tally.names_foldl_use hg.names, by simp [applyAll]⟩
  | subdivide levels => exact { hg with }

lemma kept_moves (h : Moves rs g g') (hg : Kept rs g) : Kept rs g' := by
  induction h with
  | refl => exact hg
  | tail _ hm ih => exact kept_move hm ih

end Moves

section Strides

variable {a b : Account} {ss : List (Stride rs σ)}

lemma Linked.step_eq (h : Linked a ss b) : b.step = a.step + ss.length := by
  induction h with
  | nil a => rfl
  | @cons s ss b _ ih =>
    have step_eq := s.step_eq
    simp only [account, List.length_cons] at ih ⊢
    omega

lemma Linked.uses_eq (h : Linked a ss b) :
    b.uses = (ss.flatMap Stride.applied).foldl (fun uses m => uses.use rs m) a.uses := by
  induction h with
  | nil a => rfl
  | @cons s ss b _ ih => rw [ih, List.flatMap_cons, List.foldl_append, account, account, s.uses_eq]

lemma Stride.Found.isCounted {s : Stride rs σ} (h : s.Found) :
    ∀ m ∈ s.applied, m.IsCounted rs := by
  intro m hm
  obtain ⟨rule, v, o⟩ := h.exists_occurs hm
  exact o.isCounted

lemma length_le_length_flatMap_applied (h : ∀ s ∈ ss, s.applied ≠ []) :
    ss.length ≤ (ss.flatMap Stride.applied).length := by
  induction ss with
  | nil => exact Nat.le_refl 0
  | cons s ss ih =>
    rw [List.forall_mem_cons] at h
    have now := List.length_pos_of_ne_nil h.1
    have rest := ih h.2
    rw [List.flatMap_cons, List.length_append, List.length_cons]
    omega

lemma length_flatMap_applied_eq (h : ∀ s ∈ ss, ∃ m, s.applied = [m]) :
    (ss.flatMap Stride.applied).length = ss.length := by
  induction ss with
  | nil => rfl
  | cons s ss ih =>
    rw [List.forall_mem_cons] at h
    obtain ⟨m, hm⟩ := h.1
    rw [List.flatMap_cons, List.length_append, ih h.2, hm, List.length_cons]
    exact Nat.add_comm 1 ss.length

end Strides

end Generation

def Outcome.steps : Outcome → Nat
  | .stepped succeeded => succeeded.toNat
  | .ran steps => steps
  | .done | .candidates _ => 0

namespace Generation

variable {σ : Type} {rs : RuleSet} {g g' : Generation σ} {filter : NameFilter} {fuel : Nat}

section Outcomes

lemma length_sweepStrides (g : Generation σ) (rs : RuleSet) (filter : NameFilter) :
    (g.sweepStrides rs filter).length = (g.sweep rs filter).1.toNat := by
  by_cases h : (g.sweep rs filter).1 = true
  · rw [sweepStrides, dif_pos h, h]
    rfl
  · rw [sweepStrides, dif_neg h, Bool.eq_false_iff.2 h]
    rfl

variable [RandomSource σ]

lemma length_singleStrides (g : Generation σ) (rs : RuleSet) (filter : NameFilter) :
    (g.singleStrides rs filter).length = (g.single rs filter).1.toNat := by
  by_cases h : (g.single rs filter).1 = true
  · rw [singleStrides, dif_pos h, h]
    rfl
  · rw [singleStrides, dif_neg h, Bool.eq_false_iff.2 h]
    rfl

lemma length_runStrides (rs : RuleSet) (budget : Nat) (g : Generation σ) :
    (runStrides rs budget g).length = (runFor rs budget g).1 := by
  induction budget generalizing g with
  | zero => rfl
  | succ budget ih =>
    rw [runStrides, runFor, List.length_append, length_singleStrides]
    rcases g.single rs .all with ⟨succeeded, g'⟩
    cases succeeded with
    | false => rfl
    | true =>
      rw [if_pos rfl, ih g']
      exact Nat.add_comm 1 _

lemma length_strides {c : Command} {o : Outcome} (h : g.execute rs fuel c = some (o, g')) :
    (g.strides rs fuel c).length = o.steps := by
  cases c with
  | reset seed =>
    obtain ⟨rfl, -⟩ := Prod.mk.inj (Option.some.inj h)
    rfl
  | candidates filter =>
    obtain ⟨rfl, -⟩ := Prod.mk.inj (Option.some.inj h)
    rfl
  | single filter =>
    obtain ⟨rfl, -⟩ := Prod.mk.inj (Option.some.inj h)
    exact length_singleStrides g rs filter
  | sweep filter =>
    obtain ⟨rfl, -⟩ := Prod.mk.inj (Option.some.inj h)
    exact length_sweepStrides g rs filter
  | run budget =>
    obtain ⟨⟨n, g₁⟩, hr, he⟩ := Option.map_eq_some_iff.1 h
    obtain ⟨rfl, -⟩ := Prod.mk.inj he
    rw [strides, length_runStrides, runFor_of_run hr]
    rfl
  | subdivide levels =>
    obtain ⟨rfl, -⟩ := Prod.mk.inj (Option.some.inj h)
    rfl

lemma length_journal {cs : List Command} {os : List Outcome}
    (h : executeAll rs fuel cs g = some (os, g')) :
    (journal rs fuel cs g).length = ((cs.zip os).map fun call => call.2.steps).sum := by
  induction cs generalizing g os with
  | nil => rfl
  | cons c cs ih =>
    obtain ⟨o, g₁, os', first, rest, rfl⟩ := exists_of_executeAll_cons h
    rw [journal, first, Option.elim_some, List.length_append, length_strides first, ih rest,
      List.zip_cons_cons, List.map_cons, List.sum_cons]

lemma applied_ne_nil_of_mem_journal {cs : List Command} {s : Stride rs σ}
    (h : s ∈ journal rs fuel cs g) : s.applied ≠ [] := by
  obtain ⟨g', filter, -, origin | ⟨-, origin⟩⟩ := origin_of_mem_journal h
  · obtain ⟨-, m, -, he⟩ := exists_applied_eq_of_mem_singleStrides origin
    rw [he]
    exact List.cons_ne_nil m []
  · obtain ⟨-, he⟩ := applied_eq_of_mem_sweepStrides origin
    rw [he]
    intro nothing
    rw [sweepStrides, dif_neg (by simp [sweep_of_keep_eq_nil nothing])] at origin
    cases origin

lemma exists_applied_eq_of_unswept {cs : List Command} {os : List Outcome} {s : Stride rs σ}
    (h : executeAll rs fuel cs g = some (os, g'))
    (unswept : ∀ filter, (.sweep filter, .stepped true) ∉ cs.zip os)
    (hs : s ∈ journal rs fuel cs g) : ∃ m, s.applied = [m] := by
  induction cs generalizing g os with
  | nil => cases hs
  | cons c cs ih =>
    obtain ⟨o, g₁, os', first, rest, rfl⟩ := exists_of_executeAll_cons h
    rw [journal, first, Option.elim_some, List.mem_append] at hs
    rcases hs with hs | hs
    · obtain ⟨g₂, filter, -, origin | ⟨rfl, origin⟩⟩ := origin_of_mem_strides hs
      · obtain ⟨-, m, -, he⟩ := exists_applied_eq_of_mem_singleStrides origin
        exact ⟨m, he⟩
      · have outcome : .stepped (g.sweep rs filter).1 = o :=
          (Prod.mk.inj (Option.some.inj first)).1
        have failed : ¬ (g.sweep rs filter).1 = true := by
          intro succeeded
          rw [succeeded] at outcome
          exact unswept filter (List.mem_cons.2 (.inl (by rw [outcome])))
        rw [strides, sweepStrides, dif_neg failed] at hs
        cases hs
    · exact ih rest (fun filter hm => unswept filter (List.mem_cons_of_mem _ hm)) hs

end Outcomes

end Generation

def Command.isReset : Command → Bool
  | .reset _ => true
  | _ => false

lemma Command.isReset_iff {c : Command} : c.isReset = true ↔ ∃ seed, c = .reset seed := by
  cases c <;> simp [isReset]

namespace Generation

def untilReset (cs : List Command) : List Command := cs.rdropWhile fun c => !c.isReset

def sinceReset (cs : List Command) : List Command := cs.rtakeWhile fun c => !c.isReset

lemma untilReset_append_sinceReset (cs : List Command) : untilReset cs ++ sinceReset cs = cs :=
  List.rdropWhile_append_rtakeWhile

lemma reset_notMem_sinceReset (cs : List Command) (seed : Option UInt64) :
    .reset seed ∉ sinceReset cs := by
  intro h
  have := List.mem_rtakeWhile_imp h
  simp [Command.isReset] at this

lemma untilReset_eq (cs : List Command) :
    untilReset cs = [] ∨ ∃ earlier seed, untilReset cs = earlier ++ [.reset seed] := by
  by_cases h : untilReset cs = []
  · exact .inl h
  · have last := List.rdropWhile_last_not _ _ h
    simp only [Bool.not_eq_true', Bool.not_eq_false] at last
    obtain ⟨seed, hs⟩ := Command.isReset_iff.1 last
    exact .inr ⟨_, seed, by rw [← hs]; exact (List.dropLast_append_getLast h).symm⟩

variable {σ : Type} [RandomSource σ] {rs : RuleSet} {g g' : Generation σ} {fuel : Nat}

lemma exists_of_executeAll_append {cs ds : List Command} {os : List Outcome}
    (h : executeAll rs fuel (cs ++ ds) g = some (os, g')) : ∃ os₁ g₁ os₂,
      executeAll rs fuel cs g = some (os₁, g₁) ∧ executeAll rs fuel ds g₁ = some (os₂, g') ∧
        os = os₁ ++ os₂ := by
  induction cs generalizing g os with
  | nil => exact ⟨[], g, os, rfl, h, rfl⟩
  | cons c cs ih =>
    obtain ⟨o, g₁, os', first, rest, rfl⟩ := exists_of_executeAll_cons h
    obtain ⟨os₁, g₂, os₂, before, after, rfl⟩ := ih rest
    refine ⟨o :: os₁, g₂, os₂, ?_, after, rfl⟩
    rw [executeAll, first]
    simp only [Option.bind_eq_bind, Option.bind_some, before]
    rfl

def Account.IsClear (a : Account) : Prop :=
  a.step = 0 ∧ a.uses.total = 0 ∧ ∀ name, a.uses.count name = 0

lemma isClear_untilReset {grid : Grid} {strategy : Strategy} {source : σ} {cs : List Command}
    {os : List Outcome}
    (h : executeAll rs fuel (untilReset cs) { grid, strategy, source } = some (os, g)) :
    g.account.IsClear := by
  rcases untilReset_eq cs with he | ⟨earlier, seed, he⟩
  · rw [he] at h
    obtain ⟨-, rfl⟩ := Prod.mk.inj (Option.some.inj h)
    exact ⟨rfl, rfl, fun name => rfl⟩
  · rw [he] at h
    obtain ⟨os₁, g₁, os₂, -, last, -⟩ := exists_of_executeAll_append h
    obtain ⟨o, g₂, os', first, done, -⟩ := exists_of_executeAll_cons last
    obtain ⟨-, rfl⟩ := Prod.mk.inj (Option.some.inj first)
    obtain ⟨-, rfl⟩ := Prod.mk.inj (Option.some.inj done)
    exact ⟨rfl, Tally.total_zero rs.names, Tally.count_zero rs.names⟩

structure Balanced (rs : RuleSet) (g : Generation σ) (strides : List (Stride rs σ))
    (calls : List (Command × Outcome)) : Prop where
  step_eq : g.step = strides.length
  step_eq_sum : g.step = (calls.map fun call => call.2.steps).sum
  count_eq : ∀ name,
    g.uses.count name = (strides.flatMap Stride.applied).countP (rs.bears name)
  total_eq : g.uses.total = (strides.flatMap Stride.applied).length
  step_le : g.step ≤ g.uses.total
  step_eq_total : (∀ filter, (.sweep filter, .stepped true) ∉ calls) → g.step = g.uses.total
  names : ∀ name ∈ g.uses.names, name ∈ rs.names
  phase_iff : g.phase = .stepping ↔ 0 < g.step

lemma step_of_run {budget n : Nat} (h : g.run rs fuel budget = some (n, g')) :
    g'.step = g.step + n := by
  have ran := runFor_of_run h
  have linked := (linked_runStrides rs (if budget = 0 then fuel else budget) g).step_eq
  rwa [length_runStrides, ran] at linked

lemma balanced_journal {cs : List Command} {os : List Outcome} (clear : g.account.IsClear)
    (faithful : Faithful rs g) (kept : Kept rs g') (unreset : ∀ seed, .reset seed ∉ cs)
    (h : executeAll rs fuel cs g = some (os, g')) :
    Balanced rs g' (journal rs fuel cs g) (cs.zip os) := by
  obtain ⟨a, linked, last⟩ := linked_journal g rs fuel unreset
  obtain rfl := last os g' h
  obtain ⟨step_zero, total_zero, count_zero⟩ := clear
  have step_eq : g'.step = (journal rs fuel cs g).length := by
    have := linked.step_eq
    rwa [step_zero, Nat.zero_add] at this
  have counted : ∀ m ∈ (journal rs fuel cs g).flatMap Stride.applied, m.IsCounted rs := by
    intro m hm
    obtain ⟨s, hs, hm⟩ := List.mem_flatMap.1 hm
    exact (found_of_mem_journal faithful hs).isCounted m hm
  have uses_eq : g'.uses = _ := linked.uses_eq
  have total_eq : g'.uses.total = ((journal rs fuel cs g).flatMap Stride.applied).length := by
    rw [uses_eq, Tally.total_foldl_use counted, total_zero, Nat.zero_add]
  refine ⟨step_eq, step_eq.trans (length_journal h), fun name => ?_, total_eq, ?_, fun unswept => ?_,
    kept.names, kept.phase_iff⟩
  · rw [uses_eq, Tally.count_foldl_use counted, count_zero, Nat.zero_add]
  · rw [step_eq, total_eq]
    exact length_le_length_flatMap_applied fun s hs => applied_ne_nil_of_mem_journal hs
  · rw [step_eq, total_eq]
    exact (length_flatMap_applied_eq fun s hs => exists_applied_eq_of_unswept h unswept hs).symm

theorem books_balance {grid : Grid} {strategy : Strategy} {source : σ} {cs : List Command}
    {os : List Outcome} (run : executeAll rs fuel cs { grid, strategy, source } = some (os, g)) :
    (∃ os₀ g₀ os₁, executeAll rs fuel (untilReset cs) { grid, strategy, source } = some (os₀, g₀) ∧
      executeAll rs fuel (sinceReset cs) g₀ = some (os₁, g) ∧ os = os₀ ++ os₁ ∧
      Balanced rs g (journal rs fuel (sinceReset cs) g₀) ((sinceReset cs).zip os₁)) ∧
    ∀ fuel budget n g', g.run rs fuel budget = some (n, g') → g'.step = g.step + n := by
  have kept := kept_moves (moves_executeAll run) (kept_new grid strategy source)
  rw [← untilReset_append_sinceReset cs] at run
  obtain ⟨os₀, g₀, os₁, before, after, he⟩ := exists_of_executeAll_append run
  have faithful := faithful_moves (moves_executeAll before) (faithful_of_found?_eq_none rfl)
  have balanced := balanced_journal (isClear_untilReset before) faithful kept
    (reset_notMem_sinceReset cs) after
  exact ⟨⟨os₀, g₀, os₁, before, after, he, balanced⟩, fun _ _ _ _ ran => step_of_run ran⟩

theorem books_balance_relay :
    let cs := [.single .all, .reset none, .sweep (.exactly "begin"), .single .all, .run 0]
    ∃ os g, executeAll Relay.rules 9 cs (Relay.start .first) = some (os, g) ∧
      (g.step = 4 ∧ g.uses.total = 5 ∧ g.uses.count "begin" = 2) ∧
      ∃ os₀ g₀ os₁,
        executeAll Relay.rules 9 (untilReset cs) (Relay.start .first) = some (os₀, g₀) ∧
        executeAll Relay.rules 9 (sinceReset cs) g₀ = some (os₁, g) ∧ os = os₀ ++ os₁ ∧
        Balanced Relay.rules g (journal Relay.rules 9 (sinceReset cs) g₀)
          ((sinceReset cs).zip os₁) := by
  intro cs
  have h : (executeAll Relay.rules 9 cs (Relay.start .first)).any (fun r =>
      r.2.step = 4 ∧ r.2.uses.total = 5 ∧ r.2.uses.count "begin" = 2) = true := by
    decide +kernel
  simp only [Option.any_eq_true, decide_eq_true_eq] at h
  obtain ⟨⟨os, g⟩, run, counters⟩ := h
  exact ⟨os, g, run, counters, (books_balance run).1⟩

end Generation

end TileGrammar
