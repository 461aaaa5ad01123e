import TileGrammar.Proofs.Generation.Rescan

/-!
The strides of a run are its steps that succeed, single ones and sweeps, each with the matches that
it applies. Between two resets the strides are linked: only they change the account of a generation,
which is its tally of uses and its step counter.
-/

namespace TileGrammar.Generation

variable {σ : Type}

structure Stride (rs : RuleSet) (σ : Type) where
  before : Generation σ
  applied : List Match
  after : Generation σ
  grid_eq : after.grid = applied.foldl (fun grid m => grid.rewrite rs m) before.grid
  uses_eq : after.uses = applied.foldl (fun uses m => uses.use rs m) before.uses
  step_eq : after.step = before.step + 1

structure Account where
  uses : Tally
  step : Nat

def account (g : Generation σ) : Account := ⟨g.uses, g.step⟩

section Strides

variable (g : Generation σ) (rs : RuleSet) (filter : NameFilter)

def sweepStride (h : (g.sweep rs filter).1 = true) : Stride rs σ where
  before := g
  applied := filter.keep rs (g.search rs).cache.found
  after := (g.sweep rs filter).2
  grid_eq := by
    rw [sweep_of_succeeded h]
    rfl
  uses_eq := by
    rw [sweep_of_succeeded h]
    rfl
  step_eq := by
    rw [sweep_of_succeeded h]
    rfl

def sweepStrides : List (Stride rs σ) :=
  if h : (g.sweep rs filter).1 = true then [g.sweepStride rs filter h] else []

variable [RandomSource σ]

def singleStride (h : (g.single rs filter).1 = true) : Stride rs σ where
  before := g
  applied := (g.choose rs filter).1.toList
  after := (g.single rs filter).2
  grid_eq := by
    obtain ⟨m, hm⟩ := exists_choose_of_single h
    rw [single_of_choose_some (Prod.ext hm rfl), hm]
    rfl
  uses_eq := by
    obtain ⟨m, hm⟩ := exists_choose_of_single h
    rw [single_of_choose_some (Prod.ext hm rfl), hm]
    rfl
  step_eq := by
    obtain ⟨m, hm⟩ := exists_choose_of_single h
    rw [single_of_choose_some (Prod.ext hm rfl)]
    rfl

def singleStrides : List (Stride rs σ) :=
  if h : (g.single rs filter).1 = true then [g.singleStride rs filter h] else []

end Strides

variable [RandomSource σ]

def runStrides (rs : RuleSet) : Nat → Generation σ → List (Stride rs σ)
  | 0, _ => []
  | budget + 1, g =>
    g.singleStrides rs .all ++
      if (g.single rs .all).1 then runStrides rs budget (g.single rs .all).2 else []

def strides (g : Generation σ) (rs : RuleSet) (fuel : Nat) : Command → List (Stride rs σ)
  | .single filter => g.singleStrides rs filter
  | .sweep filter => g.sweepStrides rs filter
  | .run budget => runStrides rs (if budget = 0 then fuel else budget) g
  | .reset _ | .candidates _ | .subdivide _ => []

/-- The strides of commands one after the other, up to a run that does not end. -/
def journal (rs : RuleSet) (fuel : Nat) : List Command → Generation σ → List (Stride rs σ)
  | [], _ => []
  | c :: cs, g =>
    g.strides rs fuel c ++ (g.execute rs fuel c).elim [] fun r => journal rs fuel cs r.2

section Origin

variable {g : Generation σ} {rs : RuleSet} {fuel : Nat} {s : Stride rs σ}

lemma origin_of_mem_runStrides {budget : Nat} (h : s ∈ runStrides rs budget g) :
    ∃ g', Moves rs g g' ∧ s ∈ g'.singleStrides rs .all := by
  induction budget generalizing g with
  | zero => cases h
  | succ budget ih =>
    rw [runStrides, List.mem_append] at h
    rcases h with h | h
    · exact ⟨g, .refl, h⟩
    · split at h
      · obtain ⟨g', moves, h⟩ := ih h
        exact ⟨g', (moves_single g rs .all).trans moves, h⟩
      · cases h

lemma origin_of_mem_strides {c : Command} (h : s ∈ g.strides rs fuel c) :
    ∃ g' filter, Moves rs g g' ∧
      (s ∈ g'.singleStrides rs filter ∨ c = .sweep filter ∧ s ∈ g'.sweepStrides rs filter) := by
  cases c with
  | single filter => exact ⟨g, filter, .refl, .inl h⟩
  | sweep filter => exact ⟨g, filter, .refl, .inr ⟨rfl, h⟩⟩
  | run budget =>
    obtain ⟨g', moves, h⟩ := origin_of_mem_runStrides h
    exact ⟨g', .all, moves, .inl h⟩
  | reset seed => cases h
  | candidates filter => cases h
  | subdivide levels => cases h

lemma origin_of_mem_journal {cs : List Command} (h : s ∈ journal rs fuel cs g) :
    ∃ g' filter, Moves rs g g' ∧
      (s ∈ g'.singleStrides rs filter ∨ .sweep filter ∈ cs ∧ s ∈ g'.sweepStrides rs filter) := by
  induction cs generalizing g with
  | nil => cases h
  | cons c cs ih =>
    rw [journal, List.mem_append] at h
    rcases h with h | h
    · obtain ⟨g', filter, moves, origin⟩ := origin_of_mem_strides h
      exact ⟨g', filter, moves, origin.imp id fun h => ⟨List.mem_cons.2 (.inl h.1.symm), h.2⟩⟩
    · cases he : g.execute rs fuel c with
      | none =>
        rw [he] at h
        cases h
      | some r =>
        rw [he] at h
        obtain ⟨g', filter, moves, origin⟩ := ih h
        refine ⟨g', filter, (moves_execute he).trans moves, ?_⟩
        exact origin.imp id fun h => ⟨List.mem_cons_of_mem c h.1, h.2⟩

end Origin

section Linked

inductive Linked {rs : RuleSet} : Account → List (Stride rs σ) → Account → Prop
  | nil (a : Account) : Linked a [] a
  | cons {s : Stride rs σ} {ss : List (Stride rs σ)} {b : Account} :
      Linked s.after.account ss b → Linked s.before.account (s :: ss) b

variable {g : Generation σ} {rs : RuleSet} {filter : NameFilter}

omit [RandomSource σ] in
lemma Linked.append {a b c : Account} {ss ts : List (Stride rs σ)} (hs : Linked a ss b)
    (ht : Linked b ts c) : Linked a (ss ++ ts) c := by
  induction hs with
  | nil a => exact ht
  | cons _ ih => exact .cons (ih ht)

omit [RandomSource σ] in
lemma linked_sweepStrides (g : Generation σ) (rs : RuleSet) (filter : NameFilter) :
    Linked g.account (g.sweepStrides rs filter) (g.sweep rs filter).2.account := by
  by_cases h : (g.sweep rs filter).1 = true
  · rw [sweepStrides, dif_pos h]
    exact .cons (s := g.sweepStride rs filter h) (.nil _)
  · rw [sweepStrides, dif_neg h, sweep_of_failed (by simpa using h)]
    exact .nil _

lemma account_single_of_failed (failed : ¬ (g.single rs filter).1 = true) :
    (g.single rs filter).2.account = g.account := by
  cases hc : (g.choose rs filter).1 with
  | none =>
    rw [single_of_choose_none (Prod.ext hc rfl)]
    rfl
  | some m =>
    rw [single_of_choose_some (Prod.ext hc rfl)] at failed
    exact absurd rfl failed

lemma linked_singleStrides (g : Generation σ) (rs : RuleSet) (filter : NameFilter) :
    Linked g.account (g.singleStrides rs filter) (g.single rs filter).2.account := by
  by_cases h : (g.single rs filter).1 = true
  · rw [singleStrides, dif_pos h]
    exact .cons (s := g.singleStride rs filter h) (.nil _)
  · rw [singleStrides, dif_neg h, account_single_of_failed h]
    exact .nil _

lemma linked_runStrides (rs : RuleSet) (budget : Nat) (g : Generation σ) :
    Linked g.account (runStrides rs budget g) (runFor rs budget g).2.account := by
  induction budget generalizing g with
  | zero => exact .nil _
  | succ budget ih =>
    apply (linked_singleStrides g rs .all).append
    rw [runFor]
    rcases g.single rs .all with ⟨succeeded, g'⟩
    cases succeeded with
    | false => exact .nil _
    | true => exact ih g'

lemma linked_strides (g : Generation σ) (rs : RuleSet) (fuel : Nat) {c : Command}
    (h : ∀ seed, c ≠ .reset seed) :
    ∃ a, Linked g.account (g.strides rs fuel c) a ∧
      ∀ o g', g.execute rs fuel c = some (o, g') → g'.account = a := by
  cases c with
  | reset seed => exact absurd rfl (h seed)
  | candidates filter =>
    refine ⟨g.account, .nil _, fun o g' he => ?_⟩
    obtain ⟨-, rfl⟩ := Prod.mk.inj (Option.some.inj he)
    rfl
  | single filter =>
    refine ⟨_, linked_singleStrides g rs filter, fun o g' he => ?_⟩
    obtain ⟨-, rfl⟩ := Prod.mk.inj (Option.some.inj he)
    rfl
  | sweep filter =>
    refine ⟨_, linked_sweepStrides g rs filter, fun o g' he => ?_⟩
    obtain ⟨-, rfl⟩ := Prod.mk.inj (Option.some.inj he)
    rfl
  | run budget =>
    refine ⟨_, linked_runStrides rs _ g, fun o g' he => ?_⟩
    obtain ⟨r, hr, he⟩ := Option.map_eq_some_iff.1 he
    obtain ⟨-, rfl⟩ := Prod.mk.inj he
    rw [runFor_of_run hr]
    rfl
  | subdivide levels =>
    refine ⟨g.account, .nil _, fun o g' he => ?_⟩
    obtain ⟨-, rfl⟩ := Prod.mk.inj (Option.some.inj he)
    rfl

lemma linked_journal (g : Generation σ) (rs : RuleSet) (fuel : Nat) {cs : List Command}
    (h : ∀ seed, .reset seed ∉ cs) :
    ∃ a, Linked g.account (journal rs fuel cs g) a ∧
      ∀ os g', executeAll rs fuel cs g = some (os, g') → g'.account = a := by
  induction cs generalizing g with
  | nil =>
    refine ⟨g.account, .nil _, fun os g' he => ?_⟩
    obtain ⟨-, rfl⟩ := Prod.mk.inj (Option.some.inj he)
    rfl
  | cons c cs ih =>
    obtain ⟨a, linked, after⟩ := linked_strides g rs fuel fun seed hc =>
      h seed (List.mem_cons.2 (.inl hc.symm))
    rw [journal]
    cases he : g.execute rs fuel c with
    | none =>
      refine ⟨a, linked.append (.nil a), fun os g' all => ?_⟩
      obtain ⟨o, g₁, os', first, -⟩ := exists_of_executeAll_cons all
      rw [he] at first
      cases first
    | some r =>
      obtain ⟨o, g₁⟩ := r
      obtain ⟨b, rest, last⟩ := ih g₁ fun seed hc => h seed (List.mem_cons_of_mem c hc)
      rw [after o g₁ he] at rest
      refine ⟨b, linked.append rest, fun os g' all => ?_⟩
      obtain ⟨o', g₂, os', first, all, -⟩ := exists_of_executeAll_cons all
      obtain ⟨-, rfl⟩ := Prod.mk.inj (Option.some.inj (he.symm.trans first))
      exact last os' g' all

end Linked

end TileGrammar.Generation
