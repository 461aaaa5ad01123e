import TileGrammar.Proofs.Generation.Failure
import TileGrammar.Proofs.Generation.Reply

/-!
Questions for candidates. They fill an empty cache, which every step would do anyway before it looks
at the cache, and all other commands forget the cache unread. So a run goes on as if nobody had asked.
-/

namespace TileGrammar.Generation

inductive Request where
  | own (c : Command)
  | extra (filter : NameFilter)

namespace Request

def command : Request → Command
  | own c => c
  | extra filter => .candidates filter

def own? : Request → Option Command
  | own c => some c
  | extra _ => none

@[simp] lemma command_own (c : Command) : (own c).command = c := rfl

@[simp] lemma command_extra (filter : NameFilter) :
    (extra filter).command = .candidates filter := rfl

end Request

open Request

def ownCommands (requests : List Request) : List Command := requests.filterMap own?

def ownAnswers {α : Type} (requests : List Request) (answers : List α) : List α :=
  (requests.zip answers).filterMap fun (request, answer) => request.own?.map fun _ => answer

section Own

variable (c : Command) (filter : NameFilter) (requests : List Request)

@[simp] lemma ownCommands_own :
    ownCommands (.own c :: requests) = c :: ownCommands requests := rfl

@[simp] lemma ownCommands_extra :
    ownCommands (.extra filter :: requests) = ownCommands requests := rfl

variable {α : Type} (a : α) (answers : List α)

@[simp] lemma ownAnswers_nil : ownAnswers requests ([] : List α) = [] := by
  rw [ownAnswers, List.zip_nil_right]
  rfl

@[simp] lemma ownAnswers_own :
    ownAnswers (.own c :: requests) (a :: answers) = a :: ownAnswers requests answers := rfl

@[simp] lemma ownAnswers_extra :
    ownAnswers (.extra filter :: requests) (a :: answers) = ownAnswers requests answers := rfl

end Own

variable {σ : Type} [RandomSource σ]

def Asked (rs : RuleSet) (g g' : Generation σ) : Prop := g' = g ∨ g' = g.search rs

variable {g g' : Generation σ} {rs : RuleSet} {fuel : Nat}

lemma run_search (g : Generation σ) (rs : RuleSet) (fuel budget : Nat) :
    (g.search rs).run rs fuel budget = g.run rs fuel budget := by
  have runFor_search : ∀ n, n ≠ 0 → runFor rs n (g.search rs) = runFor rs n g := by
    intro n hn
    obtain ⟨n, rfl⟩ := Nat.exists_eq_succ_of_ne_zero hn
    rw [runFor, runFor, single_search]
  rw [run, run]
  by_cases unlimited : budget = 0
  · rw [if_pos unlimited, if_pos unlimited]
    cases fuel with
    | zero => rfl
    | succ fuel => rw [runFor_search _ (Nat.succ_ne_zero fuel)]
  · rw [if_neg unlimited, if_neg unlimited, runFor_search budget unlimited]

lemma execute_search (g : Generation σ) (rs : RuleSet) (fuel : Nat) (c : Command) :
    (g.search rs).execute rs fuel c = g.execute rs fuel c := by
  cases c with
  | reset seed => rfl
  | candidates filter => rfl
  | single filter => rw [execute, execute, single_search]
  | sweep filter => rw [execute, execute, sweep_search]
  | run budget => rw [execute, execute, run_search]
  | subdivide levels => rfl

lemma Asked.execute_eq (h : Asked rs g g') (fuel : Nat) (c : Command) :
    g'.execute rs fuel c = g.execute rs fuel c := by
  rcases h with rfl | rfl
  · rfl
  · exact execute_search g rs fuel c

lemma Asked.execute_extra (h : Asked rs g g') (fuel : Nat) (filter : NameFilter) :
    ∃ o, g'.execute rs fuel (.candidates filter) = some (o, g.search rs) := by
  rw [h.execute_eq]
  exact ⟨_, rfl⟩

omit [RandomSource σ] in
lemma Asked.onlySearched (h : Asked rs g g') : g' = g ∨ OnlySearched rs g g' := by
  refine h.imp id ?_
  rintro rfl
  exact onlySearched_search g rs

lemma Asked.ownAnswers_eq (h : Asked rs g g') (requests : List Request) :
    ownAnswers requests (replies fuel (requests.map fun r => (rs, r.command)) g') =
      replies fuel ((ownCommands requests).map fun c => (rs, c)) g := by
  induction requests generalizing g g' with
  | nil => rfl
  | cons request requests ih =>
    cases request with
    | own c =>
      rw [List.map_cons, command_own, ownCommands_own, List.map_cons]
      have he := h.execute_eq fuel c
      cases hr : g.execute rs fuel c with
      | none => rw [replies_cons_of_none hr, replies_cons_of_none (he.trans hr), ownAnswers_nil]
      | some reply =>
        rw [replies_cons_of_some hr, replies_cons_of_some (he.trans hr), ownAnswers_own,
          ih (.inl rfl)]
    | extra filter =>
      obtain ⟨o, he⟩ := h.execute_extra fuel filter
      rw [List.map_cons, command_extra, replies_cons_of_some he, ownCommands_extra,
        ownAnswers_extra, ih (.inr rfl)]

lemma Asked.final?_rel (h : Asked rs g g') (requests : List Request) :
    Option.Rel (Asked rs) (final? rs fuel (ownCommands requests) g)
      (final? rs fuel (requests.map command) g') := by
  induction requests generalizing g g' with
  | nil => exact .some h
  | cons request requests ih =>
    cases request with
    | own c =>
      rw [List.map_cons, command_own, ownCommands_own]
      have he := h.execute_eq fuel c
      cases hr : g.execute rs fuel c with
      | none =>
        rw [final?_cons_of_none hr, final?_cons_of_none (he.trans hr)]
        exact .none
      | some reply =>
        rw [final?_cons_of_some hr, final?_cons_of_some (he.trans hr)]
        exact ih (.inl rfl)
    | extra filter =>
      obtain ⟨o, he⟩ := h.execute_extra fuel filter
      rw [List.map_cons, command_extra, final?_cons_of_some he, ownCommands_extra]
      exact ih (.inr rfl)

omit [RandomSource σ] in
lemma Asked.onlySearched_of_rel {before after : Option (Generation σ)}
    (h : Option.Rel (Asked rs) before after) :
    Option.Rel (fun g g' => g' = g ∨ OnlySearched rs g g') before after := by
  cases h with
  | none => exact .none
  | some asked => exact .some asked.onlySearched

theorem asking_changes_nothing (g : Generation σ) (rs : RuleSet) (fuel : Nat)
    (requests : List Request) :
    ownAnswers requests (replies fuel (requests.map fun r => (rs, r.command)) g) =
        replies fuel ((ownCommands requests).map fun c => (rs, c)) g ∧
      Option.Rel (fun plain asked => asked = plain ∨ OnlySearched rs plain asked)
        (final? rs fuel (ownCommands requests) g)
        (final? rs fuel (requests.map command) g) := by
  have start : Asked rs g g := .inl rfl
  exact ⟨start.ownAnswers_eq requests, Asked.onlySearched_of_rel (start.final?_rel requests)⟩

end TileGrammar.Generation
