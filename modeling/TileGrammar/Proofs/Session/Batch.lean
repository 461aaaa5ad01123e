import TileGrammar.Proofs.Session.Course

namespace TileGrammar

inductive Dungeon.Batch (g : Grid) (uses : Tally) (step : Nat) : List Match → Prop
  | grow {m : Match} {rule : Rule} {v : Variant} :
      m.Occurs rule v g ruleSet uses step → v.Grows → Batch g uses step [m]
  | clear {ms : List Match} : ms.Nodup → AllClear ms g ruleSet uses step → Batch g uses step ms

namespace Session

open Dungeon

variable {σ : Type} {s t : Session σ} {settings : Settings}

structure Applies (s : Session σ) (ms : List Match) (t : Session σ) : Prop where
  grid_eq : t.generation.grid = ms.foldl (fun g m => g.rewrite ruleSet m) s.generation.grid
  uses_eq : t.generation.uses = ms.foldl (fun uses m => uses.use ruleSet m) s.generation.uses

lemma nodup_found (h : Sound settings s) : (s.generation.search s.rules).cache.found.Nodup := by
  have known := Generation.faithful_search h.faithful _ (Generation.found?_search _ _)
  exact known.nodup_iff.2 (nodup_findAll _ _ _ _)

lemma batch_of_mem_found (h : Sound settings s) {m : Match}
    (hm : m ∈ (s.generation.search s.rules).cache.found) :
    Batch s.generation.grid s.generation.uses s.generation.step [m] := by
  obtain ⟨rule, v, o⟩ := (Generation.faithful_search h.faithful).exists_occurs
    (Generation.found?_search _ _) hm
  rw [h.rules_eq] at o
  rcases grows_or_clears rule (List.mem_of_getElem? o.rule_eq) v
    (List.mem_of_getElem? o.variant_eq) with hv | hv
  · exact .grow o hv
  · refine .clear (List.nodup_singleton m) fun n hn => ?_
    obtain rfl := List.mem_singleton.1 hn
    exact ⟨rule, v, o, hv⟩

lemma allClear_cleanup (h : Sound settings s) :
    AllClear ((NameFilter.ofName cleanup true).keep s.rules (s.generation.search s.rules).cache.found)
      s.generation.grid s.rules s.generation.uses s.generation.step := by
  intro m hm
  obtain ⟨rule, v, o⟩ := (Generation.faithful_search h.faithful).exists_occurs
    (Generation.found?_search _ _) (NameFilter.mem_of_mem_keep hm)
  refine ⟨rule, v, o, ?_⟩
  have hr := List.mem_of_getElem? o.rule_eq
  rw [h.rules_eq] at hr
  apply clears_of_cleanup rule hr _ v (List.mem_of_getElem? o.variant_eq)
  rw [NameFilter.keep_eq_filter (by decide), List.mem_filter, Option.any_eq_true] at hm
  obtain ⟨-, rule', hr', accepted⟩ := hm
  rw [o.rule_eq] at hr'
  obtain rfl := Option.some.inj hr'
  exact accepted

lemma batch_cleanup (h : Sound settings s) :
    Batch s.generation.grid s.generation.uses s.generation.step
      ((NameFilter.ofName cleanup true).keep s.rules (s.generation.search s.rules).cache.found) := by
  have all := allClear_cleanup h
  rw [h.rules_eq] at all ⊢
  apply Batch.clear _ all
  have nodup := nodup_found h
  rw [h.rules_eq] at nodup
  exact nodup.sublist (NameFilter.keep_sublist _ _ _)

lemma batch_nil (g : Grid) (uses : Tally) (step : Nat) : Batch g uses step [] :=
  .clear .nil fun m hm => by cases hm

variable [RandomSource σ]

lemma exists_batch_of_step {b : Bool} (h : Sound settings s)
    (sweep : settings.finishWithSweep = none ∨ settings.finishWithSweep = some cleanup)
    (ht : Step s b t) :
    ∃ ms, Batch s.generation.grid s.generation.uses s.generation.step ms ∧ Applies s ms t := by
  cases ht with
  | finished _ => exact ⟨[], batch_nil _ _ _, rfl, rfl⟩
  | single m source _ _ hc =>
    have found := Generation.mem_keep_of_choose (congrArg Prod.fst hc)
    refine ⟨[m], batch_of_mem_found h found, ?_, ?_⟩
    · rw [h.rules_eq]
      rfl
    · rw [h.rules_eq]
      rfl
  | closed t _ stuck _ => exact ⟨[], batch_nil _ _ _, stuck.grid_eq, stuck.uses_eq⟩
  | unswept t _ stuck _ _ => exact ⟨[], batch_nil _ _ _, stuck.grid_eq, stuck.uses_eq⟩
  | nothing t stem _ stuck _ _ _ => exact ⟨[], batch_nil _ _ _, stuck.grid_eq, stuck.uses_eq⟩
  | sweep t stem _ stuck _ hstem _ =>
    have ht := sound_stuck h stuck
    rw [ht.settings_eq] at hstem
    obtain rfl : cleanup = stem := by
      rcases sweep with hn | hc
      · rw [hn] at hstem
        cases hstem
      · exact Option.some.inj (hc.symm.trans hstem)
    have batch := batch_cleanup ht
    rw [stuck.grid_eq, stuck.uses_eq, stuck.step_eq] at batch
    rw [ht.rules_eq] at *
    refine ⟨_, batch, ?_, ?_⟩
    · rw [← stuck.grid_eq]
      rfl
    · rw [← stuck.uses_eq]
      rfl

lemma after_induction {P : Grid → Tally → Prop} (h : Sound settings s)
    (sweep : settings.finishWithSweep = none ∨ settings.finishWithSweep = some cleanup)
    (start : P s.generation.grid s.generation.uses)
    (batch : ∀ {g uses step ms}, Batch g uses step ms → P g uses →
      P (ms.foldl (fun g m => g.rewrite ruleSet m) g)
        (ms.foldl (fun uses m => uses.use ruleSet m) uses)) (n : Nat) :
    P (s.after n).generation.grid (s.after n).generation.uses := by
  induction n with
  | zero => exact start
  | succ n ih =>
    obtain ⟨ms, hms, applies⟩ := exists_batch_of_step (sound_after h n) sweep (step_advance _)
    rw [after_succ, applies.grid_eq, applies.uses_eq]
    exact batch hms ih

end Session

end TileGrammar
