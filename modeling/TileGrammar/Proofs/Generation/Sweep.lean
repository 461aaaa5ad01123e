import TileGrammar.Proofs.Generation.Bookkeeping
import TileGrammar.Proofs.Match.Layers

namespace TileGrammar.Generation

variable {σ : Type} {g g' : Generation σ} {rs : RuleSet} {filter : NameFilter} {ms : List Match}

structure Swept (rs : RuleSet) (ms : List Match) (g g' : Generation σ) : Prop where
  extent_eq : g'.grid.extent = g.grid.extent
  get?_eq : ∀ c, g'.grid.get? c = (ms.filterMap (rs.tileOn? c)).getLast?.or (g.grid.get? c)
  count_eq : ∀ name, g'.uses.count name = g.uses.count name + ms.countP (rs.bears name)
  total_eq : g'.uses.total = g.uses.total + ms.length
  step_eq : g'.step = g.step + 1
  forgotten : g'.cache.found? = none
  announced : g.grid.pending = none → ∃ boxes,
    g'.grid.events.toList = g.grid.events.toList ++ boxes ∧
      List.Forall₂ (fun m b => b.IsHullOf (rs.Writes m)) (ms.filter rs.paints) boxes

lemma swept_applyAll (found : ∀ m ∈ ms, ∃ rule v, m.Occurs rule v g.grid rs g.uses g.step) :
    Swept rs ms g (g.applyAll rs ms) := by
  have counted : ∀ m ∈ ms, m.IsCounted rs := by
    intro m hm
    obtain ⟨rule, v, o⟩ := found m hm
    exact o.isCounted
  exact {
    extent_eq := Grid.extent_foldl_rewrite g.grid rs ms
    get?_eq := Grid.get?_foldl_rewrite rfl found
    count_eq := Tally.count_foldl_use counted g.uses
    total_eq := Tally.total_foldl_use counted g.uses
    step_eq := rfl
    forgotten := rfl
    announced := fun calm =>
      ⟨_, Grid.events_foldl_rewrite calm found, RuleSet.forall₂_notice? found⟩ }

lemma Faithful.keep_perm (hg : Faithful rs g) (filter : NameFilter) :
    (filter.keep rs (g.search rs).cache.found).Perm
      (filter.keep rs (findAll g.grid rs g.uses g.step)) :=
  NameFilter.perm_keep rs filter (faithful_search hg _ (found?_search g rs))

lemma Faithful.swept (hg : Faithful rs g) (succeeded : (g.sweep rs filter).1 = true) :
    Swept rs (filter.keep rs (g.search rs).cache.found) g (g.sweep rs filter).2 := by
  have found : ∀ m ∈ filter.keep rs (g.search rs).cache.found,
      ∃ rule v, m.Occurs rule v g.grid rs g.uses g.step := by
    intro m hm
    exact (faithful_search hg).exists_occurs (found?_search g rs) (NameFilter.mem_of_mem_keep hm)
  rw [sweep_of_succeeded succeeded]
  exact { swept_applyAll (g := g.search rs) found with }

variable [RandomSource σ]

theorem sweep_applies_found {fuel : Nat} {cs : List Command} {os : List Outcome}
    (fresh : g.cache.found? = none) (run : executeAll rs fuel cs g = some (os, g'))
    (succeeded : (g'.sweep rs filter).1 = true) :
    ∃ ms, (g'.candidates rs filter).1 = some ms ∧
      ms.Perm (filter.keep rs (findAll g'.grid rs g'.uses g'.step)) ∧
      Swept rs ms g' (g'.sweep rs filter).2 := by
  have faithful := faithful_moves (moves_executeAll run) (faithful_of_found?_eq_none fresh)
  refine ⟨_, ?_, faithful.keep_perm filter, faithful.swept succeeded⟩
  apply MatchCache.candidates_eq_some.2
  refine ⟨rfl, fun nothing => ?_⟩
  rw [sweep_of_keep_eq_nil nothing] at succeeded
  cases succeeded

namespace Relay

def overlap : RuleSet where
  rules := [
    { name := "spread", left := .pair "A" "A", right := .pair "B" "C", name_ne := by decide
      extent_eq := Pattern.extent_pair _ _ _ _, isWeight := isWeight_one },
    .change "idle" "A" "*" (by decide)]

end Relay

theorem sweep_applies_found_overlap :
    ∃ os g ms, executeAll Relay.overlap 0 [.reset none, .candidates .all] (Relay.start .first) =
        some (os, g) ∧ (g.sweep Relay.overlap .all).1 = true ∧
      (g.candidates Relay.overlap .all).1 = some ms ∧ ms.length = 5 ∧
      ms.Perm (findAll g.grid Relay.overlap g.uses g.step) ∧
      (g.sweep Relay.overlap .all).2.grid.tiles = #[⟨"B"⟩, ⟨"B"⟩, ⟨"C"⟩] ∧
      (g.sweep Relay.overlap .all).2.grid.events.size = 2 ∧
      Swept Relay.overlap ms g (g.sweep Relay.overlap .all).2 := by
  have h : (executeAll Relay.overlap 0 [.reset none, .candidates .all] (Relay.start .first)).any
      (fun r => (r.2.sweep Relay.overlap .all).1 = true ∧
        (r.2.sweep Relay.overlap .all).2.grid.tiles = #[⟨"B"⟩, ⟨"B"⟩, ⟨"C"⟩] ∧
        (r.2.sweep Relay.overlap .all).2.grid.events.size = 2 ∧
        (r.2.sweep Relay.overlap .all).2.uses.total = 5 ∧ r.2.uses.total = 0) = true := by
    decide +kernel
  simp only [Option.any_eq_true, decide_eq_true_eq, Prod.exists] at h
  obtain ⟨os, g, run, succeeded, tiles, events, total, before⟩ := h
  obtain ⟨ms, candidates, perm, swept⟩ := sweep_applies_found rfl run succeeded
  have size : ms.length = 5 := by
    have := swept.total_eq
    omega
  exact ⟨os, g, ms, run, succeeded, candidates, size, perm, tiles, events, swept⟩

end TileGrammar.Generation
