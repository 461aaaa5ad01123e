import TileGrammar.Proofs.Generation.Move
import TileGrammar.Proofs.Match.Application
import TileGrammar.Random.Script

/-!
In every run the cache, once it is filled, holds what a search of the whole grid would find now.
The invariant is `Faithful`: a rewrite keeps it by the patch, and all other moves that change what
can be found forget the cache.
-/

namespace TileGrammar.Generation

variable {σ : Type}

def Faithful (rs : RuleSet) (g : Generation σ) : Prop :=
  ∀ ms, g.cache.found? = some ms → ms.Perm (findAll g.grid rs g.uses g.step)

variable {g g' : Generation σ} {rs : RuleSet} {m : Match}

lemma faithful_of_found?_eq_none (h : g.cache.found? = none) : Faithful rs g := by
  intro ms hms
  rw [h] at hms
  cases hms

lemma faithful_search (hg : Faithful rs g) : Faithful rs (g.search rs) := by
  intro ms hms
  obtain rfl := Option.some.inj hms
  dsimp only [search, MatchCache.ensure]
  cases hf : g.cache.found? with
  | none => exact .refl _
  | some ms => exact hg ms hf

lemma Faithful.exists_occurs (hg : Faithful rs g) {ms : List Match}
    (hms : g.cache.found? = some ms) (hm : m ∈ ms) :
    ∃ rule v, m.Occurs rule v g.grid rs g.uses g.step :=
  mem_findAll.1 ((hg ms hms).mem_iff.1 hm)

lemma noneOpens_succ {step : Nat} (h : rs.opensAt (step + 1) = false) :
    MatchCache.NoneOpens rs step (step + 1) := by
  refine ⟨Nat.le_succ step, fun rule hr hw => ?_⟩
  have hne : rule.wait ≠ step + 1 := by
    intro he
    rw [RuleSet.opensAt_iff.2 ⟨Nat.succ_pos step, rule, hr, he⟩] at h
    cases h
  omega

lemma faithful_applyOne (hg : Faithful rs g) {ms : List Match} (hms : g.cache.found? = some ms)
    (hm : m ∈ ms) : Faithful rs (g.applyOne rs m) := by
  obtain ⟨rule, v, o⟩ := hg.exists_occurs hms hm
  cases hop : rs.opensAt (g.step + 1) with
  | true =>
    apply faithful_of_found?_eq_none
    simp [applyOne, hop, MatchCache.invalidate]
  | false =>
    intro ms' hms'
    simp only [applyOne, hop, MatchCache.patch, hms, Option.map_some, Option.some.injEq,
      Bool.false_eq_true, if_false] at hms'
    subst hms'
    rw [o.editedBox_eq]
    exact MatchCache.patch_perm_findAll o.agreesOff_rewrite (Tally.count_le_use g.uses rs m)
      (noneOpens_succ hop) (hg ms hms)

variable [RandomSource σ]

lemma faithful_move (h : Move rs g g') (hg : Faithful rs g) : Faithful rs g' := by
  cases h with
  | reset seed => exact faithful_of_found?_eq_none rfl
  | search => exact faithful_search hg
  | draw source => exact hg
  | applyOne hms hm => exact faithful_applyOne hg hms hm
  | applyAll filter hms => exact faithful_of_found?_eq_none rfl
  | subdivide levels => exact faithful_of_found?_eq_none rfl

lemma faithful_moves (h : Moves rs g g') (hg : Faithful rs g) : Faithful rs g' := by
  induction h with
  | refl => exact hg
  | tail _ hm ih => exact faithful_move hm ih

theorem cache_agrees_with_rescan {fuel : Nat} {cs : List Command} {os : List Outcome}
    (fresh : g.cache.found? = none) (run : executeAll rs fuel cs g = some (os, g'))
    {ms : List Match} (cached : g'.cache.found? = some ms) :
    let all := findAll g'.grid rs g'.uses g'.step
    ms.Nodup ∧ (∀ m, m ∈ ms ↔ m ∈ all) ∧ ms.length = all.length := by
  have known := faithful_moves (moves_executeAll run) (faithful_of_found?_eq_none fresh) ms cached
  have nodup := nodup_findAll g'.grid rs g'.uses g'.step
  exact ⟨known.nodup_iff.2 nodup, fun m => known.mem_iff, known.length_eq⟩

namespace Relay

lemma finish_ne : "finish" ≠ "" := by decide

lemma begin_ne : "begin" ≠ "" := by decide

def rules : RuleSet where
  rules := [.change "finish" "B" "C" finish_ne, .change "begin" "A" "B" begin_ne]

def start (strategy : Strategy) : Generation Script where
  grid := {
    extent := ⟨3, 1, 1⟩
    tiles := #[⟨"A"⟩, ⟨"A"⟩, ⟨"A"⟩]
    proper := by decide
    size_tiles := rfl }
  strategy := strategy
  source := { numbers := [] }

end Relay

theorem cache_agrees_with_rescan_relay :
    ∃ os g' ms, executeAll Relay.rules 0 [.reset none, .single .all, .single (.exactly "begin")]
        (Relay.start .first) = some (os, g') ∧ g'.cache.found? = some ms ∧ ms.length = 3 ∧
      let all := findAll g'.grid Relay.rules g'.uses g'.step
      ms.Nodup ∧ (∀ m, m ∈ ms ↔ m ∈ all) ∧ ms.length = all.length := by
  have h : ((executeAll Relay.rules 0 [.reset none, .single .all, .single (.exactly "begin")]
      (Relay.start .first)).bind fun r => r.2.cache.found?).any (·.length = 3) = true := by
    decide +kernel
  simp only [Option.any_eq_true, Option.bind_eq_some_iff, decide_eq_true_eq] at h
  obtain ⟨ms, ⟨⟨os, g'⟩, run, cached⟩, size⟩ := h
  exact ⟨os, g', ms, run, cached, size, cache_agrees_with_rescan rfl run cached⟩

end TileGrammar.Generation
