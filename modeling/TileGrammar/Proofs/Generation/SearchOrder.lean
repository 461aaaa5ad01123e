import TileGrammar.Proofs.Generation.Rescan

/-!
The order of a cached list. A single step drops the matches that its edited box touches and appends
what it finds there, so the list is in the order of the latest edit that touched a match, and only
among equals in the order of the search. The ends of the list are therefore those of the search
order exactly when no candidate has been touched earlier (later) than that end of the search.
-/

namespace TileGrammar

section Ends

variable {α : Type} {R : α → α → Prop} {l : List α} {a b : α}

lemma eq_or_rel_of_head? (h : l.Pairwise R) (ha : l.head? = some a) (hb : b ∈ l) :
    b = a ∨ R a b := by
  cases l with
  | nil => cases ha
  | cons c l =>
    obtain rfl := Option.some.inj ha
    rcases List.mem_cons.1 hb with rfl | hb
    · exact .inl rfl
    · exact .inr (List.rel_of_pairwise_cons h hb)

lemma eq_or_rel_of_getLast? (h : l.Pairwise R) (ha : l.getLast? = some a) (hb : b ∈ l) :
    b = a ∨ R b a :=
  eq_or_rel_of_head? (R := fun x y => R y x) (List.pairwise_reverse.2 h)
    (List.head?_reverse.trans ha) (List.mem_reverse.2 hb)

end Ends

namespace Match

/-- The number of the latest edit that shares a cell with the match, or zero if none does. The
edits are listed from the latest to the first. -/
def touched (m : Match) : List Box → Nat
  | [] => 0
  | b :: edits => if m.bounds.overlaps b then edits.length + 1 else m.touched edits

def Before (edits : List Box) (a b : Match) : Prop :=
  a.touched edits < b.touched edits ∨ a.touched edits = b.touched edits ∧ a.Precedes b

variable {a b m : Match} {edits : List Box} {box : Box}

lemma touched_le (m : Match) (edits : List Box) : m.touched edits ≤ edits.length := by
  induction edits with
  | nil => exact Nat.le_refl 0
  | cons b edits ih =>
    rw [touched]
    split
    · exact Nat.le_refl _
    · exact Nat.le_succ_of_le ih

lemma touched_of_overlaps (h : m.bounds.overlaps box = true) :
    m.touched (box :: edits) = edits.length + 1 := by
  rw [touched, if_pos h]

lemma touched_of_off (h : m.bounds.overlaps box = false) :
    m.touched (box :: edits) = m.touched edits := by
  rw [touched, if_neg (by simp [h])]

lemma before_nil (h : a.Precedes b) : a.Before [] b := .inr ⟨rfl, h⟩

lemma before_cons_of_off (ha : a.bounds.overlaps box = false) (hb : b.bounds.overlaps box = false)
    (h : a.Before edits b) : a.Before (box :: edits) b := by
  rwa [Before, touched_of_off ha, touched_of_off hb]

lemma before_cons_of_overlaps (ha : a.bounds.overlaps box = true)
    (hb : b.bounds.overlaps box = true) (h : a.Precedes b) : a.Before (box :: edits) b :=
  .inr ⟨by rw [touched_of_overlaps ha, touched_of_overlaps hb], h⟩

lemma before_cons_of_off_of_overlaps (ha : a.bounds.overlaps box = false)
    (hb : b.bounds.overlaps box = true) : a.Before (box :: edits) b := by
  refine .inl ?_
  rw [touched_of_off ha, touched_of_overlaps hb]
  exact Nat.lt_succ_of_le (touched_le a edits)

section Ends

variable {found : List Match}

lemma head?_eq_iff_touched (sorted : found.Pairwise Precedes) (hm : m ∈ found)
    (first : ∀ b ∈ found, b = m ∨ m.Before edits b) :
    found.head? = some m ↔
      ∀ a, found.head? = some a → ∀ b ∈ found, a.touched edits ≤ b.touched edits := by
  constructor
  · intro he a ha b hb
    obtain rfl : m = a := Option.some.inj (he.symm.trans ha)
    rcases first b hb with rfl | h | ⟨h, -⟩ <;> omega
  · intro old
    cases ha : found.head? with
    | none => simp_all
    | some a =>
      rcases eq_or_rel_of_head? sorted ha hm with rfl | ham
      · rfl
      · have hle := old a ha m hm
        rcases first a (List.mem_of_head? ha) with rfl | h | ⟨-, hma⟩
        · rfl
        · omega
        · exact (ham.asymm hma).elim

lemma getLast?_eq_iff_touched (sorted : found.Pairwise Precedes) (hm : m ∈ found)
    (last : ∀ b ∈ found, b = m ∨ b.Before edits m) :
    found.getLast? = some m ↔
      ∀ a, found.getLast? = some a → ∀ b ∈ found, b.touched edits ≤ a.touched edits := by
  constructor
  · intro he a ha b hb
    obtain rfl : m = a := Option.some.inj (he.symm.trans ha)
    rcases last b hb with rfl | h | ⟨h, -⟩ <;> omega
  · intro young
    cases ha : found.getLast? with
    | none => simp_all
    | some a =>
      rcases eq_or_rel_of_getLast? sorted ha hm with rfl | hma
      · rfl
      · have hle := young a ha m hm
        rcases last a (List.mem_of_getLast? ha) with rfl | h | ⟨-, ham⟩
        · rfl
        · omega
        · exact (ham.asymm hma).elim

end Ends

end Match

namespace MatchCache

variable {g : Grid} {rs : RuleSet} {uses : Tally} {step : Nat} {edited : Box} {edits : List Box}
  {ms : List Match}

lemma pairwise_patch (h : ms.Pairwise (Match.Before edits)) :
    (ms.filter (survives rs uses edited) ++ findIn g rs uses step edited).Pairwise
      (Match.Before (edited :: edits)) := by
  have off {m : Match} (hm : m ∈ ms.filter (survives rs uses edited)) :
      m.bounds.overlaps edited = false := (survives_iff.1 (List.mem_filter.1 hm).2).2
  have on {m : Match} (hm : m ∈ findIn g rs uses step edited) :
      m.bounds.overlaps edited = true := (mem_findIn.1 hm).2
  refine List.pairwise_append.2 ⟨?_, ?_, fun a ha b hb => ?_⟩
  · apply (h.filter _).imp_of_mem
    intro a b ha hb hab
    exact Match.before_cons_of_off (off ha) (off hb) hab
  · apply (pairwise_findIn g rs uses step edited).imp_of_mem
    intro a b ha hb hab
    exact Match.before_cons_of_overlaps (on ha) (on hb) hab
  · exact Match.before_cons_of_off_of_overlaps (off ha) (on hb)

end MatchCache

namespace Generation

variable {σ : Type} {g : Generation σ} {rs : RuleSet} {m : Match} {edits : List Box}

structure Ordered (rs : RuleSet) (g : Generation σ) (edits : List Box) : Prop where
  faithful : Faithful rs g
  edits_eq : g.cache.found? = none → edits = []
  pairwise : ∀ ms, g.cache.found? = some ms → ms.Pairwise (Match.Before edits)

lemma ordered_of_found?_eq_none (h : g.cache.found? = none) : Ordered rs g [] where
  faithful := faithful_of_found?_eq_none h
  edits_eq _ := rfl
  pairwise ms hms := by
    rw [h] at hms
    cases hms

lemma Ordered.search (h : Ordered rs g edits) : Ordered rs (g.search rs) edits where
  faithful := faithful_search h.faithful
  edits_eq hn := by cases hn
  pairwise ms hms := by
    obtain rfl := Option.some.inj hms
    cases hf : g.cache.found? with
    | none =>
      rw [h.edits_eq hf]
      exact (pairwise_findIn _ _ _ _ _).imp Match.before_nil
    | some ms => exact h.pairwise ms hf

lemma Ordered.applyOne (h : Ordered rs g edits) {ms : List Match} (hms : g.cache.found? = some ms)
    (hm : m ∈ ms) :
    Ordered rs (g.applyOne rs m)
      (if rs.opensAt (g.step + 1) then [] else rs.editedBox m :: edits) := by
  cases hop : rs.opensAt (g.step + 1) with
  | true =>
    apply ordered_of_found?_eq_none
    simp [Generation.applyOne, hop, MatchCache.invalidate]
  | false =>
    have found : (g.applyOne rs m).cache.found? =
        some (ms.filter (MatchCache.survives rs (g.uses.use rs m) (rs.editedBox m)) ++
          findIn (g.grid.rewrite rs m) rs (g.uses.use rs m) (g.step + 1) (rs.editedBox m)) := by
      simp [Generation.applyOne, hop, MatchCache.patch, hms]
    refine ⟨faithful_applyOne h.faithful hms hm, fun hn => ?_, fun ms' hms' => ?_⟩
    · rw [found] at hn
      cases hn
    · rw [found] at hms'
      obtain rfl := Option.some.inj hms'
      exact MatchCache.pairwise_patch (h.pairwise ms hms)

lemma Ordered.sweep (h : Ordered rs g edits) (filter : NameFilter) :
    Ordered rs (g.sweep rs filter).2 (if (g.sweep rs filter).1 then [] else edits) := by
  by_cases hk : filter.keep rs (g.search rs).cache.found = []
  · rw [sweep_of_keep_eq_nil hk]
    exact h.search
  · rw [sweep_of_keep_ne_nil hk]
    exact ordered_of_found?_eq_none rfl

variable [RandomSource σ]

def editsAfter (g : Generation σ) (rs : RuleSet) (filter : NameFilter) (edits : List Box) :
    List Box :=
  match (g.choose rs filter).1 with
  | none => edits
  | some m => if rs.opensAt (g.step + 1) then [] else rs.editedBox m :: edits

/-- The generations that arise in a run, each with the boxes that single steps have edited since
the last search of the whole grid. -/
inductive Traced (rs : RuleSet) : Generation σ → List Box → Prop
  | start {g : Generation σ} : g.cache.found? = none → Traced rs g []
  | reset {g : Generation σ} {edits : List Box} (seed : Option UInt64) :
      Traced rs g edits → Traced rs (g.reset rs seed) []
  | candidates {g : Generation σ} {edits : List Box} (filter : NameFilter) :
      Traced rs g edits → Traced rs (g.candidates rs filter).2 edits
  | single {g : Generation σ} {edits : List Box} (filter : NameFilter) :
      Traced rs g edits → Traced rs (g.single rs filter).2 (g.editsAfter rs filter edits)
  | sweep {g : Generation σ} {edits : List Box} (filter : NameFilter) :
      Traced rs g edits →
        Traced rs (g.sweep rs filter).2 (if (g.sweep rs filter).1 then [] else edits)
  | subdivide {g : Generation σ} {edits : List Box} (levels : Int) :
      Traced rs g edits → Traced rs (g.subdivide levels) []

lemma Ordered.single (h : Ordered rs g edits) (filter : NameFilter) :
    Ordered rs (g.single rs filter).2 (g.editsAfter rs filter edits) := by
  have searched : Ordered rs { g.search rs with source := (g.choose rs filter).2 } edits :=
    { h.search with }
  cases hc : (g.choose rs filter).1 with
  | none =>
    rw [single_of_choose_none (Prod.ext hc rfl), editsAfter, hc]
    exact searched
  | some m =>
    rw [single_of_choose_some (Prod.ext hc rfl), editsAfter, hc]
    exact searched.applyOne (found?_search g rs)
      (NameFilter.mem_of_mem_keep (mem_keep_of_choose hc))

lemma Traced.ordered (h : Traced rs g edits) : Ordered rs g edits := by
  induction h with
  | start fresh => exact ordered_of_found?_eq_none fresh
  | reset seed _ _ => exact ordered_of_found?_eq_none rfl
  | candidates filter _ ih => exact ih.search
  | single filter _ ih => exact ih.single filter
  | sweep filter _ ih => exact ih.sweep filter
  | subdivide levels _ _ => exact ordered_of_found?_eq_none rfl

lemma choose_invalidate (g : Generation σ) (rs : RuleSet) (filter : NameFilter) :
    ({ g with cache := g.cache.invalidate } : Generation σ).choose rs filter =
      rs.pick g.strategy (filter.keep rs (findAll g.grid rs g.uses g.step)) g.source := by
  by_cases hk : filter.keep rs (findAll g.grid rs g.uses g.step) = []
  · rw [choose_of_keep_eq_nil hk, hk, RuleSet.pick_nil]
  · exact choose_of_keep_ne_nil hk

/-- A step without a cache takes an end of the search order. With a cache it takes the end of the
list that the edits have left, which is the same exactly if no candidate has been touched earlier
(for the first) or later (for the last). -/
theorem single_takes_end_of_search_iff (h : Traced rs g edits)
    (succeeded : (g.single rs filter).1 = true) :
    ∃ m source, (g.single rs filter).2 =
        ({ g.search rs with source } : Generation σ).applyOne rs m ∧
      let found := filter.keep rs (findAll g.grid rs g.uses g.step)
      let uncached := ({ g with cache := g.cache.invalidate } : Generation σ).choose rs filter
      m ∈ found ∧
      (g.strategy = .first → (∀ b ∈ found, b = m ∨ m.Before edits b) ∧
        uncached.1 = found.head? ∧
        (found.head? = some m ↔
          ∀ a, found.head? = some a → ∀ b ∈ found, a.touched edits ≤ b.touched edits)) ∧
      (g.strategy = .last → (∀ b ∈ found, b = m ∨ b.Before edits m) ∧
        uncached.1 = found.getLast? ∧
        (found.getLast? = some m ↔
          ∀ a, found.getLast? = some a → ∀ b ∈ found, b.touched edits ≤ a.touched edits)) := by
  obtain ⟨m, hc⟩ := exists_choose_of_single succeeded
  have ordered := h.ordered.search
  have known := NameFilter.perm_keep rs filter (ordered.faithful _ (found?_search g rs))
  have sorted := (pairwise_findIn g.grid rs g.uses g.step g.grid.bounds).sublist
    (NameFilter.keep_sublist rs filter _)
  have aged := (ordered.pairwise _ (found?_search g rs)).sublist
    (NameFilter.keep_sublist rs filter _)
  have picked := pick_of_choose hc
  have hm := known.mem_iff.1 (mem_keep_of_choose hc)
  refine ⟨m, (g.choose rs filter).2, ?_, hm, fun hs => ?_, fun hs => ?_⟩
  · rw [single_of_choose_some (Prod.ext hc rfl)]
  · rw [hs] at picked
    have first := fun b hb => eq_or_rel_of_head? aged picked (b := b) (known.mem_iff.2 hb)
    refine ⟨first, ?_, Match.head?_eq_iff_touched sorted hm first⟩
    rw [choose_invalidate, hs]
    rfl
  · rw [hs] at picked
    have last := fun b hb => eq_or_rel_of_getLast? aged picked (b := b) (known.mem_iff.2 hb)
    refine ⟨last, ?_, Match.getLast?_eq_iff_touched sorted hm last⟩
    rw [choose_invalidate, hs]
    rfl

theorem single_takes_end_of_search_iff_relay :
    let g := ((Relay.start .first).single Relay.rules .all).2
    let edits := [(⟨Cell.origin, Cell.unit⟩ : Box)]
    Traced Relay.rules g edits ∧ (g.single Relay.rules .all).1 = true ∧
    ∃ m source, (g.single Relay.rules .all).2 =
        ({ g.search Relay.rules with source } : Generation Script).applyOne Relay.rules m ∧
      (∀ b ∈ findAll g.grid Relay.rules g.uses g.step, b = m ∨ m.Before edits b) := by
  intro g edits
  have traced : Traced Relay.rules g edits := by
    have he : (Relay.start .first).editsAfter Relay.rules .all [] = edits := by decide +kernel
    rw [← he]
    exact .single .all (.start rfl)
  have succeeded : (g.single Relay.rules .all).1 = true := by decide +kernel
  obtain ⟨m, source, applied, -, first, -⟩ := single_takes_end_of_search_iff traced succeeded
  refine ⟨traced, succeeded, m, source, applied, ?_⟩
  have h := (first (by decide +kernel)).1
  rwa [NameFilter.keep_all] at h

/-- After one step on three tiles `A`, the next step takes a match of the second rule under the
strategy `first` and of the first rule under the strategy `last`. The order of the search is the
other way round. -/
theorem single_leaves_search_order_relay :
    let g := fun strategy => ((Relay.start strategy).single Relay.rules .all).2
    let found := fun strategy =>
      findAll (g strategy).grid Relay.rules (g strategy).uses (g strategy).step
    ((g .first).choose Relay.rules .all).1.map Match.rule = some 1 ∧
      (found .first).head?.map Match.rule = some 0 ∧
    ((g .last).choose Relay.rules .all).1.map Match.rule = some 0 ∧
      (found .last).getLast?.map Match.rule = some 1 := by
  decide +kernel

end Generation

end TileGrammar
