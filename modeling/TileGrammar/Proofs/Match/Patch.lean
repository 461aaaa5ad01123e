import TileGrammar.Match.Cache
import TileGrammar.Proofs.Match.Order

/-!
A patched cache holds what a search of the whole grid finds. Outside of the edited box nothing has
changed but the caps that are reached now; inside of it everything is searched again.
-/

namespace TileGrammar

structure Grid.AgreesOff (h g : Grid) (edited : Box) : Prop where
  extent_eq : h.extent = g.extent
  tileAt_eq : ∀ c ∈ g.bounds, c ∉ edited → h.tileAt c = g.tileAt c

lemma Grid.AgreesOff.symm {h g : Grid} {edited : Box} (a : h.AgreesOff g edited) :
    g.AgreesOff h edited where
  extent_eq := a.extent_eq.symm
  tileAt_eq c hc out := (a.tileAt_eq c (by simpa [bounds, a.extent_eq] using hc) out).symm

lemma Grid.AgreesOff.occursAt {h g : Grid} {edited : Box} {p : Pattern} {corner : Cell}
    (a : h.AgreesOff g edited) (inside : (⟨corner, p.extent⟩ : Box).Inside g.extent)
    (off : (⟨corner, p.extent⟩ : Box).overlaps edited = false) (occ : p.occursAt g corner = true) :
    p.occursAt h corner = true := by
  rw [Pattern.occursAt_iff] at occ ⊢
  intro o ho
  have hc : corner + o ∈ (⟨corner, p.extent⟩ : Box) := Box.add_mem_iff.2 ho
  have out : corner + o ∉ edited := by
    intro he
    rw [Box.overlaps_iff_exists_mem.2 ⟨_, hc, he⟩] at off
    cases off
  rw [a.tileAt_eq _ (inside.mem hc) out]
  exact occ o ho

namespace MatchCache

variable {rs : RuleSet} {uses uses' : Tally} {step step' : Nat} {g h : Grid} {edited : Box}
  {m : Match} {ms : List Match}

lemma survives_iff : survives rs uses edited m = true ↔
    (∃ rule, rs.rule? m.rule = some rule ∧ rule.isCapped (uses.count rule.name) = false) ∧
      m.bounds.overlaps edited = false := by
  simp [survives, Option.any_eq_true]

lemma isCapped_mono {rule : Rule} {n n' : Nat} (hn : n ≤ n') (hc : rule.isCapped n' = false) :
    rule.isCapped n = false := by
  rw [Bool.eq_false_iff, Ne, Rule.isCapped_iff] at *
  rintro ⟨cap, hr, hcap⟩
  exact hc ⟨cap, hr, Nat.le_trans hcap hn⟩

/-- A rule that no longer waits did not wait before. -/
def NoneOpens (rs : RuleSet) (step step' : Nat) : Prop :=
  step ≤ step' ∧ ∀ rule ∈ rs.rules, rule.wait ≤ step' → rule.wait ≤ step

lemma occurs_iff_of_off (agree : h.AgreesOff g edited)
    (grow : ∀ name, uses.count name ≤ uses'.count name) (none : NoneOpens rs step step')
    {rule : Rule} {v : Variant} (off : m.bounds.overlaps edited = false) :
    m.Occurs rule v h rs uses' step' ↔
      m.Occurs rule v g rs uses step ∧ rule.isCapped (uses'.count rule.name) = false := by
  constructor
  · intro o
    obtain ⟨uncapped, waited⟩ := Rule.isEligible_iff.1 o.isEligible
    have inside : m.bounds.Inside g.extent := agree.extent_eq ▸ o.inside
    refine ⟨{ o with isEligible := ?_, inside := inside, occursAt := ?_ }, uncapped⟩
    · exact Rule.isEligible_iff.2 ⟨isCapped_mono (grow _) uncapped,
        none.2 rule (List.mem_of_getElem? o.rule_eq) waited⟩
    · rw [o.bounds_eq] at off
      exact agree.symm.occursAt (o.bounds_eq ▸ o.inside) off o.occursAt
  · rintro ⟨o, uncapped⟩
    obtain ⟨-, waited⟩ := Rule.isEligible_iff.1 o.isEligible
    refine { o with isEligible := ?_, inside := agree.extent_eq ▸ o.inside, occursAt := ?_ }
    · exact Rule.isEligible_iff.2 ⟨uncapped, Nat.le_trans waited none.1⟩
    · rw [o.bounds_eq] at off
      exact agree.occursAt (o.bounds_eq ▸ o.inside) off o.occursAt

lemma mem_findAll_iff_of_off (agree : h.AgreesOff g edited)
    (grow : ∀ name, uses.count name ≤ uses'.count name) (none : NoneOpens rs step step')
    (off : m.bounds.overlaps edited = false) :
    m ∈ findAll h rs uses' step' ↔
      m ∈ findAll g rs uses step ∧ survives rs uses' edited m = true := by
  rw [mem_findAll, mem_findAll, survives_iff]
  constructor
  · rintro ⟨rule, v, o⟩
    obtain ⟨o, uncapped⟩ := (occurs_iff_of_off agree grow none off).1 o
    exact ⟨⟨rule, v, o⟩, ⟨rule, o.rule_eq, uncapped⟩, off⟩
  · rintro ⟨⟨rule, v, o⟩, ⟨rule', hr, uncapped⟩, -⟩
    obtain rfl : rule = rule' := by simpa [o.rule_eq] using hr
    exact ⟨rule, v, (occurs_iff_of_off agree grow none off).2 ⟨o, uncapped⟩⟩

lemma patch_perm_findAll (agree : h.AgreesOff g edited)
    (grow : ∀ name, uses.count name ≤ uses'.count name) (none : NoneOpens rs step step')
    (known : ms.Perm (findAll g rs uses step)) :
    (ms.filter (survives rs uses' edited) ++ findIn h rs uses' step' edited).Perm
      (findAll h rs uses' step') := by
  have nodup := known.nodup_iff.2 (nodup_findAll g rs uses step)
  refine (List.perm_ext_iff_of_nodup ?_ (nodup_findAll h rs uses' step')).2 fun m => ?_
  · refine List.nodup_append.2 ⟨nodup.filter _, nodup_findIn h rs uses' step' edited, ?_⟩
    rintro a ha _ hb rfl
    have off := (survives_iff.1 (List.mem_filter.1 ha).2).2
    rw [(mem_findIn.1 hb).2] at off
    cases off
  · rw [List.mem_append, List.mem_filter, known.mem_iff, mem_findIn]
    cases off : m.bounds.overlaps edited with
    | false =>
      rw [mem_findAll_iff_of_off agree grow none off]
      simp
    | true => simp [mem_findAll, survives_iff, off]

end MatchCache

end TileGrammar
