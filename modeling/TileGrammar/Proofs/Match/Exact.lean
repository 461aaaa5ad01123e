import TileGrammar.Proofs.Match.Order
import Mathlib.Data.List.Nodup

namespace TileGrammar

lemma Box.inside_iff_forall_mem {b : Box} {e : Cell} (proper : b.extent.Proper) :
    b.Inside e ↔ ∀ c ∈ b, c ∈ ofExtent e := by
  constructor
  · intro h c hc
    exact h.mem hc
  · intro h
    rw [Cell.proper_iff] at proper
    have low := h b.corner (by
      simp only [mem_iff, Cell.le_iff, Cell.lt_iff, top_x, top_y, top_z]
      omega)
    have high := h (b.top - Cell.unit) (by
      simp only [mem_iff, Cell.le_iff, Cell.lt_iff, Cell.sub_x, Cell.sub_y, Cell.sub_z, top_x,
        top_y, top_z, Cell.unit, Cell.diagonal]
      omega)
    simp only [mem_ofExtent, Cell.sub_x, Cell.sub_y, Cell.sub_z, top_x, top_y, top_z, Cell.unit,
      Cell.diagonal] at low high
    rw [inside_iff]
    omega

def Pattern.FitsAt (p : Pattern) (g : Grid) (corner : Cell) : Prop :=
  ∀ o ∈ Box.ofExtent p.extent, ∃ t u, p.get? o = some t ∧ g.get? (corner + o) = some u ∧
    (t = .wildcard ∨ t = u)

lemma Pattern.fitsAt_iff {p : Pattern} {g : Grid} {corner : Cell} :
    p.FitsAt g corner ↔
      (⟨corner, p.extent⟩ : Box).Inside g.extent ∧ p.occursAt g corner = true := by
  rw [Box.inside_iff_forall_mem p.proper, occursAt_iff]
  constructor
  · intro h
    have hget : ∀ o ∈ Box.ofExtent p.extent,
        corner + o ∈ g.bounds ∧ (p.tileAt o).accepts (g.tileAt (corner + o)) = true := by
      intro o ho
      obtain ⟨t, u, ht, hu, htu⟩ := h o ho
      have hb : corner + o ∈ g.bounds := by
        by_contra hb
        rw [Grid.get?_eq_none hb] at hu
        cases hu
      rw [get?_of_mem ho] at ht
      rw [Grid.tileAt_of_mem hb] at hu
      obtain rfl := Option.some.inj ht
      obtain rfl := Option.some.inj hu
      exact ⟨hb, Tile.accepts_iff.2 htu⟩
    constructor
    · intro c hc
      obtain ⟨o, ho, rfl⟩ := Box.exists_add_of_mem hc
      exact (hget o ho).1
    · intro o ho
      exact (hget o ho).2
  · rintro ⟨inside, accepts⟩ o ho
    have hb : corner + o ∈ g.bounds := inside _ (Box.add_mem_iff.2 ho)
    exact ⟨_, _, get?_of_mem ho, Grid.tileAt_of_mem hb, Tile.accepts_iff.1 (accepts o ho)⟩

def Rule.IsOpen (rule : Rule) (uses step : Nat) : Prop :=
  (∀ cap, rule.cap = some cap → uses < cap) ∧ rule.wait ≤ step

lemma Rule.isOpen_iff {rule : Rule} {uses step : Nat} :
    rule.IsOpen uses step ↔ rule.isEligible uses step = true := by
  rw [isEligible_iff, Bool.eq_false_iff, Ne, isCapped_iff, IsOpen]
  simp only [not_exists, not_and, Nat.not_le]

namespace Match

/-- The plain meaning of a match, without the search. -/
def Fits (m : Match) (g : Grid) (rs : RuleSet) (uses : Tally) (step : Nat) : Prop :=
  ∃ rule v, rs.rules[m.rule]? = some rule ∧ rule.variants[m.variant]? = some v ∧
    rule.IsOpen (uses.count rule.name) step ∧ v.left.FitsAt g m.corner ∧ m.extent = v.left.extent

lemma fits_iff {m : Match} {g : Grid} {rs : RuleSet} {uses : Tally} {step : Nat} :
    m.Fits g rs uses step ↔ ∃ rule v, m.Occurs rule v g rs uses step := by
  simp only [Fits, Rule.isOpen_iff, Pattern.fitsAt_iff]
  constructor
  · rintro ⟨rule, v, hr, hv, eligible, ⟨inside, occursAt⟩, extent⟩
    exact ⟨rule, v, hr, hv, extent, eligible, by rwa [bounds, extent], occursAt⟩
  · rintro ⟨rule, v, o⟩
    exact ⟨rule, v, o.rule_eq, o.variant_eq, o.isEligible, ⟨o.bounds_eq ▸ o.inside, o.occursAt⟩,
      o.extent_eq⟩

def place (m : Match) : Nat × Nat × Cell := (m.rule, m.variant, m.corner)

lemma Precedes.place_ne {a b : Match} (h : a.Precedes b) : a.place ≠ b.place := by
  intro he
  simp only [place, Prod.mk.injEq] at he
  rw [Precedes, he.1, he.2.1, he.2.2] at h
  exact irrefl b h

end Match

section Search

variable (g : Grid) (rs : RuleSet) (uses : Tally) (step : Nat)

lemma findIn_eq_filter (region : Box) : findIn g rs uses step region =
    (findAll g rs uses step).filter fun m => m.bounds.overlaps region := by
  have ordered : ((findAll g rs uses step).filter fun m => m.bounds.overlaps region).Pairwise
      Match.Precedes := (pairwise_findIn g rs uses step g.bounds).filter _
  apply List.Perm.eq_of_pairwise (fun a b _ _ hab hba => (hab.asymm hba).elim)
    (pairwise_findIn g rs uses step region) ordered
  apply (List.perm_ext_iff_of_nodup (nodup_findIn g rs uses step region) _).2
  · intro m
    rw [List.mem_filter, mem_findAll, mem_findIn]
  · exact (nodup_findAll g rs uses step).filter _

theorem search_exact : (∀ m, m ∈ findAll g rs uses step ↔ m.Fits g rs uses step) ∧
    ((findAll g rs uses step).map Match.place).Nodup ∧
    (findAll g rs uses step).Pairwise Match.Precedes ∧
    ∀ region, findIn g rs uses step region =
      (findAll g rs uses step).filter fun m => m.bounds.overlaps region := by
  refine ⟨fun m => ?_, ?_, pairwise_findIn g rs uses step g.bounds,
    findIn_eq_filter g rs uses step⟩
  · rw [mem_findAll, Match.fits_iff]
  · rw [List.Nodup, List.pairwise_map]
    exact (pairwise_findIn g rs uses step g.bounds).imp Match.Precedes.place_ne

end Search

end TileGrammar
