import TileGrammar.Match.Search
import TileGrammar.Proofs.Geometry.Overlap
import TileGrammar.Proofs.Rule.Variant

namespace TileGrammar

lemma Pattern.occursAt_iff {p : Pattern} {g : Grid} {corner : Cell} :
    p.occursAt g corner = true ↔
      ∀ o ∈ Box.ofExtent p.extent, (p.tileAt o).accepts (g.tileAt (corner + o)) = true := by
  simp only [occursAt, Grid.allows, List.all_eq_true, Prod.forall]
  constructor
  · intro h o ho
    exact h o _ (mem_cells.2 ⟨ho, rfl⟩)
  · intro h o t hot
    obtain ⟨ho, rfl⟩ := mem_cells.1 hot
    exact h o ho

lemma mem_anchorWindow {region : Box} {e grid c : Cell} (he : e.Proper) :
    (∃ window, anchorWindow region e grid = some window ∧ c ∈ window) ↔
      (⟨c, e⟩ : Box).Inside grid ∧ (⟨c, e⟩ : Box).overlaps region = true := by
  rw [Box.overlaps_iff, Box.inside_iff]
  simp only [anchorWindow, Cell.proper_iff] at *
  cases hr : region.isEmpty with
  | true =>
    have : ¬ region.extent.Proper := by simpa [Box.isEmpty] using hr
    simp only [Cell.proper_iff] at this
    simp [this]
  | false =>
    have := Box.isEmpty_eq_false.1 hr
    simp only [Cell.proper_iff] at this
    simp only [Bool.false_eq_true, if_false, Option.ite_none_right_eq_some, Option.some.injEq]
    constructor
    · rintro ⟨w, ⟨hlt, rfl⟩, hc⟩
      simp only [Box.mem_iff, Cell.le_iff, Cell.lt_iff, Box.top_x, Box.top_y, Box.top_z, Cell.max_x,
        Cell.max_y, Cell.max_z, Cell.min_x, Cell.min_y, Cell.min_z, Cell.sub_x, Cell.sub_y,
        Cell.sub_z, Cell.add_x, Cell.add_y, Cell.add_z, Cell.origin, Cell.unit, Cell.diagonal]
        at hlt hc ⊢
      omega
    · rintro ⟨hi, -, h₁, h₂⟩
      refine ⟨_, ⟨?_, rfl⟩, ?_⟩ <;>
      · simp only [Box.mem_iff, Cell.le_iff, Cell.lt_iff, Box.top_x, Box.top_y, Box.top_z,
          Cell.max_x, Cell.max_y, Cell.max_z, Cell.min_x, Cell.min_y, Cell.min_z, Cell.sub_x,
          Cell.sub_y, Cell.sub_z, Cell.add_x, Cell.add_y, Cell.add_z, Cell.origin, Cell.unit,
          Cell.diagonal] at h₁ h₂ ⊢
        omega

lemma Pattern.mem_occurrences {p : Pattern} {g : Grid} {region : Box} {c : Cell} :
    c ∈ p.occurrences g region ↔
      ((⟨c, p.extent⟩ : Box).Inside g.extent ∧ p.occursAt g c = true) ∧
        (⟨c, p.extent⟩ : Box).overlaps region = true := by
  rw [and_right_comm, ← mem_anchorWindow p.proper, occurrences]
  cases hw : anchorWindow region p.extent g.extent with
  | none => simp
  | some window => simp [Box.mem_sweep, occursAt]

lemma Rule.mem_matchesIn {rule : Rule} {place : Nat} {g : Grid} {region : Box} {m : Match} :
    m ∈ rule.matchesIn place g region ↔
      m.rule = place ∧ ∃ v, rule.variants[m.variant]? = some v ∧ m.extent = v.left.extent ∧
        m.corner ∈ v.left.occurrences g region := by
  simp only [matchesIn, List.mem_flatMap, Prod.exists, List.mem_zipIdx_iff_getElem?, List.mem_map]
  constructor
  · rintro ⟨v, k, hv, c, hc, rfl⟩
    exact ⟨rfl, v, hv, rfl, hc⟩
  · obtain ⟨r, k, c, e⟩ := m
    rintro ⟨rfl, v, hv, rfl, hc⟩
    exact ⟨v, k, hv, c, hc, rfl⟩

namespace Match

structure Occurs (m : Match) (rule : Rule) (v : Variant) (g : Grid) (rs : RuleSet) (uses : Tally)
    (step : Nat) : Prop where
  rule_eq : rs.rule? m.rule = some rule
  variant_eq : rule.variants[m.variant]? = some v
  extent_eq : m.extent = v.left.extent
  isEligible : rule.isEligible (uses.count rule.name) step = true
  inside : m.bounds.Inside g.extent
  occursAt : v.left.occursAt g m.corner = true

variable {m : Match} {rule : Rule} {v : Variant} {g : Grid} {rs : RuleSet} {uses : Tally}
  {step : Nat} {region : Box}

lemma Occurs.bounds_eq (h : m.Occurs rule v g rs uses step) :
    m.bounds = ⟨m.corner, v.left.extent⟩ := by
  rw [bounds, h.extent_eq]

lemma Occurs.proper (h : m.Occurs rule v g rs uses step) : m.bounds.extent.Proper := by
  rw [h.bounds_eq]
  exact v.left.proper

lemma Occurs.extent_right (h : m.Occurs rule v g rs uses step) : v.right.extent = m.extent := by
  rw [h.extent_eq, Rule.extent_variant (List.mem_of_getElem? h.variant_eq)]

lemma Occurs.editedBox_eq (h : m.Occurs rule v g rs uses step) : rs.editedBox m = m.bounds := by
  rw [RuleSet.editedBox_eq h.rule_eq h.variant_eq, h.extent_right, bounds]

end Match

section Search

variable {m : Match} {g : Grid} {rs : RuleSet} {uses : Tally} {step : Nat} {region : Box}

lemma mem_findIn : m ∈ findIn g rs uses step region ↔
    (∃ rule v, m.Occurs rule v g rs uses step) ∧ m.bounds.overlaps region = true := by
  simp only [findIn, List.mem_flatMap, Prod.exists, List.mem_zipIdx_iff_getElem?]
  constructor
  · rintro ⟨rule, r, hr, hm⟩
    split at hm
    · rename_i he
      obtain ⟨rfl, v, hv, hx, hc⟩ := Rule.mem_matchesIn.1 hm
      obtain ⟨⟨hi, ho⟩, hl⟩ := Pattern.mem_occurrences.1 hc
      rw [← hx] at hi hl
      exact ⟨⟨rule, v, hr, hv, hx, he, hi, ho⟩, hl⟩
    · cases hm
  · rintro ⟨⟨rule, v, h⟩, hl⟩
    refine ⟨rule, m.rule, h.rule_eq, ?_⟩
    rw [if_pos h.isEligible]
    refine Rule.mem_matchesIn.2 ⟨rfl, v, h.variant_eq, h.extent_eq, ?_⟩
    refine Pattern.mem_occurrences.2 ⟨⟨?_, h.occursAt⟩, ?_⟩
    · exact h.bounds_eq ▸ h.inside
    · exact h.bounds_eq ▸ hl

lemma mem_findAll : m ∈ findAll g rs uses step ↔ ∃ rule v, m.Occurs rule v g rs uses step := by
  rw [findAll, mem_findIn]
  constructor
  · exact And.left
  · intro h
    obtain ⟨rule, v, ho⟩ := h
    exact ⟨⟨rule, v, ho⟩, ho.inside.overlaps ho.proper⟩

end Search

end TileGrammar
