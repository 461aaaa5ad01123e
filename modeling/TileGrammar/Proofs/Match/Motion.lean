import TileGrammar.Proofs.Grid.Motion
import TileGrammar.Proofs.Match.Application
import TileGrammar.Proofs.Rule.Orbit
import Mathlib.Data.Set.Function

/-!
Matching and rewriting under the motions of the plane. If all rules apply in all orientations, the
matches of a moved grid are the moved matches of the grid, and a moved match rewrites the moved grid
to the moved result.
-/

namespace TileGrammar

lemma Match.ext_bounds {m n : Match} (rule : m.rule = n.rule) (variant : m.variant = n.variant)
    (bounds : m.bounds = n.bounds) : m = n := by
  obtain ⟨corner, extent⟩ := Box.mk.inj bounds
  cases m
  cases n
  simp_all

namespace Motion

variable (t : Motion)

def carry (rs : RuleSet) (e : Cell) (m : Match) : Match where
  rule := m.rule
  variant := ((rs.rule? m.rule).bind fun rule =>
    rule.variants[m.variant]?.map fun v => rule.variants.idxOf (t.variant v)).getD m.variant
  corner := t.corner e m.bounds
  extent := t.extent m.extent

variable {m n : Match} {rule : Rule} {v w : Variant} {g : Grid} {rs : RuleSet} {uses : Tally}
  {step : Nat}

lemma rule_carry (rs : RuleSet) (e : Cell) (m : Match) : (t.carry rs e m).rule = m.rule := rfl

lemma bounds_carry (rs : RuleSet) (e : Cell) (m : Match) :
    (t.carry rs e m).bounds = t.box e m.bounds := rfl

lemma variant_carry (hr : rs.rule? m.rule = some rule) (hv : rule.variants[m.variant]? = some v)
    (e : Cell) : (t.carry rs e m).variant = rule.variants.idxOf (t.variant v) := by
  simp [carry, hr, hv]

section Variants

lemma variant_mem_variants (all : rule.symmetry = .all) (hv : v ∈ rule.variants) :
    t.variant v ∈ rule.variants := by
  rw [Rule.variants, all] at *
  exact t.variant_mem_images hv

lemma exists_variant_of_mem (all : rule.symmetry = .all) (hw : w ∈ rule.variants) :
    ∃ v ∈ rule.variants, t.variant v = w := by
  rw [Rule.variants, all] at *
  exact t.exists_variant_eq hw

lemma getElem?_variants_iff (hv : v ∈ rule.variants) (k : Nat) :
    rule.variants[k]? = some v ↔ k = rule.variants.idxOf v := by
  constructor
  · intro h
    obtain ⟨hk, rfl⟩ := List.getElem?_eq_some_iff.1 h
    exact (rule.nodup_variants.idxOf_getElem k hk).symm
  · rintro rfl
    exact List.getElem?_idxOf hv

end Variants

lemma occursAt_pattern {p : Pattern} {corner : Cell}
    (inside : (⟨corner, p.extent⟩ : Box).Inside g.extent) :
    (t.pattern p).occursAt (t.grid g) (t.corner g.extent ⟨corner, p.extent⟩) = true ↔
      p.occursAt g corner = true := by
  have cell_eq (o : Cell) : t.corner g.extent ⟨corner, p.extent⟩ + t.cell p.extent o =
      t.cell g.extent (corner + o) := t.corner_add_cell g.extent o ⟨corner, p.extent⟩
  rw [Pattern.occursAt_iff, Pattern.occursAt_iff, extent_pattern]
  constructor
  · intro h o ho
    have moved := h _ (t.cell_mem_ofExtent.2 ho)
    rwa [tileAt_pattern_cell t ho, cell_eq, tileAt_grid t (Grid.add_mem_bounds inside ho)] at moved
  · intro h o ho
    have hs := t.source_mem_ofExtent.2 ho
    rw [← t.cell_source p.extent o, tileAt_pattern_cell t hs, cell_eq,
      tileAt_grid t (Grid.add_mem_bounds inside hs)]
    exact h _ hs

lemma occurs_carry (all : rule.symmetry = .all) (o : m.Occurs rule v g rs uses step) :
    (t.carry rs g.extent m).Occurs rule (t.variant v) (t.grid g) rs uses step where
  rule_eq := o.rule_eq
  variant_eq := by
    rw [variant_carry t o.rule_eq o.variant_eq]
    exact List.getElem?_idxOf (t.variant_mem_variants all (List.mem_of_getElem? o.variant_eq))
  extent_eq := by
    rw [variant, extent_pattern, ← o.extent_eq]
    rfl
  isEligible := o.isEligible
  inside := t.inside_box.2 o.inside
  occursAt := by
    have inside := o.inside
    rw [o.bounds_eq] at inside
    have moved := (t.occursAt_pattern inside).2 o.occursAt
    rwa [← o.bounds_eq] at moved

lemma exists_carry_eq (all : rule.symmetry = .all) (o : n.Occurs rule w (t.grid g) rs uses step) :
    ∃ m v, m.Occurs rule v g rs uses step ∧ t.carry rs g.extent m = n := by
  have hw := List.mem_of_getElem? o.variant_eq
  obtain ⟨v, hv, rfl⟩ := t.exists_variant_of_mem all hw
  obtain ⟨k, hk⟩ := List.getElem?_of_mem hv
  obtain ⟨b, hb⟩ := t.exists_box_eq g.extent n.bounds
  have extent : b.extent = v.left.extent := by
    apply t.extent_injective
    rw [← extent_pattern]
    exact (congrArg Box.extent hb).trans o.extent_eq
  have inside : b.Inside g.extent := by
    rw [← t.inside_box, hb]
    exact o.inside
  have occursAt : v.left.occursAt g b.corner = true := by
    obtain ⟨corner, _⟩ := b
    obtain rfl : _ = v.left.extent := extent
    have corner_eq : t.corner g.extent ⟨corner, v.left.extent⟩ = n.corner := congrArg Box.corner hb
    rw [← t.occursAt_pattern inside, corner_eq]
    exact o.occursAt
  have o' : (⟨n.rule, k, b.corner, b.extent⟩ : Match).Occurs rule v g rs uses step :=
    ⟨o.rule_eq, hk, extent, o.isEligible, inside, occursAt⟩
  refine ⟨_, v, o', ?_⟩
  apply Match.ext_bounds
  · rfl
  · rw [variant_carry t o'.rule_eq o'.variant_eq]
    exact ((getElem?_variants_iff hw _).1 o.variant_eq).symm
  · exact hb

lemma carry_injOn {n : Match} (all : ∀ rule ∈ rs.rules, rule.symmetry = .all)
    (o : m.Occurs rule v g rs uses step) (o' : n.Occurs rule w g rs uses step)
    (h : t.carry rs g.extent m = t.carry rs g.extent n) : m = n := by
  have rule_eq : m.rule = n.rule := by rw [← t.rule_carry rs g.extent m, h, rule_carry]
  have mem := List.mem_of_getElem? o.rule_eq
  have hv := t.variant_mem_variants (all rule mem) (List.mem_of_getElem? o.variant_eq)
  have variant_eq : v = w := by
    apply t.variant_injective
    rw [← List.idxOf_inj hv, ← variant_carry t o.rule_eq o.variant_eq,
      ← variant_carry t o'.rule_eq o'.variant_eq, h]
  have index : m.variant = n.variant := by
    rw [(getElem?_variants_iff (List.mem_of_getElem? o.variant_eq) _).1 o.variant_eq, variant_eq]
    exact ((getElem?_variants_iff (List.mem_of_getElem? o'.variant_eq) _).1 o'.variant_eq).symm
  have bounds : m.bounds = n.bounds := by
    apply t.box_injective
    rw [← bounds_carry t rs, h, bounds_carry]
  exact Match.ext_bounds rule_eq index bounds

lemma rewrite_grid (all : rule.symmetry = .all) (o : m.Occurs rule v g rs uses step) :
    (t.grid g).rewrite rs (t.carry rs g.extent m) = t.grid (g.rewrite rs m) := by
  have moved := t.stamp_grid o.inside_right
  rw [o.rewrite_eq, (t.occurs_carry all o).rewrite_eq, ← moved, ← o.bounds_eq_right]
  rfl

theorem search_equivariant (all : ∀ rule ∈ rs.rules, rule.symmetry = .all) (g : Grid)
    (uses : Tally) (step : Nat) :
    Set.BijOn (t.carry rs g.extent) {m | m ∈ findAll g rs uses step}
        {m | m ∈ findAll (t.grid g) rs uses step} ∧
      ∀ m ∈ findAll g rs uses step,
        (∃ rule v, rs.rule? m.rule = some rule ∧ rule.variants[m.variant]? = some v ∧
          ∀ k, rule.variants[k]? = some (t.variant v) ↔ k = (t.carry rs g.extent m).variant) ∧
        (t.grid g).rewrite rs (t.carry rs g.extent m) = t.grid (g.rewrite rs m) := by
  have symmetry {m : Match} {rule : Rule} (hr : rs.rule? m.rule = some rule) :
      rule.symmetry = .all := all rule (List.mem_of_getElem? hr)
  refine ⟨⟨?maps, ?inj, ?onto⟩, ?each⟩
  case maps =>
    intro m hm
    obtain ⟨rule, v, o⟩ := mem_findAll.1 hm
    exact mem_findAll.2 ⟨rule, _, t.occurs_carry (symmetry o.rule_eq) o⟩
  case inj =>
    intro m hm n hn h
    obtain ⟨rule, v, o⟩ := mem_findAll.1 hm
    obtain ⟨rule', w, o'⟩ := mem_findAll.1 hn
    obtain rfl : rule = rule' := by
      have hr := o.rule_eq
      rw [← t.rule_carry rs g.extent m, h, rule_carry, o'.rule_eq] at hr
      exact (Option.some.inj hr).symm
    exact t.carry_injOn all o o' h
  case onto =>
    intro n hn
    obtain ⟨rule, w, o⟩ := mem_findAll.1 hn
    obtain ⟨m, v, o', he⟩ := t.exists_carry_eq (symmetry o.rule_eq) o
    exact ⟨m, mem_findAll.2 ⟨rule, v, o'⟩, he⟩
  case each =>
    intro m hm
    obtain ⟨rule, v, o⟩ := mem_findAll.1 hm
    refine ⟨⟨rule, v, o.rule_eq, o.variant_eq, fun k => ?_⟩, t.rewrite_grid (symmetry o.rule_eq) o⟩
    rw [variant_carry t o.rule_eq o.variant_eq]
    apply getElem?_variants_iff
    exact t.variant_mem_variants (symmetry o.rule_eq) (List.mem_of_getElem? o.variant_eq)

namespace Swap

def rules : RuleSet where
  rules := [{
    name := "swap"
    left := .pair "A" "B"
    right := .pair "B" "A"
    symmetry := .all
    name_ne := by decide
    extent_eq := Pattern.extent_pair _ _ _ _
    isWeight := isWeight_one }]

def start : Grid where
  extent := ⟨3, 1, 2⟩
  tiles := #[⟨"A"⟩, ⟨"B"⟩, ⟨"."⟩, ⟨"."⟩, ⟨"A"⟩, ⟨"."⟩]
  proper := by decide
  size_tiles := rfl

end Swap

theorem search_equivariant_swap :
    (∀ rule ∈ Swap.rules.rules, rule.symmetry = .all) ∧
    (findAll Swap.start Swap.rules .empty 0).length = 2 ∧
    (∀ m ∈ findAll Swap.start Swap.rules .empty 0,
      turn.carry Swap.rules ⟨3, 1, 2⟩ m ∈ findAll (turn.grid Swap.start) Swap.rules .empty 0 ∧
      (turn.grid Swap.start).rewrite Swap.rules (turn.carry Swap.rules ⟨3, 1, 2⟩ m) =
        turn.grid (Swap.start.rewrite Swap.rules m)) := by
  have all : ∀ rule ∈ Swap.rules.rules, rule.symmetry = .all := by decide +kernel
  have count : (findAll Swap.start Swap.rules .empty 0).length = 2 := by decide +kernel
  obtain ⟨bij, each⟩ := search_equivariant turn all Swap.start .empty 0
  refine ⟨all, count, fun m hm => ⟨?_, (each m hm).2⟩⟩
  exact Set.mem_ofPred.1 (bij.mapsTo (Set.mem_ofPred.2 hm))

end Motion

end TileGrammar
