import TileGrammar.Proofs.Grid.Count
import TileGrammar.Proofs.Match.Patch
import TileGrammar.Proofs.Tally.Count

namespace TileGrammar

section Extent

variable (g : Grid) (rs : RuleSet)

@[simp] lemma Grid.extent_rewrite (m : Match) : (g.rewrite rs m).extent = g.extent := by
  rw [rewrite]
  split
  · rfl
  · rw [extent_stamp]

lemma Grid.extent_foldl_rewrite (ms : List Match) :
    (ms.foldl (fun h m => h.rewrite rs m) g).extent = g.extent := by
  induction ms generalizing g with
  | nil => rfl
  | cons m ms ih => rw [List.foldl_cons, ih, extent_rewrite]

end Extent

def Variant.Definite (v : Variant) : Prop :=
  ∀ p ∈ v.right.cells, p.2 ≠ .wildcard → v.left.tileAt p.1 ≠ .wildcard

instance : DecidablePred Variant.Definite := fun v =>
  inferInstanceAs (Decidable (∀ p ∈ v.right.cells, p.2 ≠ .wildcard → v.left.tileAt p.1 ≠ .wildcard))

def Variant.Adds (v : Variant) (label : String) (n : Int) : Prop :=
  (Grid.written label v.right.cells : Int) =
    Grid.covered label v.left.tileAt v.right.cells + n

instance (v : Variant) (label : String) (n : Int) : Decidable (v.Adds label n) :=
  inferInstanceAs (Decidable ((Grid.written label v.right.cells : Int) =
    Grid.covered label v.left.tileAt v.right.cells + n))

namespace Match.Occurs

variable {m : Match} {rule : Rule} {v : Variant} {g : Grid} {rs : RuleSet} {uses : Tally}
  {step : Nat}

lemma rewrite_eq (o : m.Occurs rule v g rs uses step) (h : Grid) :
    h.rewrite rs m = h.stamp v.right m.corner := by
  rw [Grid.rewrite, RuleSet.replacement?_eq_some o.rule_eq o.variant_eq]

lemma use_eq (o : m.Occurs rule v g rs uses step) (t : Tally) :
    t.use rs m = t.increment rule.name := by
  rw [Tally.use, RuleSet.replacement?_eq_some o.rule_eq o.variant_eq]

lemma bounds_eq_right (o : m.Occurs rule v g rs uses step) :
    m.bounds = ⟨m.corner, v.right.extent⟩ := by
  rw [bounds, o.extent_right]

lemma inside_right (o : m.Occurs rule v g rs uses step) :
    (⟨m.corner, v.right.extent⟩ : Box).Inside g.extent := o.bounds_eq_right ▸ o.inside

lemma add_mem_bounds (o : m.Occurs rule v g rs uses step) {c : Cell}
    (hc : c ∈ Box.ofExtent v.right.extent) : m.corner + c ∈ g.bounds :=
  Grid.add_mem_bounds o.inside_right hc

section Rewrite

variable {h : Grid}

lemma tileAt_rewrite_of_notMem (o : m.Occurs rule v g rs uses step) (he : h.extent = g.extent)
    {c : Cell} (hc : c ∈ g.bounds) (out : c ∉ m.bounds) :
    (h.rewrite rs m).tileAt c = h.tileAt c := by
  rw [o.rewrite_eq]
  apply Grid.tileAt_stamp_of_notMem
  · exact he ▸ o.inside_right
  · rwa [Grid.bounds, he]
  · exact o.bounds_eq_right ▸ out

lemma tileAt_rewrite_add (o : m.Occurs rule v g rs uses step) (he : h.extent = g.extent)
    {c : Cell} (hc : c ∈ Box.ofExtent v.right.extent) :
    (h.rewrite rs m).tileAt (m.corner + c) =
      if v.right.tileAt c = .wildcard then h.tileAt (m.corner + c) else v.right.tileAt c := by
  rw [o.rewrite_eq]
  apply Grid.tileAt_stamp_add
  · exact he ▸ o.inside_right
  · exact hc

lemma get?_rewrite_add (o : m.Occurs rule v g rs uses step) {c : Cell}
    (hc : c ∈ Box.ofExtent v.right.extent) (solid : v.right.tileAt c ≠ .wildcard) :
    (g.rewrite rs m).get? (m.corner + c) = some (v.right.tileAt c) := by
  rw [Grid.get?_eq_some_iff, o.tileAt_rewrite_add rfl hc, if_neg solid, Grid.bounds,
    Grid.extent_rewrite]
  exact ⟨o.add_mem_bounds hc, rfl⟩

lemma get?_or_drawn (o : m.Occurs rule v g rs uses step) {c : Cell} {t : Tile}
    (hc : (g.rewrite rs m).get? c = some t) : g.get? c = some t ∨
      ∃ d ∈ Box.ofExtent v.right.extent, c = m.corner + d ∧ v.right.tileAt d = t := by
  rw [Grid.get?_eq_some_iff, Grid.bounds, Grid.extent_rewrite] at hc
  obtain ⟨hb, tile⟩ := hc
  by_cases hm : c ∈ m.bounds
  · rw [o.bounds_eq_right] at hm
    obtain ⟨d, hd, rfl⟩ := Box.exists_add_of_mem hm
    rw [o.tileAt_rewrite_add rfl hd] at tile
    split at tile
    · exact .inl (Grid.get?_eq_some_iff.2 ⟨hb, tile⟩)
    · exact .inr ⟨d, hd, rfl, tile⟩
  · rw [o.tileAt_rewrite_of_notMem rfl hb hm] at tile
    exact .inl (Grid.get?_eq_some_iff.2 ⟨hb, tile⟩)

end Rewrite

lemma agreesOff_rewrite (o : m.Occurs rule v g rs uses step) :
    (g.rewrite rs m).AgreesOff g m.bounds where
  extent_eq := Grid.extent_rewrite g rs m
  tileAt_eq _ hc out := o.tileAt_rewrite_of_notMem rfl hc out

lemma accepts_left (o : m.Occurs rule v g rs uses step) {c : Cell}
    (hc : c ∈ Box.ofExtent v.left.extent) :
    (v.left.tileAt c).accepts (g.tileAt (m.corner + c)) = true :=
  Pattern.occursAt_iff.1 o.occursAt c hc

lemma tileAt_eq_left (o : m.Occurs rule v g rs uses step) {c : Cell}
    (hc : c ∈ Box.ofExtent v.left.extent) (hw : v.left.tileAt c ≠ .wildcard) :
    g.tileAt (m.corner + c) = v.left.tileAt c := by
  rcases Tile.accepts_iff.1 (o.accepts_left hc) with h | h
  · exact absurd h hw
  · exact h.symm

lemma extent_left (o : m.Occurs rule v g rs uses step) : v.left.extent = v.right.extent :=
  o.extent_eq.symm.trans o.extent_right.symm

lemma count_rewrite_of_intact (o : m.Occurs rule v g rs uses step) (definite : v.Definite)
    {h : Grid} (he : h.extent = g.extent) (intact : ∀ p ∈ v.right.cells, p.2 ≠ .wildcard →
      h.tileAt (m.corner + p.1) = g.tileAt (m.corner + p.1)) (label : String) :
    (h.rewrite rs m).count label + Grid.covered label v.left.tileAt v.right.cells =
      h.count label + Grid.written label v.right.cells := by
  have same : Grid.covered label (fun d => h.tileAt (m.corner + d)) v.right.cells =
      Grid.covered label v.left.tileAt v.right.cells := by
    apply Grid.covered_congr
    intro p hp hw
    have hd := (Pattern.mem_cells.1 hp).1
    rw [← o.extent_left] at hd
    exact (intact p hp hw).trans (o.tileAt_eq_left hd (definite p hp hw))
  rw [o.rewrite_eq, ← same]
  exact Grid.count_stamp (he ▸ o.inside_right)

lemma count_of_adds (o : m.Occurs rule v g rs uses step) (definite : v.Definite) {label : String}
    {n : Int} (adds : v.Adds label n) :
    ((g.rewrite rs m).count label : Int) = g.count label + n := by
  have h := o.count_rewrite_of_intact definite rfl (fun _ _ _ => rfl) label
  rw [Variant.Adds] at adds
  omega

end Match.Occurs

end TileGrammar
