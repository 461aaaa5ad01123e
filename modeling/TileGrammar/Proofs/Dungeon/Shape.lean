import TileGrammar.Geometry.Interval
import TileGrammar.Proofs.Dungeon.Layout
import TileGrammar.Proofs.Match.Layers
import Mathlib.Tactic.MkIffOfInductiveProp

namespace TileGrammar

instance (b : Box) (p : Cell → Prop) [DecidablePred p] : Decidable (∀ c ∈ b, p c) :=
  decidable_of_iff (∀ c ∈ b.sweep, p c) (by simp only [Box.mem_sweep])

instance (b : Box) (p : Cell → Prop) [DecidablePred p] : Decidable (∃ c ∈ b, p c) :=
  decidable_of_iff (∃ c ∈ b.sweep, p c) (by simp only [Box.mem_sweep])

namespace Variant

open Dungeon

/-- The offsets of the layout on the right side that a walk reaches in some steps from the layout on
the left side. -/
def spread (v : Variant) : Nat → List Cell
  | 0 => (Box.ofExtent v.left.extent).sweep.filter fun o => v.left.tileAt o ∈ layoutTiles
  | n + 1 => v.spread n ++ (Box.ofExtent v.left.extent).sweep.filter fun o =>
      v.right.tileAt o ∈ layoutTiles ∧ ∃ a ∈ v.spread n, a.Beside o

@[mk_iff]
structure Grows (v : Variant) : Prop where
  keeps : ∀ o ∈ Box.ofExtent v.left.extent, v.right.tileAt o = .wildcard ∨
    v.left.tileAt o = empty ∨ v.left.tileAt o = v.right.tileAt o
  attaches : ∀ o ∈ Box.ofExtent v.left.extent, v.right.tileAt o ∈ layoutTiles → o ∈ v.spread 4

instance : DecidablePred Grows := fun v => decidable_of_iff _ (grows_iff v).symm

def middle : Cell := ⟨1, 0, 1⟩

@[mk_iff]
structure Clears (v : Variant) : Prop where
  extent_eq : v.left.extent = ⟨3, 1, 3⟩
  left_middle : v.left.tileAt middle = ⟨"C"⟩
  right_middle : v.right.tileAt middle = empty
  right_eq : ∀ o ∈ Box.ofExtent v.left.extent, o ≠ middle → v.right.tileAt o = .wildcard
  leaf : ∃ n ∈ Box.ofExtent v.left.extent, ∀ o ∈ Box.ofExtent v.left.extent,
    middle.Beside o → o ≠ n → v.left.tileAt o = empty

instance : DecidablePred Clears := fun v => decidable_of_iff _ (clears_iff v).symm

lemma Clears.middle_mem {v : Variant} (hv : v.Clears) : middle ∈ Box.ofExtent v.left.extent := by
  rw [hv.extent_eq]
  decide

lemma Clears.beside_mem {v : Variant} (hv : v.Clears) {o : Cell} (h : middle.Beside o) :
    o ∈ Box.ofExtent v.left.extent := by
  simp only [hv.extent_eq, Box.mem_ofExtent]
  simp only [Cell.beside_iff, middle] at h
  omega

end Variant

namespace Match.Occurs

open Dungeon

variable {m : Match} {rule : Rule} {v : Variant} {g : Grid} {rs : RuleSet} {uses : Tally}
  {step : Nat} {layer : Int}

section Grows

lemma kept_of_grows (o : m.Occurs rule v g rs uses step) (hv : v.Grows) {c : Cell} {t : Tile}
    (ht : t ∈ layoutTiles) (hc : g.get? c = some t) : (g.rewrite rs m).get? c = some t := by
  obtain ⟨hb, -⟩ := solid_iff.1 ⟨t, ht, hc⟩
  rw [Grid.tileAt_of_mem hb] at hc
  have hb' : c ∈ (g.rewrite rs m).bounds := by rwa [Grid.bounds, Grid.extent_rewrite]
  rw [Grid.tileAt_of_mem hb', ← hc]
  congr 1
  by_cases hm : c ∈ m.bounds
  · rw [o.bounds_eq] at hm
    obtain ⟨d, hd, rfl⟩ := Box.exists_add_of_mem hm
    rw [o.tileAt_rewrite_add rfl (o.extent_left ▸ hd)]
    split
    · rfl
    · rename_i hw
      have htile := Option.some.inj hc
      rcases hv.keeps d hd with h | h | h
      · exact absurd h hw
      · -- the ground was empty here, so there was no layout
        rw [o.tileAt_eq_left hd (by rw [h]; decide), h] at htile
        subst htile
        exact absurd ht (by decide)
      · rw [o.tileAt_eq_left hd (by rwa [h]), h]
  · exact o.tileAt_rewrite_of_notMem rfl hb hm

lemma solid_rewrite_of_grows (o : m.Occurs rule v g rs uses step) (hv : v.Grows) {c : Cell}
    (h : Solid g c) : Solid (g.rewrite rs m) c := by
  obtain ⟨t, ht, hc⟩ := h
  exact ⟨t, ht, o.kept_of_grows hv ht hc⟩

lemma solid_right (o : m.Occurs rule v g rs uses step) {d : Cell}
    (hd : d ∈ Box.ofExtent v.left.extent) (hs : v.right.tileAt d ∈ layoutTiles) :
    Solid (g.rewrite rs m) (m.corner + d) := by
  refine ⟨_, hs, o.get?_rewrite_add (o.extent_left ▸ hd) ?_⟩
  intro hw
  rw [hw] at hs
  exact absurd hs (by decide)

lemma joined_of_mem_spread (o : m.Occurs rule v g rs uses step) (hv : v.Grows) {n : Nat} {d : Cell}
    (hd : d ∈ v.spread n) : Solid (g.rewrite rs m) (m.corner + d) ∧
      ∃ a, Solid g a ∧ Joined (Solid (g.rewrite rs m)) a (m.corner + d) := by
  induction n generalizing d with
  | zero =>
    simp only [Variant.spread, List.mem_filter, Box.mem_sweep, decide_eq_true_eq] at hd
    obtain ⟨hd, hs⟩ := hd
    have hw : v.left.tileAt d ≠ .wildcard := by
      intro hw
      rw [hw] at hs
      exact absurd hs (by decide)
    have old : Solid g (m.corner + d) := by
      rw [solid_iff, o.tileAt_eq_left hd hw]
      exact ⟨o.add_mem_bounds (o.extent_left ▸ hd), hs⟩
    exact ⟨o.solid_rewrite_of_grows hv old, _, old, .refl⟩
  | succ n ih =>
    simp only [Variant.spread, List.mem_append, List.mem_filter, Box.mem_sweep,
      decide_eq_true_eq] at hd
    rcases hd with hd | ⟨hd, hs, b, hb, hbd⟩
    · exact ih hd
    · obtain ⟨hsb, a, ha, path⟩ := ih hb
      have hsd := o.solid_right hd hs
      exact ⟨hsd, a, ha, path.tail ⟨hsb, hsd, Cell.beside_add_iff.2 hbd⟩⟩

lemma connected_rewrite (o : m.Occurs rule v g rs uses step) (hv : v.Grows)
    (hg : Connected layer g) : Connected layer (g.rewrite rs m) := by
  apply hg.grow
  · intro c t ht hc
    exact o.kept_of_grows hv ht hc
  · rintro c ⟨t, ht, hc⟩
    rcases o.get?_or_drawn hc with old | ⟨d, hd, rfl, rfl⟩
    · exact ⟨c, ⟨t, ht, old⟩, .refl⟩
    · exact (o.joined_of_mem_spread hv (hv.attaches d (o.extent_left ▸ hd) ht)).2

end Grows

section Clears

variable {h : Grid} {c d : Cell}

lemma middle_mem (o : m.Occurs rule v g rs uses step) (hv : v.Clears) :
    m.corner + Variant.middle ∈ g.bounds :=
  o.add_mem_bounds (o.extent_left ▸ hv.middle_mem)

lemma tileAt_middle (o : m.Occurs rule v g rs uses step) (hv : v.Clears) :
    g.tileAt (m.corner + Variant.middle) = ⟨"C"⟩ := by
  rw [o.tileAt_eq_left hv.middle_mem (by rw [hv.left_middle]; decide), hv.left_middle]

lemma tileOn?_of_clears (o : m.Occurs rule v g rs uses step) (hv : v.Clears) :
    rs.tileOn? c m = if c = m.corner + Variant.middle then some empty else none := by
  by_cases hm : c ∈ m.bounds
  · rw [o.bounds_eq] at hm
    obtain ⟨d, hd, rfl⟩ := Box.exists_add_of_mem hm
    rw [o.tileOn?_add (o.extent_left ▸ hd)]
    by_cases hd' : d = Variant.middle
    · rw [hd', hv.right_middle, if_pos rfl, if_neg (by decide)]
    · rw [hv.right_eq d hd hd', if_pos rfl, if_neg]
      intro heq
      apply hd'
      simp only [Cell.ext_iff, Cell.add_x, Cell.add_y, Cell.add_z] at heq ⊢
      omega
  · rw [o.tileOn?_of_notMem hm, if_neg]
    rintro rfl
    apply hm
    rw [o.bounds_eq]
    exact Box.add_mem_iff.2 hv.middle_mem

lemma exists_only_neighbour (o : m.Occurs rule v g rs uses step) (hv : v.Clears) :
    ∃ n, ∀ d, Solid g d → (m.corner + Variant.middle).Beside d → d = n := by
  obtain ⟨n, -, only⟩ := hv.leaf
  refine ⟨m.corner + n, fun d hd hb => ?_⟩
  obtain ⟨e, rfl⟩ := Cell.exists_eq_add m.corner d
  rw [Cell.beside_add_iff] at hb
  have he := hv.beside_mem hb
  by_cases hn : e = n
  · rw [hn]
  · have hem := only e he hb hn
    have ht := (solid_iff.1 hd).2
    rw [o.tileAt_eq_left he (by rw [hem]; decide), hem] at ht
    exact absurd ht (by decide)

end Clears

end Match.Occurs

section Sweep

open Dungeon

variable {g h : Grid} {rs : RuleSet} {uses : Tally} {step : Nat} {layer : Int} {ms : List Match}

def AllClear (ms : List Match) (g : Grid) (rs : RuleSet) (uses : Tally) (step : Nat) : Prop :=
  ∀ m ∈ ms, ∃ rule v, m.Occurs rule v g rs uses step ∧ v.Clears

lemma get?_foldl_of_allClear (all : AllClear ms g rs uses step) (he : h.extent = g.extent)
    (c : Cell) : (ms.foldl (fun h m => h.rewrite rs m) h).get? c =
      if ∃ m ∈ ms, c = m.corner + Variant.middle then some empty else h.get? c := by
  induction ms generalizing h with
  | nil => simp
  | cons m ms ih =>
    obtain ⟨⟨rule, v, o, hv⟩, rest⟩ := List.forall_mem_cons.1 all
    rw [List.foldl_cons, ih rest ((Grid.extent_rewrite h rs m).trans he), o.get?_rewrite he,
      o.tileOn?_of_clears hv]
    by_cases hm : c = m.corner + Variant.middle
    · simp [hm]
    · simp [hm]

lemma connected_foldl (all : AllClear ms g rs uses step) (hg : Connected layer g) :
    Connected layer (ms.foldl (fun h m => h.rewrite rs m) g) := by
  apply hg.prune (K := fun c => ∃ m ∈ ms, c = m.corner + Variant.middle)
  · rintro c ⟨m, hm, rfl⟩
    obtain ⟨rule, v, o, hv⟩ := all m hm
    exact o.exists_only_neighbour hv
  · rintro c ⟨m, hm, rfl⟩ hr
    obtain ⟨rule, v, o, hv⟩ := all m hm
    rw [Grid.tileAt_of_mem (o.middle_mem hv), o.tileAt_middle hv] at hr
    exact absurd hr (by decide)
  · rintro c cleared ⟨t, ht, hc⟩
    rw [get?_foldl_of_allClear all rfl, if_pos cleared] at hc
    obtain rfl := Option.some.inj hc
    exact absurd ht (by decide)
  · intro c uncleared
    rw [get?_foldl_of_allClear all rfl, if_neg uncleared]

end Sweep

end TileGrammar
