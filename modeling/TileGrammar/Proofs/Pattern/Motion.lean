import TileGrammar.Proofs.Geometry.Motion
import TileGrammar.Rule.Basic
import Mathlib.Data.List.Nodup

namespace TileGrammar

namespace Pattern

variable {p q : Pattern} {o : Cell}

lemma tileAt_ofPosition (p : Pattern) {n : Nat} (hn : n < p.tiles.size) :
    p.tileAt (p.extent.ofPosition n) = p.tiles[n] := by
  have h₀ : ¬ (n : Int) < 0 := by omega
  simp [tileAt, get?, Cell.position_ofPosition p.proper, hn, h₀]

lemma ext_tileAt (he : p.extent = q.extent)
    (ht : ∀ o ∈ Box.ofExtent p.extent, p.tileAt o = q.tileAt o) : p = q := by
  apply ext_tiles he
  apply Array.ext
  · rw [p.size_tiles, q.size_tiles, he]
  · intro n hp hq
    have hn : n < p.extent.volume := p.size_tiles ▸ hp
    rw [← tileAt_ofPosition p hp, ← tileAt_ofPosition q hq, ← he]
    exact ht _ (Cell.ofPosition_mem p.proper hn)

end Pattern

namespace Motion

def pattern : Motion → Pattern → Pattern
  | mirror => Pattern.mirrored
  | turn => Pattern.turned

def variant (t : Motion) (v : Variant) : Variant := ⟨t.pattern v.left, t.pattern v.right⟩

section Patterns

variable (t : Motion) {p q : Pattern} {o : Cell}

@[simp] lemma extent_pattern (p : Pattern) : (t.pattern p).extent = t.extent p.extent := by
  cases t <;> rfl

lemma tileAt_pattern (ho : o ∈ Box.ofExtent (t.extent p.extent)) :
    (t.pattern p).tileAt o = p.tileAt (t.source p.extent o) := by
  cases t with
  | mirror => exact Pattern.tileAt_tabulate _ _ ho
  | turn => exact Pattern.tileAt_tabulate _ _ ho

lemma tileAt_pattern_cell (ho : o ∈ Box.ofExtent p.extent) :
    (t.pattern p).tileAt (t.cell p.extent o) = p.tileAt o := by
  rw [tileAt_pattern t ((cell_mem_ofExtent t).2 ho), source_cell]

lemma pattern_injective (h : t.pattern p = t.pattern q) : p = q := by
  have he : p.extent = q.extent := by
    apply t.extent_injective
    rw [← extent_pattern, h, extent_pattern]
  apply Pattern.ext_tileAt he
  intro o ho
  rw [← tileAt_pattern_cell t ho, h, he, tileAt_pattern_cell t (he ▸ ho)]

lemma variant_injective {v w : Variant} (h : t.variant v = t.variant w) : v = w := by
  obtain ⟨hl, hr⟩ := Variant.mk.inj h
  exact congrArg₂ Variant.mk (t.pattern_injective hl) (t.pattern_injective hr)

end Patterns

end Motion

namespace Pattern

variable {p : Pattern} {o : Cell}

@[simp] lemma extent_mirrored (p : Pattern) : p.mirrored.extent = p.extent := rfl

@[simp] lemma extent_turned (p : Pattern) :
    p.turned.extent = ⟨p.extent.z, p.extent.y, p.extent.x⟩ := rfl

lemma tileAt_mirrored (ho : o ∈ Box.ofExtent p.extent) :
    p.mirrored.tileAt o = p.tileAt ⟨p.extent.x - 1 - o.x, o.y, o.z⟩ :=
  Motion.mirror.tileAt_pattern ho

lemma tileAt_turned (ho : o ∈ Box.ofExtent p.turned.extent) :
    p.turned.tileAt o = p.tileAt ⟨p.extent.x - 1 - o.z, o.y, o.x⟩ :=
  Motion.turn.tileAt_pattern ho

lemma tileAt_turned_turned (ho : o ∈ Box.ofExtent p.extent) :
    p.turned.turned.tileAt o = p.tileAt ⟨p.extent.x - 1 - o.x, o.y, p.extent.z - 1 - o.z⟩ := by
  rw [Box.mem_ofExtent] at ho
  rw [tileAt_turned, tileAt_turned]
  · rfl
  · simp only [extent_turned, Box.mem_ofExtent]
    omega
  · simp only [extent_turned, Box.mem_ofExtent]
    omega

lemma mirrored_mirrored (p : Pattern) : p.mirrored.mirrored = p := by
  apply ext_tileAt ((extent_mirrored p.mirrored).trans (extent_mirrored p))
  intro o ho
  simp only [extent_mirrored, Box.mem_ofExtent] at ho
  rw [tileAt_mirrored, tileAt_mirrored]
  · congr 1
    simp only [extent_mirrored, Cell.ext_iff, and_true]
    omega
  · simp only [extent_mirrored, Box.mem_ofExtent]
    omega
  · simp only [extent_mirrored, Box.mem_ofExtent]
    omega

lemma turned_turned_turned_turned (p : Pattern) : p.turned.turned.turned.turned = p := by
  apply ext_tileAt (extent_turned _)
  intro o ho
  simp only [extent_turned, Box.mem_ofExtent] at ho
  rw [tileAt_turned_turned, tileAt_turned_turned]
  · congr 1
    simp only [extent_turned, Cell.ext_iff, true_and]
    omega
  · simp only [extent_turned, Box.mem_ofExtent]
    omega
  · simp only [extent_turned, Box.mem_ofExtent]
    omega

lemma mirrored_turned (p : Pattern) : p.mirrored.turned = p.turned.turned.turned.mirrored := by
  apply ext_tileAt (extent_turned _)
  intro o ho
  simp only [extent_turned, extent_mirrored, Box.mem_ofExtent] at ho
  rw [tileAt_turned, tileAt_mirrored, tileAt_mirrored, tileAt_turned_turned, tileAt_turned]
  · congr 1
    simp only [extent_turned, extent_mirrored, Cell.ext_iff, true_and]
    omega
  all_goals
    simp only [extent_turned, extent_mirrored, Box.mem_ofExtent]
    omega

end Pattern

end TileGrammar
