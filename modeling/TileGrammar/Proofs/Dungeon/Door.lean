import TileGrammar.Proofs.Dungeon.Connected

/-!
The doors of a dungeon. A door is drawn between a room cell and a corridor cell. Nothing removes room
cells or doors, and a corridor cell is cleared only where no door is beside it.
-/

namespace TileGrammar

def Cell.ways : List Cell := [⟨1, 0, 0⟩, ⟨-1, 0, 0⟩, ⟨0, 0, 1⟩, ⟨0, 0, -1⟩]

lemma Cell.add_add (a b c : Cell) : a + b + c = a + (b + c) := by
  simp only [Cell.ext_iff, add_x, add_y, add_z]
  omega

lemma Cell.add_sub (a b c : Cell) : a + b - c = a + (b - c) := by
  simp only [Cell.ext_iff, add_x, add_y, add_z, sub_x, sub_y, sub_z]
  omega

lemma Cell.sub_beside {p u : Cell} (hu : u ∈ ways) : (p - u).Beside p := by
  rw [ways] at hu
  simp only [List.mem_cons, List.not_mem_nil, or_false] at hu
  rw [beside_iff]
  rcases hu with rfl | rfl | rfl | rfl <;> simp

namespace Variant

def Frames (v : Variant) : Prop :=
  ∀ o ∈ Box.ofExtent v.right.extent, v.right.tileAt o = ⟨"D"⟩ →
    ∃ u ∈ Cell.ways, (o + u ∈ Box.ofExtent v.right.extent ∧ v.right.tileAt (o + u) = ⟨"R"⟩) ∧
      o - u ∈ Box.ofExtent v.right.extent ∧ v.right.tileAt (o - u) = ⟨"C"⟩

instance : DecidablePred Frames := fun v =>
  inferInstanceAs (Decidable (∀ o ∈ Box.ofExtent v.right.extent, v.right.tileAt o = ⟨"D"⟩ →
    ∃ u ∈ Cell.ways, (o + u ∈ Box.ofExtent v.right.extent ∧ v.right.tileAt (o + u) = ⟨"R"⟩) ∧
      o - u ∈ Box.ofExtent v.right.extent ∧ v.right.tileAt (o - u) = ⟨"C"⟩))

def Spares (v : Variant) : Prop :=
  ∀ o ∈ Box.ofExtent v.left.extent, middle.Beside o → (v.left.tileAt o).accepts ⟨"D"⟩ = false

instance : DecidablePred Spares := fun v =>
  inferInstanceAs (Decidable (∀ o ∈ Box.ofExtent v.left.extent, middle.Beside o →
    (v.left.tileAt o).accepts ⟨"D"⟩ = false))

end Variant

namespace Dungeon

def Doored (g : Grid) : Prop :=
  ∀ p, g.get? p = some ⟨"D"⟩ →
    ∃ u ∈ Cell.ways, g.get? (p + u) = some ⟨"R"⟩ ∧ g.get? (p - u) = some ⟨"C"⟩

lemma frames : ∀ rule ∈ ruleSet.rules, ∀ v ∈ rule.variants, v.Frames := by decide +kernel

lemma spares : ∀ rule ∈ ruleSet.rules, ∀ v ∈ rule.variants, v.Clears → v.Spares := by
  decide +kernel

section Batch

variable {m : Match} {rule : Rule} {v : Variant} {g : Grid} {uses : Tally} {step : Nat}
  {ms : List Match} {p : Cell}

lemma keeps_of_allClear (all : AllClear ms g ruleSet uses step) {t : Tile} (ht : t ≠ ⟨"C"⟩)
    (hp : g.get? p = some t) : (ms.foldl (fun g m => g.rewrite ruleSet m) g).get? p = some t := by
  rw [get?_foldl_of_allClear all rfl, if_neg, hp]
  rintro ⟨m, hm, rfl⟩
  obtain ⟨rule, v, o, hv⟩ := all m hm
  rw [Grid.tileAt_of_mem (o.middle_mem hv), o.tileAt_middle hv] at hp
  exact ht (Option.some.inj hp).symm

lemma Batch.keeps (h : Batch g uses step ms) {t : Tile} (ht : t = ⟨"R"⟩ ∨ t = ⟨"D"⟩)
    (hp : g.get? p = some t) : (ms.foldl (fun g m => g.rewrite ruleSet m) g).get? p = some t := by
  cases h with
  | grow o hv =>
    apply o.kept_of_grows hv _ hp
    rcases ht with rfl | rfl <;> decide
  | clear _ all =>
    apply keeps_of_allClear all _ hp
    rcases ht with rfl | rfl <;> decide

lemma doored_rewrite (o : m.Occurs rule v g ruleSet uses step) (hv : v.Grows) (hg : Doored g) :
    Doored (g.rewrite ruleSet m) := by
  intro p hp
  rcases o.get?_or_drawn hp with old | ⟨d, hd, rfl, door⟩
  · obtain ⟨u, hu, room, corridor⟩ := hg p old
    exact ⟨u, hu, o.kept_of_grows hv (by decide) room, o.kept_of_grows hv (by decide) corridor⟩
  · obtain ⟨u, hu, ⟨hroom, room⟩, hcorridor, corridor⟩ :=
      frames rule (List.mem_of_getElem? o.rule_eq) v (List.mem_of_getElem? o.variant_eq) d hd door
    refine ⟨u, hu, ?_, ?_⟩
    · rw [Cell.add_add, ← room]
      exact o.get?_rewrite_add hroom (by rw [room]; decide)
    · rw [Cell.add_sub, ← corridor]
      exact o.get?_rewrite_add hcorridor (by rw [corridor]; decide)

lemma not_beside_door (all : AllClear ms g ruleSet uses step) (hp : g.get? p = some ⟨"D"⟩) :
    ∀ m ∈ ms, ¬ (m.corner + Variant.middle).Beside p := by
  intro m hm beside
  obtain ⟨rule, v, o, hv⟩ := all m hm
  obtain ⟨d, rfl⟩ := Cell.exists_eq_add m.corner p
  rw [Cell.beside_add_iff] at beside
  have hd := hv.beside_mem beside
  have refused := spares rule (List.mem_of_getElem? o.rule_eq) v
    (List.mem_of_getElem? o.variant_eq) hv d hd beside
  have accepted := o.accepts_left hd
  rw [(Grid.get?_eq_some_iff.1 hp).2, refused] at accepted
  cases accepted

lemma doored_foldl (all : AllClear ms g ruleSet uses step) (hg : Doored g) :
    Doored (ms.foldl (fun g m => g.rewrite ruleSet m) g) := by
  intro p hp
  rw [get?_foldl_of_allClear all rfl] at hp
  split at hp
  · exact absurd hp (by decide)
  · obtain ⟨u, hu, room, corridor⟩ := hg p hp
    refine ⟨u, hu, keeps_of_allClear all (by decide) room, ?_⟩
    rw [get?_foldl_of_allClear all rfl, if_neg, corridor]
    rintro ⟨m, hm, he⟩
    exact not_beside_door all hp m hm (he ▸ Cell.sub_beside hu)

lemma Batch.doored (h : Batch g uses step ms) (hg : Doored g) :
    Doored (ms.foldl (fun g m => g.rewrite ruleSet m) g) := by
  cases h with
  | grow o hv => exact doored_rewrite o hv hg
  | clear _ all => exact doored_foldl all hg

end Batch

lemma doored_placeStart {g : Grid} (wide : 3 ≤ g.extent.x ∧ 3 ≤ g.extent.z) :
    Doored ((g.fill empty).placeStart ruleSet) := by
  obtain ⟨room, corner, placed, inside, -, extent, tiles⟩ :=
    exists_placed_room (g := g.fill empty) wide
  intro p hp
  rw [placed] at hp
  obtain ⟨hb, tile⟩ := Grid.get?_eq_some_iff.1 hp
  rw [Grid.bounds, Grid.extent_stamp] at hb
  by_cases hm : p ∈ (⟨corner, room.extent⟩ : Box)
  · obtain ⟨o, ho, rfl⟩ := Box.exists_add_of_mem hm
    rw [Grid.tileAt_stamp_add inside ho, tiles o (extent ▸ ho), if_neg (by decide)] at tile
    exact absurd tile (by decide)
  · rw [Grid.tileAt_stamp_of_notMem inside hb hm] at tile
    rw [Grid.extent_fill] at hb
    rw [Grid.tileAt_fill hb] at tile
    exact absurd tile (by decide)

end Dungeon

namespace Session

open Dungeon

variable {σ : Type} [RandomSource σ] {s : Session σ} {settings : Settings}

lemma doored_after (h : Sound settings s) (blank : settings.fill = ".")
    (wide : 3 ≤ settings.extent.x ∧ 3 ≤ settings.extent.z)
    (sweep : settings.finishWithSweep = none ∨ settings.finishWithSweep = some cleanup) (n : Nat) :
    Doored (s.restart.after n).generation.grid := by
  refine after_induction (P := fun g _ => Doored g) (sound_restart h) sweep ?_ ?_ n
  · rw [← h.extent_eq] at wide
    rw [grid_restart h blank]
    exact doored_placeStart wide
  · intro g uses step ms batch hg
    exact batch.doored hg

lemma keeps_after (h : Sound settings s)
    (sweep : settings.finishWithSweep = none ∨ settings.finishWithSweep = some cleanup) {p : Cell}
    {t : Tile} (ht : t = ⟨"R"⟩ ∨ t = ⟨"D"⟩) (hp : s.generation.grid.get? p = some t) (n : Nat) :
    (s.after n).generation.grid.get? p = some t := by
  refine after_induction (P := fun g _ => g.get? p = some t) h sweep hp ?_ n
  intro g uses step ms batch hg
  exact batch.keeps ht hg

theorem doors_join_and_rooms_stay (h : Reachable settings s) (blank : settings.fill = ".")
    (wide : 3 ≤ settings.extent.x ∧ 3 ≤ settings.extent.z)
    (sweep : settings.finishWithSweep = none ∨ settings.finishWithSweep = some cleanup) :
    let g (n : Nat) : Grid := (s.restart.after n).generation.grid
    (∀ n p, (g n).get? p = some ⟨"D"⟩ →
      ∃ u ∈ Cell.ways, (g n).get? (p + u) = some ⟨"R"⟩ ∧ (g n).get? (p - u) = some ⟨"C"⟩) ∧
      ∀ i j p t, i ≤ j → t = ⟨"R"⟩ ∨ t = ⟨"D"⟩ → (g i).get? p = some t → (g j).get? p = some t := by
  intro g
  constructor
  · exact doored_after h.sound blank wide sweep
  · intro i j p t le ht hp
    obtain ⟨k, rfl⟩ := Nat.exists_eq_add_of_le le
    have sound := sound_after (sound_restart h.sound) i
    dsimp only [g]
    rw [after_add]
    exact keeps_after sound sweep ht hp k

theorem doors_join_and_rooms_stay_narrow :
    let settings : Settings :=
      { gridSize := (9, 1, 3), strategy := .last, finishWithSweep := some cleanup }
    ∃ s : Session Script, Reachable settings s ∧ settings.fill = "." ∧
      (3 ≤ settings.extent.x ∧ 3 ≤ settings.extent.z) ∧
      let g (n : Nat) : Grid := (s.restart.after n).generation.grid
      let p : Cell := ⟨2, 0, 2⟩
      (g 1).get? p = some ⟨"D"⟩ ∧
        (∃ u ∈ Cell.ways, (g 1).get? (p + u) = some ⟨"R"⟩ ∧ (g 1).get? (p - u) = some ⟨"C"⟩) ∧
        (g 3).get? p = some ⟨"D"⟩ := by
  intro settings
  obtain ⟨s, hs, -⟩ := exists_create settings ({ numbers := [] } : Script) (by decide)
  have reachable : Reachable settings s := .create _ hs
  have wide : 3 ≤ settings.extent.x ∧ 3 ≤ settings.extent.z := by decide
  have door : (create settings ({ numbers := [] } : Script)).toOption.bind (fun s =>
      (s.restart.after 1).generation.grid.get? ⟨2, 0, 2⟩) = some ⟨"D"⟩ := by
    decide +kernel
  rw [hs] at door
  obtain ⟨join, stay⟩ := doors_join_and_rooms_stay reachable rfl wide (.inr rfl)
  exact ⟨s, reachable, rfl, wide, door, join 1 _ door,
    stay 1 3 _ _ (by decide) (.inr rfl) door⟩

end Session

end TileGrammar
