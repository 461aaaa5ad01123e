import TileGrammar.Proofs.Session.Batch

/-!
In every run on empty ground the layout of the dungeon is connected. A run starts from one room, its
single steps grow the layout or clear a leaf of it, and its closing sweep clears leaves only.
-/

namespace TileGrammar

open Dungeon

section Start

def roomExtent : Cell := ⟨3, 1, 3⟩

lemma mem_room_iff {o : Cell} :
    o ∈ Box.ofExtent roomExtent ↔ (0 ≤ o.x ∧ o.x < 3) ∧ o.y = 0 ∧ 0 ≤ o.z ∧ o.z < 3 := by
  rw [Box.mem_ofExtent]
  dsimp only [roomExtent]
  omega

lemma exists_room : ∃ room, ruleSet.start = some room ∧ room.extent = roomExtent ∧
    ∀ o ∈ Box.ofExtent roomExtent, room.tileAt o = ⟨"R"⟩ := by
  have h : (ruleSet.start.any fun room => decide (room.extent = roomExtent ∧
      ∀ o ∈ Box.ofExtent roomExtent, room.tileAt o = ⟨"R"⟩)) = true := by decide +kernel
  simpa only [Option.any_eq_true, decide_eq_true_eq] using h

lemma joined_of_eq_or_beside {S : Cell → Prop} {a b : Cell} (ha : S a) (hb : S b)
    (h : a = b ∨ a.Beside b) : Joined S a b := by
  rcases h with rfl | h
  · exact .refl
  · exact .single ⟨ha, hb, h⟩

lemma joined_of_mem_room {S : Cell → Prop} {corner o : Cell}
    (hS : ∀ o ∈ Box.ofExtent roomExtent, S (corner + o)) (ho : o ∈ Box.ofExtent roomExtent) :
    Joined S (corner + ⟨1, 0, 1⟩) (corner + o) := by
  obtain ⟨x, y, z⟩ := o
  obtain ⟨hx, hy, hz⟩ := mem_room_iff.1 ho
  dsimp only at hx hy hz
  have hmid : S (corner + ⟨1, 0, 1⟩) := hS _ (by decide)
  have hside : S (corner + ⟨x, 0, 1⟩) := hS _ (mem_room_iff.2 ⟨hx, rfl, by simp⟩)
  have near₁ : corner + ⟨1, 0, 1⟩ = corner + ⟨x, 0, 1⟩ ∨
      (corner + ⟨1, 0, 1⟩).Beside (corner + ⟨x, 0, 1⟩) := by
    simp only [Cell.beside_iff, Cell.ext_iff, Cell.add_x, Cell.add_y, Cell.add_z, true_and, and_true]
    omega
  have near₂ : corner + ⟨x, 0, 1⟩ = corner + ⟨x, y, z⟩ ∨
      (corner + ⟨x, 0, 1⟩).Beside (corner + ⟨x, y, z⟩) := by
    simp only [Cell.beside_iff, Cell.ext_iff, Cell.add_x, Cell.add_y, Cell.add_z, true_and]
    omega
  exact (joined_of_eq_or_beside hmid hside near₁).trans
    (joined_of_eq_or_beside hside (hS _ ho) near₂)

lemma connected_stamp {g : Grid} {room : Pattern} {corner : Cell}
    (inside : (⟨corner, room.extent⟩ : Box).Inside g.extent) (hextent : room.extent = roomExtent)
    (htiles : ∀ o ∈ Box.ofExtent roomExtent, room.tileAt o = ⟨"R"⟩)
    (blank : ∀ c ∈ g.bounds, g.tileAt c = empty) : Connected corner.y (g.stamp room corner) := by
  have bounds_eq : (g.stamp room corner).bounds = g.bounds := by
    rw [Grid.bounds, Grid.extent_stamp, Grid.bounds]
  have get : ∀ o ∈ Box.ofExtent roomExtent,
      (g.stamp room corner).get? (corner + o) = some ⟨"R"⟩ := by
    intro o ho
    have hin := Grid.add_mem_bounds inside (hextent ▸ ho)
    rw [Grid.tileAt_of_mem (bounds_eq ▸ hin), Grid.tileAt_stamp_add inside (hextent ▸ ho),
      htiles o ho, if_neg (by decide)]
  have within : ∀ c, Solid (g.stamp room corner) c →
      ∃ o ∈ Box.ofExtent roomExtent, c = corner + o := by
    intro c hc
    obtain ⟨hb, ht⟩ := solid_iff.1 hc
    rw [bounds_eq] at hb
    by_cases hm : c ∈ (⟨corner, room.extent⟩ : Box)
    · obtain ⟨o, ho, he⟩ := Box.exists_add_of_mem hm
      exact ⟨o, hextent ▸ ho, he⟩
    · rw [Grid.tileAt_stamp_of_notMem inside hb hm, blank c hb] at ht
      exact absurd ht (by decide)
  refine ⟨fun c hc => ?_, corner + ⟨1, 0, 1⟩, get _ (by decide), fun c hc => ?_⟩
  · obtain ⟨o, ho, rfl⟩ := within c hc
    rw [Cell.add_y, (mem_room_iff.1 ho).2.1, Int.add_zero]
  · obtain ⟨o, ho, rfl⟩ := within c hc
    apply joined_of_mem_room _ ho
    intro o ho
    exact solid_of_room (get o ho)

lemma exists_placed_room {g : Grid} (wide : 3 ≤ g.extent.x ∧ 3 ≤ g.extent.z) :
    ∃ room corner, g.placeStart ruleSet = g.stamp room corner ∧
      (⟨corner, room.extent⟩ : Box).Inside g.extent ∧ corner.y = (g.extent.y - 1) / 2 ∧
      room.extent = roomExtent ∧ ∀ o ∈ Box.ofExtent roomExtent, room.tileAt o = ⟨"R"⟩ := by
  obtain ⟨room, hstart, hextent, htiles⟩ := exists_room
  have proper := Cell.proper_iff.1 g.proper
  have fits : roomExtent ≤ g.extent := ⟨wide.1, proper.2.1, wide.2⟩
  have hy : (centeredCorner g.extent roomExtent).y = (g.extent.y - 1) / 2 := by
    apply Int.tdiv_eq_ediv_of_nonneg
    simp only [Cell.sub_y, roomExtent]
    omega
  have placed : g.placeStart ruleSet = g.stamp room (centeredCorner g.extent roomExtent) := by
    rw [Grid.placeStart, hstart]
    simp only [hextent, if_pos fits]
  exact ⟨room, _, placed, hextent.symm ▸ inside_centeredCorner fits, hy, hextent, htiles⟩

lemma connected_placeStart {g : Grid} (blank : ∀ c ∈ g.bounds, g.tileAt c = empty)
    (wide : 3 ≤ g.extent.x ∧ 3 ≤ g.extent.z) :
    Connected ((g.extent.y - 1) / 2) (g.placeStart ruleSet) := by
  obtain ⟨room, corner, placed, inside, hy, hextent, htiles⟩ := exists_placed_room wide
  rw [placed, ← hy]
  exact connected_stamp inside hextent htiles blank

end Start

lemma Dungeon.Batch.connected {layer : Int} {g : Grid} {uses : Tally} {step : Nat}
    {ms : List Match} (h : Batch g uses step ms) (hg : Connected layer g) :
    Connected layer (ms.foldl (fun g m => g.rewrite ruleSet m) g) := by
  cases h with
  | grow o hv => exact o.connected_rewrite hv hg
  | clear _ all => exact connected_foldl all hg

namespace Session

variable {σ : Type} {s t : Session σ} {settings : Settings} {layer : Int}

variable [RandomSource σ]

lemma connected_step {b : Bool} (h : Sound settings s)
    (sweep : settings.finishWithSweep = none ∨ settings.finishWithSweep = some cleanup)
    (ht : Step s b t) (hg : Connected layer s.generation.grid) :
    Connected layer t.generation.grid := by
  obtain ⟨ms, batch, applies⟩ := exists_batch_of_step h sweep ht
  rw [applies.grid_eq]
  exact batch.connected hg

lemma grid_restart (h : Sound settings s) (blank : settings.fill = ".") :
    s.restart.generation.grid = (s.generation.grid.fill empty).placeStart ruleSet := by
  rw [empty, ← blank, ← h.settings_eq, ← h.rules_eq]
  rfl

lemma connected_restart (h : Sound settings s) (blank : settings.fill = ".")
    (wide : 3 ≤ settings.extent.x ∧ 3 ≤ settings.extent.z) :
    Connected ((settings.extent.y - 1) / 2) s.restart.generation.grid := by
  rw [← h.extent_eq] at wide ⊢
  rw [grid_restart h blank]
  exact connected_placeStart (g := s.generation.grid.fill empty)
    (fun c hc => Grid.tileAt_fill hc _) wide

theorem layout_connected (h : Reachable settings s) (blank : settings.fill = ".")
    (wide : 3 ≤ settings.extent.x ∧ 3 ≤ settings.extent.z)
    (sweep : settings.finishWithSweep = none ∨ settings.finishWithSweep = some cleanup) (n : Nat) :
    let g := (s.restart.after n).generation.grid
    (∀ c, Solid g c → c.y = (g.extent.y - 1) / 2) ∧ (∃ c, Solid g c) ∧
      ∀ a b, Solid g a → Solid g b → Joined (Solid g) a b := by
  have sound := sound_restart h.sound
  have connected : Connected ((settings.extent.y - 1) / 2)
      (s.restart.after n).generation.grid := by
    induction n with
    | zero => exact connected_restart h.sound blank wide
    | succ n ih =>
      rw [after_succ]
      exact connected_step (sound_after sound n) sweep (step_advance _) ih
  intro g
  obtain ⟨root, hroot, -⟩ := connected.rooted
  refine ⟨?_, ⟨root, solid_of_room hroot⟩, fun a b ha hb => connected.joined ha hb⟩
  rw [show g.extent = settings.extent from (sound_after sound n).extent_eq]
  exact connected.flat

theorem layout_connected_small :
    let settings : Settings :=
      { gridSize := (9, 1, 9), strategy := .first, finishWithSweep := some cleanup }
    ∃ s : Session Script, Reachable settings s ∧ settings.fill = "." ∧
      (3 ≤ settings.extent.x ∧ 3 ≤ settings.extent.z) ∧
      let g := (s.restart.after 40).generation.grid
      (∀ c, Solid g c → c.y = (g.extent.y - 1) / 2) ∧ (∃ c, Solid g c) ∧
        ∀ a b, Solid g a → Solid g b → Joined (Solid g) a b := by
  intro settings
  obtain ⟨s, hs, -⟩ := exists_create settings ({ numbers := [] } : Script) (by decide)
  have reachable : Reachable settings s := .create _ hs
  have wide : 3 ≤ settings.extent.x ∧ 3 ≤ settings.extent.z := by decide
  exact ⟨s, reachable, rfl, wide, layout_connected reachable rfl wide (.inr rfl) 40⟩

end Session

end TileGrammar
