import TileGrammar.Proofs.Dungeon.Connected
import TileGrammar.Proofs.Match.Footprint

/-!
The cells of a dungeon are accounted for by the uses of its rules. Matches that are swept together
clear different cells, so that every use has its whole effect on the counts of the labels.
-/

namespace TileGrammar

def Variant.Clashes (v w : Variant) : Prop :=
  ∃ o ∈ Box.ofExtent v.left.extent, o ∈ Box.ofExtent w.left.extent ∧
    v.left.tileAt o ≠ .wildcard ∧ w.left.tileAt o ≠ .wildcard ∧ v.left.tileAt o ≠ w.left.tileAt o

instance : DecidableRel Variant.Clashes := fun v w =>
  inferInstanceAs (Decidable (∃ o ∈ Box.ofExtent v.left.extent, o ∈ Box.ofExtent w.left.extent ∧
    v.left.tileAt o ≠ .wildcard ∧ w.left.tileAt o ≠ .wildcard ∧
      v.left.tileAt o ≠ w.left.tileAt o))

section Apart

variable {m n : Match} {rule rule' : Rule} {v w : Variant} {g : Grid} {rs : RuleSet} {uses : Tally}
  {step : Nat}

lemma Match.Occurs.corner_ne_of_clashes (hm : m.Occurs rule v g rs uses step)
    (hn : n.Occurs rule' w g rs uses step) (clash : v.Clashes w) : m.corner ≠ n.corner := by
  obtain ⟨o, hv, hw, dv, dw, differ⟩ := clash
  intro he
  apply differ
  rw [← hm.tileAt_eq_left hv dv, he, hn.tileAt_eq_left hw dw]

lemma Match.Occurs.eq_middle_of_writes (hm : m.Occurs rule v g rs uses step) (hv : v.Clears)
    {c : Cell} (hc : rs.Writes m c) : c = m.corner + Variant.middle := by
  obtain ⟨p, hp, solid, rfl⟩ := hm.writes_iff.1 hc
  obtain ⟨hb, ht⟩ := Pattern.mem_cells.1 hp
  by_contra hne
  apply solid
  rw [← ht]
  apply hv.right_eq
  · rwa [hm.extent_left]
  · intro he
    exact hne (by rw [he])

lemma apart_of_clears (hm : m.Occurs rule v g rs uses step) (hv : v.Clears)
    (hn : n.Occurs rule' w g rs uses step) (hw : w.Clears) (differ : m.corner ≠ n.corner) :
    rs.Apart m n := by
  intro c hc hc'
  apply differ
  have he := (hm.eq_middle_of_writes hv hc).symm.trans (hn.eq_middle_of_writes hw hc')
  simp only [Cell.ext_iff, Cell.add_x, Cell.add_y, Cell.add_z] at he ⊢
  omega

end Apart

namespace Dungeon

def labels : List String := ["R", "D", "C", "."]

section Gains

variable {rule : Rule} {v : Variant} {label : String}

def gains : List (String × List Int) :=
  [("corridor/start", [0, 1, 1, -2]), ("corridor/extend", [0, 0, 1, -1]),
    ("room/place", [8, 1, 0, -9]), ("cleanup/dead_end", [0, 0, -1, 1])]

lemma gains_eq : (ruleSet.rules.map fun rule => (rule.name, labels.map rule.gain)) = gains := by
  decide +kernel

lemma nodup_names : ruleSet.names.Nodup := by decide +kernel

lemma adds_gain_of_mem : ∀ rule ∈ ruleSet.rules, ∀ v ∈ rule.variants, ∀ label ∈ labels,
    v.Adds label (rule.gain label) := by
  decide +kernel

lemma labelled : ∀ rule ∈ ruleSet.rules, ∀ v ∈ ⟨rule.left, rule.right⟩ :: rule.variants,
    ∀ p ∈ v.right.cells, p.2 ≠ .wildcard →
      p.2.label ∈ labels ∧ (v.left.tileAt p.1).label ∈ labels := by
  decide +kernel

lemma written_and_covered_eq_zero (hr : rule ∈ ruleSet.rules)
    (hv : v ∈ ⟨rule.left, rule.right⟩ :: rule.variants) (other : label ∉ labels) :
    Grid.written label v.right.cells = 0 ∧
      Grid.covered label v.left.tileAt v.right.cells = 0 := by
  have differ : ∀ p ∈ v.right.cells, p.2 ≠ .wildcard →
      p.2.label ≠ label ∧ (v.left.tileAt p.1).label ≠ label := by
    intro p hp hw
    obtain ⟨right, left⟩ := labelled rule hr v hv p hp hw
    exact ⟨fun he => other (he ▸ right), fun he => other (he ▸ left)⟩
  simp only [Grid.written, Grid.covered, List.countP_eq_zero]
  constructor
  · intro p hp
    simpa [Tile.isWildcard] using fun hw => (differ p hp hw).1
  · intro p hp
    simpa [Tile.isWildcard] using fun hw => (differ p hp hw).2

lemma gain_eq_zero (hr : rule ∈ ruleSet.rules) (other : label ∉ labels) : rule.gain label = 0 := by
  obtain ⟨written, covered⟩ := written_and_covered_eq_zero hr List.mem_cons_self other
  rw [Rule.gain, written, covered]
  rfl

lemma adds_gain (hr : rule ∈ ruleSet.rules) (hv : v ∈ rule.variants) (label : String) :
    v.Adds label (rule.gain label) := by
  by_cases known : label ∈ labels
  · exact adds_gain_of_mem rule hr v hv label known
  · obtain ⟨written, covered⟩ := written_and_covered_eq_zero hr (List.mem_cons_of_mem _ hv) known
    rw [Variant.Adds, gain_eq_zero hr known, written, covered]
    rfl

lemma due_eq (uses : Tally) {i : Nat} (hi : labels[i]? = some label) : ruleSet.due uses label =
    (gains.map fun e => e.2.getD i 0 * (uses.count e.1 : Int)).sum := by
  rw [← gains_eq, List.map_map, RuleSet.due]
  congr 2
  funext rule
  simp [hi]

lemma due_eq_uses (uses : Tally) :
    ruleSet.due uses "R" = 8 * uses.count "room/place" ∧
      ruleSet.due uses "D" = uses.count "corridor/start" + uses.count "room/place" ∧
      ruleSet.due uses "C" = uses.count "corridor/start" + uses.count "corridor/extend" -
        uses.count "cleanup/dead_end" ∧
      ruleSet.due uses "." = uses.count "cleanup/dead_end" - 2 * uses.count "corridor/start" -
        uses.count "corridor/extend" - 9 * uses.count "room/place" := by
  rw [due_eq uses (i := 0) rfl, due_eq uses (i := 1) rfl, due_eq uses (i := 2) rfl,
    due_eq uses (i := 3) rfl]
  simp [gains]
  omega

lemma due_eq_zero (uses : Tally) (other : label ∉ labels) : ruleSet.due uses label = 0 := by
  rw [RuleSet.due]
  apply List.sum_eq_zero
  intro x hx
  obtain ⟨rule, hr, rfl⟩ := List.mem_map.1 hx
  rw [gain_eq_zero hr other, Int.zero_mul]

end Gains

section Batch

variable {g : Grid} {uses : Tally} {step : Nat} {ms : List Match}

lemma eq_or_clashes : ∀ a ∈ ruleSet.rules.zipIdx, ∀ v ∈ a.1.variants.zipIdx, v.1.Clears →
    ∀ b ∈ ruleSet.rules.zipIdx, ∀ w ∈ b.1.variants.zipIdx, w.1.Clears →
      (a.2 = b.2 ∧ v.2 = w.2) ∨ v.1.Clashes w.1 := by
  decide +kernel

lemma corner_ne_of_allClear (all : AllClear ms g ruleSet uses step) {m n : Match} (hm : m ∈ ms)
    (hn : n ∈ ms) (differ : m ≠ n) : m.corner ≠ n.corner := by
  obtain ⟨rule, v, om, hv⟩ := all m hm
  obtain ⟨rule', w, on, hw⟩ := all n hn
  have same := eq_or_clashes (rule, m.rule) (List.mem_zipIdx_iff_getElem?.2 om.rule_eq)
    (v, m.variant) (List.mem_zipIdx_iff_getElem?.2 om.variant_eq) hv
    (rule', n.rule) (List.mem_zipIdx_iff_getElem?.2 on.rule_eq)
    (w, n.variant) (List.mem_zipIdx_iff_getElem?.2 on.variant_eq) hw
  rcases same with ⟨hr, hk⟩ | clash
  · intro hc
    apply differ
    have he : m.extent = n.extent := by
      rw [om.extent_eq, on.extent_eq, hv.extent_eq, hw.extent_eq]
    cases m
    cases n
    simp_all
  · exact om.corner_ne_of_clashes on clash

lemma Batch.adds (h : Batch g uses step ms) (label : String) : ∀ m ∈ ms, ∃ rule v,
    m.Occurs rule v g ruleSet uses step ∧ v.Definite ∧ v.Adds label (rule.gain label) := by
  have adds : ∀ {m : Match} {rule : Rule} {v : Variant}, m.Occurs rule v g ruleSet uses step →
      v.Definite ∧ v.Adds label (rule.gain label) := by
    intro m rule v o
    have hr := List.mem_of_getElem? o.rule_eq
    have hv := List.mem_of_getElem? o.variant_eq
    exact ⟨(definite_and_role rule hr v hv).1, adds_gain hr hv label⟩
  cases h with
  | grow o _ =>
    intro n hn
    obtain rfl := List.mem_singleton.1 hn
    exact ⟨_, _, o, adds o⟩
  | clear _ all =>
    intro n hn
    obtain ⟨rule, v, o, -⟩ := all n hn
    exact ⟨rule, v, o, adds o⟩

lemma Batch.apart (h : Batch g uses step ms) : ms.Pairwise ruleSet.Apart := by
  cases h with
  | grow _ _ => exact List.pairwise_singleton _ _
  | clear nodup all =>
    refine List.Pairwise.imp_of_mem (fun {m n} hm hn differ => ?_) nodup
    obtain ⟨rule, v, om, hv⟩ := all m hm
    obtain ⟨rule', w, on, hw⟩ := all n hn
    exact apart_of_clears om hv on hw (corner_ne_of_allClear all hm hn differ)

lemma Batch.count_sub_due (h : Batch g uses step ms) (label : String) :
    ((ms.foldl (fun g m => g.rewrite ruleSet m) g).count label : Int) -
        ruleSet.due (ms.foldl (fun uses m => uses.use ruleSet m) uses) label =
      g.count label - ruleSet.due uses label :=
  Grid.count_sub_due_foldl nodup_names rfl (h.adds label) h.apart fun _ _ _ _ => rfl

end Batch

section Start

variable {g : Grid} {label : String}

def base (volume : Nat) (label : String) : Int :=
  (if empty.label = label then (volume : Int) - 9 else 0) + if "R" = label then 9 else 0

lemma base_eq (volume : Nat) : base volume "R" = 9 ∧ base volume "D" = 0 ∧ base volume "C" = 0 ∧
    base volume "." = volume - 9 := by
  simp [base, empty]

lemma base_eq_zero (volume : Nat) (other : label ∉ labels) : base volume label = 0 := by
  simp only [labels, List.mem_cons, List.not_mem_nil, or_false, not_or] at other
  rw [base, if_neg fun he => other.2.2.2 he.symm, if_neg fun he => other.1 he.symm]
  rfl

lemma count_placeStart (wide : 3 ≤ g.extent.x ∧ 3 ≤ g.extent.z) :
    (((g.fill empty).placeStart ruleSet).count label : Int) = base g.extent.volume label := by
  obtain ⟨room, corner, placed, inside, -, extent, tiles⟩ :=
    exists_placed_room (g := g.fill empty) wide
  have nine : room.cells.length = 9 := by
    rw [room.length_cells, extent]
    rfl
  have room_eq : ∀ p ∈ room.cells, p.2 = ⟨"R"⟩ := by
    intro p hp
    obtain ⟨ho, ht⟩ := Pattern.mem_cells.1 hp
    rw [← ht, tiles p.1 (extent ▸ ho)]
  have ground : ∀ p ∈ room.cells, (g.fill empty).tileAt (corner + p.1) = empty := by
    intro p hp
    have hc := Grid.forall_cells_mem_bounds inside p hp
    rw [Grid.bounds, Grid.extent_fill] at hc
    exact Grid.tileAt_fill hc _
  have count : ((g.fill empty).stamp room corner).count label +
        Grid.covered label (fun o => (g.fill empty).tileAt (corner + o)) room.cells =
      (g.fill empty).count label + Grid.written label room.cells := Grid.count_stamp inside
  rw [Grid.covered_of_forall (fun p hp => room_eq p hp ▸ by decide) ground,
    Grid.written_of_forall (by decide) room_eq, nine, Grid.count_fill] at count
  rw [placed, base]
  split_ifs at * <;> omega

end Start

end Dungeon

namespace Session

open Dungeon

variable {σ : Type} [RandomSource σ] {s : Session σ} {settings : Settings}

lemma count_restart (h : Sound settings s) (blank : settings.fill = ".")
    (wide : 3 ≤ settings.extent.x ∧ 3 ≤ settings.extent.z) (label : String) :
    (s.restart.generation.grid.count label : Int) = base settings.extent.volume label := by
  rw [← h.extent_eq] at wide ⊢
  rw [grid_restart h blank, count_placeStart wide]

lemma due_restart (label : String) :
    s.rules.due s.restart.generation.uses label = 0 := by
  apply List.sum_eq_zero
  intro x hx
  obtain ⟨rule, -, rfl⟩ := List.mem_map.1 hx
  simp [restart, Generation.reset]

lemma count_sub_due_after (h : Sound settings s) (blank : settings.fill = ".")
    (wide : 3 ≤ settings.extent.x ∧ 3 ≤ settings.extent.z)
    (sweep : settings.finishWithSweep = none ∨ settings.finishWithSweep = some cleanup) (n : Nat)
    (label : String) :
    ((s.restart.after n).generation.grid.count label : Int) -
        ruleSet.due (s.restart.after n).generation.uses label =
      base settings.extent.volume label := by
  refine after_induction (P := fun g uses => (g.count label : Int) - ruleSet.due uses label =
    base settings.extent.volume label) (sound_restart h) sweep ?_ ?_ n
  · have due := due_restart (s := s) label
    rw [h.rules_eq] at due
    rw [due, count_restart h blank wide, Int.sub_zero]
  · intro g uses step ms batch ih
    rw [← ih]
    exact batch.count_sub_due label

theorem layout_accounts (h : Reachable settings s) (blank : settings.fill = ".")
    (wide : 3 ≤ settings.extent.x ∧ 3 ≤ settings.extent.z)
    (sweep : settings.finishWithSweep = none ∨ settings.finishWithSweep = some cleanup) (n : Nat) :
    let g := (s.restart.after n).generation.grid
    let uses := (s.restart.after n).generation.uses
    let starts : Int := uses.count "corridor/start"
    let extensions : Int := uses.count "corridor/extend"
    let rooms : Int := uses.count "room/place"
    let trims : Int := uses.count "cleanup/dead_end"
    g.count "R" = 9 + 8 * rooms ∧ g.count "D" = starts + rooms ∧
      g.count "C" = starts + extensions - trims ∧
      g.count "." = settings.extent.volume - 9 - 2 * starts - extensions - 9 * rooms + trims ∧
      ∀ t ∈ g.tiles, t.label ∈ ["R", "D", "C", "."] := by
  have balance := count_sub_due_after h.sound blank wide sweep n
  obtain ⟨dueR, dueD, dueC, dueBlank⟩ := due_eq_uses (s.restart.after n).generation.uses
  obtain ⟨baseR, baseD, baseC, baseBlank⟩ := base_eq settings.extent.volume
  have room := balance "R"
  have door := balance "D"
  have corridor := balance "C"
  have ground := balance "."
  rw [dueR, baseR] at room
  rw [dueD, baseD] at door
  rw [dueC, baseC] at corridor
  rw [dueBlank, baseBlank] at ground
  refine ⟨by omega, by omega, by omega, by omega, fun t ht => ?_⟩
  by_contra other
  have none := balance t.label
  rw [due_eq_zero _ other, base_eq_zero _ other, Int.sub_zero, Int.natCast_eq_zero, Grid.count,
    Array.countP_eq_zero] at none
  exact none t ht (by simp)

theorem layout_accounts_narrow :
    let settings : Settings :=
      { gridSize := (9, 1, 3), strategy := .last, finishWithSweep := some cleanup }
    ∃ s : Session Script, Reachable settings s ∧ settings.fill = "." ∧
      (3 ≤ settings.extent.x ∧ 3 ≤ settings.extent.z) ∧
      let g := (s.restart.after 3).generation.grid
      g.count "R" = (9 : Int) ∧ g.count "D" = (1 : Int) ∧ g.count "C" = (1 : Int) ∧
        g.count "." = (16 : Int) ∧ ∀ t ∈ g.tiles, t.label ∈ ["R", "D", "C", "."] := by
  intro settings
  obtain ⟨s, hs, -⟩ := exists_create settings ({ numbers := [] } : Script) (by decide)
  have reachable : Reachable settings s := .create _ hs
  have wide : 3 ≤ settings.extent.x ∧ 3 ≤ settings.extent.z := by decide
  have uses : (create settings ({ numbers := [] } : Script)).toOption.map (fun s =>
      ["corridor/start", "corridor/extend", "room/place", "cleanup/dead_end"].map
        (s.restart.after 3).generation.uses.count) = some [1, 1, 0, 1] := by
    decide +kernel
  simp only [hs, Except.toOption, Option.map_some, List.map_cons, List.map_nil, Option.some.injEq,
    List.cons.injEq] at uses
  obtain ⟨starts, extensions, rooms, trims, -⟩ := uses
  obtain ⟨room, door, corridor, ground, known⟩ := layout_accounts reachable rfl wide (.inr rfl) 3
  rw [rooms] at room
  rw [starts, rooms] at door
  rw [starts, extensions, trims] at corridor
  rw [starts, extensions, rooms, trims] at ground
  exact ⟨s, reachable, rfl, wide, room, door, corridor, ground, known⟩

end Session

end TileGrammar
