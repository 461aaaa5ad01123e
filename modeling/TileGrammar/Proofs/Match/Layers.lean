import TileGrammar.Proofs.Grid.Notice
import TileGrammar.Proofs.Match.Footprint

/-!
Matches applied one after the other, whether or not they still match. Their right sides lie over the
grid in layers: a cell shows the uppermost layer that draws on it. Each match that draws on some
cell announces the box around its cells.
-/

namespace TileGrammar

lemma Cell.add_sub_cancel_left (a b : Cell) : a + b - a = b := by
  ext <;>
  · simp only [sub_x, sub_y, sub_z, add_x, add_y, add_z]
    omega

lemma Pattern.isAllWildcard_eq_false_iff {p : Pattern} :
    p.isAllWildcard = false ↔ ∃ q ∈ p.cells, q.2 ≠ .wildcard := by
  have tiles : p.cells.map Prod.snd = p.tiles.toList := by
    rw [cells, List.map_map]
    exact List.zipIdx_map_fst 0 _
  rw [isAllWildcard, Array.all_eq_false']
  constructor
  · rintro ⟨t, ht, hw⟩
    rw [← Array.mem_toList_iff, ← tiles, List.mem_map] at ht
    obtain ⟨q, hq, rfl⟩ := ht
    exact ⟨q, hq, fun wild => hw (Tile.isWildcard_iff.2 wild)⟩
  · rintro ⟨q, hq, hw⟩
    refine ⟨q.2, ?_, fun wild => hw (Tile.isWildcard_iff.1 wild)⟩
    rw [← Array.mem_toList_iff, ← tiles]
    exact List.mem_map_of_mem hq

namespace RuleSet

def tileOn? (rs : RuleSet) (c : Cell) (m : Match) : Option Tile :=
  match rs.replacement? m with
  | none => none
  | some (_, right) =>
    let tile := right.tileAt (c - m.corner)
    if c ∈ (⟨m.corner, right.extent⟩ : Box) ∧ tile ≠ .wildcard then some tile else none

def paints (rs : RuleSet) (m : Match) : Bool :=
  (rs.replacement? m).any fun r => !r.2.isAllWildcard

def notice? (rs : RuleSet) (m : Match) : Option Box :=
  (rs.replacement? m).bind fun r => Grid.noticed m.corner r.2.cells none

end RuleSet

namespace Match.Occurs

variable {m : Match} {rule : Rule} {v : Variant} {g h : Grid} {rs : RuleSet} {uses : Tally}
  {step : Nat} {c d : Cell}

section Layer

lemma tileOn?_of_notMem (o : m.Occurs rule v g rs uses step) (out : c ∉ m.bounds) :
    rs.tileOn? c m = none := by
  rw [RuleSet.tileOn?, RuleSet.replacement?_eq_some o.rule_eq o.variant_eq]
  exact if_neg fun inside => out (o.bounds_eq_right ▸ inside.1)

lemma tileOn?_add (o : m.Occurs rule v g rs uses step) (hd : d ∈ Box.ofExtent v.right.extent) :
    rs.tileOn? (m.corner + d) m =
      if v.right.tileAt d = .wildcard then none else some (v.right.tileAt d) := by
  have hm : m.corner + d ∈ (⟨m.corner, v.right.extent⟩ : Box) := Box.add_mem_iff.2 hd
  rw [RuleSet.tileOn?, RuleSet.replacement?_eq_some o.rule_eq o.variant_eq]
  simp only [Cell.add_sub_cancel_left, hm, true_and, ite_not]

lemma get?_rewrite (o : m.Occurs rule v g rs uses step) (he : h.extent = g.extent) (c : Cell) :
    (h.rewrite rs m).get? c = (rs.tileOn? c m).or (h.get? c) := by
  by_cases hm : c ∈ m.bounds
  · have bounds_eq : (h.rewrite rs m).bounds = h.bounds := by
      rw [Grid.bounds, Grid.extent_rewrite, Grid.bounds]
    rw [o.bounds_eq_right] at hm
    obtain ⟨d, hd, rfl⟩ := Box.exists_add_of_mem hm
    have hc : m.corner + d ∈ h.bounds := by
      rw [Grid.bounds, he]
      exact o.add_mem_bounds hd
    rw [Grid.tileAt_of_mem (bounds_eq ▸ hc), Grid.tileAt_of_mem hc, o.tileAt_rewrite_add he hd,
      o.tileOn?_add hd]
    split
    · rfl
    · rfl
  · rw [o.tileOn?_of_notMem hm, Option.none_or]
    apply Grid.get?_eq_of_tileAt (Grid.extent_rewrite h rs m)
    intro hc
    rw [Grid.bounds, Grid.extent_rewrite, he] at hc
    exact o.tileAt_rewrite_of_notMem he hc hm

end Layer

section Notice

lemma paints_iff (o : m.Occurs rule v g rs uses step) :
    rs.paints m = true ↔ ∃ c, rs.Writes m c := by
  have solid : rs.paints m = true ↔ ∃ q ∈ v.right.cells, q.2 ≠ .wildcard := by
    rw [RuleSet.paints, RuleSet.replacement?_eq_some o.rule_eq o.variant_eq, Option.any_some,
      Bool.not_eq_true', Pattern.isAllWildcard_eq_false_iff]
  rw [solid]
  constructor
  · rintro ⟨q, hq, hw⟩
    exact ⟨_, o.writes_iff.2 ⟨q, hq, hw, rfl⟩⟩
  · rintro ⟨c, hc⟩
    obtain ⟨q, hq, hw, -⟩ := o.writes_iff.1 hc
    exact ⟨q, hq, hw⟩

lemma encloses_notice? (o : m.Occurs rule v g rs uses step) :
    Grid.Encloses (rs.notice? m) (rs.Writes m) := by
  have calm : Grid.Encloses none fun _ => False := fun _ => id
  have same : rs.Writes m = fun c =>
      False ∨ ∃ p ∈ v.right.cells, p.2 ≠ .wildcard ∧ m.corner + p.1 = c := by
    funext c
    rw [false_or]
    exact propext o.writes_iff
  rw [RuleSet.notice?, RuleSet.replacement?_eq_some o.rule_eq o.variant_eq, same]
  exact calm.noticed m.corner v.right.cells

lemma pending_rewrite (o : m.Occurs rule v g rs uses step) (h : Grid) :
    (h.rewrite rs m).pending = none := by
  rw [o.rewrite_eq, Grid.pending_stamp]

lemma events_rewrite (o : m.Occurs rule v g rs uses step) (calm : h.pending = none) :
    (h.rewrite rs m).events.toList = h.events.toList ++ (rs.notice? m).toList := by
  rw [o.rewrite_eq, Grid.events_stamp, calm, RuleSet.notice?,
    RuleSet.replacement?_eq_some o.rule_eq o.variant_eq, Option.bind_some]
  cases Grid.noticed m.corner v.right.cells none with
  | none => simp
  | some b => simp

end Notice

end Match.Occurs

section Run

variable {ms : List Match} {g h : Grid} {rs : RuleSet} {uses : Tally} {step : Nat}

lemma Grid.get?_foldl_rewrite (he : h.extent = g.extent)
    (found : ∀ m ∈ ms, ∃ rule v, m.Occurs rule v g rs uses step) (c : Cell) :
    (ms.foldl (fun h m => h.rewrite rs m) h).get? c =
      ((ms.filterMap (rs.tileOn? c)).getLast?).or (h.get? c) := by
  induction ms generalizing h with
  | nil => rfl
  | cons m ms ih =>
    rw [List.forall_mem_cons] at found
    obtain ⟨rule, v, o⟩ := found.1
    have later := ih ((extent_rewrite h rs m).trans he) found.2
    rw [List.foldl_cons, later, o.get?_rewrite he]
    cases drawn : rs.tileOn? c m with
    | none => rw [List.filterMap_cons_none drawn, Option.none_or]
    | some t =>
      rw [List.filterMap_cons_some drawn, List.getLast?_cons, Option.some_or]
      cases (ms.filterMap (rs.tileOn? c)).getLast? with
      | none => rfl
      | some u => rfl

lemma Grid.events_foldl_rewrite (calm : h.pending = none)
    (found : ∀ m ∈ ms, ∃ rule v, m.Occurs rule v g rs uses step) :
    (ms.foldl (fun h m => h.rewrite rs m) h).events.toList =
      h.events.toList ++ ms.filterMap rs.notice? := by
  induction ms generalizing h with
  | nil => simp
  | cons m ms ih =>
    rw [List.forall_mem_cons] at found
    obtain ⟨rule, v, o⟩ := found.1
    rw [List.foldl_cons, ih (o.pending_rewrite h) found.2, o.events_rewrite calm,
      List.append_assoc, List.filterMap_cons]
    cases rs.notice? m with
    | none => rfl
    | some b => rfl

lemma RuleSet.forall₂_notice? (found : ∀ m ∈ ms, ∃ rule v, m.Occurs rule v g rs uses step) :
    List.Forall₂ (fun m b => b.IsHullOf (rs.Writes m)) (ms.filter rs.paints)
      (ms.filterMap rs.notice?) := by
  induction ms with
  | nil => exact .nil
  | cons m ms ih =>
    rw [List.forall_mem_cons] at found
    obtain ⟨rule, v, o⟩ := found.1
    have encloses := o.encloses_notice?
    cases noticed : rs.notice? m with
    | none =>
      rw [noticed] at encloses
      have blank : ¬ rs.paints m = true := fun h => by
        obtain ⟨c, hc⟩ := o.paints_iff.1 h
        exact encloses c hc
      rw [List.filter_cons_of_neg blank, List.filterMap_cons_none noticed]
      exact ih found.2
    | some b =>
      rw [noticed] at encloses
      rw [List.filter_cons_of_pos (o.paints_iff.2 encloses.1), List.filterMap_cons_some noticed]
      exact .cons encloses.2 (ih found.2)

end Run

end TileGrammar
