import TileGrammar.Grid.Resolution
import TileGrammar.Proofs.Grid.Notice
import Mathlib.Data.List.Induction

/-!
What a grid announces of its changes. No change is lost: a cell that changes lies in the pending box
or in a box announced since, and a pending box is only dropped for a box of the whole grid. At every
moment the pending box is the smallest one around the cells written silently since the latest
announcement.
-/

namespace TileGrammar

inductive Change where
  | write (c : Cell) (t : Tile)
  | writeLoudly (c : Cell) (t : Tile)
  | fill (t : Tile)
  | flush
  | subdivide (levels : Int)
deriving DecidableEq, Repr

namespace Grid

def change (g : Grid) : Change → Grid
  | .write c t => g.write c t
  | .writeLoudly c t => g.writeLoudly c t
  | .fill t => g.fill t
  | .flush => g.flush
  | .subdivide levels => g.subdivide levels

def changeAll (g : Grid) (cs : List Change) : Grid := cs.foldl change g

def Admits (g : Grid) : Change → Prop
  | .write c _ | .writeLoudly c _ => c ∈ g.bounds
  | .fill _ | .flush | .subdivide _ => True

def AcceptsLevels (g : Grid) (levels : Int) : Prop :=
  levels < 0 ∨ 0 < levels ∧
    (splitExtent g.extent (Nat.pow 2 (min levels.natAbs maxLevels))).volume ≤ maxCells

def Announces (g : Grid) : Change → Prop
  | .write _ _ | .writeLoudly _ _ => False
  | .fill _ | .flush => True
  | .subdivide levels => g.AcceptsLevels levels

def KeepsExtent (g : Grid) (a : Change) : Prop := (g.change a).extent = g.extent

def KeepsResolution (g : Grid) (a : Change) : Prop :=
  ∀ levels, a = .subdivide levels → ¬ g.AcceptsLevels levels

def Throughout (P : Grid → Change → Prop) : Grid → List Change → Prop
  | _, [] => True
  | g, a :: cs => P g a ∧ Throughout P (g.change a) cs

def Alters (g : Grid) (cs : List Change) (c : Cell) : Prop :=
  ∃ done todo, cs = done ++ todo ∧ (g.changeAll done).tileAt c ≠ g.tileAt c

/-- The cell was written silently, and nothing has been announced since that empties the pending
box. -/
def Unannounced (g : Grid) (cs : List Change) (c : Cell) : Prop :=
  ∃ done t since, cs = done ++ .write c t :: since ∧
    Throughout (fun h a => ¬ h.Announces a) (g.changeAll (done ++ [.write c t])) since

structure Gathers (g : Grid) (cells : Cell → Prop) : Prop where
  pending_eq_none : g.pending = none ↔ ∀ c, ¬ cells c
  isHullOf : ∀ b, g.pending = some b → b.IsHullOf cells ∧ b.Inside g.extent

/-- The cell lies in the pending box, or in a box that was announced after the first `n`. -/
def Covers (g : Grid) (n : Nat) (c : Cell) : Prop :=
  (∃ b, g.pending = some b ∧ c ∈ b) ∨ ∃ i b, n ≤ i ∧ g.events[i]? = some b ∧ c ∈ b

section Changes

variable {g : Grid} {cs ds : List Change} {a : Change} {P : Grid → Change → Prop}

@[simp] lemma changeAll_nil (g : Grid) : g.changeAll [] = g := rfl

@[simp] lemma changeAll_cons (g : Grid) (a : Change) (cs : List Change) :
    g.changeAll (a :: cs) = (g.change a).changeAll cs := rfl

lemma changeAll_append (g : Grid) (cs ds : List Change) :
    g.changeAll (cs ++ ds) = (g.changeAll cs).changeAll ds := List.foldl_append

lemma throughout_append :
    Throughout P g (cs ++ ds) ↔ Throughout P g cs ∧ Throughout P (g.changeAll cs) ds := by
  induction cs generalizing g with
  | nil => simp [Throughout]
  | cons a cs ih => simp [Throughout, ih, and_assoc]

lemma Throughout.imp {Q : Grid → Change → Prop} (h : ∀ g a, P g a → Q g a)
    (hP : Throughout P g cs) : Throughout Q g cs := by
  induction cs generalizing g with
  | nil => trivial
  | cons a cs ih => exact ⟨h g a hP.1, ih hP.2⟩

end Changes

section Resolution

variable {g : Grid} {levels : Int}

lemma subdivide_of_refused (h : ¬ g.AcceptsLevels levels) : g.subdivide levels = g := by
  rw [AcceptsLevels, not_or, not_and] at h
  rw [subdivide]
  split
  · rfl
  · rw [if_pos (by omega), split, dif_neg]
    exact fun fits => h.2 (by omega) fits.2

lemma exists_announceAll (h : g.AcceptsLevels levels) :
    ∃ k : Grid, k.events = g.events ∧ g.subdivide levels = k.announceAll := by
  rw [subdivide]
  obtain merges | ⟨splits, fits⟩ := h
  · rw [if_neg (by omega), if_neg (by omega)]
    exact ⟨g.resample _ _ _, rfl, rfl⟩
  · rw [if_neg (by omega), if_pos splits, split, dif_pos ⟨Nat.one_le_two_pow, fits⟩]
    exact ⟨g.resample _ _ _, rfl, rfl⟩

lemma pending_subdivide (h : g.AcceptsLevels levels) : (g.subdivide levels).pending = none := by
  obtain ⟨k, -, he⟩ := exists_announceAll h
  rw [he]
  rfl

lemma events_subdivide (h : g.AcceptsLevels levels) :
    (g.subdivide levels).events = g.events.push (g.subdivide levels).bounds := by
  obtain ⟨k, events, he⟩ := exists_announceAll h
  rw [he, ← events]
  rfl

end Resolution

section Step

variable {g : Grid} {a : Change} {c : Cell} {n : Nat} {cells : Cell → Prop}

lemma events_change_of_getElem? (g : Grid) (a : Change) {i : Nat} {b : Box}
    (h : g.events[i]? = some b) : (g.change a).events[i]? = some b := by
  have hi := (Array.getElem?_eq_some_iff.1 h).1
  have push (d : Box) : (g.events.push d)[i]? = some b := by
    rw [Array.getElem?_push_lt hi]
    simpa [hi] using h
  cases a with
  | write c t => rwa [change, events_write]
  | writeLoudly c t =>
    rw [change, writeLoudly, announce, events_store]
    exact push _
  | fill t => exact push _
  | flush =>
    rw [change, events_flush]
    cases g.pending with
    | none => exact h
    | some d => exact push d
  | subdivide levels =>
    by_cases accepted : g.AcceptsLevels levels
    · rw [change, events_subdivide accepted]
      exact push _
    · rwa [change, subdivide_of_refused accepted]

lemma tileAt_writeLoudly {d : Cell} (hc : c ∈ g.bounds) (hd : d ∈ g.bounds) (t : Tile) :
    (g.writeLoudly c t).tileAt d = if d = c then t else g.tileAt d := by
  rw [← tileAt_store hc hd]
  exact congrFun (tileAt_congr rfl rfl) d

lemma covers_of_push {h : Grid} {b : Box} (he : h.events = g.events.push b)
    (hn : n ≤ g.events.size) (hc : c ∈ b) : h.Covers n c :=
  .inr ⟨g.events.size, b, hn, by rw [he, Array.getElem?_push_size], hc⟩

lemma bounds_change (keeps : g.KeepsExtent a) : (g.change a).bounds = g.bounds :=
  congrArg Box.ofExtent keeps

lemma Covers.change (h : g.Covers n c) (hn : n ≤ g.events.size) (hc : c ∈ g.bounds)
    (keeps : g.KeepsExtent a) : (g.change a).Covers n c := by
  obtain ⟨b, hb, hcb⟩ | ⟨i, b, hi, hb, hcb⟩ := h
  · cases a with
    | write d t =>
      refine .inl ⟨b.hull (Box.single d), ?_, Box.mem_hull_left hcb _⟩
      rw [Grid.change, pending_write, hb]
      rfl
    | writeLoudly d t => exact .inl ⟨b, (pending_store g d t).trans hb, hcb⟩
    | fill t => exact covers_of_push rfl hn hc
    | flush =>
      refine covers_of_push (b := b) ?_ hn hcb
      rw [Grid.change, events_flush, hb]
      rfl
    | subdivide levels =>
      by_cases accepted : g.AcceptsLevels levels
      · apply covers_of_push (events_subdivide accepted) hn
        rwa [← bounds_change keeps] at hc
      · rw [Grid.change, subdivide_of_refused accepted]
        exact .inl ⟨b, hb, hcb⟩
  · exact .inr ⟨i, b, hi, events_change_of_getElem? g a hb, hcb⟩

lemma covers_change_of_ne (hn : n ≤ g.events.size) (admits : g.Admits a) (hc : c ∈ g.bounds)
    (keeps : g.KeepsExtent a) (ne : (g.change a).tileAt c ≠ g.tileAt c) :
    (g.change a).Covers n c := by
  cases a with
  | write d t =>
    obtain rfl : c = d := by
      by_contra hd
      exact ne (by rw [change, tileAt_write admits hc, if_neg hd])
    refine .inl ⟨_, pending_write g c t, ?_⟩
    cases g.pending with
    | none => exact Box.mem_single.2 rfl
    | some b => exact Box.mem_hull_right b (Box.mem_single.2 rfl)
  | writeLoudly d t =>
    obtain rfl : c = d := by
      by_contra hd
      exact ne (by rw [change, tileAt_writeLoudly admits hc, if_neg hd])
    refine covers_of_push (b := Box.single c) ?_ hn (Box.mem_single.2 rfl)
    exact congrArg (·.push (Box.single c)) (events_store g c t)
  | fill t => exact covers_of_push rfl hn hc
  | flush => exact absurd (congrFun (tileAt_flush g) c) ne
  | subdivide levels =>
    by_cases accepted : g.AcceptsLevels levels
    · apply covers_of_push (events_subdivide accepted) hn
      rwa [← bounds_change keeps] at hc
    · exact absurd (congrArg (·.tileAt c) (subdivide_of_refused accepted)) ne

lemma single_inside (hc : c ∈ g.bounds) : (Box.single c).Inside g.extent := by
  rw [bounds, Box.mem_ofExtent] at hc
  rw [Box.inside_iff]
  simp only [Box.single, Cell.unit, Cell.diagonal]
  omega

lemma keepsExtent_of_keepsResolution (h : g.KeepsResolution a) : g.KeepsExtent a := by
  cases a with
  | write c t => exact extent_write g c t
  | writeLoudly c t => exact extent_store g c t
  | fill t => exact extent_fill g t
  | flush => exact extent_flush g
  | subdivide levels => exact congrArg extent (subdivide_of_refused (h levels rfl))

lemma Gathers.change (h : g.Gathers cells) (admits : g.Admits a) :
    (g.change a).Gathers fun c => ¬ g.Announces a ∧ (cells c ∨ ∃ t, a = .write c t) := by
  have dropped (announces : g.Announces a) (none : (g.change a).pending = none) :
      (g.change a).Gathers fun c => ¬ g.Announces a ∧ (cells c ∨ ∃ t, a = .write c t) :=
    { pending_eq_none := by simp [none, announces]
      isHullOf := by simp [none] }
  cases a with
  | write d t =>
    have same : (fun c => ¬ g.Announces (.write d t) ∧
        (cells c ∨ ∃ u, Change.write d t = .write c u)) = fun c => cells c ∨ c = d := by
      funext c
      simp [Announces, eq_comm]
    have inside : (Box.single d).Inside g.extent := single_inside admits
    rw [same]
    have pending : (g.change (.write d t)).pending = touch g.pending d := pending_write g d t
    refine ⟨?_, fun b hb => ?_⟩
    · rw [pending]
      exact ⟨fun absent => (nomatch absent), fun empty => (empty d (.inr rfl)).elim⟩
    · rw [pending] at hb
      rw [Grid.change, extent_write]
      cases hp : g.pending with
      | none =>
        rw [hp] at hb
        obtain rfl := Option.some.inj hb
        have empty := h.pending_eq_none.1 hp
        simpa [empty] using ⟨Box.isHullOf_single d, inside⟩
      | some p =>
        rw [hp] at hb
        obtain rfl := Option.some.inj hb
        obtain ⟨hull, hin⟩ := h.isHullOf p hp
        exact ⟨hull.hull_single d, hin.hull inside⟩
  | writeLoudly d t =>
    have pending : (g.change (.writeLoudly d t)).pending = g.pending := pending_store g d t
    refine ⟨?_, fun b hb => ?_⟩
    · rw [pending, h.pending_eq_none]
      simp [Announces]
    · rw [pending] at hb
      rw [Grid.change, writeLoudly, announce, extent_store]
      simpa [Announces] using h.isHullOf b hb
  | fill t => exact dropped trivial rfl
  | flush => exact dropped trivial (pending_flush g)
  | subdivide levels =>
    by_cases accepted : g.AcceptsLevels levels
    · exact dropped accepted (pending_subdivide accepted)
    · rw [Grid.change, subdivide_of_refused accepted]
      simpa [Announces, accepted] using h

end Step

section Run

variable {g : Grid} {cs : List Change} {c : Cell} {n : Nat}

lemma events_changeAll_of_getElem? {i : Nat} {b : Box} (h : g.events[i]? = some b)
    (cs : List Change) : (g.changeAll cs).events[i]? = some b := by
  induction cs generalizing g with
  | nil => exact h
  | cons a cs ih => exact ih (events_change_of_getElem? g a h)

lemma size_events_le_change (g : Grid) (a : Change) :
    g.events.size ≤ (g.change a).events.size := by
  apply Nat.le_of_not_lt
  intro h
  have kept := events_change_of_getElem? g a (Array.getElem?_eq_getElem h)
  exact Nat.lt_irrefl _ (Array.getElem?_eq_some_iff.1 kept).1

lemma size_events_le_changeAll (g : Grid) (cs : List Change) :
    g.events.size ≤ (g.changeAll cs).events.size := by
  induction cs generalizing g with
  | nil => exact Nat.le.refl
  | cons a cs ih => exact Nat.le_trans (size_events_le_change g a) (ih (g.change a))

lemma Covers.mono {m : Nat} (h : g.Covers n c) (hm : m ≤ n) : g.Covers m c := by
  obtain pending | ⟨i, b, hi, hb, hc⟩ := h
  · exact .inl pending
  · exact .inr ⟨i, b, Nat.le_trans hm hi, hb, hc⟩

lemma Covers.changeAll (h : g.Covers n c) (hn : n ≤ g.events.size) (hc : c ∈ g.bounds)
    (keeps : Throughout KeepsExtent g cs) : (g.changeAll cs).Covers n c := by
  induction cs generalizing g with
  | nil => exact h
  | cons a cs ih =>
    apply ih (h.change hn hc keeps.1) (Nat.le_trans hn (size_events_le_change g a)) _ keeps.2
    rwa [bounds_change keeps.1]

lemma covers_of_alters (admits : Throughout Admits g cs) (keeps : Throughout KeepsExtent g cs)
    (hc : c ∈ g.bounds) (h : g.Alters cs c) : (g.changeAll cs).Covers g.events.size c := by
  induction cs generalizing g with
  | nil =>
    obtain ⟨done, todo, he, ne⟩ := h
    obtain ⟨rfl, rfl⟩ := List.append_eq_nil_iff.1 he.symm
    exact absurd rfl ne
  | cons a cs ih =>
    have hc' : c ∈ (g.change a).bounds := by rwa [bounds_change keeps.1]
    have grow := size_events_le_change g a
    by_cases now : (g.change a).tileAt c = g.tileAt c
    · have later : (g.change a).Alters cs c := by
        obtain ⟨done, todo, he, ne⟩ := h
        cases done with
        | nil => exact absurd rfl ne
        | cons b done =>
          obtain ⟨rfl, rfl⟩ := List.cons.inj he
          exact ⟨done, todo, rfl, now ▸ ne⟩
      exact (ih admits.2 keeps.2 hc' later).mono grow
    · have covers := covers_change_of_ne Nat.le.refl admits.1 hc keeps.1 now
      exact covers.changeAll grow hc' keeps.2

lemma Covers.exists_event (h : g.Covers n c) (hn : n ≤ g.events.size) :
    ∃ i b, n ≤ i ∧ g.flush.events[i]? = some b ∧ c ∈ b := by
  rw [events_flush]
  obtain ⟨b, hb, hc⟩ | ⟨i, b, hi, hb, hc⟩ := h
  · exact ⟨g.events.size, b, hn, by simp [hb], hc⟩
  · refine ⟨i, b, hi, ?_, hc⟩
    have kept := events_change_of_getElem? g .flush hb
    rwa [Grid.change, events_flush] at kept

lemma unannounced_concat {a : Change} : g.Unannounced (cs ++ [a]) c ↔
    ¬ (g.changeAll cs).Announces a ∧ (g.Unannounced cs c ∨ ∃ t, a = .write c t) := by
  constructor
  · rintro ⟨done, t, since, he, quiet⟩
    obtain rfl | ⟨since, b, rfl⟩ := List.eq_nil_or_concat since
    · obtain ⟨rfl, ha⟩ := List.append_inj' he rfl
      obtain rfl := List.singleton_inj.1 ha
      exact ⟨id, .inr ⟨t, rfl⟩⟩
    · rw [List.concat_eq_append] at he quiet
      rw [← List.cons_append, ← List.append_assoc] at he
      obtain ⟨rfl, ha⟩ := List.append_inj' he rfl
      obtain rfl := List.singleton_inj.1 ha
      obtain ⟨quiet, now, -⟩ := throughout_append.1 quiet
      rw [← changeAll_append, List.append_assoc, List.singleton_append] at now
      exact ⟨now, .inl ⟨done, t, since, rfl, quiet⟩⟩
  · rintro ⟨now, ⟨done, t, since, rfl, quiet⟩ | ⟨t, rfl⟩⟩
    · refine ⟨done, t, since ++ [a], by simp, throughout_append.2 ⟨quiet, ?_, trivial⟩⟩
      rwa [← changeAll_append, List.append_assoc, List.singleton_append]
    · exact ⟨cs, t, [], rfl, trivial⟩

lemma gathers_changeAll (calm : g.pending = none) (admits : Throughout Admits g cs) :
    (g.changeAll cs).Gathers (g.Unannounced cs) := by
  induction cs using List.reverseRecOn with
  | nil =>
    have nothing (c : Cell) : ¬ g.Unannounced [] c := by
      rintro ⟨done, t, since, he, -⟩
      simp at he
    exact { pending_eq_none := by simp [calm, nothing], isHullOf := by simp [calm] }
  | append_singleton cs a ih =>
    obtain ⟨before, now, -⟩ := throughout_append.1 admits
    have same : g.Unannounced (cs ++ [a]) = fun c => ¬ (g.changeAll cs).Announces a ∧
        (g.Unannounced cs c ∨ ∃ t, a = .write c t) := funext fun c => propext unannounced_concat
    rw [same, changeAll_append]
    exact (ih before).change now

end Run

theorem no_change_is_lost {g : Grid} {cs : List Change} (calm : g.pending = none)
    (quiet : g.events = #[]) (admits : Throughout Admits g cs) :
    let final := (g.changeAll cs).flush
    (Throughout KeepsExtent g cs →
      ∀ c ∈ g.bounds, g.Alters cs c → ∃ b ∈ final.events, c ∈ b) ∧
    (∀ done levels todo, cs = done ++ .subdivide levels :: todo →
      (g.changeAll done).AcceptsLevels levels →
        let fresh := (g.changeAll done).subdivide levels
        ∃ i : Nat, final.events[i]? = some fresh.bounds ∧
          (Throughout KeepsResolution fresh todo → ∀ c ∈ fresh.bounds, fresh.Alters todo c →
            ∃ (j : Nat) (b : Box), i < j ∧ final.events[j]? = some b ∧ c ∈ b)) ∧
    (∀ done todo, cs = done ++ todo → (g.changeAll done).Gathers (g.Unannounced done)) ∧
    ∀ (h : Grid) levels, ¬ h.AcceptsLevels levels → h.subdivide levels = h := by
  intro final
  refine ⟨fun keeps c hc alters => ?_, fun done levels todo he accepted => ?_,
    fun done todo he => ?_, fun h levels => subdivide_of_refused⟩
  · have covers := covers_of_alters admits keeps hc alters
    rw [quiet] at covers
    obtain ⟨i, b, -, hb, hcb⟩ := covers.exists_event (Nat.zero_le _)
    exact ⟨b, Array.mem_of_getElem? hb, hcb⟩
  · intro fresh
    subst he
    have run : g.changeAll (done ++ .subdivide levels :: todo) = fresh.changeAll todo :=
      changeAll_append g done _
    have events : fresh.events = (g.changeAll done).events.push fresh.bounds :=
      events_subdivide accepted
    refine ⟨(g.changeAll done).events.size, ?_, fun keeps c hc alters => ?_⟩
    · have now : fresh.events[(g.changeAll done).events.size]? = some fresh.bounds := by
        rw [events, Array.getElem?_push_size]
      have kept := events_changeAll_of_getElem? now (todo ++ [.flush])
      rwa [changeAll_append, ← run] at kept
    · have later : Throughout Admits fresh todo := (throughout_append.1 admits).2.2
      have covers := covers_of_alters later (keeps.imp fun _ _ => keepsExtent_of_keepsResolution)
        hc alters
      rw [← run] at covers
      have grow := size_events_le_changeAll fresh todo
      rw [← run] at grow
      obtain ⟨j, b, hj, hb, hcb⟩ := covers.exists_event grow
      rw [events, Array.size_push] at hj
      exact ⟨j, b, hj, hb, hcb⟩
  · subst he
    exact gathers_changeAll calm (throughout_append.1 admits).1

theorem no_change_is_lost_split :
    let g : Grid := {
      extent := ⟨2, 1, 2⟩
      tiles := #[⟨"."⟩, ⟨"."⟩, ⟨"."⟩, ⟨"."⟩]
      proper := by decide
      size_tiles := rfl }
    let todo : List Change := [.write ⟨3, 0, 1⟩ ⟨"X"⟩, .subdivide 0, .write ⟨1, 0, 2⟩ ⟨"X"⟩]
    let cs : List Change := .write ⟨0, 0, 0⟩ ⟨"X"⟩ :: .subdivide 1 :: todo
    let final := (g.changeAll cs).flush
    g.pending = none ∧ g.events = #[] ∧ Throughout Admits g cs ∧
      ∃ i : Nat, final.events[i]? = some (Box.ofExtent ⟨4, 1, 4⟩) ∧
        ∃ (j : Nat) (b : Box), i < j ∧ final.events[j]? = some b ∧ (⟨1, 0, 2⟩ : Cell) ∈ b := by
  intro g todo cs final
  have admits : Throughout Admits g cs := by
    refine ⟨?_, trivial, ?_, trivial, ?_, trivial⟩ <;>
    · rw [Admits]
      decide +kernel
  have keeps : Throughout KeepsResolution (g.changeAll (cs.take 2)) todo := by
    refine ⟨fun _ h => (nomatch h), fun levels h => ?_, fun _ h => (nomatch h), trivial⟩
    obtain rfl := Change.subdivide.inj h
    rintro (h | h) <;> omega
  obtain ⟨-, resolved, -⟩ := no_change_is_lost rfl rfl admits
  obtain ⟨i, whole, later⟩ := resolved [.write ⟨0, 0, 0⟩ ⟨"X"⟩] 1 todo rfl
    (.inr ⟨by decide, by decide⟩)
  refine ⟨rfl, rfl, admits, i, whole, later keeps ⟨1, 0, 2⟩ (by decide +kernel) ?_⟩
  exact ⟨todo, [], by simp, by decide +kernel⟩

end Grid

end TileGrammar
