import TileGrammar.Proofs.Session.Twin
import TileGrammar.Viewer
import Mathlib.Data.List.Induction

/-!
What the viewer shows can be replayed without it. After any frames its session is that of a restart
from a seed that counts the restarts, advanced as often as the viewer has not been paused since the
latest restart. The overlay has no part in it.
-/

namespace TileGrammar.Viewer

section Frames

def presses (key : Key) (frames : List (List Key)) : Nat := frames.countP fun keys => key ∈ keys

def isPausedAfter (frames : List (List Key)) : Bool := presses .space frames % 2 = 1

/-- The number of the latest frame with a restart, or that of the first frame. -/
def latestRestart (frames : List (List Key)) : Nat :=
  ((List.range frames.length).filter fun i => (frames[i]?).any (.r ∈ ·)).getLast?.getD 0

/-- The number of frames since the latest restart, this one included, in which the viewer was not
paused after the input. -/
def unpausedSinceRestart (frames : List (List Key)) : Nat :=
  (List.range frames.length).countP fun i =>
    latestRestart frames ≤ i && !isPausedAfter (frames.take (i + 1))

variable (past : List (List Key)) (keys : List Key)

lemma presses_concat (key : Key) :
    presses key (past ++ [keys]) = presses key past + if key ∈ keys then 1 else 0 := by
  simp [presses]

lemma odd_presses_concat (key : Key) : decide (presses key (past ++ [keys]) % 2 = 1) =
    (decide (presses key past % 2 = 1) ^^ decide (key ∈ keys)) := by
  rw [presses_concat]
  by_cases pressed : key ∈ keys
  · simp only [pressed, if_true, decide_true, Bool.xor_true]
    rw [Bool.eq_not, ne_eq, decide_eq_decide]
    omega
  · simp [pressed]

lemma isPausedAfter_concat :
    isPausedAfter (past ++ [keys]) = (isPausedAfter past ^^ decide (.space ∈ keys)) :=
  odd_presses_concat past keys .space

lemma latestRestart_concat :
    latestRestart (past ++ [keys]) = if .r ∈ keys then past.length else latestRestart past := by
  have same : (List.range past.length).filter (fun i => ((past ++ [keys])[i]?).any (.r ∈ ·)) =
      (List.range past.length).filter fun i => (past[i]?).any (.r ∈ ·) := by
    apply List.filter_congr
    intro i hi
    rw [List.getElem?_append_left (List.mem_range.1 hi)]
  rw [latestRestart, List.length_append, List.length_singleton, List.range_succ,
    List.filter_append, same]
  by_cases pressed : .r ∈ keys
  · simp [pressed]
  · simp [pressed, latestRestart]

lemma latestRestart_le : latestRestart past ≤ past.length := by
  induction past using List.reverseRecOn with
  | nil => exact Nat.le_refl 0
  | append_singleton past keys ih =>
    rw [latestRestart_concat, List.length_append, List.length_singleton]
    split
    · exact Nat.le_succ _
    · exact Nat.le_succ_of_le ih

lemma unpausedSinceRestart_concat :
    unpausedSinceRestart (past ++ [keys]) =
      (if .r ∈ keys then 0 else unpausedSinceRestart past) +
        if isPausedAfter (past ++ [keys]) then 0 else 1 := by
  have earlier : ∀ i ∈ List.range past.length, (past ++ [keys]).take (i + 1) = past.take (i + 1) :=
    fun i hi => List.take_append_of_le_length (List.mem_range.1 hi)
  have now : latestRestart (past ++ [keys]) ≤ past.length := by
    rw [latestRestart_concat]
    split
    · exact Nat.le_refl _
    · exact latestRestart_le past
  rw [unpausedSinceRestart, List.length_append, List.length_singleton, List.range_succ,
    List.countP_append, List.countP_singleton, List.take_of_length_le (by simp)]
  congr 1
  · by_cases pressed : .r ∈ keys
    · rw [if_pos pressed, List.countP_eq_zero]
      intro i hi
      rw [latestRestart_concat, if_pos pressed]
      have := List.mem_range.1 hi
      simp [Nat.not_le.2 this]
    · rw [if_neg pressed, unpausedSinceRestart]
      apply List.countP_congr
      intro i hi
      rw [latestRestart_concat, if_neg pressed, earlier i hi]
  · cases isPausedAfter (past ++ [keys]) with
    | false => simp [now]
    | true => simp

end Frames

variable {σ : Type} [RandomSource σ]

section Frame

variable (v : Viewer σ) (keys : List Key)

lemma session_handle :
    (v.handle keys).session = if .r ∈ keys then v.restartNext.session else v.session := by
  rw [handle]
  split_ifs <;> rfl

lemma isPaused_handle : (v.handle keys).isPaused = (v.isPaused ^^ decide (.space ∈ keys)) := by
  rw [handle]
  split_ifs <;> simp_all [restartNext]

lemma isPaused_frame : (v.frame keys).isPaused = (v.handle keys).isPaused := by
  rw [frame, sync, step]
  split_ifs <;> rfl

lemma session_frame : (v.frame keys).session =
    if (v.frame keys).isPaused then (v.handle keys).session else (v.handle keys).session.advance.2 := by
  rw [isPaused_frame, frame, sync, step]
  split_ifs <;> rfl

end Frame

section Play

variable {settings : Settings} {n : UInt64} {past : List (List Key)} {v : Viewer σ}

structure Replays (settings : Settings) (n : UInt64) (past : List (List Key))
    (v : Viewer σ) : Prop where
  sound : Session.Sound settings v.session
  isPaused_eq : v.isPaused = isPausedAfter past
  seed_eq : v.session.seed = some (n + UInt64.ofNat (presses .r past))
  twins : ∀ overlay source t,
    Session.start { settings with seed := some (n + UInt64.ofNat (presses .r past)), overlay }
      source = .ok t →
    v.session.Twins (t.restart.after (unpausedSinceRestart past))

lemma twins_restart_start (law : RandomSource.SeedDetermines σ) {c : Settings} {s t : Session σ}
    {m : UInt64} {overlay : Bool} {source : σ} (hs : Session.Sound c s) (seed : s.seed = some m)
    (ht : Session.start { c with seed := some m, overlay } source = .ok t) :
    s.restart.Twins t.restart := by
  have seed_eq : t.seed = some m := Session.seed_create ht
  exact Session.twins_restart law hs (Session.sound_create ht) ⟨some m, overlay, rfl⟩
    (seed.trans seed_eq.symm) seed_eq

lemma replays_start (law : RandomSource.SeedDetermines σ) {s : Session σ} {source : σ}
    (seeded : settings.seed = some n) (hs : Session.start settings source = .ok s)
    (overlay : Overlay) :
    Replays settings n [] { session := s.restart, overlay } := by
  have sound := Session.sound_create hs
  have zero : n + UInt64.ofNat (presses .r []) = n := by simp [presses]
  have seed_eq : s.seed = some n := (Session.seed_create hs).trans seeded
  refine ⟨Session.sound_restart sound, rfl, ?_, fun overlay source t ht => ?_⟩
  · rw [zero]
    exact seed_eq
  · rw [zero] at ht
    exact twins_restart_start law sound seed_eq ht

lemma sound_handle (h : Session.Sound settings v.session) (keys : List Key) :
    Session.Sound settings (v.handle keys).session := by
  rw [session_handle]
  split
  · exact Session.sound_restart { h with }
  · exact h

lemma sound_frame (h : Session.Sound settings v.session) (keys : List Key) :
    Session.Sound settings (v.frame keys).session := by
  have handled := sound_handle h keys
  rw [session_frame]
  split
  · exact handled
  · exact Session.sound_step handled (Session.step_advance _)

lemma seed_handle (h : Replays settings n past v) (keys : List Key) :
    (v.handle keys).session.seed = some (n + UInt64.ofNat (presses .r (past ++ [keys]))) := by
  rw [session_handle, presses_concat]
  split
  · simp only [restartNext, Session.restart, h.seed_eq, Option.map_some]
    rw [UInt64.ofNat_add, ← UInt64.add_assoc]
    rfl
  · exact h.seed_eq

lemma twins_handle (law : RandomSource.SeedDetermines σ) (h : Replays settings n past v)
    {keys : List Key} {overlay : Bool} {source : σ} {t : Session σ}
    (ht : Session.start { settings with
      seed := some (n + UInt64.ofNat (presses .r (past ++ [keys]))), overlay } source = .ok t) :
    (v.handle keys).session.Twins
      (t.restart.after (if .r ∈ keys then 0 else unpausedSinceRestart past)) := by
  have seed_eq := seed_handle h keys
  rw [session_handle] at seed_eq ⊢
  by_cases restarted : .r ∈ keys
  · -- of the earlier runs only the seed is left
    rw [if_pos restarted] at seed_eq ⊢
    rw [if_pos restarted]
    exact twins_restart_start law { h.sound with } seed_eq ht
  · rw [if_neg restarted, if_neg restarted]
    rw [presses_concat, if_neg restarted] at ht
    exact h.twins overlay source t ht

lemma replays_frame (law : RandomSource.SeedDetermines σ) (h : Replays settings n past v)
    (keys : List Key) : Replays settings n (past ++ [keys]) (v.frame keys) := by
  have paused : (v.frame keys).isPaused = isPausedAfter (past ++ [keys]) := by
    rw [isPaused_frame, isPaused_handle, h.isPaused_eq, isPausedAfter_concat]
  refine ⟨sound_frame h.sound keys, paused, ?_, fun overlay source t ht => ?_⟩
  · rw [session_frame]
    split
    · exact seed_handle h keys
    · exact (Session.seed_step (Session.step_advance _)).trans (seed_handle h keys)
  · rw [session_frame, unpausedSinceRestart_concat, paused]
    cases isPausedAfter (past ++ [keys]) with
    | false =>
      rw [if_neg Bool.false_ne_true, if_neg Bool.false_ne_true, Session.after_succ]
      exact (twins_handle law h ht).advance
    | true =>
      rw [if_pos rfl, if_pos rfl]
      exact twins_handle law h ht

lemma replays_foldl (law : RandomSource.SeedDetermines σ) (h : Replays settings n [] v) :
    Replays settings n past (past.foldl frame v) := by
  induction past using List.reverseRecOn with
  | nil => exact h
  | append_singleton past keys ih =>
    rw [List.foldl_concat]
    exact replays_frame law ih keys

lemma length_play (frames : List (List Key)) (v : Viewer σ) : (play frames v).length = frames.length := by
  induction frames generalizing v with
  | nil => rfl
  | cons keys frames ih => exact congrArg (· + 1) (ih (v.frame keys))

lemma eq_foldl_of_play_getElem? {frames : List (List Key)} {v w : Viewer σ} {i : Nat}
    (h : (play frames v)[i]? = some w) : w = (frames.take (i + 1)).foldl frame v := by
  induction frames generalizing v i with
  | nil => cases h
  | cons keys frames ih =>
    cases i with
    | zero => exact (Option.some.inj h).symm
    | succ i => exact ih h

end Play

section Overlay

def quiet (frames : List (List Key)) : List (List Key) := frames.map (·.filter (· ≠ .o))

variable {v u : Viewer σ}

lemma twins_frame (twins : v.session.Twins u.session) (paused : v.isPaused = u.isPaused)
    (keys : List Key) :
    (v.frame keys).session.Twins (u.frame (keys.filter (· ≠ .o))).session ∧
      (v.frame keys).isPaused = (u.frame (keys.filter (· ≠ .o))).isPaused := by
  have same : (v.frame keys).isPaused = (u.frame (keys.filter (· ≠ .o))).isPaused := by
    simp [isPaused_frame, isPaused_handle, paused]
  have handled : (v.handle keys).session.Twins (u.handle (keys.filter (· ≠ .o))).session := by
    rw [session_handle, session_handle]
    by_cases restarted : .r ∈ keys
    · rw [if_pos restarted, if_pos (by simpa using restarted)]
      have reseeded : Session.Twins { v.session with seed := v.session.seed.map (· + 1) }
          { u.session with seed := u.session.seed.map (· + 1) } :=
        { twins with seed_eq := congrArg (·.map (· + 1)) twins.seed_eq }
      exact reseeded.restart
    · rw [if_neg restarted, if_neg (by simpa using restarted)]
      exact twins
  refine ⟨?_, same⟩
  rw [session_frame, session_frame, same]
  split
  · exact handled
  · exact handled.advance

lemma twins_play (twins : v.session.Twins u.session) (paused : v.isPaused = u.isPaused)
    (frames : List (List Key)) :
    List.Forall₂ (·.session.Twins ·.session) (play frames v) (play (quiet frames) u) := by
  induction frames generalizing v u with
  | nil => exact .nil
  | cons keys frames ih =>
    obtain ⟨next, same⟩ := twins_frame twins paused keys
    exact .cons next (ih next same)

end Overlay

lemma exists_start (settings : Settings) (source : σ) (proper : settings.extent.Proper) :
    ∃ s, Session.start settings source = .ok s ∧ start settings source =
      .ok { session := s.restart, overlay := { isEnabled := settings.overlay } } := by
  obtain ⟨s, hs, -⟩ := Session.exists_create settings
    (settings.seed.elim source (RandomSource.reseed source)) proper
  refine ⟨s, hs, ?_⟩
  rw [start, Session.start, hs]
  rfl

theorem play_replays (law : RandomSource.SeedDetermines σ) {settings : Settings}
    (proper : settings.extent.Proper) {n : UInt64} (seeded : settings.seed = some n) (source : σ)
    (frames : List (List Key)) :
    ∃ v, start settings source = .ok v ∧ (play frames v).length = frames.length ∧
      (∀ i w, (play frames v)[i]? = some w → ∀ overlay (source' : σ), ∃ s,
        let past := frames.take (i + 1)
        let seed := n + UInt64.ofNat (presses .r past)
        Session.start { settings with seed := some seed, overlay } source' = .ok s ∧
          w.session.Twins (s.restart.after (unpausedSinceRestart past))) ∧
      ∀ overlay, ∃ u, start { settings with overlay } source = .ok u ∧
        List.Forall₂ (·.session.Twins ·.session) (play frames v) (play (quiet frames) u) := by
  obtain ⟨s, hs, hv⟩ := exists_start settings source proper
  have replays := replays_start law seeded hs { isEnabled := settings.overlay }
  refine ⟨_, hv, length_play _ _, fun i w hw overlay source' => ?_, fun overlay => ?_⟩
  · rw [eq_foldl_of_play_getElem? hw]
    obtain ⟨t, ht, -⟩ := exists_start
      { settings with seed := some (n + UInt64.ofNat (presses .r (frames.take (i + 1)))), overlay }
      source' proper
    exact ⟨t, ht, (replays_foldl law replays).twins overlay source' t ht⟩
  · obtain ⟨t, ht, hu⟩ := exists_start { settings with overlay } source proper
    have seed_eq : t.seed = { settings with overlay }.seed := Session.seed_create ht
    have restarted : s.restart.Twins t.restart :=
      Session.twins_restart law (Session.sound_create hs) (Session.sound_create ht)
        ⟨settings.seed, overlay, rfl⟩ ((Session.seed_create hs).trans seed_eq.symm)
        (seed_eq.trans seeded)
    refine ⟨_, hu, ?_⟩
    apply twins_play
    · exact restarted
    · rfl

theorem play_replays_paused_restart :
    let settings : Settings :=
      { gridSize := (9, 1, 9), seed := some 18446744073709551615, strategy := .first }
    let frames : List (List Key) := [[.r], [.space, .r], [.o], [.space], []]
    RandomSource.SeedDetermines Stream ∧ settings.extent.Proper ∧ ∃ v w s,
      start settings (Stream.ofSeed 0) = .ok v ∧ (play frames v)[4]? = some w ∧
        Session.start { settings with seed := some 1, overlay := false } (Stream.ofSeed 7) = .ok s ∧
          w.session.Twins (s.restart.after 2) := by
  intro settings frames
  have proper : settings.extent.Proper := by decide
  have seed : 18446744073709551615 + UInt64.ofNat (presses .r (frames.take 5)) = 1 := by decide
  have advances : unpausedSinceRestart (frames.take 5) = 2 := by decide
  obtain ⟨v, hv, length, replays, -⟩ :=
    play_replays Stream.seedDetermines proper rfl (Stream.ofSeed 0) frames
  have hw : 4 < (play frames v).length := by
    rw [length]
    decide
  obtain ⟨s, hs, twins⟩ := replays 4 _ (List.getElem?_eq_getElem hw) false (Stream.ofSeed 7)
  rw [seed] at hs
  rw [advances] at twins
  exact ⟨Stream.seedDetermines, proper, v, _, s, hv, List.getElem?_eq_getElem hw, hs, twins⟩

end TileGrammar.Viewer
