import TileGrammar.Proofs.Viewer.Replay

/-!
The overlay is never out of date. After every frame with the overlay on, it shows the matches that a
search of the whole grid finds now, each once, or nothing while the matches are not known. It is on
as it was set at the start, switched with every press of its key.
-/

namespace TileGrammar

namespace ShownMatch

variable {g : Grid} {rs : RuleSet} {uses : Tally} {step : Nat} {ms : List Match}

def IsEntryOf (e : ShownMatch) (rs : RuleSet) (m : Match) : Prop :=
  ∃ rule v, rs.rule? m.rule = some rule ∧ rule.variants[m.variant]? = some v ∧
    e = ⟨rule.name, ⟨m.corner, v.left.extent⟩⟩

lemma ofCache_of_unknown {cache : MatchCache} (h : cache.found? = none) (rs : RuleSet) :
    ofCache cache rs = [] := by
  simp [ofCache, MatchCache.found, h]

lemma forall₂_ofCache {cache : MatchCache} (known : cache.found? = some ms)
    (h : ∀ m ∈ ms, ∃ rule v, m.Occurs rule v g rs uses step) :
    List.Forall₂ (fun m e => IsEntryOf e rs m) ms (ofCache cache rs) := by
  rw [ofCache, MatchCache.found, known, Option.getD_some]
  clear known
  induction ms with
  | nil => exact .nil
  | cons m ms ih =>
    rw [List.forall_mem_cons] at h
    obtain ⟨⟨rule, v, o⟩, rest⟩ := h
    simp only [List.filterMap_cons, o.rule_eq, Option.map_some]
    exact .cons ⟨rule, v, o.rule_eq, o.variant_eq, by rw [o.bounds_eq]⟩ (ih rest)

end ShownMatch

namespace Viewer

variable {σ : Type} {settings : Settings} {v : Viewer σ}

/-- Nothing is known of the matches and nothing is shown, or there is one entry for each match that
a search of the whole grid finds now. -/
def ShowsMatches (v : Viewer σ) : Prop :=
  let g := v.session.generation
  g.cache.found? = none ∧ v.overlay.shown = [] ∨
    ∃ ms, ms.Perm (findAll g.grid v.session.rules g.uses g.step) ∧
      List.Forall₂ (fun m e => ShownMatch.IsEntryOf e v.session.rules m) ms v.overlay.shown

lemma showsMatches_of_shown (h : Session.Sound settings v.session) (shown : v.overlay.shown =
    ShownMatch.ofCache v.session.generation.cache v.session.rules) : v.ShowsMatches := by
  cases found : v.session.generation.cache.found? with
  | none => exact .inl ⟨found, by rw [shown, ShownMatch.ofCache_of_unknown found]⟩
  | some ms =>
    refine .inr ⟨ms, h.faithful ms found, ?_⟩
    rw [shown]
    exact ShownMatch.forall₂_ofCache found fun m hm => h.faithful.exists_occurs found hm

variable [RandomSource σ]

lemma shown_frame (keys : List Key) (enabled : (v.frame keys).overlay.isEnabled = true) :
    (v.frame keys).overlay.shown =
      ShownMatch.ofCache (v.frame keys).session.generation.cache (v.frame keys).session.rules := by
  rw [frame, sync] at enabled ⊢
  split at enabled
  · rename_i h
    rw [if_pos h]
    rfl
  · contradiction

lemma isEnabled_frame (v : Viewer σ) (keys : List Key) :
    (v.frame keys).overlay.isEnabled = (v.overlay.isEnabled ^^ decide (.o ∈ keys)) := by
  have handled : (v.handle keys).overlay.isEnabled = (v.overlay.isEnabled ^^ decide (.o ∈ keys)) := by
    rw [handle]
    split_ifs <;> simp_all [restartNext]
  rw [← handled, frame, sync, step]
  split_ifs <;> rfl

lemma isEnabled_foldl (v : Viewer σ) (past : List (List Key)) :
    (past.foldl frame v).overlay.isEnabled =
      (v.overlay.isEnabled ^^ decide (presses .o past % 2 = 1)) := by
  induction past using List.reverseRecOn with
  | nil => simp [presses]
  | append_singleton past keys ih =>
    rw [List.foldl_concat, isEnabled_frame, ih, odd_presses_concat, Bool.xor_assoc]

lemma showsMatches_frame (h : Session.Sound settings v.session) (keys : List Key)
    (enabled : (v.frame keys).overlay.isEnabled = true) : (v.frame keys).ShowsMatches :=
  showsMatches_of_shown (sound_frame h keys) (shown_frame keys enabled)

lemma sound_foldl (h : Session.Sound settings v.session) (past : List (List Key)) :
    Session.Sound settings (past.foldl frame v).session := by
  induction past generalizing v with
  | nil => exact h
  | cons keys past ih => exact ih (sound_frame h keys)

theorem overlay_shows_current_matches {settings : Settings} (proper : settings.extent.Proper)
    (source : σ) (frames : List (List Key)) :
    ∃ v, start settings source = .ok v ∧ (play frames v).length = frames.length ∧
      ∀ i w, (play frames v)[i]? = some w →
        w.overlay.isEnabled =
            (settings.overlay ^^ decide (presses .o (frames.take (i + 1)) % 2 = 1)) ∧
          (w.overlay.isEnabled = true → w.ShowsMatches) := by
  obtain ⟨s, hs, hv⟩ := exists_start settings source proper
  have sound := Session.sound_restart (Session.sound_create hs)
  refine ⟨_, hv, length_play _ _, fun i w hw => ?_⟩
  have hi : i < frames.length := by
    have := (List.getElem?_eq_some_iff.1 hw).1
    rwa [length_play] at this
  have last := eq_foldl_of_play_getElem? hw
  refine ⟨by rw [last, isEnabled_foldl], fun enabled => ?_⟩
  rw [List.take_succ_eq_append_getElem hi, List.foldl_concat] at last
  subst last
  exact showsMatches_frame (sound_foldl sound _) _ enabled

theorem overlay_shows_current_matches_restarted :
    let settings : Settings := { gridSize := (9, 1, 9), strategy := .first, overlay := false }
    let frames : List (List Key) := [[], [], [.o, .r], [.space]]
    settings.extent.Proper ∧ ∃ v w, start settings (Stream.ofSeed 5) = .ok v ∧
      (play frames v)[2]? = some w ∧ w.overlay.isEnabled = true ∧ w.ShowsMatches := by
  intro settings frames
  have proper : settings.extent.Proper := by decide
  have odd : (settings.overlay ^^ decide (presses .o (frames.take 3) % 2 = 1)) = true := by decide
  obtain ⟨v, hv, length, shows⟩ :=
    overlay_shows_current_matches proper (Stream.ofSeed 5) frames
  have hw : 2 < (play frames v).length := by
    rw [length]
    decide
  obtain ⟨switched, shown⟩ := shows 2 _ (List.getElem?_eq_getElem hw)
  have enabled := switched.trans odd
  exact ⟨proper, v, _, hv, List.getElem?_eq_getElem hw, enabled, shown enabled⟩

end Viewer

end TileGrammar
