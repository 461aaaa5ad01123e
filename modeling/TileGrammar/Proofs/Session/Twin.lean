import TileGrammar.Proofs.Generation.Twin
import TileGrammar.Proofs.Session.Run

namespace TileGrammar

def Settings.Alike (c d : Settings) : Prop := ∃ seed overlay, d = { c with seed, overlay }

namespace Session

variable {σ : Type}

structure Twins (s t : Session σ) : Prop where
  settings : s.settings.Alike t.settings
  rules_eq : s.rules = t.rules
  generation : s.generation.Twins t.generation
  seed_eq : s.seed = t.seed
  isSwept_eq : s.isSwept = t.isSwept
  isFinished_eq : s.isFinished = t.isFinished

namespace Twins

variable {s t : Session σ}

lemma exists_eq (h : s.Twins t) : ∃ seed overlay generation, s.generation.Twins generation ∧
    t = { s with settings := { s.settings with seed, overlay }, generation } := by
  obtain ⟨settings, rules, generation, seed, isSwept, isFinished⟩ := t
  obtain ⟨⟨seed', overlay, rfl⟩, rfl, twins, rfl, rfl, rfl⟩ := h
  exact ⟨seed', overlay, generation, twins, rfl⟩

lemma close (h : s.Twins t) : s.close.2.Twins t.close.2 := by
  obtain ⟨seed, overlay, generation, twins, rfl⟩ := h.exists_eq
  rw [Session.close, Session.close]
  dsimp only
  split
  · exact ⟨⟨seed, overlay, rfl⟩, rfl, twins, rfl, rfl, rfl⟩
  · split
    · exact ⟨⟨seed, overlay, rfl⟩, rfl, twins, rfl, rfl, rfl⟩
    · rename_i stem _
      obtain ⟨same, next⟩ := twins.sweep s.rules (.ofName stem true)
      exact ⟨⟨seed, overlay, rfl⟩, rfl, next, rfl, rfl, congrArg (!·) same⟩

variable [RandomSource σ]

lemma advance (h : s.Twins t) : s.advance.2.Twins t.advance.2 := by
  obtain ⟨seed, overlay, generation, twins, rfl⟩ := h.exists_eq
  have budget_eq : hasBudget { s with settings := { s.settings with seed, overlay }, generation } =
      s.hasBudget := by
    rw [hasBudget, hasBudget, twins.step_eq]
  rw [Session.advance, Session.advance, budget_eq]
  dsimp only
  split
  · exact h
  · split
    · have step := twins.single s.rules .all
      generalize s.generation.single s.rules .all = r at step
      generalize generation.single s.rules .all = r' at step
      obtain ⟨succeeded, g⟩ := r
      obtain ⟨succeeded', g'⟩ := r'
      obtain ⟨rfl, twins⟩ := step
      have next : Twins { s with generation := g }
          { s with settings := { s.settings with seed, overlay }, generation := g' } :=
        ⟨⟨seed, overlay, rfl⟩, rfl, twins, rfl, rfl, rfl⟩
      cases succeeded with
      | true => exact next
      | false => exact next.close
    · exact h.close

lemma restart (h : s.Twins t) : s.restart.Twins t.restart := by
  obtain ⟨seed, overlay, generation, twins, rfl⟩ := h.exists_eq
  have cleared : ({ s.generation with grid := s.generation.grid.fill ⟨s.settings.fill⟩ } :
      Generation σ).Twins { generation with grid := generation.grid.fill ⟨s.settings.fill⟩ } :=
    { twins with grid := .of_fill twins.grid.extent_eq _ }
  exact ⟨⟨seed, overlay, rfl⟩, rfl, cleared.reset s.rules s.seed, rfl, rfl, rfl⟩

end Twins

lemma seed_create {settings : Settings} {source : σ} {s : Session σ}
    (h : create settings source = .ok s) : s.seed = settings.seed := by
  by_cases proper : settings.extent.Proper
  · rw [create, Settings.validate, if_pos proper, Dungeon.rules_eq] at h
    simp only [Except.mapError, bind, Except.bind, pure, Except.pure, Grid.create,
      dif_pos proper] at h
    obtain rfl := Except.ok.inj h
    rfl
  · rw [create, Settings.validate, if_neg proper] at h
    cases h

lemma seed_step [RandomSource σ] {s t : Session σ} {b : Bool} (h : Step s b t) : t.seed = s.seed := by
  have stuck (u : Session σ) (hu : Stuck s u) : u.seed = s.seed := by
    cases hu <;> rfl
  cases h with
  | finished | single => rfl
  | closed u _ hu | unswept u _ hu | nothing u _ _ hu | sweep u _ _ hu => exact stuck u hu

lemma twins_restart [RandomSource σ] (law : RandomSource.SeedDetermines σ) {c d : Settings}
    {s t : Session σ} (hs : Sound c s) (ht : Sound d t) (alike : c.Alike d) (same : s.seed = t.seed)
    {n : UInt64} (seeded : t.seed = some n) : s.restart.Twins t.restart := by
  have settings : s.settings.Alike t.settings := by rwa [hs.settings_eq, ht.settings_eq]
  have rules_eq : s.rules = t.rules := hs.rules_eq.trans ht.rules_eq.symm
  have fill_eq : t.settings.fill = s.settings.fill := by
    obtain ⟨seed, overlay, he⟩ := settings
    rw [he]
  have extent_eq : s.generation.grid.extent = t.generation.grid.extent := by
    obtain ⟨seed, overlay, rfl⟩ := alike
    exact hs.extent_eq.trans ht.extent_eq.symm
  have strategy_eq : s.generation.strategy = t.generation.strategy := by
    obtain ⟨seed, overlay, rfl⟩ := alike
    exact hs.strategy_eq.trans ht.strategy_eq.symm
  let cleared (u : Session σ) : Generation σ :=
    { u.generation with grid := u.generation.grid.fill ⟨s.settings.fill⟩ }
  have twins : ((cleared s).reset t.rules (some n)).Twins ((cleared t).reset t.rules (some n)) := by
    apply Generation.Twins.of_reset
    · exact .of_fill extent_eq _
    · exact strategy_eq
    · exact law _ _ n
  refine ⟨settings, rules_eq, ?_, same, rfl, rfl⟩
  rw [restart, restart, rules_eq, same, fill_eq, seeded]
  exact twins

end Session

end TileGrammar
