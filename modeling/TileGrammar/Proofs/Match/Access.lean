import TileGrammar.Proofs.Grid.Access
import TileGrammar.Proofs.Match.Application

namespace TileGrammar.Logged

section Search

def occurrences (p : Pattern) (g : Grid) (region : Box) : Logged (List Cell) :=
  match anchorWindow region p.extent g.extent with
  | none => pure []
  | some window =>
    let cells := p.cells
    select (allows g cells) window.sweep

def matchesIn (rule : Rule) (place : Nat) (g : Grid) (region : Box) : Logged (List Match) :=
  rule.variants.zipIdx |> collect fun (v, k) => do
    let corners ← occurrences v.left g region
    return corners.map fun corner => ⟨place, k, corner, v.left.extent⟩

def findIn (g : Grid) (rs : RuleSet) (uses : Tally) (step : Nat) (region : Box) :
    Logged (List Match) :=
  rs.rules.zipIdx |> collect fun (rule, r) =>
    if rule.isEligible (uses.count rule.name) step then matchesIn rule r g region else pure []

def findAll (g : Grid) (rs : RuleSet) (uses : Tally) (step : Nat) : Logged (List Match) :=
  findIn g rs uses step g.bounds

variable (g : Grid) (rs : RuleSet) (uses : Tally) (step : Nat) (region : Box)

lemma yields_occurrences (p : Pattern) :
    (occurrences p g region).Yields (p.occurrences g region) := by
  rw [occurrences, Pattern.occurrences]
  cases hw : anchorWindow region p.extent g.extent with
  | none => exact yields_pure []
  | some window =>
    apply yields_select
    intro corner hc
    have inside := ((mem_anchorWindow p.proper).1 ⟨window, hw, Box.mem_sweep.1 hc⟩).1
    exact yields_allows inside

lemma yields_matchesIn (rule : Rule) (place : Nat) :
    (matchesIn rule place g region).Yields (rule.matchesIn place g region) := by
  apply yields_collect
  rintro ⟨v, k⟩ -
  exact (yields_occurrences g region v.left).then _

lemma yields_findIn :
    (findIn g rs uses step region).Yields (TileGrammar.findIn g rs uses step region) := by
  apply yields_collect
  rintro ⟨rule, r⟩ -
  dsimp only
  split
  · exact yields_matchesIn g region rule r
  · exact yields_pure []

lemma yields_findAll : (findAll g rs uses step).Yields (TileGrammar.findAll g rs uses step) :=
  yields_findIn g rs uses step g.bounds

end Search

section Cache

def ensure (c : MatchCache) (g : Grid) (rs : RuleSet) (uses : Tally) (step : Nat) :
    Logged MatchCache :=
  match c.found? with
  | some ms => pure ⟨some ms⟩
  | none => do
    let ms ← findAll g rs uses step
    return ⟨some ms⟩

def patch (c : MatchCache) (g : Grid) (rs : RuleSet) (uses : Tally) (step : Nat) (edited : Box) :
    Logged MatchCache :=
  match c.found? with
  | none => pure ⟨none⟩
  | some ms => do
    let fresh ← findIn g rs uses step edited
    return ⟨some (ms.filter (MatchCache.survives rs uses edited) ++ fresh)⟩

def renew (c : MatchCache) (g : Grid) (rs : RuleSet) (uses : Tally) (step : Nat) (edited : Box) :
    Logged MatchCache :=
  if rs.opensAt step then pure c.invalidate else patch c g rs uses step edited

variable (c : MatchCache) (g : Grid) (rs : RuleSet) (uses : Tally) (step : Nat)

lemma yields_ensure : (ensure c g rs uses step).Yields (c.ensure g rs uses step) := by
  rw [ensure, MatchCache.ensure]
  cases c.found? with
  | some ms => exact yields_pure _
  | none => exact (yields_findAll g rs uses step).then _

lemma yields_patch (edited : Box) :
    (patch c g rs uses step edited).Yields (c.patch g rs uses step edited) := by
  rw [patch, MatchCache.patch]
  cases c.found? with
  | none => exact yields_pure _
  | some ms => exact (yields_findIn g rs uses step edited).then _

lemma yields_renew (edited : Box) : (renew c g rs uses step edited).Yields
    (if rs.opensAt step then c.invalidate else c.patch g rs uses step edited) := by
  rw [renew]
  split
  · exact yields_pure c.invalidate
  · exact yields_patch c g rs uses step edited

end Cache

section Rewrite

def rewrite (g : Grid) (rs : RuleSet) (m : Match) : Logged Grid :=
  match rs.replacement? m with
  | none => pure g
  | some (_, right) => stamp g right m.corner

def rewriteAll (g : Grid) (rs : RuleSet) (ms : List Match) : Logged Grid :=
  ms.foldlM (fun grid m => rewrite grid rs m) g

variable {g h : Grid} {rs : RuleSet} {uses : Tally} {step : Nat}

lemma yields_rewrite {m : Match} (found : m ∈ TileGrammar.findAll g rs uses step)
    (he : h.extent = g.extent) : (rewrite h rs m).Yields (h.rewrite rs m) := by
  obtain ⟨rule, v, o⟩ := mem_findAll.1 found
  rw [rewrite, Grid.rewrite, RuleSet.replacement?_eq_some o.rule_eq o.variant_eq]
  exact yields_stamp (he ▸ o.inside_right)

lemma yields_rewriteAll {ms : List Match}
    (found : ∀ m ∈ ms, m ∈ TileGrammar.findAll g rs uses step) :
    (rewriteAll g rs ms).Yields (ms.foldl (fun grid m => grid.rewrite rs m) g) := by
  apply yields_foldlM (fun h => h.extent = g.extent)
  · intro h he m hm
    exact ⟨yields_rewrite (found m hm) he, (Grid.extent_rewrite h rs m).trans he⟩
  · rfl

end Rewrite

end TileGrammar.Logged
