import TileGrammar.Proofs.Match.Occurrence
import Mathlib.Data.List.Perm.Basic

namespace TileGrammar

lemma pairwise_zipIdx {α : Type} (l : List α) : l.zipIdx.Pairwise fun a b => a.2 < b.2 := by
  have h := List.pairwise_lt_range' (s := 0) (n := l.length)
  rwa [← List.zipIdx_map_snd, List.pairwise_map] at h

namespace Match

def Precedes (a b : Match) : Prop :=
  a.rule < b.rule ∨ a.rule = b.rule ∧
    (a.variant < b.variant ∨ a.variant = b.variant ∧ a.corner.Precedes b.corner)

lemma Precedes.irrefl (m : Match) : ¬ m.Precedes m := by
  simp [Precedes, Cell.Precedes]

lemma Precedes.trans {a b c : Match} (h₁ : a.Precedes b) (h₂ : b.Precedes c) : a.Precedes c := by
  simp only [Precedes, Cell.Precedes] at *
  omega

lemma Precedes.asymm {a b : Match} (h₁ : a.Precedes b) (h₂ : b.Precedes a) : False :=
  irrefl a (h₁.trans h₂)

end Match

lemma Rule.pairwise_matchesIn (rule : Rule) (place : Nat) (g : Grid) (region : Box) :
    (rule.matchesIn place g region).Pairwise Match.Precedes := by
  rw [matchesIn, List.pairwise_flatMap]
  constructor
  · rintro ⟨v, k⟩ _
    rw [List.pairwise_map, Pattern.occurrences]
    cases anchorWindow region v.left.extent g.extent with
    | none => exact .nil
    | some window =>
      exact (window.pairwise_sweep.filter _).imp fun h => .inr ⟨rfl, .inr ⟨rfl, h⟩⟩
  · apply (pairwise_zipIdx _).imp
    rintro ⟨v, k⟩ ⟨v', k'⟩ hk a ha b hb
    obtain ⟨c, _, rfl⟩ := List.mem_map.1 ha
    obtain ⟨c', _, rfl⟩ := List.mem_map.1 hb
    exact .inr ⟨rfl, .inl hk⟩

section Search

variable (g : Grid) (rs : RuleSet) (uses : Tally) (step : Nat) (region : Box)

lemma pairwise_findIn : (findIn g rs uses step region).Pairwise Match.Precedes := by
  rw [findIn, List.pairwise_flatMap]
  constructor
  · rintro ⟨rule, r⟩ _
    dsimp only
    split
    · exact rule.pairwise_matchesIn r g region
    · exact .nil
  · apply (pairwise_zipIdx _).imp
    rintro ⟨rule, r⟩ ⟨rule', r'⟩ hr a ha b hb
    have mem_rule {rule : Rule} {r : Nat} {m : Match}
        (hm : m ∈ if rule.isEligible (uses.count rule.name) step then
          rule.matchesIn r g region else []) : m.rule = r := by
      split at hm
      · exact (Rule.mem_matchesIn.1 hm).1
      · cases hm
    rw [Match.Precedes, mem_rule ha, mem_rule hb]
    exact .inl hr

lemma nodup_findIn : (findIn g rs uses step region).Nodup :=
  (pairwise_findIn g rs uses step region).imp fun h => by
    rintro rfl
    exact Match.Precedes.irrefl _ h

lemma nodup_findAll : (findAll g rs uses step).Nodup := nodup_findIn g rs uses step g.bounds

end Search

end TileGrammar
