import TileGrammar.Proofs.Pattern.Motion
import Mathlib.Data.Fin.Basic
import Mathlib.Data.List.Induction

namespace TileGrammar

lemma nodup_eraseDups {α : Type} [BEq α] [LawfulBEq α] (xs : List α) : xs.eraseDups.Nodup := by
  induction xs using List.reverseRecOn with
  | nil => exact .nil
  | append_singleton xs x ih =>
    rw [List.eraseDups_append]
    by_cases hx : x ∈ xs
    · have old : [x].removeAll xs = [] := by simp [List.removeAll, hx]
      rwa [old, List.eraseDups_nil, List.append_nil]
    · have new : ([x].removeAll xs).eraseDups = [x] := by
        simp [List.removeAll, hx, List.eraseDups_cons]
      rw [new, List.nodup_append]
      refine ⟨ih, List.nodup_singleton x, ?_⟩
      rintro a ha b hb rfl
      rw [List.mem_singleton.1 hb, List.mem_eraseDups] at ha
      exact hx ha

lemma Orientation.mem_all (o : Orientation) : o ∈ Orientation.all := by
  obtain ⟨quarters, isMirrored⟩ := o
  revert quarters isMirrored
  decide

namespace Variant

variable {u v w : Variant}

lemma mem_images {s : Symmetry} : w ∈ v.images s ↔ ∃ o, s.allows o = true ∧ v.orient o = w := by
  simp only [images, Symmetry.orientations, List.mem_eraseDups, List.mem_map, List.mem_filter,
    Orientation.mem_all, true_and]

lemma mem_images_all : w ∈ v.images .all ↔ ∃ o, v.orient o = w := by
  rw [mem_images]
  exact exists_congr fun _ => and_iff_right rfl

end Variant

lemma Rule.nodup_variants (rule : Rule) : rule.variants.Nodup := nodup_eraseDups _

lemma Pattern.turned_repeat (p : Pattern) (q : Fin 4) :
    (Nat.repeat turned q p).turned = Nat.repeat turned (q + 1 : Fin 4) p := by
  match q with
  | 0 => rfl
  | 1 => rfl
  | 2 => rfl
  | 3 => exact turned_turned_turned_turned p

namespace Motion

lemma exists_apply_eq (t : Motion) (o : Orientation) :
    ∃ o' : Orientation, ∀ p, t.pattern (o.apply p) = o'.apply p := by
  obtain ⟨quarters, isMirrored⟩ := o
  cases t with
  | mirror =>
    refine ⟨⟨quarters, !isMirrored⟩, fun p => ?_⟩
    cases isMirrored with
    | false => rfl
    | true => exact Pattern.mirrored_mirrored _
  | turn =>
    cases isMirrored with
    | false => exact ⟨⟨quarters + 1, false⟩, fun p => p.turned_repeat quarters⟩
    | true =>
      refine ⟨⟨quarters + 1 + 1 + 1, true⟩, fun p => ?_⟩
      have thrice : (Nat.repeat Pattern.turned quarters p).turned.turned.turned =
          Nat.repeat Pattern.turned (quarters + 1 + 1 + 1 : Fin 4) p := by
        rw [Pattern.turned_repeat, Pattern.turned_repeat, Pattern.turned_repeat]
      exact (Pattern.mirrored_turned _).trans (congrArg Pattern.mirrored thrice)

variable (t : Motion) {v w : Variant}

lemma variant_mem_images (h : w ∈ v.images .all) : t.variant w ∈ v.images .all := by
  rw [Variant.mem_images_all] at h ⊢
  obtain ⟨o, rfl⟩ := h
  obtain ⟨o', moved⟩ := t.exists_apply_eq o
  refine ⟨o', ?_⟩
  simp only [variant, Variant.orient, moved]

lemma exists_variant_eq (h : w ∈ v.images .all) : ∃ u ∈ v.images .all, t.variant u = w := by
  cases t with
  | mirror =>
    refine ⟨mirror.variant w, mirror.variant_mem_images h, ?_⟩
    simp only [variant, pattern, Pattern.mirrored_mirrored]
  | turn =>
    refine ⟨turn.variant (turn.variant (turn.variant w)), ?_, ?_⟩
    · exact turn.variant_mem_images (turn.variant_mem_images (turn.variant_mem_images h))
    · simp only [variant, pattern, Pattern.turned_turned_turned_turned]

end Motion

end TileGrammar
