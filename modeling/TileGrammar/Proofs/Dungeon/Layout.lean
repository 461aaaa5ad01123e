import TileGrammar.Proofs.Grid.Stamp
import Mathlib.Logic.Relation

namespace TileGrammar

def Cell.Beside (a b : Cell) : Prop :=
  a.y = b.y ∧ (a.z = b.z ∧ (b.x = a.x + 1 ∨ a.x = b.x + 1) ∨
    a.x = b.x ∧ (b.z = a.z + 1 ∨ a.z = b.z + 1))

lemma Cell.beside_iff {a b : Cell} : a.Beside b ↔
    a.y = b.y ∧ (a.z = b.z ∧ (b.x = a.x + 1 ∨ a.x = b.x + 1) ∨
      a.x = b.x ∧ (b.z = a.z + 1 ∨ a.z = b.z + 1)) := Iff.rfl

instance : DecidableRel Cell.Beside := fun _ _ => decidable_of_iff _ Cell.beside_iff.symm

lemma Cell.Beside.symm {a b : Cell} (h : a.Beside b) : b.Beside a := by
  rw [beside_iff] at *
  omega

lemma Cell.beside_add_iff {a b c : Cell} : (c + a).Beside (c + b) ↔ a.Beside b := by
  simp only [beside_iff, add_x, add_y, add_z]
  omega

lemma Cell.exists_eq_add (a b : Cell) : ∃ d, b = a + d := by
  refine ⟨b - a, ?_⟩
  simp only [Cell.ext_iff, add_x, add_y, add_z, sub_x, sub_y, sub_z]
  omega

namespace Dungeon

def empty : Tile := ⟨"."⟩

def layoutTiles : List Tile := [⟨"R"⟩, ⟨"C"⟩, ⟨"D"⟩]

def Solid (g : Grid) (c : Cell) : Prop := ∃ t ∈ layoutTiles, g.get? c = some t

lemma solid_iff {g : Grid} {c : Cell} : Solid g c ↔ c ∈ g.bounds ∧ g.tileAt c ∈ layoutTiles := by
  constructor
  · rintro ⟨t, ht, h⟩
    obtain ⟨hc, rfl⟩ := Grid.get?_eq_some_iff.1 h
    exact ⟨hc, ht⟩
  · rintro ⟨hc, ht⟩
    exact ⟨_, ht, Grid.tileAt_of_mem hc⟩

def Joined (S : Cell → Prop) : Cell → Cell → Prop :=
  Relation.ReflTransGen fun a b => S a ∧ S b ∧ a.Beside b

section Joined

variable {S T K : Cell → Prop} {a b c root : Cell}

lemma Joined.symm (h : Joined S a b) : Joined S b a := by
  induction h with
  | refl => exact .refl
  | tail _ h ih => exact .head ⟨h.2.1, h.1, h.2.2.symm⟩ ih

lemma Joined.mono (sub : ∀ c, S c → T c) (h : Joined S a b) : Joined T a b := by
  induction h with
  | refl => exact .refl
  | tail _ h ih => exact ih.tail ⟨sub _ h.1, sub _ h.2.1, h.2.2⟩

lemma Joined.y_eq (h : Joined S a b) : a.y = b.y := by
  induction h with
  | refl => rfl
  | tail _ h ih => exact ih.trans h.2.2.1

lemma joined_of_prune (leaf : ∀ c, K c → ∃ n, ∀ d, S d → c.Beside d → d = n) (hroot : ¬ K root)
    (h : Joined S root c) :
    (¬ K c → Joined (fun c => S c ∧ ¬ K c) root c) ∧
      (K c → ∃ n, Joined (fun c => S c ∧ ¬ K c) root n ∧ ¬ K n ∧
        ∀ d, S d → c.Beside d → d = n) := by
  induction h with
  | refl => exact ⟨fun _ => .refl, fun hk => absurd hk hroot⟩
  | @tail b c _ h ih =>
    obtain ⟨hb, hc, hbc⟩ := h
    by_cases hkb : K b
    · -- the path goes into a leaf and back out of it
      obtain ⟨n, path, hn, only⟩ := ih.2 hkb
      obtain rfl := only c hc hbc
      exact ⟨fun _ => path, fun hk => absurd hk hn⟩
    · have path := ih.1 hkb
      constructor
      · intro hkc
        exact path.tail ⟨⟨hb, hkb⟩, ⟨hc, hkc⟩, hbc⟩
      · intro hkc
        obtain ⟨n, only⟩ := leaf c hkc
        obtain rfl := only b hb hbc.symm
        exact ⟨b, path, hkb, only⟩

end Joined

structure Connected (layer : Int) (g : Grid) : Prop where
  flat : ∀ c, Solid g c → c.y = layer
  rooted : ∃ root, g.get? root = some ⟨"R"⟩ ∧ ∀ c, Solid g c → Joined (Solid g) root c

section Connected

variable {layer : Int} {g h : Grid}

lemma solid_of_room {c : Cell} (hc : g.get? c = some ⟨"R"⟩) : Solid g c :=
  ⟨_, List.mem_cons_self, hc⟩

lemma Connected.joined (hg : Connected layer g) {a b : Cell} (ha : Solid g a) (hb : Solid g b) :
    Joined (Solid g) a b := by
  obtain ⟨root, -, joined⟩ := hg.rooted
  exact (joined a ha).symm.trans (joined b hb)

lemma Connected.grow (hg : Connected layer g)
    (kept : ∀ c, ∀ t ∈ layoutTiles, g.get? c = some t → h.get? c = some t)
    (added : ∀ c, Solid h c → ∃ a, Solid g a ∧ Joined (Solid h) a c) : Connected layer h := by
  have stays : ∀ c, Solid g c → Solid h c := by
    rintro c ⟨t, ht, hc⟩
    exact ⟨t, ht, kept c t ht hc⟩
  obtain ⟨root, hroot, joined⟩ := hg.rooted
  refine ⟨fun c hc => ?_, root, kept root _ List.mem_cons_self hroot, fun c hc => ?_⟩
  · obtain ⟨a, ha, hac⟩ := added c hc
    rw [← hac.y_eq, hg.flat a ha]
  · obtain ⟨a, ha, hac⟩ := added c hc
    exact ((joined a ha).mono stays).trans hac

lemma Connected.prune (hg : Connected layer g) {K : Cell → Prop}
    (leaf : ∀ c, K c → ∃ n, ∀ d, Solid g d → c.Beside d → d = n)
    (unroomed : ∀ c, K c → g.get? c ≠ some ⟨"R"⟩) (gone : ∀ c, K c → ¬ Solid h c)
    (rest : ∀ c, ¬ K c → h.get? c = g.get? c) : Connected layer h := by
  have remains : ∀ c, Solid g c ∧ ¬ K c → Solid h c := by
    rintro c ⟨⟨t, ht, hc⟩, hk⟩
    exact ⟨t, ht, (rest c hk).trans hc⟩
  have was : ∀ c, Solid h c → Solid g c ∧ ¬ K c := by
    intro c hc
    have hk : ¬ K c := fun hk => gone c hk hc
    obtain ⟨t, ht, hc⟩ := hc
    exact ⟨⟨t, ht, (rest c hk).symm.trans hc⟩, hk⟩
  obtain ⟨root, hroot, joined⟩ := hg.rooted
  have hkr : ¬ K root := fun hk => unroomed root hk hroot
  refine ⟨fun c hc => hg.flat c (was c hc).1, root, (rest root hkr).trans hroot, fun c hc => ?_⟩
  obtain ⟨hs, hk⟩ := was c hc
  exact ((joined_of_prune leaf hkr (joined c hs)).1 hk).mono remains

end Connected

end Dungeon

end TileGrammar
