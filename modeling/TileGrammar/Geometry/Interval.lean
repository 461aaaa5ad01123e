import TileGrammar.Geometry.Box

namespace TileGrammar

def interval (low high : Int) : List Int :=
  (List.range (high - low).toNat).map fun (n : Nat) => low + n

@[simp] theorem mem_interval {low high n : Int} : n ∈ interval low high ↔ low ≤ n ∧ n < high := by
  simp only [interval, List.mem_map, List.mem_range]
  constructor
  · rintro ⟨k, hk, rfl⟩
    omega
  · rintro ⟨h₁, h₂⟩
    exact ⟨(n - low).toNat, by omega, by omega⟩

theorem pairwise_interval (low high : Int) : (interval low high).Pairwise (· < ·) := by
  rw [interval, List.pairwise_map]
  exact List.pairwise_lt_range.imp fun h => by omega

namespace Cell

def Precedes (a b : Cell) : Prop := a.x < b.x ∨ a.x = b.x ∧ (a.y < b.y ∨ a.y = b.y ∧ a.z < b.z)

end Cell

namespace Box

def sweep (b : Box) : List Cell :=
  (interval b.corner.x b.top.x).flatMap fun x =>
    (interval b.corner.y b.top.y).flatMap fun y =>
      (interval b.corner.z b.top.z).map fun z => ⟨x, y, z⟩

theorem mem_sweep {b : Box} {c : Cell} : c ∈ b.sweep ↔ c ∈ b := by
  simp only [sweep, List.mem_flatMap, List.mem_map, mem_interval, mem_iff, Cell.le_iff, Cell.lt_iff]
  constructor
  · rintro ⟨x, hx, y, hy, z, hz, rfl⟩
    exact ⟨⟨hx.1, hy.1, hz.1⟩, hx.2, hy.2, hz.2⟩
  · rintro ⟨⟨hx, hy, hz⟩, hx', hy', hz'⟩
    exact ⟨c.x, ⟨hx, hx'⟩, c.y, ⟨hy, hy'⟩, c.z, ⟨hz, hz'⟩, rfl⟩

theorem pairwise_sweep (b : Box) : b.sweep.Pairwise Cell.Precedes := by
  rw [sweep, List.pairwise_flatMap]
  refine ⟨fun x _ => ?_, (pairwise_interval _ _).imp fun hx => ?_⟩
  · rw [List.pairwise_flatMap]
    refine ⟨fun y _ => ?_, (pairwise_interval _ _).imp fun hy => ?_⟩
    · rw [List.pairwise_map]
      exact (pairwise_interval _ _).imp fun hz => .inr ⟨rfl, .inr ⟨rfl, hz⟩⟩
    · simp only [List.mem_map]
      rintro _ ⟨z, _, rfl⟩ _ ⟨z', _, rfl⟩
      exact .inr ⟨rfl, .inl hy⟩
  · simp only [List.mem_flatMap, List.mem_map]
    rintro _ ⟨y, _, z, _, rfl⟩ _ ⟨y', _, z', _, rfl⟩
    exact .inl hx

end Box

end TileGrammar
