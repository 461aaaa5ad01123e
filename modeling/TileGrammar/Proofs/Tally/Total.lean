import TileGrammar.Proofs.Tally.Count

namespace TileGrammar.Tally

section Total

lemma total_adjust (t : Tally) (name : String) (f : Nat → Nat) :
    (t.adjust name f).total + t.count name = t.total + f (t.count name) := by
  obtain ⟨es, sorted⟩ := t
  simp only [total, adjust, count]
  induction es with
  | nil => simp [adjustIn, countIn]
  | cons e es ih =>
    obtain ⟨key, n⟩ := e
    rw [adjustIn]
    split
    · rename_i he
      simp only [List.foldr_cons, countIn_cons, if_pos he]
      omega
    · rename_i hne
      split
      · rename_i hlt
        simp only [List.foldr_cons, countIn_of_lt sorted hlt]
        omega
      · have rest := ih (List.pairwise_cons.1 sorted).2
        simp only [List.foldr_cons, countIn_cons, if_neg hne]
        omega

@[simp] lemma total_increment (t : Tally) (name : String) :
    (t.increment name).total = t.total + 1 := by
  have h := t.total_adjust name (· + 1)
  rw [increment]
  omega

@[simp] lemma total_zero (names : List String) : (zero names).total = 0 := by
  have same : ∀ t : Tally, (names.foldl (fun t name => t.adjust name id) t).total = t.total := by
    induction names with
    | nil => exact fun t => rfl
    | cons name names ih =>
      intro t
      have h := t.total_adjust name id
      rw [List.foldl_cons, ih]
      exact Nat.add_right_cancel h
  exact same empty

end Total

section Names

variable {t : Tally} {name x : String}

lemma mem_map_fst_adjustIn {f : Nat → Nat} {es : List (String × Nat)} :
    x ∈ (adjustIn name f es).map Prod.fst ↔ x = name ∨ x ∈ es.map Prod.fst := by
  induction es with
  | nil => simp [adjustIn]
  | cons e es ih =>
    obtain ⟨key, n⟩ := e
    rw [adjustIn]
    split
    · rename_i he
      simp [he]
    · split
      · simp
      · rw [List.map_cons, List.mem_cons, ih, List.map_cons, List.mem_cons, or_left_comm]

lemma mem_names_adjust {f : Nat → Nat} :
    x ∈ (t.adjust name f).names ↔ x = name ∨ x ∈ t.names := mem_map_fst_adjustIn

lemma mem_names_zero {names : List String} : x ∈ (zero names).names ↔ x ∈ names := by
  have adjusted : ∀ t : Tally, x ∈ (names.foldl (fun t name => t.adjust name id) t).names ↔
      x ∈ names ∨ x ∈ t.names := by
    induction names with
    | nil => simp
    | cons name names ih =>
      intro t
      rw [List.foldl_cons, ih, mem_names_adjust, List.mem_cons, or_left_comm, or_assoc]
  have absent : x ∉ empty.names := List.not_mem_nil
  rw [zero, adjusted, or_iff_left absent]

end Names

end TileGrammar.Tally
