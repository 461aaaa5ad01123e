namespace TileGrammar.Text

def fields (sep : Char) : List Char → List (List Char)
  | [] => [[]]
  | c :: s =>
    if c = sep then [] :: fields sep s
    else (fields sep s).modifyHead (c :: ·)

theorem fields_ne_nil (sep : Char) (s : List Char) : fields sep s ≠ [] := by
  induction s with
  | nil => simp [fields]
  | cons c s ih =>
    rw [fields]
    split
    · simp
    · obtain ⟨f, fs, h⟩ := List.exists_cons_of_ne_nil ih
      simp [h]

theorem intercalate_fields (sep : Char) (s : List Char) :
    [sep].intercalate (fields sep s) = s := by
  induction s with
  | nil => simp [fields]
  | cons c s ih =>
    obtain ⟨f, fs, h⟩ := List.exists_cons_of_ne_nil (fields_ne_nil sep s)
    rw [h] at ih
    by_cases hc : c = sep
    · subst hc
      simp only [fields, ↓reduceIte, h, List.intercalate_cons_cons, ih]
      simp
    · cases fs <;> simp_all [fields]

theorem fields_of_not_mem {sep : Char} {s : List Char} (h : sep ∉ s) : fields sep s = [s] := by
  induction s with
  | nil => rfl
  | cons c s ih =>
    rw [List.mem_cons, not_or] at h
    simp [fields, Ne.symm h.1, ih h.2]

theorem fields_append_cons {sep : Char} {s : List Char} (h : sep ∉ s) (t : List Char) :
    fields sep (s ++ sep :: t) = s :: fields sep t := by
  induction s with
  | nil => simp [fields]
  | cons c s ih =>
    rw [List.mem_cons, not_or] at h
    simp [fields, Ne.symm h.1, ih h.2]

theorem fields_intercalate {sep : Char} {fs : List (List Char)} (hne : fs ≠ [])
    (h : ∀ f ∈ fs, sep ∉ f) : fields sep ([sep].intercalate fs) = fs := by
  induction fs with
  | nil => exact absurd rfl hne
  | cons f fs ih =>
    rw [List.forall_mem_cons] at h
    cases fs with
    | nil => rw [List.intercalate_singleton, fields_of_not_mem h.1]
    | cons g gs =>
      rw [List.intercalate_cons_cons, List.append_assoc, List.singleton_append,
        fields_append_cons h.1, ih (List.cons_ne_nil g gs) h.2]

theorem not_mem_of_mem_fields {sep : Char} {s f : List Char} (h : f ∈ fields sep s) : sep ∉ f := by
  induction s generalizing f with
  | nil =>
    obtain rfl := List.mem_singleton.1 h
    exact List.not_mem_nil
  | cons c s ih =>
    rw [fields] at h
    split at h
    · rcases List.mem_cons.1 h with rfl | h
      · exact List.not_mem_nil
      · exact ih h
    · rename_i hc
      obtain ⟨g, gs, he⟩ := List.exists_cons_of_ne_nil (fields_ne_nil sep s)
      rw [he] at h ih
      rcases List.mem_cons.1 h with rfl | h
      · simp [Ne.symm hc, ih List.mem_cons_self]
      · exact ih (List.mem_cons_of_mem g h)

theorem mem_intercalate_of_mem {sep c : Char} {f : List Char} {fs : List (List Char)}
    (hf : f ∈ fs) (hc : c ∈ f) : c ∈ [sep].intercalate fs := by
  induction fs with
  | nil => cases hf
  | cons g fs ih =>
    cases fs with
    | nil =>
      obtain rfl := List.mem_singleton.1 hf
      rwa [List.intercalate_singleton]
    | cons h hs =>
      rw [List.intercalate_cons_cons, List.append_assoc, List.mem_append, List.mem_append]
      rcases List.mem_cons.1 hf with rfl | hf
      · exact .inl hc
      · exact .inr (.inr (ih hf))

theorem eq_or_exists_of_mem_intercalate {sep c : Char} {fs : List (List Char)}
    (h : c ∈ [sep].intercalate fs) : c = sep ∨ ∃ f ∈ fs, c ∈ f := by
  induction fs with
  | nil => cases h
  | cons f fs ih =>
    cases fs with
    | nil => exact .inr ⟨f, List.mem_cons_self, by rwa [List.intercalate_singleton] at h⟩
    | cons g gs =>
      rw [List.intercalate_cons_cons, List.append_assoc, List.mem_append, List.mem_append,
        List.mem_singleton] at h
      rcases h with h | h | h
      · exact .inr ⟨f, List.mem_cons_self, h⟩
      · exact .inl h
      · obtain h | ⟨e, he, hc⟩ := ih h
        · exact .inl h
        · exact .inr ⟨e, List.mem_cons_of_mem f he, hc⟩

theorem mem_of_mem_fields {sep c : Char} {s f : List Char} (hf : f ∈ fields sep s) (hc : c ∈ f) :
    c ∈ s := by
  rw [← intercalate_fields sep s]
  exact mem_intercalate_of_mem hf hc

end TileGrammar.Text
