/-!
Counters by name. The entries are kept in the order of the names, so two tallies with the same
counters are equal.
-/

namespace TileGrammar

structure Tally where
  entries : List (String × Nat)
  sorted : entries.Pairwise (fun a b => a.1 < b.1)
deriving DecidableEq

namespace Tally

def empty : Tally := ⟨[], .nil⟩

instance : Inhabited Tally := ⟨empty⟩

def adjustIn (name : String) (f : Nat → Nat) : List (String × Nat) → List (String × Nat)
  | [] => [(name, f 0)]
  | (key, n) :: rest =>
    if name = key then (key, f n) :: rest
    else if name < key then (name, f 0) :: (key, n) :: rest
    else (key, n) :: adjustIn name f rest

theorem name_of_mem_adjustIn {name : String} {f : Nat → Nat} {es : List (String × Nat)}
    {e : String × Nat} (h : e ∈ adjustIn name f es) : e.1 = name ∨ ∃ d ∈ es, d.1 = e.1 := by
  induction es with
  | nil => simp_all [adjustIn]
  | cons d es ih =>
    obtain ⟨key, n⟩ := d
    rw [adjustIn] at h
    split at h
    · rcases List.mem_cons.1 h with rfl | h
      · exact .inr ⟨_, List.mem_cons_self, rfl⟩
      · exact .inr ⟨e, List.mem_cons_of_mem _ h, rfl⟩
    · split at h
      · rcases List.mem_cons.1 h with rfl | h
        · exact .inl rfl
        · exact .inr ⟨e, h, rfl⟩
      · rcases List.mem_cons.1 h with rfl | h
        · exact .inr ⟨_, List.mem_cons_self, rfl⟩
        · obtain h | ⟨d, hd, he⟩ := ih h
          · exact .inl h
          · exact .inr ⟨d, List.mem_cons_of_mem _ hd, he⟩

theorem sorted_adjustIn (name : String) (f : Nat → Nat) {es : List (String × Nat)}
    (h : es.Pairwise (fun a b => a.1 < b.1)) :
    (adjustIn name f es).Pairwise (fun a b => a.1 < b.1) := by
  induction es with
  | nil => simp [adjustIn]
  | cons d es ih =>
    obtain ⟨key, n⟩ := d
    obtain ⟨hd, hes⟩ := List.pairwise_cons.1 h
    rw [adjustIn]
    split
    · exact List.pairwise_cons.2 ⟨hd, hes⟩
    · rename_i hne
      split
      · rename_i hlt
        refine List.pairwise_cons.2 ⟨fun e he => ?_, h⟩
        rcases List.mem_cons.1 he with rfl | he
        · exact hlt
        · exact String.lt_trans hlt (hd e he)
      · rename_i hnlt
        refine List.pairwise_cons.2 ⟨fun e he => ?_, ih hes⟩
        obtain he | ⟨d, hd', he⟩ := name_of_mem_adjustIn he
        · rw [he]
          exact Std.lt_of_le_of_ne hnlt (Ne.symm hne)
        · exact he ▸ hd d hd'

def adjust (t : Tally) (name : String) (f : Nat → Nat) : Tally :=
  ⟨adjustIn name f t.entries, sorted_adjustIn name f t.sorted⟩

def increment (t : Tally) (name : String) : Tally := t.adjust name (· + 1)

def zero (names : List String) : Tally := names.foldl (fun t name => t.adjust name id) empty

def countIn (name : String) (entries : List (String × Nat)) : Nat :=
  (entries.lookup name).getD 0

def count (t : Tally) (name : String) : Nat := countIn name t.entries

def names (t : Tally) : List String := t.entries.map Prod.fst

def total (t : Tally) : Nat := t.entries.foldr (fun e n => e.2 + n) 0

end Tally

end TileGrammar
