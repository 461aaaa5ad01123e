import TileGrammar.Json.Typed
import TileGrammar.Proofs.Json.Lexeme

namespace TileGrammar.Json

variable {α β ρ : Type} {l : Layout} {depth : Nat} {text blanks rest : List Char}

/-- The reader takes a value off its text, wherever the text stands: after blanks, and before a text
that does not go on with a number. -/
def Reads (x : Reader α) (text : List Char) (a : α) : Prop :=
  ∀ blanks rest, (∀ c ∈ blanks, isBlank c) → EndsNumber rest →
    x.run (blanks ++ text ++ rest) = .ok (a, rest)

def BeginsValue (text : List Char) : Prop :=
  ∃ c cs, text = c :: cs ∧ isBlank c = false ∧ c ≠ 'n' ∧ c ≠ ']'

lemma endsNumber_cons {c : Char} (h : c = ',' ∨ c = ']' ∨ c = '\x7d' ∨ isBlank c = true)
    (rest : List Char) : EndsNumber (c :: rest) := by
  intro d hd
  obtain rfl := Option.some.inj hd
  rcases h with rfl | rfl | rfl | blank
  · decide
  · decide
  · decide
  · rcases isBlank_iff.1 blank with rfl | rfl | rfl | rfl <;> decide

lemma endsNumber_append (blank : ∀ c ∈ blanks, isBlank c) (h : EndsNumber rest) :
    EndsNumber (blanks ++ rest) := by
  cases blanks with
  | nil => exact h
  | cons c blanks => exact endsNumber_cons (.inr (.inr (.inr (blank c List.mem_cons_self)))) _

lemma isBlank_lineBreak (l : Layout) (depth : Nat) : ∀ c ∈ l.lineBreak depth, isBlank c := by
  intro c hc
  rw [Layout.lineBreak] at hc
  split at hc
  · rcases List.mem_cons.1 hc with rfl | hc
    · rfl
    · obtain rfl := List.eq_of_mem_replicate hc
      rfl
  · cases hc

lemma beginsValue_stringText (s : String) : BeginsValue (stringText s) :=
  ⟨'"', _, rfl, by decide, by decide, by decide⟩

lemma exists_cons_intText (n : Int) : ∃ c cs, intText n = c :: cs ∧ (c = '-' ∨ c.isDigit) := by
  rw [intText]
  split
  · exact ⟨'-', _, rfl, .inl rfl⟩
  · obtain ⟨c, cs, hc, digit⟩ := exists_cons_toDigits n.natAbs
    exact ⟨c, cs, hc, .inr digit⟩

lemma visible_of_isDigit {c : Char} (h : c = '-' ∨ c.isDigit) :
    isBlank c = false ∧ c ≠ 'n' ∧ c ≠ ']' := by
  rcases h with rfl | digit
  · decide
  · refine ⟨?_, ?_, ?_⟩
    · rw [Bool.eq_false_iff]
      intro blank
      rcases isBlank_iff.1 blank with rfl | rfl | rfl | rfl <;> contradiction
    · rintro rfl
      contradiction
    · rintro rfl
      contradiction

lemma beginsValue_intText (n : Int) : BeginsValue (intText n) := by
  obtain ⟨c, cs, hc, h⟩ := exists_cons_intText n
  exact ⟨c, cs, hc, visible_of_isDigit h⟩

section Brackets

def Layout.lead (l : Layout) (depth : Nat) : Bool → List Char
  | true => l.lineBreak depth
  | false => ',' :: l.lineBreak depth

def Layout.itemsFrom (l : Layout) (depth : Nat) : Bool → List (List Char) → List Char
  | _, [] => []
  | isFirst, t :: ts => l.lead depth isFirst ++ t ++ l.itemsFrom depth false ts

lemma Layout.intercalate_eq (l : Layout) (depth : Nat) (t : List Char) (ts : List (List Char)) :
    (',' :: l.lineBreak depth).intercalate (t :: ts) = t ++ l.itemsFrom depth false ts := by
  induction ts generalizing t with
  | nil => simp [itemsFrom]
  | cons u ts ih =>
    rw [List.intercalate_cons_cons, ih, itemsFrom, lead, List.append_assoc, List.append_assoc]

lemma Layout.bracketed_eq (l : Layout) (depth : Nat) (opening closing : Char)
    (ts : List (List Char)) : ∃ blanks, (∀ c ∈ blanks, isBlank c) ∧
      l.bracketed depth opening closing ts =
        opening :: (l.itemsFrom (depth + 1) true ts ++ blanks ++ [closing]) := by
  cases ts with
  | nil => exact ⟨[], by simp, rfl⟩
  | cons t ts =>
    refine ⟨l.lineBreak depth, isBlank_lineBreak l depth, ?_⟩
    rw [bracketed, if_neg (by simp), intercalate_eq, itemsFrom, lead]
    simp only [List.append_assoc, List.cons_append]

lemma Layout.itemText_eq (l : Layout) (depth : Nat) (item : String × Datum) :
    ∃ blanks, (∀ c ∈ blanks, isBlank c) ∧
      l.itemText depth item = stringText item.1 ++ (':' :: (blanks ++ l.datumText depth item.2)) := by
  refine ⟨if l.isIndented then [' '] else [], ?_, ?_⟩
  · split <;> simp [isBlank]
  · rw [itemText, List.append_assoc, List.cons_append]

lemma endsNumber_items (ts : List (List Char)) (h : EndsNumber rest) :
    EndsNumber (l.itemsFrom depth false ts ++ rest) := by
  cases ts with
  | nil => exact h
  | cons t ts => exact endsNumber_cons (.inl rfl) _

lemma run_colon (rest : List Char) : colon.run (':' :: rest) = .ok ((), rest) :=
  run_bind (run_peek (List.forall_mem_nil _) rfl rest)

lemma run_close {bracket : Char} (visible : isBlank bracket = false)
    (blank : ∀ c ∈ blanks, isBlank c) (rest : List Char) :
    (close bracket).run (blanks ++ bracket :: rest) = .ok ((), rest) := by
  rw [close, run_bind (run_peek blank visible _)]
  dsimp only
  rw [if_pos rfl]
  rfl

lemma run_nextItem (begins : BeginsValue text) (isFirst : Bool) (rest : List Char) :
    (nextItem isFirst).run (l.lead depth isFirst ++ text ++ rest) = .ok (true, text ++ rest) := by
  obtain ⟨c, cs, rfl, visible, -, inside⟩ := begins
  have next := run_peek (isBlank_lineBreak l depth) visible (cs ++ rest)
  rw [← List.cons_append] at next
  have inside : some c ≠ some ']' := fun h => inside (Option.some.inj h)
  cases isFirst with
  | true =>
    rw [nextItem, Layout.lead, List.append_assoc, run_bind next]
    split
    · contradiction
    · contradiction
    · rfl
  | false =>
    have comma := run_peek (List.forall_mem_nil _) (show isBlank ',' = false from rfl)
      (l.lineBreak depth ++ (c :: cs ++ rest))
    rw [nextItem, Layout.lead, List.append_assoc, List.cons_append, ← List.nil_append (',' :: _),
      run_bind comma]
    change (skip >>= _).run _ = _
    rw [run_bind (run_skip _ _), run_bind next]
    split
    · contradiction
    · contradiction
    · rfl

lemma run_itemName (blank : ∀ c ∈ blanks, isBlank c) (name : String) (rest : List Char) :
    itemName.run (blanks ++ stringText name ++ rest) = .ok (name, rest) := by
  rw [itemName, stringText, List.append_assoc, List.cons_append, List.cons_append,
    run_bind (run_peek blank rfl _)]
  exact run_stringBody name rest

lemma run_nextName (name : String) (isFirst : Bool) (rest : List Char) :
    (nextName isFirst).run (l.lead depth isFirst ++ stringText name ++ rest) =
      .ok (some name, rest) := by
  have blank := isBlank_lineBreak l depth
  cases isFirst with
  | true =>
    have quote : peek.run (l.lineBreak depth ++ stringText name ++ rest) =
        .ok (some '"', stringText name ++ rest) := by
      rw [List.append_assoc]
      exact run_peek blank rfl _
    rw [nextName, Layout.lead, run_bind quote]
    exact run_bind (run_itemName (List.forall_mem_nil _) name rest)
  | false =>
    have comma : peek.run (',' :: (l.lineBreak depth ++ stringText name ++ rest)) =
        .ok (some ',', _) :=
      run_peek (List.forall_mem_nil _) rfl _
    rw [nextName, Layout.lead, List.cons_append, List.cons_append, run_bind comma]
    exact run_bind (f := fun name => pure (some name)) (run_itemName blank name rest)

lemma run_nextName_closing (blank : ∀ c ∈ blanks, isBlank c) (isFirst : Bool) (rest : List Char) :
    (nextName isFirst).run (blanks ++ '\x7d' :: rest) = .ok (none, '\x7d' :: rest) := by
  rw [nextName, run_bind (run_peek blank rfl _)]
  rfl

end Brackets

namespace Reads

variable {x : Reader α} {a : α}

lemma bind_pure (h : Reads x text a) (f : α → β) :
    Reads (do return f (← x)) text (f a) := by
  intro blanks rest blank ends
  rw [run_bind (h blanks rest blank ends)]
  rfl

lemma of_peek {f : Option Char → Reader α} {c : Char} {cs : List Char} (visible : isBlank c = false)
    (h : ∀ rest, EndsNumber rest → (f (some c)).run (c :: (cs ++ rest)) = .ok (a, rest)) :
    Reads (peek >>= f) (c :: cs) a := by
  intro blanks rest blank ends
  rw [List.append_assoc, List.cons_append, run_bind (run_peek blank visible _)]
  exact h rest ends

lemma of_opening {f : Option Char → Reader α} {body : Reader α} {c : Char} {cs : List Char}
    (visible : isBlank c = false) (opens : f (some c) = (do skip; body))
    (h : ∀ rest, EndsNumber rest → body.run (cs ++ rest) = .ok (a, rest)) :
    Reads (peek >>= f) (c :: cs) a := by
  refine of_peek visible fun rest ends => ?_
  rw [opens, run_bind (run_skip _ _)]
  exact h rest ends

lemma string (s : String) : Reads string (stringText s) s :=
  of_opening rfl rfl fun rest _ => run_stringBody s rest

lemma integerIn {low high n : Int} (bounds : low ≤ n ∧ n ≤ high)
    (small : n.natAbs < Numeral.wordSize) : Reads (integerIn low high) (intText n) n := by
  obtain ⟨c, cs, hc, digit⟩ := exists_cons_intText n
  rw [hc]
  refine of_peek (visible_of_isDigit digit).1 fun rest ends => ?_
  have number := run_number small ends
  rw [hc, List.cons_append] at number
  dsimp only
  rw [if_pos (by simpa using digit), run_bind number, Numeral.integer?_ofInt]
  dsimp only
  rw [if_pos bounds]
  rfl

lemma int32 (n : Int32) : Reads int32 (intText n.toInt) n := by
  have lower := n.le_toInt
  have upper := n.toInt_lt
  have read : Reads (Json.integerIn (-2147483648) 2147483647) (intText n.toInt) n.toInt :=
    integerIn ⟨by omega, by omega⟩ (by rw [Numeral.wordSize]; omega)
  have := read.bind_pure Int32.ofInt
  rwa [Int32.ofInt_toInt] at this

lemma uint64 (n : UInt64) : Reads uint64 (intText n.toNat) n := by
  have upper := n.toNat_lt
  have read : Reads (Json.integerIn 0 18446744073709551615) (intText n.toNat) n.toNat :=
    integerIn ⟨by omega, by omega⟩ (by rw [Numeral.wordSize]; omega)
  have := read.bind_pure fun n => UInt64.ofNat n.toNat
  rwa [Int.toNat_natCast, UInt64.ofNat_toNat] at this

lemma bool (b : Bool) : Reads bool (if b then "true" else "false").toList b := by
  cases b with
  | false =>
    have word := run_constant "false".toList
    exact of_peek rfl fun rest _ => run_bind (word rest)
  | true =>
    have word := run_constant "true".toList
    exact of_peek rfl fun rest _ => run_bind (word rest)

lemma optional_none (x : Reader α) : Reads (optional x) "null".toList none := by
  have word := run_constant "null".toList
  exact of_peek rfl fun rest _ => run_bind (word rest)

lemma optional_some (h : Reads x text a) (begins : BeginsValue text) :
    Reads (optional x) text (some a) := by
  obtain ⟨c, cs, rfl, visible, notNull, -⟩ := begins
  refine of_peek visible fun rest ends => ?_
  split
  · rename_i null
    exact absurd (Option.some.inj null) notNull
  · have read := h [] rest (by simp) ends
    rw [List.nil_append, List.cons_append] at read
    rw [run_bind read]
    rfl

lemma choice {ofName : String → Option α} {name : String} (h : ofName name = some a) :
    Reads (choice ofName) (stringText name) a := by
  refine of_opening rfl rfl fun rest _ => (run_bind (run_stringBody name rest)).trans ?_
  simp only [h]
  rfl

lemma run_item (h : Reads x text a) (begins : BeginsValue text) (isFirst : Bool)
    (ts : List (List Char)) (ends : EndsNumber rest) :
    (do if ← nextItem isFirst then x else throw .mistyped : Reader α).run
        (l.itemsFrom depth isFirst (text :: ts) ++ rest) =
      .ok (a, l.itemsFrom depth false ts ++ rest) := by
  rw [Layout.itemsFrom, List.append_assoc, run_bind (run_nextItem begins isFirst _), if_pos rfl]
  exact h [] _ (List.forall_mem_nil _) (endsNumber_items ts ends)

lemma triple {b c : α} {ta tb tc : List Char} (ha : Reads x ta a) (hb : Reads x tb b)
    (hc : Reads x tc c) (begins : ∀ t ∈ [ta, tb, tc], BeginsValue t) :
    Reads (triple x) (l.bracketed depth '[' ']' [ta, tb, tc]) (a, b, c) := by
  obtain ⟨blanks, blank, text⟩ := l.bracketed_eq depth '[' ']' [ta, tb, tc]
  rw [text]
  refine of_opening rfl rfl fun rest _ => ?_
  have ends : EndsNumber (blanks ++ ([']'] ++ rest)) :=
    endsNumber_append blank (endsNumber_cons (.inr (.inl rfl)) rest)
  rw [List.append_assoc, List.append_assoc,
    run_bind (run_item ha (begins ta (by simp)) true _ ends),
    run_bind (run_item hb (begins tb (by simp)) false _ ends),
    run_bind (run_item hc (begins tc (by simp)) false _ ends), Layout.itemsFrom, List.nil_append,
    List.singleton_append, run_bind (run_close rfl blank rest)]
  rfl

end Reads

section Record

variable {slots : List (Slot ρ)} {slot : Slot ρ} {name : String} {d : Datum} {items : Items}
  {r s t : ρ}

inductive Fills (l : Layout) (slots : List (Slot ρ)) : ρ → Items → ρ → Prop where
  | nil (r : ρ) : Fills l slots r [] r
  | cons {r s t : ρ} {name : String} {d : Datum} {items : Items} {slot : Slot ρ} :
      slots.find? (·.name = name) = some slot → Reads (slot.readInto r) (l.datumText 1 d) s →
        Fills l slots s items t → Fills l slots r ((name, d) :: items) t

lemma Fills.concat (h : Fills l slots r items s) (found : slots.find? (·.name = name) = some slot)
    (read : Reads (slot.readInto s) (l.datumText 1 d) t) :
    Fills l slots r (items ++ [(name, d)]) t := by
  induction h with
  | nil r => exact .cons found read (.nil t)
  | cons found' read' _ ih => exact .cons found' read' (ih read)

lemma run_namedFields_cons (found : slots.find? (·.name = name) = some slot)
    (read : Reads (slot.readInto r) (l.datumText 1 d) s) {n : Nat} {seen : List String}
    (unseen : name ∉ seen) (isFirst : Bool) (ts : List (List Char)) (ends : EndsNumber rest) :
    (namedFields slots (n + 1) seen isFirst r).run
        (l.itemsFrom 1 isFirst (l.itemText 1 (name, d) :: ts) ++ rest) =
      (namedFields slots n (name :: seen) false s).run (l.itemsFrom 1 false ts ++ rest) := by
  obtain ⟨gap, blank, text⟩ := l.itemText_eq 1 (name, d)
  have ends : EndsNumber (l.itemsFrom 1 false ts ++ rest) := endsNumber_items ts ends
  have parts : l.itemsFrom 1 isFirst (l.itemText 1 (name, d) :: ts) ++ rest =
      l.lead 1 isFirst ++ stringText name ++
        (':' :: (gap ++ l.datumText 1 d ++ (l.itemsFrom 1 false ts ++ rest))) := by
    simp only [Layout.itemsFrom, text, List.append_assoc, List.cons_append]
  rw [parts, namedFields, run_bind (run_nextName name isFirst _)]
  dsimp only
  rw [if_neg unseen, found]
  dsimp only
  rw [run_bind (run_colon _), run_bind (read gap _ blank ends)]

lemma run_namedFields (fills : Fills l slots r items s) (distinct : (items.map (·.1)).Nodup)
    {n : Nat} (fuel : items.length < n) {seen : List String}
    (unseen : ∀ item ∈ items, item.1 ∉ seen) (isFirst : Bool) (blank : ∀ c ∈ blanks, isBlank c)
    (rest : List Char) :
    (namedFields slots n seen isFirst r).run
        (l.itemsFrom 1 isFirst (items.map (l.itemText 1)) ++ (blanks ++ '\x7d' :: rest)) =
      .ok (s, '\x7d' :: rest) := by
  induction fills generalizing n seen isFirst with
  | nil r =>
    obtain ⟨n, rfl⟩ := Nat.exists_eq_succ_of_ne_zero (Nat.ne_of_gt fuel)
    exact run_bind (run_nextName_closing blank isFirst rest)
  | cons found read fills ih =>
    obtain ⟨n, rfl⟩ := Nat.exists_eq_succ_of_ne_zero (Nat.ne_of_gt (Nat.zero_lt_of_lt fuel))
    rw [List.map_cons, List.nodup_cons] at distinct
    rw [List.forall_mem_cons] at unseen
    have ends : EndsNumber (blanks ++ '\x7d' :: rest) :=
      endsNumber_append blank (endsNumber_cons (.inr (.inr (.inl rfl))) rest)
    rw [List.map_cons, run_namedFields_cons found read unseen.1 isFirst _ ends]
    refine ih distinct.2 (Nat.lt_of_succ_lt_succ fuel) (fun other member => ?_) false
    rw [List.mem_cons, not_or]
    exact ⟨fun same => distinct.1 (List.mem_map.2 ⟨other, member, same⟩), unseen.2 other member⟩

lemma length_le_itemsFrom (l : Layout) (depth : Nat) (isFirst : Bool) {ts : List (List Char)}
    (h : ∀ t ∈ ts, t ≠ []) : ts.length ≤ (l.itemsFrom depth isFirst ts).length := by
  induction ts generalizing isFirst with
  | nil => exact Nat.zero_le _
  | cons t ts ih =>
    rw [List.forall_mem_cons] at h
    have positive := List.length_pos_iff.2 h.1
    have others := ih false h.2
    simp only [Layout.itemsFrom, List.length_append, List.length_cons]
    omega

lemma Reads.record (fills : Fills l slots r items s) (distinct : (items.map (·.1)).Nodup) :
    Reads (record slots r) (l.recordText items).toList s := by
  obtain ⟨blanks, blank, text⟩ := l.bracketed_eq 0 '\x7b' '\x7d' (items.map (l.itemText 1))
  have nonempty : ∀ t ∈ items.map (l.itemText 1), t ≠ [] := by
    intro t ht
    obtain ⟨item, -, rfl⟩ := List.mem_map.1 ht
    simp [Layout.itemText, stringText]
  -- every item takes at least one character, so the length of the text is fuel enough
  have fuel := length_le_itemsFrom l 1 true nonempty
  rw [List.length_map] at fuel
  rw [Layout.recordText, String.toList_ofList, text]
  refine of_opening rfl rfl fun rest _ => ?_
  rw [run_bind rfl, List.append_assoc, List.append_assoc, List.singleton_append]
  have enough : items.length < (l.itemsFrom 1 true (items.map (l.itemText 1)) ++
      (blanks ++ '\x7d' :: rest)).length + 1 := by
    rw [List.length_append]
    omega
  rw [run_bind (run_namedFields fills distinct enough (by simp) true blank rest)]
  exact run_bind (run_close rfl (List.forall_mem_nil _) rest)

lemma document_of_reads {x : Reader α} {text : String} {a : α} (h : Reads x text.toList a) :
    document x text = .ok a := by
  have read := h [] [] (List.forall_mem_nil _) (fun _ => nofun)
  rw [List.nil_append, List.append_nil] at read
  rw [document, read]
  rfl

end Record

end TileGrammar.Json
