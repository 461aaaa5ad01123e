import TileGrammar.Json.Standard
import TileGrammar.Proofs.Json.Laws
import TileGrammar.Proofs.Json.Record

namespace TileGrammar.Json

namespace StandardCodec

variable {α ρ : Type} {d : Datum}

def Takes (codec : StandardCodec α) (d : Datum) (a : α) : Prop :=
  ∀ (l : Layout) depth, Reads codec.reader (l.datumText depth d) a

def Gives (fields : List (Field StandardCodec ρ)) (default : ρ) (items : Items) (r : ρ) : Prop :=
  (items.map (·.1)).Nodup ∧ ∀ l, Fills l (fields.map Field.slot) default items r

lemma beginsValue_datumText (h : d ≠ .null) (l : Layout) (depth : Nat) :
    BeginsValue (l.datumText depth d) := by
  cases d with
  | null => contradiction
  | bool b => cases b <;> exact ⟨_, _, rfl, by decide⟩
  | int n => exact beginsValue_intText n
  | string s => exact beginsValue_stringText s
  | ints ns =>
    obtain ⟨blanks, -, text⟩ := l.bracketed_eq depth '[' ']' (ns.map intText)
    exact ⟨_, _, text, by decide⟩

lemma takes_int32Triple (n : Int32 × Int32 × Int32) :
    Takes standard.int32Triple (.ints [n.1.toInt, n.2.1.toInt, n.2.2.toInt]) n := by
  intro l depth
  have begins : ∀ t ∈ [n.1.toInt, n.2.1.toInt, n.2.2.toInt].map intText, BeginsValue t :=
    List.forall_mem_map.2 fun n _ => beginsValue_intText n
  exact .triple (.int32 n.1) (.int32 n.2.1) (.int32 n.2.2) begins

lemma takes_choice {name : α → String} {ofName : String → α} {a : α} (h : ofName (name a) = a) :
    Takes (standard.choice name ofName) (.string (name a)) a := by
  have named : (some ∘ ofName) (name a) = some a := congrArg some h
  exact fun _ _ => .choice named

@[simp] lemma name_slot (field : Field StandardCodec ρ) : field.slot.name = field.name := rfl

lemma find?_slot {fields : List (Field StandardCodec ρ)} {field : Field StandardCodec ρ}
    (distinct : (fields.map (·.name)).Nodup) (member : field ∈ fields) :
    (fields.map Field.slot).find? (·.name = field.name) = some field.slot := by
  rw [List.find?_map]
  cases found : fields.find? ((·.name = field.name) ∘ Field.slot) with
  | none =>
    have absent := List.find?_eq_none.1 found field member
    simp at absent
  | some other =>
    have matching := List.find?_some found
    have name_eq : other.name = field.name := of_decide_eq_true matching
    rw [List.inj_on_of_nodup_map distinct (List.mem_of_find?_eq_some found) member name_eq]
    rfl

lemma gives_concat {fields : List (Field StandardCodec ρ)} {default r : ρ} {items : Items}
    {field : Field StandardCodec ρ} {a : field.Kind} (given : Gives fields default items r)
    (distinct : (fields.map (·.name)).Nodup) (member : field ∈ fields)
    (fresh : field.name ∉ items.map (·.1)) (taken : Takes field.codec d a) :
    Gives fields default (items ++ [(field.name, d)]) (field.set r a) := by
  refine ⟨?_, fun l => (given.2 l).concat (find?_slot distinct member) ?_⟩
  · rw [List.map_append, List.map_singleton, List.nodup_append_comm]
    exact List.nodup_cons.2 ⟨fresh, given.1⟩
  · exact (taken l 1).bind_pure (field.set r)

end StandardCodec

theorem standard_laws : standard.Laws StandardCodec.Takes StandardCodec.Gives where
  string s := ⟨rfl, fun _ _ => .string s⟩
  bool b := ⟨rfl, fun _ _ => .bool b⟩
  uint64 n := ⟨rfl, fun _ _ => .uint64 n⟩
  int32Triple n := ⟨rfl, StandardCodec.takes_int32Triple n⟩
  optional keeps notNull a? := by
    cases a? with
    | none => exact ⟨rfl, fun _ _ => .optional_none _⟩
    | some a =>
      obtain ⟨written, taken⟩ := keeps a
      exact ⟨written, fun l depth => .optional_some (taken l depth)
        (StandardCodec.beginsValue_datumText (notNull a) l depth)⟩
  choice named a := ⟨rfl, StandardCodec.takes_choice (named a)⟩
  items_eq _ _ := rfl
  gives_default _ default := ⟨List.nodup_nil, fun _ => .nil default⟩
  gives_concat := StandardCodec.gives_concat
  read_write given l := document_of_reads (.record (given.2 l) given.1)

end TileGrammar.Json
