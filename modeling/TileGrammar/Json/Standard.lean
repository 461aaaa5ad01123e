import TileGrammar.Json.Library
import TileGrammar.Json.Printer
import TileGrammar.Json.Typed

namespace TileGrammar.Json

structure StandardCodec (α : Type) where
  reader : Reader α
  datum : α → Datum

def Field.slot {ρ : Type} (field : Field StandardCodec ρ) : Slot ρ where
  name := field.name
  readInto r := do return field.set r (← field.codec.reader)

def standard : Library where
  Codec := StandardCodec
  string := ⟨string, .string⟩
  bool := ⟨bool, .bool⟩
  uint64 := ⟨uint64, fun n => .int n.toNat⟩
  int32Triple := ⟨triple int32, fun (x, y, z) => .ints [x.toInt, y.toInt, z.toInt]⟩
  optional codec := ⟨optional codec.reader, fun a => a.elim .null codec.datum⟩
  choice name ofName := ⟨choice (some ∘ ofName), .string ∘ name⟩
  datum := StandardCodec.datum
  items members r := members.map fun m => (m.name, m.codec.datum (m.get r))
  write := Layout.recordText
  read fields default := document (record (fields.map Field.slot) default)

end TileGrammar.Json
