import SignHash.Double
import SignHash.Utf8

/-!
# Binary records

The plain parts of binary records: numbers of a fixed width, least significant byte first; truth
values as one byte; lists and texts with their length in front. A decoder takes its part off the
front of a byte string and returns the rest, or `none` if the bytes are not the part's form.
-/

namespace SignHash.Wire

/-- Takes a value off the front of a byte string. -/
abbrev Decoder (α : Type) := Bytes → Option (α × Bytes)

/-- Exactly so many bytes. -/
def readBytes : Nat → Decoder Bytes
  | 0, bytes => some ([], bytes)
  | _ + 1, [] => none
  | n + 1, b :: bytes => (readBytes n bytes).map fun r => (b :: r.1, r.2)

/-- A number of so many bytes. -/
def readNat (width : Nat) : Decoder Nat := fun bytes =>
  (readBytes width bytes).map fun r => (ofLittleEndian r.1, r.2)

/-- A truth value: a byte that is zero or one. -/
def readBool : Decoder Bool
  | 0 :: rest => some (false, rest)
  | 1 :: rest => some (true, rest)
  | _ => none

/-- A binary64 number, by its pattern. -/
def readDouble : Decoder Double := fun bytes =>
  (readNat 8 bytes).map fun r => (⟨UInt64.ofNat r.1⟩, r.2)

/-- So many values in a row. -/
def readMany {α : Type} (item : Decoder α) : Nat → Decoder (List α)
  | 0, bytes => some ([], bytes)
  | n + 1, bytes =>
    match item bytes with
    | none => none
    | some (a, bytes) => (readMany item n bytes).map fun r => (a :: r.1, r.2)

/-- A list with its length in front. -/
def readList {α : Type} (item : Decoder α) : Decoder (List α) := fun bytes =>
  (readNat 8 bytes).bind fun r => readMany item r.1 r.2

/-- A text with the number of its bytes in front. -/
def readText : Decoder String := fun bytes => do
  let (length, bytes) ← readNat 8 bytes
  let (content, bytes) ← readBytes length bytes
  return (← Utf8.decode? content, bytes)

/-- A number of eight bytes. -/
def writeWord (n : Nat) : Bytes := littleEndian 8 n

/-- A truth value. -/
def writeBool (b : Bool) : Bytes := [if b then 1 else 0]

/-- A binary64 number, by its pattern. -/
def writeDouble (x : Double) : Bytes := littleEndian 8 x.bits.toNat

/-- A list with its length in front. -/
def writeList {α : Type} (item : α → Bytes) (items : List α) : Bytes :=
  writeWord items.length ++ items.flatMap item

/-- A text with the number of its bytes in front. -/
def writeText (s : String) : Bytes := writeWord (Utf8.encode s).length ++ Utf8.encode s

end SignHash.Wire
