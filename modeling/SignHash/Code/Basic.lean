import SignHash.Error

/-!
# Hash codes

A code is a sequence of bits, packed eight to a byte, the first bit highest. The bits of the last
byte beyond the length are zero in every code that is built from bits, digits or a number; a code
that is read from a document is taken as it stands, so the functions that look at single bits say
what happens when a byte is missing.
-/

namespace SignHash

/-- A packed sequence of bits. -/
structure Code where
  /-- The bits, eight to a byte, the first one highest. -/
  bytes : Bytes
  /-- How many bits there are. -/
  length : Nat
  deriving DecidableEq

namespace Code

/-! ## Packing -/

/-- The bits of a number, `width` of them, the highest first. -/
def numberBits (width n : Nat) : List Bool :=
  (List.range width).map fun i => n.testBit (width - 1 - i)

/-- The number that bits write, the highest first. -/
def bitsNumber (bits : List Bool) : Nat := bits.foldl (fun n b => 2 * n + b.toNat) 0

/-- The byte of at most eight bits, with zeros for the missing ones at the end. -/
def packByte (bits : List Bool) : UInt8 :=
  UInt8.ofNat (bitsNumber bits <<< (8 - bits.length))

/-- How many bytes hold a number of bits. -/
def byteCount (length : Nat) : Nat := (length + 7) / 8

/-- Bits packed into bytes, eight to each but the last. -/
def pack (bits : List Bool) : Bytes :=
  (List.range (byteCount bits.length)).map fun i => packByte ((bits.drop (8 * i)).take 8)

/-- The eight bits of each byte. -/
def unpack (bytes : Bytes) : List Bool := bytes.flatMap fun b => numberBits 8 b.toNat

/-- The code of a sequence of bits. -/
def ofBits (bits : List Bool) : Code := ⟨pack bits, bits.length⟩

/-! ## Reading bits -/

/-- Whether the code has no bits. -/
def isEmpty (c : Code) : Bool := c.length == 0

/-- The bit at an index, `none` past the end of the code. -/
def bit (c : Code) (index : Nat) : Except Fault (Option Bool) :=
  if index < c.length then
    match c.bytes[index / 8]? with
    | some b => .ok (some (b.toNat.testBit (7 - index % 8)))
    | none => .error .bitOutOfRange
  else .ok none

/-- All bits of the code. -/
def toBits (c : Code) : Except Fault (List Bool) :=
  let held := unpack c.bytes
  if c.length ≤ held.length then .ok (held.take c.length) else .error .bitOutOfRange

/-! ## Numbers -/

/-- The number of bits of a machine word. -/
def wordBits : Nat := 64

/-- The number that the bits write, the first one highest; `none` for more than a word. -/
def toNat? (c : Code) : Except Fault (Option Nat) :=
  if c.length ≤ wordBits then c.toBits.map fun bits => some (bitsNumber bits) else .ok none

/-- The code of `length` bits that writes a number. -/
def ofNat (value length : Nat) : Except Error Code :=
  if wordBits < length ∨ 1 <<< length ≤ value then .error (.validation (.doesNotFit value length))
  else .ok (ofBits (numberBits length value))

/-! ## Digits -/

/-- The bytes as hexadecimal digits. -/
def toHex (c : Code) : String := Hex.encode c.bytes

/-- The bits of the last byte that are beyond the end of a code. -/
def paddingMask (length : Nat) : UInt8 :=
  if length % 8 = 0 then 0 else UInt8.ofNat ((1 <<< (8 - length % 8)) - 1)

/-- Whether a bit beyond the end of the code is set in the last byte. -/
def hasStrayBits (c : Code) : Bool :=
  match c.bytes.getLast? with
  | some last => last &&& paddingMask c.length != 0
  | none => false

/-- The code of `length` bits that digits write. -/
def ofHex (digits : String) (length : Nat) : Except Error Code :=
  let needed := 2 * byteCount length
  let given := Utf8.byteCount digits
  if given ≠ needed then .error (.validation (.digitCount length needed given))
  else
    match Hex.decode (Utf8.encode digits) with
    | .error (.notADigit byte position) =>
      .error (.validation (.notHexadecimal digits byte position))
    | .error .unpaired => .error (.validation (.digitCount length needed given))
    | .ok bytes =>
      let code : Code := ⟨bytes, length⟩
      if code.hasStrayBits then .error (.validation (.strayBits digits length)) else .ok code

/-! ## Order -/

/-- Codes in the order of their bytes, and codes with the same bytes in the order of their lengths.
-/
def order (a b : Code) : Ordering := (compare a.bytes b.bytes).then (compare a.length b.length)

end Code

end SignHash
