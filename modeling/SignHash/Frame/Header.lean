import SignHash.Frame.Checksum

/-!
# Frame headers

A frame starts with its magic number, two bytes of settings, the content's size if the settings say
so, and one byte of the checksum over what follows the magic number. An older form has another magic
number and nothing else.
-/

namespace SignHash.Frame

/-- How the blocks of a frame are to be read. -/
structure Settings where
  /-- Whether a block may refer to the content of the blocks before it. -/
  linked : Bool
  /-- Whether each block is followed by its checksum. -/
  checked : Bool
  /-- The most bytes that a block holds. -/
  blockLimit : Nat
  deriving DecidableEq, Repr

/-- The magic number of frames. -/
def magic : Bytes := [0x04, 0x22, 0x4D, 0x18]

/-- The magic number of the older form. -/
def oldMagic : Bytes := [0x02, 0x21, 0x4C, 0x18]

/-- The settings of the older form. -/
def oldSettings : Settings := ⟨false, false, 8 * 1024 * 1024⟩

/-- The most bytes in a block, by the settings' code for it. -/
def blockLimit? (code : Nat) : Option Nat :=
  if code < 4 then none else some (1 <<< (2 * code + 8))

/-- The byte of a header's checksum. -/
def headerCheck (settings : Bytes) : UInt8 := (checksum settings >>> 8).toUInt8

/-- The settings of a header after its magic number, and what follows it. A header that names a
dictionary, or sets a bit without a meaning, is refused. -/
def readSettings : Bytes → Option (Settings × Bytes)
  | flags :: sizes :: rest => do
    let flag (place : Nat) : Bool := flags.toNat.testBit place
    let extra := if flag 3 then 8 else 0
    let settings := flags :: sizes :: rest.take extra
    let limit ← blockLimit? (sizes.toNat / 16 % 8)
    match rest.drop extra with
    | check :: rest =>
      if flags.toNat / 64 = 1 ∧ !flag 1 ∧ !flag 0 ∧ sizes &&& 0x8f = 0
          ∧ check = headerCheck settings then
        some (⟨!flag 5, flag 4, limit⟩, rest)
      else none
    | [] => none
  | _ => none

/-- The settings of a frame, and its blocks. -/
def readHeader (bytes : Bytes) : Option (Settings × Bytes) :=
  if bytes.take 4 = magic then readSettings (bytes.drop 4)
  else if bytes.take 4 = oldMagic then some (oldSettings, bytes.drop 4)
  else none

end SignHash.Frame
