import SignHash.Code.Basic

/-!
# The Hamming distance

The number of places in which two codes of one length differ, counted byte by byte in 32 bits. As a
measure of distance between any two codes, it puts codes of different lengths as far apart as can be.

How differing bits are counted is an argument, so that it makes sense for any counter of them.
-/

namespace SignHash.Code

/-! ## Counting -/

/-- How many bits of a byte are set. -/
def bitCount (b : UInt8) : Nat := (numberBits 8 b.toNat).countP id

/-- How many bits differ between two byte strings of one length. The count starts again from zero
after the greatest number of 32 bits. -/
def differingBits (a b : Bytes) : Except Fault UInt32 :=
  if a.length ≠ b.length then .error .byteCounts
  else .ok ((List.zipWith (· ^^^ ·) a b).foldr (fun x n => UInt32.ofNat (bitCount x) + n) 0)

/-! ## Distances -/

section

variable (count : Bytes → Bytes → Except Fault UInt32)

/-- The number of places in which two codes of one length differ, as a counter finds it. -/
def hammingDistanceBy (a b : Code) : Except Stop UInt32 :=
  if a.length ≠ b.length then
    .error (.error (.validation (.differentLengths a.length b.length)))
  else (count a.bytes b.bytes).mapError .fault

/-- The distance of codes that cannot be compared. -/
def farthest : UInt64 := 0xffffffffffffffff

/-- The distance of any two codes, as a counter finds it. -/
def distanceBy (a b : Code) : Except Fault UInt64 :=
  match a.hammingDistanceBy count b with
  | .ok n => .ok n.toUInt64
  | .error (.error _) => .ok farthest
  | .error (.fault f) => .error f

end

/-- The number of places in which two codes of one length differ. -/
def hammingDistance (a b : Code) : Except Stop UInt32 := a.hammingDistanceBy differingBits b

/-- The distance of any two codes. -/
def distance (a b : Code) : Except Fault UInt64 := a.distanceBy differingBits b

end SignHash.Code
