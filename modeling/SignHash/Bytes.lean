/-!
# Byte strings

A byte string is a list of bytes. A number is written in a fixed number of bytes, the least
significant one first, and `ofLittleEndian` reads it back.
-/

namespace SignHash

/-- A string of bytes. -/
abbrev Bytes := List UInt8

/-- The number `n` in `width` bytes, the least significant first; what does not fit is dropped. -/
def littleEndian : Nat → Nat → Bytes
  | 0, _ => []
  | width + 1, n => UInt8.ofNat n :: littleEndian width (n / 256)

/-- The number that a byte string writes, its least significant byte first. -/
def ofLittleEndian : Bytes → Nat
  | [] => 0
  | b :: rest => b.toNat + 256 * ofLittleEndian rest

@[simp] theorem length_littleEndian (width n : Nat) : (littleEndian width n).length = width := by
  induction width generalizing n with
  | zero => rfl
  | succ width ih => simp [littleEndian, ih]

end SignHash
