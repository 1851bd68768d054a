import SignHash.Bytes

/-!
# Hexadecimal digits

Each byte is two digits, the high one first. Writing uses lowercase digits; reading takes either
case and names the first byte that is no digit.
-/

namespace SignHash.Hex

/-- The lowercase digit for a number below sixteen. -/
def digit (n : Nat) : Char :=
  if n < 10 then Char.ofNat (48 + n) else Char.ofNat (87 + n)

/-- The two digits of a byte. -/
def digits (b : UInt8) : List Char := [digit (b.toNat / 16), digit (b.toNat % 16)]

/-- A byte string as hexadecimal digits. -/
def encode (bytes : Bytes) : String := String.ofList (bytes.flatMap digits)

/-- The number that a digit of either case stands for. -/
def digitValue? (b : UInt8) : Option Nat :=
  if 48 ≤ b ∧ b ≤ 57 then some (b.toNat - 48)
  else if 97 ≤ b ∧ b ≤ 102 then some (b.toNat - 87)
  else if 65 ≤ b ∧ b ≤ 70 then some (b.toNat - 55)
  else none

/-- Why a byte string is not a sequence of hexadecimal bytes. -/
inductive Failure where
  /-- A digit is left without its partner. -/
  | unpaired
  /-- The byte at `position` is not a digit. -/
  | notADigit (byte : UInt8) (position : Nat)
  deriving DecidableEq, Repr

/-- The number of the digit at `position`. -/
def readDigit (byte : UInt8) (position : Nat) : Except Failure Nat :=
  match digitValue? byte with
  | some value => .ok value
  | none => .error (.notADigit byte position)

/-- The bytes written from `position` on. -/
def decodeFrom (position : Nat) : Bytes → Except Failure Bytes
  | [] => .ok []
  | [_] => .error .unpaired
  | high :: low :: rest => do
    let h ← readDigit high position
    let l ← readDigit low (position + 1)
    let more ← decodeFrom (position + 2) rest
    return UInt8.ofNat (16 * h + l) :: more

/-- The bytes that a sequence of digits writes. An odd number of them is refused before any digit
is looked at. -/
def decode (text : Bytes) : Except Failure Bytes :=
  if text.length % 2 = 1 then .error .unpaired else decodeFrom 0 text

end SignHash.Hex
