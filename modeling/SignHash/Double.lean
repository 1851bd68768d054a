/-!
# Binary64 numbers

A number is its 64-bit pattern, so that two numbers are the same exactly when their patterns are:
the two zeros differ, and a NaN equals itself. Arithmetic and comparison are those of binary64,
where the zeros are equal and a NaN compares with nothing.
-/

namespace SignHash

universe u

/-- Numbers with a square root. -/
class SquareRoot (α : Type u) where
  /-- The square root of a number. -/
  sqrt : α → α

export SquareRoot (sqrt)

/-- Numbers that the natural numbers are counted into. -/
class OfCount (α : Type u) where
  /-- The number for a count. -/
  ofCount : Nat → α

export OfCount (ofCount)

/-- A binary64 number, by its bit pattern. -/
structure Double where
  /-- The sign bit, then eleven bits of exponent, then fifty-two bits of fraction. -/
  bits : UInt64
  deriving DecidableEq

namespace Double

/-! ## Patterns -/

/-- The sign bit alone. -/
def signMask : UInt64 := 0x8000000000000000

/-- The bits of the exponent alone. -/
def exponentMask : UInt64 := 0x7ff0000000000000

/-- Whether the sign bit is set. -/
def isNegative (x : Double) : Bool := x.bits &&& signMask != 0

/-- Whether a number is neither infinite nor NaN: its exponent bits are not all set. -/
def isFinite (x : Double) : Bool := x.bits &&& exponentMask != exponentMask

/-- Whether a number is NaN. -/
def isNaN (x : Double) : Bool := x.bits &&& ~~~signMask > exponentMask

/-- The number without its sign. -/
def abs (x : Double) : Double := ⟨x.bits &&& ~~~signMask⟩

/-- The number with its sign flipped. -/
def negate (x : Double) : Double := ⟨x.bits ^^^ signMask⟩

/-- A key that sorts all patterns: negative ones in reverse before positive ones, NaNs outermost. -/
def orderKey (x : Double) : UInt64 :=
  if x.isNegative then ~~~x.bits else x.bits ||| signMask

/-- The order of all numbers by `orderKey`. -/
def totalOrder (x y : Double) : Ordering := compare x.orderKey y.orderKey

/-! ## Arithmetic -/

/-- The number that a machine float holds. All NaNs become one, since it is left open which sign and
fraction an operation gives them. -/
def ofFloat (x : Float) : Double := ⟨x.toBits⟩

/-- The machine float that holds a number. -/
def toFloat (x : Double) : Float := Float.ofBits x.bits

instance : Zero Double := ⟨⟨0⟩⟩
instance : One Double := ⟨⟨0x3ff0000000000000⟩⟩
instance : Inhabited Double := ⟨0⟩
instance : Add Double := ⟨fun x y => ofFloat (x.toFloat + y.toFloat)⟩
instance : Sub Double := ⟨fun x y => ofFloat (x.toFloat - y.toFloat)⟩
instance : Mul Double := ⟨fun x y => ofFloat (x.toFloat * y.toFloat)⟩
instance : Div Double := ⟨fun x y => ofFloat (x.toFloat / y.toFloat)⟩
instance : Neg Double := ⟨negate⟩
instance : SquareRoot Double := ⟨fun x => ofFloat x.toFloat.sqrt⟩
instance : OfCount Double := ⟨fun n => ofFloat (Float.ofNat n)⟩
instance : LE Double := ⟨fun x y => x.toFloat ≤ y.toFloat⟩
instance : LT Double := ⟨fun x y => x.toFloat < y.toFloat⟩
instance : DecidableLE Double := fun x y => inferInstanceAs (Decidable (x.toFloat ≤ y.toFloat))
instance : DecidableLT Double := fun x y => inferInstanceAs (Decidable (x.toFloat < y.toFloat))

/-- The number two. -/
def two : Double := ⟨0x4000000000000000⟩

/-- The number one half. -/
def half : Double := ⟨0x3fe0000000000000⟩

/-- Whether a number is a zero of either sign. -/
def isZero (x : Double) : Bool := x.abs.bits == 0

/-- One with the sign bit of a number; a NaN has no sign of its own. -/
def signum (x : Double) : Double :=
  if x.isNaN then x else if x.isNegative then -1 else 1

end Double

end SignHash
