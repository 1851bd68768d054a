import Mathlib.Algebra.Order.Floor.Div
import Mathlib.Algebra.Ring.Nat

/-!
# Words that notice overflow

Operations on words of 64 bits that are defined only where nothing is lost: sums and products that are
words themselves, quotients by what is not zero, and shifts by fewer places than a word has, to the left
only if no set bit is moved out of the word. Where they are defined they do what the same operations do
on all numbers.
-/

namespace SignHash.Word

/-- The sum of two words, if it is a word. -/
def add? (x y : UInt64) : Option UInt64 := if x.toNat + y.toNat < 2 ^ 64 then some (x + y) else none

/-- The product of two words, if it is a word. -/
def mul? (x y : UInt64) : Option UInt64 := if x.toNat * y.toNat < 2 ^ 64 then some (x * y) else none

/-- The quotient of two words rounded up: one more than it is rounded down, if there is a remainder. -/
def ceilDiv? (x y : UInt64) : Option UInt64 :=
  if y = 0 then none
  else if 0 < x % y then add? (x / y) 1
  else some (x / y)

/-- A word with its bits moved up, by fewer places than it has bits and with all of them kept. -/
def shiftLeft? (x : UInt64) (places : Nat) : Option UInt64 :=
  if places < 64 ∧ x.toNat <<< places < 2 ^ 64 then some (x <<< UInt64.ofNat places) else none

/-- A word with its bits moved down, by fewer places than it has bits. -/
def shiftRight? (x : UInt64) (places : Nat) : Option UInt64 :=
  if places < 64 then some (x >>> UInt64.ofNat places) else none

/-- A sum that fits is found. -/
theorem exists_add? {x y : UInt64} (h : x.toNat + y.toNat < 2 ^ 64) :
    ∃ z, add? x y = some z ∧ z.toNat = x.toNat + y.toNat :=
  ⟨x + y, if_pos h, by rw [UInt64.toNat_add, Nat.mod_eq_of_lt h]⟩

/-- A product that fits is found. -/
theorem exists_mul? {x y : UInt64} (h : x.toNat * y.toNat < 2 ^ 64) :
    ∃ z, mul? x y = some z ∧ z.toNat = x.toNat * y.toNat :=
  ⟨x * y, if_pos h, by rw [UInt64.toNat_mul, Nat.mod_eq_of_lt h]⟩

/-- Nothing is rounded up where the division goes out even. -/
theorem ceilDiv_eq_div {a b : Nat} (positive : 0 < b) (whole : a % b = 0) : a ⌈/⌉ b = a / b :=
  calc a ⌈/⌉ b = b • (a / b) ⌈/⌉ b := by
        rw [smul_eq_mul, Nat.mul_div_cancel' (Nat.dvd_of_mod_eq_zero whole)]
    _ = a / b := smul_ceilDiv positive _

/-- Otherwise one more is needed for the rest. -/
theorem ceilDiv_eq_div_add_one {a b : Nat} (positive : 0 < b) (rest : 0 < a % b) :
    a ⌈/⌉ b = a / b + 1 := by
  have hdivmod : b * (a / b) + a % b = a := Nat.div_add_mod a b
  refine Nat.le_antisymm ((ceilDiv_le_iff_le_mul positive).mpr (Nat.lt_mul_div_succ a positive).le) ?_
  refine Nat.lt_of_not_le fun hle => ?_
  have hall : a ≤ b * (a / b) := (ceilDiv_le_iff_le_mul positive).mp hle
  omega

/-- There is a remainder only if the divisor is more than one, and then there is room above the quotient. -/
theorem quotient_add_one_lt {x y : UInt64} (positive : 0 < y.toNat) (rest : 0 < x.toNat % y.toNat) :
    (x / y).toNat + (1 : UInt64).toNat < 2 ^ 64 := by
  have htwo : 2 ≤ y.toNat := by
    refine Nat.lt_of_le_of_ne positive fun hone => ?_
    rw [← hone, Nat.mod_one] at rest
    exact Nat.lt_irrefl 0 rest
  have hhalf : x.toNat / y.toNat ≤ x.toNat / 2 := Nat.div_le_div_left htwo (by decide)
  have hx : x.toNat < 2 ^ 64 := x.toNat_lt
  rw [UInt64.toNat_div, UInt64.toNat_one]
  omega

/-- A quotient is rounded up without loss. -/
theorem exists_ceilDiv? {x y : UInt64} (positive : 0 < y.toNat) :
    ∃ z, ceilDiv? x y = some z ∧ z.toNat = x.toNat ⌈/⌉ y.toNat := by
  have hy : y ≠ 0 := by
    rintro rfl
    exact Nat.lt_irrefl 0 positive
  have hrest : 0 < x % y ↔ 0 < x.toNat % y.toNat := by
    rw [UInt64.lt_iff_toNat_lt, UInt64.toNat_mod]
    rfl
  rw [ceilDiv?, if_neg hy]
  by_cases h : 0 < x.toNat % y.toNat
  · obtain ⟨z, hz, hvalue⟩ := exists_add? (quotient_add_one_lt positive h)
    rw [UInt64.toNat_div, UInt64.toNat_one] at hvalue
    rw [if_pos (hrest.mpr h), ceilDiv_eq_div_add_one positive h]
    exact ⟨z, hz, hvalue⟩
  · rw [if_neg (fun hpos => h (hrest.mp hpos)), ceilDiv_eq_div positive (Nat.eq_zero_of_not_pos h)]
    exact ⟨_, rfl, UInt64.toNat_div x y⟩

theorem toNat_ofNat_places {places : Nat} (h : places < 64) :
    (UInt64.ofNat places).toNat % 64 = places := by
  rw [UInt64.toNat_ofNat', Nat.mod_eq_of_lt (a := places) (by omega), Nat.mod_eq_of_lt h]

/-- Bits that stay within the word may be shifted by fewer than 64 places. -/
theorem exists_shiftLeft? {x : UInt64} {places : Nat} (h : places < 64)
    (kept : x.toNat <<< places < 2 ^ 64) :
    ∃ z, shiftLeft? x places = some z ∧ z.toNat = x.toNat <<< places := by
  refine ⟨x <<< UInt64.ofNat places, if_pos ⟨h, kept⟩, ?_⟩
  rw [UInt64.toNat_shiftLeft, toNat_ofNat_places h, Nat.mod_eq_of_lt kept]

theorem exists_shiftRight? (x : UInt64) {places : Nat} (h : places < 64) :
    ∃ z, shiftRight? x places = some z ∧ z.toNat = x.toNat >>> places := by
  refine ⟨x >>> UInt64.ofNat places, if_pos h, ?_⟩
  rw [UInt64.toNat_shiftRight, toNat_ofNat_places h]

end SignHash.Word
