import SignHash.Decimal.Shortest

/-!
# How a number is written

Digits are written with a decimal point where that stays short, and with an exponent otherwise.
-/

namespace SignHash.Decimal

/-- The decisions of a style of writing digits. -/
structure Style where
  /-- Up to this place left of the digits' first one the point is written among or after them. -/
  lastPlace : Int
  /-- Down to this place the point is written before the digits. -/
  firstPlace : Int
  /-- What ends a whole number that is written without an exponent. -/
  wholeEnd : List Char
  /-- Whether an exponent that is not negative has a sign. -/
  signed : Bool

/-- The digits of a natural number. -/
def natDigits (n : Nat) : List Char := Nat.toDigits 10 n

/-- The digits with a decimal point after the first, if there are more. -/
def pointAfterFirst : List Char → List Char
  | first :: second :: more => first :: '.' :: second :: more
  | short => short

/-- An exponent: its mark, its sign and its digits. -/
def exponentPart (signed : Bool) : Int → List Char
  | .ofNat e => 'e' :: ((if signed then ['+'] else []) ++ natDigits e)
  | .negSucc k => 'e' :: '-' :: natDigits (k + 1)

/-- Digits in a style. -/
def Style.write (style : Style) (d : Digits) : List Char :=
  let ds := natDigits d.coefficient
  let place : Int := ds.length + d.exponent
  if 0 ≤ d.exponent ∧ place ≤ style.lastPlace then
    ds ++ List.replicate d.exponent.toNat '0' ++ style.wholeEnd
  else if 0 < place ∧ place ≤ style.lastPlace then
    ds.take place.toNat ++ '.' :: ds.drop place.toNat
  else if style.firstPlace ≤ place ∧ place ≤ 0 then
    '0' :: '.' :: (List.replicate (-place).toNat '0' ++ ds)
  else pointAfterFirst ds ++ exponentPart style.signed (place - 1)

/-- Documents write numbers below `10 ^ 16` and from `10 ^ -5` on with a point, whole ones
end in `.0`, and an exponent always has a sign. -/
def documentStyle : Style := ⟨16, -4, ['.', '0'], true⟩

/-- Messages write every number with an exponent, which has a sign only if it is negative. -/
def messageStyle : Style := ⟨-1, 1, [], false⟩

/-- A finite number in a style. -/
def write (style : Style) (x : Double) : List Char :=
  let magnitude := style.write (shortestDigits x.abs.bits.toNat)
  if x.isNegative then '-' :: magnitude else magnitude

/-- A number in a message. -/
def messageText (x : Double) : String :=
  if x.isFinite then String.ofList (write messageStyle x)
  else if x.isNaN then "NaN"
  else if x.isNegative then "-inf"
  else "inf"

end SignHash.Decimal
