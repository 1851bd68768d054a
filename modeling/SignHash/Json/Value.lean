import SignHash.Double

/-!
# JSON values

What a JSON text says (`Value`), as it is read, and what is to be written (`Document`). They differ
where texts are freer than documents: a number is kept as the decimal that was written, and a string
may have escapes that stand for no text.
-/

namespace SignHash.Json

/-- A number as it was written: `± coefficient * 10 ^ exponent`. -/
structure Number where
  /-- Whether it starts with a minus sign. -/
  negative : Bool
  /-- Its digits, the point left out. -/
  coefficient : Nat
  /-- The power of ten that the last digit counts. -/
  exponent : Int
  /-- Whether it has neither a point nor an exponent. -/
  integral : Bool
  deriving DecidableEq, Repr

/-- The content of a string literal; `none` if an escape is half of a surrogate pair, which stands
for no text. -/
abbrev Literal := Option String

/-- What a JSON text says. -/
inductive Value where
  /-- The word `null`. -/
  | null
  /-- A truth value. -/
  | bool (value : Bool)
  /-- A number. -/
  | number (value : Number)
  /-- A string literal. -/
  | string (value : Literal)
  /-- An array. -/
  | array (items : List Value)
  /-- The entries in the order written, repeated keys included. -/
  | object (entries : List (Literal × Value))
  deriving Inhabited

/-- A JSON text to be written. -/
inductive Document where
  /-- The word `null`. -/
  | null
  /-- A truth value. -/
  | bool (value : Bool)
  /-- An integer. -/
  | integer (value : Int)
  /-- A binary64 number; one that is not finite is written as `null`. -/
  | double (value : Double)
  /-- A string. -/
  | string (value : String)
  /-- An array. -/
  | array (items : List Document)
  /-- An object, with its entries in order. -/
  | object (entries : List (String × Document))
  deriving Inhabited

end SignHash.Json
