import SignHash.Json.Value

/-!
# Reading JSON

A reader takes characters from the front of the text and returns what it read and the rest, or
`none` where the text is not JSON. Whole texts are read by `Value.ofString?`, which lets only white
space stand around the value.
-/

namespace SignHash.Json

/-- The white space of JSON. -/
def isSpace (c : Char) : Bool := c = ' ' || c = '\n' || c = '\t' || c = '\r'

/-- The text without white space at its front. -/
def skipSpace (cs : List Char) : List Char := cs.dropWhile isSpace

/-! ## Numbers -/

/-- The number that decimal digits write. -/
def digitsValue (ds : List Char) : Nat := ds.foldl (fun n d => 10 * n + (d.toNat - 48)) 0

/-- The digits at the front; there has to be one. -/
def readDigits (cs : List Char) : Option (List Char × List Char) :=
  match cs.takeWhile Char.isDigit with
  | [] => none
  | d :: ds => some (d :: ds, cs.dropWhile Char.isDigit)

/-- The digits of a whole part: a zero only stands alone. -/
def readWhole : List Char → Option (List Char × List Char)
  | '0' :: rest =>
    match rest with
    | c :: _ => if c.isDigit then none else some (['0'], rest)
    | [] => some (['0'], [])
  | cs => readDigits cs

/-- The digits after a point, if there is one. -/
def readFraction : List Char → Option (Option (List Char) × List Char)
  | '.' :: rest => (readDigits rest).map fun r => (some r.1, r.2)
  | cs => some (none, cs)

/-- An exponent with its sign, after its mark. -/
def readSignedExponent : List Char → Option (Int × List Char)
  | '-' :: rest => (readDigits rest).map fun r => (-(digitsValue r.1 : Int), r.2)
  | '+' :: rest => (readDigits rest).map fun r => ((digitsValue r.1 : Int), r.2)
  | cs => (readDigits cs).map fun r => ((digitsValue r.1 : Int), r.2)

/-- The exponent, if there is one. -/
def readExponent : List Char → Option (Option Int × List Char)
  | c :: rest =>
    if c = 'e' ∨ c = 'E' then (readSignedExponent rest).map fun r => (some r.1, r.2)
    else some (none, c :: rest)
  | [] => some (none, [])

/-- A number after its sign. -/
def readUnsigned (negative : Bool) (cs : List Char) : Option (Number × List Char) := do
  let (whole, rest) ← readWhole cs
  let (fraction, rest) ← readFraction rest
  let (exponent, rest) ← readExponent rest
  let places := fraction.getD []
  return (⟨negative, digitsValue (whole ++ places), exponent.getD 0 - (places.length : Int),
    fraction.isNone && exponent.isNone⟩, rest)

/-- A number. -/
def readNumber : List Char → Option (Number × List Char)
  | '-' :: rest => readUnsigned true rest
  | cs => readUnsigned false cs

/-! ## Strings -/

/-- The number of a hexadecimal digit of either case. -/
def hexValue? (c : Char) : Option Nat :=
  let n := c.toNat
  if 48 ≤ n ∧ n ≤ 57 then some (n - 48)
  else if 97 ≤ n ∧ n ≤ 102 then some (n - 87)
  else if 65 ≤ n ∧ n ≤ 70 then some (n - 55)
  else none

/-- The code unit of four hexadecimal digits. -/
def unitValue? (a b c d : Char) : Option Nat := do
  return 4096 * (← hexValue? a) + 256 * (← hexValue? b) + 16 * (← hexValue? c) + (← hexValue? d)

/-- A piece of a string literal: a character, or half of a surrogate pair. -/
inductive Piece where
  /-- A character. -/
  | char (c : Char)
  /-- Half of a surrogate pair, by its code unit. -/
  | half (unit : Nat)

/-- The character that an escape of one letter stands for. -/
def shortEscape? (c : Char) : Option Char :=
  if c = '"' ∨ c = '\\' ∨ c = '/' then some c
  else if c = 'b' then some (Char.ofNat 8)
  else if c = 'f' then some (Char.ofNat 12)
  else if c = 'n' then some '\n'
  else if c = 'r' then some '\r'
  else if c = 't' then some '\t'
  else none

/-- A code unit as a piece of a literal. -/
def Piece.ofCode (unit : Nat) : Piece :=
  if 0xD800 ≤ unit ∧ unit ≤ 0xDFFF then .half unit else .char (Char.ofNat unit)

/-- The pieces of a string literal up to its closing quote, after the opening one. Control
characters have to be escaped. -/
def readPieces : List Char → Option (List Piece × List Char)
  | '"' :: rest => some ([], rest)
  | '\\' :: 'u' :: a :: b :: c :: d :: rest => do
    let unit ← unitValue? a b c d
    let (pieces, rest) ← readPieces rest
    return (.ofCode unit :: pieces, rest)
  | '\\' :: c :: rest => do
    let char ← shortEscape? c
    let (pieces, rest) ← readPieces rest
    return (.char char :: pieces, rest)
  | c :: rest =>
    if c.toNat < 32 ∨ c = '\\' then none
    else do
      let (pieces, rest) ← readPieces rest
      return (.char c :: pieces, rest)
  | [] => none

/-- The character of a surrogate pair. -/
def pairedChar (high low : Nat) : Char :=
  Char.ofNat (0x10000 + 1024 * (high - 0xD800) + (low - 0xDC00))

/-- The characters of a literal: a high half and the low half right after it are one character, and
any other half makes the literal stand for no text. -/
def charsOfPieces : List Piece → Option (List Char)
  | [] => some []
  | .char c :: rest => (charsOfPieces rest).map (c :: ·)
  | .half high :: .half low :: rest =>
    if high < 0xDC00 ∧ 0xDC00 ≤ low then (charsOfPieces rest).map (pairedChar high low :: ·)
    else none
  | .half _ :: _ => none

/-- The content of a string literal, after its opening quote. -/
def readLiteral (cs : List Char) : Option (Literal × List Char) :=
  (readPieces cs).map fun r => ((charsOfPieces r.1).map String.ofList, r.2)

/-! ## Values -/

/-- The rest of the text after a word at its front. -/
def readWord : List Char → List Char → Option (List Char)
  | [], cs => some cs
  | w :: word, c :: cs => if w = c then readWord word cs else none
  | _ :: _, [] => none

mutual

/-- A value, after white space. Every call takes one unit of `fuel`; each takes at least a character
off the text too, or is the last in a row of three, so three units for each character are enough. -/
def readValue : Nat → List Char → Option (Value × List Char)
  | 0, _ => none
  | fuel + 1, cs =>
    match skipSpace cs with
    | '"' :: rest => (readLiteral rest).map fun r => (.string r.1, r.2)
    | '[' :: rest =>
      match skipSpace rest with
      | ']' :: rest => some (.array [], rest)
      | rest => (readItems fuel rest).map fun r => (.array r.1, r.2)
    | '\x7b' :: rest =>
      match skipSpace rest with
      | '\x7d' :: rest => some (.object [], rest)
      | rest => (readEntries fuel rest).map fun r => (.object r.1, r.2)
    | 'n' :: rest => (readWord ['u', 'l', 'l'] rest).map fun r => (.null, r)
    | 't' :: rest => (readWord ['r', 'u', 'e'] rest).map fun r => (.bool true, r)
    | 'f' :: rest => (readWord ['a', 'l', 's', 'e'] rest).map fun r => (.bool false, r)
    | cs => (readNumber cs).map fun r => (.number r.1, r.2)

/-- The items of an array up to its closing bracket; there is at least one. -/
def readItems : Nat → List Char → Option (List Value × List Char)
  | 0, _ => none
  | fuel + 1, cs => do
    let (item, rest) ← readValue fuel cs
    match skipSpace rest with
    | ',' :: rest =>
      let (items, rest) ← readItems fuel rest
      return (item :: items, rest)
    | ']' :: rest => return ([item], rest)
    | _ => none

/-- The entries of an object up to its closing brace; there is at least one. -/
def readEntries : Nat → List Char → Option (List (Literal × Value) × List Char)
  | 0, _ => none
  | fuel + 1, cs =>
    match skipSpace cs with
    | '"' :: rest => do
      let (key, rest) ← readLiteral rest
      match skipSpace rest with
      | ':' :: rest =>
        let (value, rest) ← readValue fuel rest
        match skipSpace rest with
        | ',' :: rest =>
          let (entries, rest) ← readEntries fuel rest
          return ((key, value) :: entries, rest)
        | '\x7d' :: rest => return ([(key, value)], rest)
        | _ => none
      | _ => none
    | _ => none

end

/-- The value that a text says, with white space around it. -/
def Value.ofChars? (cs : List Char) : Option Value := do
  let (value, rest) ← readValue (3 * cs.length + 3) cs
  if (skipSpace rest).isEmpty then some value else none

/-- The value that a text says, with white space around it. -/
def Value.ofString? (text : String) : Option Value := Value.ofChars? text.toList

end SignHash.Json
