import SignHash.Decimal.Written
import SignHash.Json.Value

/-!
# Writing JSON

A document is written in one line without spaces (`Document.compact`), or with an entry on each line
and two spaces for each level (`Document.pretty`).
-/

namespace SignHash.Json

/-- The lowercase hexadecimal digit of a number below sixteen. -/
def hexDigit (n : Nat) : Char :=
  if n < 10 then Char.ofNat (48 + n) else Char.ofNat (87 + n)

/-- A character inside a string: quotes, backslashes and control characters are escaped, the rest
stands for itself. -/
def escape (c : Char) : List Char :=
  if c = '"' then ['\\', '"']
  else if c = '\\' then ['\\', '\\']
  else if c = '\n' then ['\\', 'n']
  else if c = '\r' then ['\\', 'r']
  else if c = '\t' then ['\\', 't']
  else if c.toNat = 8 then ['\\', 'b']
  else if c.toNat = 12 then ['\\', 'f']
  else if c.toNat < 32 then
    ['\\', 'u', '0', '0', hexDigit (c.toNat / 16), hexDigit (c.toNat % 16)]
  else [c]

/-- A string literal. -/
def writeString (s : String) : List Char := '"' :: (s.toList.flatMap escape ++ ['"'])

/-- An integer. -/
def writeInteger : Int → List Char
  | .ofNat n => Decimal.natDigits n
  | .negSucc n => '-' :: Decimal.natDigits (n + 1)

/-- A binary64 number, if it is finite. -/
def writeDouble (x : Double) : List Char :=
  if x.isFinite then Decimal.write Decimal.documentStyle x else ['n', 'u', 'l', 'l']

/-- A truth value. -/
def writeBool (b : Bool) : List Char :=
  if b then ['t', 'r', 'u', 'e'] else ['f', 'a', 'l', 's', 'e']

mutual

/-- A document in one line. -/
def Document.chars : Document → List Char
  | .null => ['n', 'u', 'l', 'l']
  | .bool b => writeBool b
  | .integer n => writeInteger n
  | .double x => writeDouble x
  | .string s => writeString s
  | .array items => '[' :: (itemChars items ++ [']'])
  | .object entries => '\x7b' :: (entryChars entries ++ ['\x7d'])

/-- The items of an array, with commas between them. -/
def itemChars : List Document → List Char
  | [] => []
  | [item] => item.chars
  | item :: more => item.chars ++ ',' :: itemChars more

/-- The entries of an object, with commas between them. -/
def entryChars : List (String × Document) → List Char
  | [] => []
  | [(key, value)] => writeString key ++ ':' :: value.chars
  | (key, value) :: more => writeString key ++ ':' :: (value.chars ++ ',' :: entryChars more)

end

/-- A document in one line. -/
def Document.compact (d : Document) : String := String.ofList d.chars

/-- A new line at a level. -/
def newLine (level : Nat) : List Char := '\n' :: List.replicate (2 * level) ' '

mutual

/-- A document that starts at a level, over as many lines as it has entries. -/
def Document.prettyChars (level : Nat) : Document → List Char
  | .array [] => ['[', ']']
  | .array items => '[' :: (prettyItems (level + 1) items ++ newLine level ++ [']'])
  | .object [] => ['\x7b', '\x7d']
  | .object entries => '\x7b' :: (prettyEntries (level + 1) entries ++ newLine level ++ ['\x7d'])
  | .null => ['n', 'u', 'l', 'l']
  | .bool b => writeBool b
  | .integer n => writeInteger n
  | .double x => writeDouble x
  | .string s => writeString s

/-- The items of an array at a level, each on a line of its own. -/
def prettyItems (level : Nat) : List Document → List Char
  | [] => []
  | [item] => newLine level ++ item.prettyChars level
  | item :: more => newLine level ++ item.prettyChars level ++ ',' :: prettyItems level more

/-- The entries of an object at a level, each on a line of its own. -/
def prettyEntries (level : Nat) : List (String × Document) → List Char
  | [] => []
  | [(key, value)] => newLine level ++ writeString key ++ ':' :: ' ' :: value.prettyChars level
  | (key, value) :: more =>
    newLine level ++ writeString key ++ ':' :: ' ' ::
      (value.prettyChars level ++ ',' :: prettyEntries level more)

end

/-- A document with an entry on each line. -/
def Document.pretty (d : Document) : String := String.ofList (d.prettyChars 0)

end SignHash.Json
