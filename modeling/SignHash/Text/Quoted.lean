import SignHash.Hex
import SignHash.Text.Unprintable

/-!
# Quoted text

Text in quotes on one line: the quote and the backslash are escaped, line ends, tabs and the null
character have short names, and any other character that is not shown is written by its number.
-/

namespace SignHash.Text

/-- The lowercase hexadecimal digits of a number, without zeros in front. -/
def hexNumber (n : Nat) : List Char := Nat.toDigits 16 n

/-- A character between two quotes of the given kind. -/
def escapeChar (quote c : Char) : List Char :=
  if c = quote ∨ c = '\\' then ['\\', c]
  else if c = '\n' then ['\\', 'n']
  else if c = '\r' then ['\\', 'r']
  else if c = '\t' then ['\\', 't']
  else if c.toNat = 0 then ['\\', '0']
  else if isUnprintable c then ['\\', 'u', '\x7b'] ++ hexNumber c.toNat ++ ['\x7d']
  else [c]

/-- A text in double quotes. -/
def quoted (s : String) : String :=
  String.ofList ('"' :: (s.toList.flatMap (escapeChar '"') ++ ['"']))

/-- A character in single quotes. -/
def quotedChar (c : Char) : String := String.ofList ('\'' :: (escapeChar '\'' c ++ ['\'']))

end SignHash.Text
