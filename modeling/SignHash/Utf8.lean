import SignHash.Bytes

/-!
# Texts as bytes

The UTF-8 form of a text, and the text that a byte string is the UTF-8 form of, if there is one.
-/

namespace SignHash.Utf8

/-- The UTF-8 bytes of a text. -/
def encode (s : String) : Bytes := s.toUTF8.data.toList

/-- The text whose UTF-8 bytes are `bytes`, or `none` if no text has them. -/
def decode? (bytes : Bytes) : Option String := String.fromUTF8? ⟨bytes.toArray⟩

/-- The number of bytes that a text takes in UTF-8. -/
def byteCount (s : String) : Nat := s.utf8ByteSize

end SignHash.Utf8
