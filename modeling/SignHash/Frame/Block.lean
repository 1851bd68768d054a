import SignHash.Bytes

/-!
# Compressed blocks

A block is a row of sequences: literal bytes, then a match, which repeats bytes of the content so
far from a given distance back. A token byte holds both lengths, each continued by further bytes
when its half of the token is full. The last sequence ends after its literals. A distance is at
least one and does not lead beyond the start of the content.
-/

namespace SignHash.Frame

/-- The further bytes of a length: all are added, up to the first that is not full. -/
def readLength (sum : Nat) : Bytes → Option (Nat × Bytes)
  | [] => none
  | b :: rest => if b = 0xff then readLength (sum + 255) rest else some (sum + b.toNat, rest)

/-- Whether there are at least so many bytes. -/
def hasAtLeast (n : Nat) (bytes : Bytes) : Bool := n = 0 || !(bytes.drop (n - 1)).isEmpty

/-- So many bytes repeated from a distance back. -/
def repeatFrom (distance : Nat) : Nat → Array UInt8 → Array UInt8
  | 0, content => content
  | n + 1, content =>
    repeatFrom distance n (content.push (content.getD (content.size - distance) 0))

/-- The literals of a sequence, if there are that many and they fit. -/
def takeLiterals (limit : Nat) (literals : Nat) (input : Bytes) (content : Array UInt8) :
    Option (Bytes × Array UInt8) :=
  if hasAtLeast literals input && content.size + literals ≤ limit then
    some (input.drop literals, (input.take literals).foldl Array.push content)
  else none

/-- The sequences of a block, added to the content so far. The content may be looked back at from
`history` on and may grow to `limit`; at most `fuel` sequences are read. -/
def readSequences (history limit : Nat) : Nat → Bytes → Array UInt8 → Option (Array UInt8)
  | 0, _, _ => none
  | _, [], _ => none
  | fuel + 1, token :: input, content => do
    let literals := token.toNat / 16
    let matched := token.toNat % 16
    let (literals, input) ← if literals = 15 then readLength 15 input else some (literals, input)
    let (input, content) ← takeLiterals limit literals input content
    match input with
    | [] => some content
    | [_] => none
    | low :: high :: input =>
      let distance := low.toNat + 256 * high.toNat
      let (matched, input) ← if matched = 15 then readLength 15 input else some (matched, input)
      if distance = 0 || content.size < history + distance
          || limit < content.size + matched + 4 then none
      else readSequences history limit fuel input (repeatFrom distance (matched + 4) content)

/-- The content after a compressed block. -/
def readBlock (history limit : Nat) (input : Bytes) (content : Array UInt8) :
    Option (Array UInt8) :=
  readSequences history limit (input.length + 1) input content

end SignHash.Frame
