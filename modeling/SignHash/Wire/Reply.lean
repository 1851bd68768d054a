import SignHash.Descriptor
import SignHash.Wire.Basic

/-!
# Replies of a worker

A worker answers each request with a reply: a tag of four bytes says which kind it is, and the
kind's texts and numbers follow. Every form ends where its lengths say, so replies can follow one
another.
-/

namespace SignHash

/-- A worker's answer to one request. -/
inductive Reply where
  /-- The descriptor that was asked for. -/
  | fetched (d : Descriptor)
  /-- The source does not hold the identifier. -/
  | missing (id : String)
  /-- The descriptor cannot be had for another reason. -/
  | failed (id : String) (message : String)
  deriving DecidableEq

namespace Reply

open Wire

/-- A reply as bytes. -/
def write : Reply → Bytes
  | fetched d => littleEndian 4 0 ++ writeText d.id ++ writeList writeDouble d.components
  | missing id => littleEndian 4 1 ++ writeText id
  | failed id message => littleEndian 4 2 ++ writeText id ++ writeText message

/-- The reply at the front of a byte string. -/
def read : Decoder Reply := fun bytes => do
  let (tag, bytes) ← readNat 4 bytes
  let (id, bytes) ← if tag < 3 then readText bytes else none
  match tag with
  | 0 => (readList readDouble bytes).map fun r => (fetched ⟨id, r.1⟩, r.2)
  | 1 => some (missing id, bytes)
  | _ => (readText bytes).map fun r => (failed id r.1, r.2)

/-- Whether a reply is a descriptor. -/
def isFetched : Reply → Bool
  | fetched _ => true
  | _ => false

end Reply

end SignHash
