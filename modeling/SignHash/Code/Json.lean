import SignHash.Code.Basic
import SignHash.Json.Decode

/-!
# Codes in JSON

A code is a record of its bytes and its length. Reading takes both as they are given.
-/

namespace SignHash.Code

open Json

/-- A code as a record. -/
def toJson (c : Code) : Document :=
  .object [("bytes", .array (c.bytes.map fun b => .integer b.toNat)), ("len", .integer c.length)]

/-- The code that a record describes. -/
def ofJson? (v : Value) : Option Code := do
  match ← v.asFields? ["bytes", "len"] with
  | [bytes, length] =>
    return ⟨← Value.required (·.asList? Value.asByte?) bytes, ← Value.required Value.asWord? length⟩
  | _ => none

end SignHash.Code
