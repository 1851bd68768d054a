import SignHash.Descriptor
import SignHash.Json.Decode

/-!
# Descriptors in JSON

A descriptor is a record of its identifier and its components. A component that is not finite is
written as `null`, which no number is read from.
-/

namespace SignHash.Descriptor

open Json

/-- The components as an array. -/
def componentsJson (components : List Double) : Document := .array (components.map .double)

/-- A descriptor as a record. -/
def toJson (d : Descriptor) : Document :=
  .object [("id", .string d.id), ("components", componentsJson d.components)]

/-- The descriptor that a record describes. -/
def ofJson? (v : Value) : Option Descriptor := do
  match ← v.asFields? ["id", "components"] with
  | [id, components] =>
    return ⟨← Value.required Value.asText? id,
      ← Value.required (·.asList? Value.asDouble?) components⟩
  | _ => none

end SignHash.Descriptor
