import SignHash.Descriptor
import SignHash.Error
import SignHash.Source.Config
import SignHash.Table

/-!
# Sources

A source holds descriptors under their identifiers. It is given by what it answers: the identifiers
it holds, how many they are, the descriptor of an identifier, and how another process can open it,
if one can.
-/

namespace SignHash

/-- What a source of descriptors answers. -/
structure Source where
  /-- The identifiers, in their order. -/
  ids : Except Error (List String)
  /-- The number of descriptors. -/
  count : Except Error Nat
  /-- The descriptor of an identifier. -/
  fetch : String → Except Error Descriptor
  /-- How another process opens the source; `none` if none can. -/
  shareable : Option SourceConfig

/-- The descriptor that a table holds under an identifier. -/
def Table.fetch (t : Table) (id : String) : Except Error Descriptor :=
  match t.get? id with
  | some components => .ok ⟨id, components⟩
  | none => .error (.lookup id)

/-- The source of the descriptors in a table. -/
def Source.ofTable (t : Table) (shareable : Option SourceConfig) : Source :=
  ⟨.ok t.ids, .ok t.size, t.fetch, shareable⟩

end SignHash
