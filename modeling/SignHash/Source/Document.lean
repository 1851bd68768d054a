import SignHash.Descriptor.Json
import SignHash.Json.Reader
import SignHash.Json.Writer
import SignHash.Store.FileTree

/-!
# Documents of descriptors

A document is a JSON object with the components of each descriptor under its identifier. Of entries
with the same identifier the last one counts.
-/

namespace SignHash.DescriptorDocument

open Json

/-- The document of a table. -/
def ofTable (t : Table) : Document :=
  .object (t.entries.map fun e => (e.1, Descriptor.componentsJson e.2))

/-- A descriptor from an entry of an object. -/
def descriptorOfEntry? (entry : Literal × Value) : Option Descriptor := do
  return ⟨← entry.1, ← entry.2.asList? Value.asDouble?⟩

/-- The table that a value describes. -/
def toTable? : Value → Option Table
  | .object entries => (entries.mapM descriptorOfEntry?).map Table.ofList
  | _ => none

/-- The table that the bytes of a document describe. -/
def ofBytes? (bytes : Bytes) : Option Table := do
  toTable? (← Value.ofString? (← Utf8.decode? bytes))

/-- The bytes of the document of a table. -/
def toBytes (t : Table) : Bytes := Utf8.encode (ofTable t).compact

/-- The table in the document at a path. -/
def load (files : FileTree) (path : String) : Except Error Table :=
  match files.open? path with
  | .error issue => .error (.io issue)
  | .ok (.folder _) => .error (.configuration (.malformedDescriptors path))
  | .ok (.file content) =>
    match ofBytes? content with
    | some table => .ok table
    | none => .error (.configuration (.malformedDescriptors path))

/-- The files with a document of descriptors at a path. -/
def write (files : FileTree) (path : String) (ds : List Descriptor) : Except Error FileTree :=
  match files.writeFile path (toBytes (Table.ofList ds)) with
  | .ok files => .ok files
  | .error issue => .error (.io issue)

end SignHash.DescriptorDocument
