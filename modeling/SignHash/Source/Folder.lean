import SignHash.Frame.Writer
import SignHash.Source.Basic
import SignHash.Store.FileTree
import SignHash.Wire.Basic

/-!
# Folders of descriptors

Each descriptor is a file of its own: the name is the identifier's bytes in hexadecimal with an
ending, the content a frame with the list of components. Nothing is kept in between, so what the
folder holds is what the source holds. Identifiers that would make too long a name are refused.
-/

namespace SignHash.DescriptorFolder

open Wire

/-- The ending of the files' names. -/
def ending : String := ".lz4"

/-- The longest identifier, in bytes. -/
def idLimit : Nat := 125

/-- The name of the file of an identifier; `none` if the identifier is too long. -/
def fileName? (id : String) : Option String :=
  if Utf8.byteCount id ≤ idLimit then some (Hex.encode (Utf8.encode id) ++ ending) else none

/-- The identifier that the name of a file stands for: what precedes the ending has to be the
hexadecimal form of a text, and not empty. -/
def idOfName? (name : Name) : Option String :=
  let suffix := Utf8.encode ending
  let stem := name.take (name.length - suffix.length)
  if name = stem ++ suffix ∧ stem ≠ [] then
    match Hex.decode stem with
    | .ok bytes => Utf8.decode? bytes
    | .error _ => none
  else none

/-- The content of the file of a descriptor. -/
def fileContent (components : List Double) : Bytes :=
  Frame.write (writeList writeDouble components)

/-- The components that a file holds. -/
def componentsOf? (content : Bytes) : Option (List Double) :=
  (readList readDouble (Frame.content content)).map (·.1)

/-- The files with a descriptor in the folder at a path, instead of one with the same identifier. -/
def insert (files : FileTree) (directory : String) (d : Descriptor) : Except Error FileTree :=
  match fileName? d.id with
  | none => .error (.validation (.longIdentifier d.id idLimit))
  | some name =>
    match files.writeFile (FileTree.join directory name) (fileContent d.components) with
    | .ok files => .ok files
    | .error issue => .error (.io issue)

/-- The files with descriptors in the folder at a path, up to the first that fails. -/
def insertAll (files : FileTree) (directory : String) :
    List Descriptor → Except Error Unit × FileTree
  | [] => (.ok (), files)
  | d :: ds =>
    match insert files directory d with
    | .error e => (.error e, files)
    | .ok files => insertAll files directory ds

/-- The descriptor of an identifier in the folder at a path. -/
def fetch (files : FileTree) (directory : String) (id : String) : Except Error Descriptor :=
  match fileName? id with
  | none => .error (.lookup id)
  | some name =>
    match files.open? (FileTree.join directory name) with
    | .error .notFound => .error (.lookup id)
    | .error issue => .error (.io issue)
    | .ok (.folder _) => .error (.validation (.undecodable id))
    | .ok (.file content) =>
      match componentsOf? content with
      | some components => .ok ⟨id, components⟩
      | none => .error (.validation (.undecodable id))

/-- The identifiers of the files in the folder at a path, in their order. -/
def ids (files : FileTree) (directory : String) : Except Error (List String) :=
  match files.list directory with
  | .error issue => .error (.io issue)
  | .ok names =>
    .ok ((names.filterMap idOfName?).mergeSort fun a b => (idOrder a b).isLE)

/-- The source of the descriptors in the folder at a path. -/
def source (files : FileTree) (directory : String) : Source where
  ids := ids files directory
  count := (ids files directory).map List.length
  fetch := fetch files directory
  shareable := some (.files directory)

end SignHash.DescriptorFolder
