import SignHash.Model.Record
import SignHash.Store.FileTree

/-!
# Models in files

A model is saved as its bytes and loaded from them.
-/

namespace SignHash.Model

/-- The files with a model at a path. -/
def save (files : FileTree) (path : String) (m : Model Double) : Except Error FileTree :=
  match files.writeFile path m.toBytes with
  | .ok files => .ok files
  | .error issue => .error (.io issue)

/-- The model in the file at a path. -/
def load (files : FileTree) (path : String) : Except Error (Model Double) :=
  match files.contentAt path with
  | .error .notFound => .error (.persistence (.noModel path))
  | .error issue => .error (.io issue)
  | .ok content => ofBytes content

end SignHash.Model
