import SignHash.Source.Basic
import SignHash.Store.FileTree
import SignHash.Text.Blank
import SignHash.Text.Lines

/-!
# Identifier lists

A list has an identifier on each line. White space around it does not count, and lines with nothing
else are skipped. Without a list, all identifiers of a source are taken.
-/

namespace SignHash

/-- The identifiers on lines. -/
def identifiersOn (lines : List String) : List String :=
  (lines.map Text.trim).filter fun id => !id.isEmpty

/-- The identifiers in a list. -/
def parseIdentifiers (bytes : Bytes) : Except Error (List String) :=
  match (Text.lines bytes).mapM Utf8.decode? with
  | some lines => .ok (identifiersOn lines)
  | none => .error (.io .invalidData)

/-- The identifiers in the list at a path. -/
def loadIdentifiers (files : FileTree) (path : String) : Except Error (List String) :=
  match files.contentAt path with
  | .ok content => parseIdentifiers content
  | .error _ => .error (.configuration (.noList path))

/-- The identifiers to work on: those of a list, or all of a source. -/
def resolveIdentifiers (files : FileTree) (listPath : Option String) (source : Source) :
    Except Error (List String) :=
  match listPath with
  | some path => loadIdentifiers files path
  | none => source.ids

end SignHash
