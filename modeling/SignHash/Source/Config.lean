import SignHash.Json.Decode

/-!
# Source configurations

Which source descriptors come from, and where it is. In JSON a configuration is an object with the
kind of source under `type`, or an array that starts with the kind. Since the kind may come last,
the whole object is read before it is known what it describes; so all of it has to be sound: texts
that stand for a text, numbers in range, and no deeper nesting than a document may have.
-/

namespace SignHash

/-- Where descriptors are stored. -/
inductive SourceConfig where
  /-- A document of descriptors. -/
  | json (path : String)
  /-- A folder with a file for each descriptor. -/
  | files (directory : String)
  /-- A partition of a keyspace. -/
  | keyspace (path : String) (partition : String)
  deriving DecidableEq

namespace SourceConfig

open Json

/-- The partition that a keyspace's descriptors are in if nothing is said. -/
def defaultPartition : String := "descriptors"

/-- The configuration if nothing is said: the folder `descriptors`. -/
def default : SourceConfig := .files "descriptors"

/-- The kind of source. -/
def kind : SourceConfig → String
  | .json _ => "json"
  | .files _ => "files"
  | .keyspace _ _ => "keyspace"

/-- A configuration as an object. -/
def toJson (c : SourceConfig) : Document :=
  .object <| ("type", .string c.kind) ::
    match c with
    | .json path => [("path", .string path)]
    | .files directory => [("directory", .string directory)]
    | .keyspace path partition => [("path", .string path), ("partition", .string partition)]

/-! ## Sound values -/

mutual

/-- Whether a value is sound, and nests at most so deep. -/
def isSound : Nat → Value → Bool
  | _, .null => true
  | _, .bool _ => true
  | _, .number n => (Value.number n).asDouble?.isSome
  | _, .string literal => literal.isSome
  | 0, .array _ => false
  | depth + 1, .array items => areSound depth items
  | 0, .object _ => false
  | depth + 1, .object entries => areSoundEntries depth entries

/-- Whether the items of an array are sound, and nest at most so deep. -/
def areSound (depth : Nat) : List Value → Bool
  | [] => true
  | item :: items => isSound depth item && areSound depth items

/-- Whether the entries of an object are sound, and nest at most so deep. -/
def areSoundEntries (depth : Nat) : List (Literal × Value) → Bool
  | [] => true
  | (key, value) :: entries => key.isSome && isSound depth value && areSoundEntries depth entries

end

/-- The deepest nesting of a document. -/
def depthLimit : Nat := 127

/-! ## Reading -/

/-- The configuration of a kind, from a record of its settings. -/
def ofKind? (kind : String) (settings : Value) : Option SourceConfig :=
  if kind = "json" then do
    match ← settings.asFields? ["path"] with
    | [path] => return .json (← Value.required Value.asText? path)
    | _ => none
  else if kind = "files" then do
    match ← settings.asFields? ["directory"] with
    | [directory] => return .files (← Value.required Value.asText? directory)
    | _ => none
  else if kind = "keyspace" then do
    match ← settings.asFields? ["path", "partition"] with
    | [path, partition] =>
      return .keyspace (← Value.required Value.asText? path)
        (← Value.optional defaultPartition Value.asText? partition)
    | _ => none
  else none

/-- The configuration that a value describes, which lies in a document below so many others. -/
def ofJson? (outer : Nat) (v : Value) : Option SourceConfig :=
  if isSound (depthLimit - outer) v then
    match v with
    | .object entries => do
      match Value.valuesAt "type" entries with
      | [kind] => ofKind? (← kind.asText?) (.object (entries.filter fun e => e.1 != some "type"))
      | _ => none
    | .array (kind :: settings) => do ofKind? (← kind.asText?) (.array settings)
    | _ => none
  else none

end SourceConfig

end SignHash
