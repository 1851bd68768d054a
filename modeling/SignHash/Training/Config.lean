import SignHash.Extraction.Pool
import SignHash.Fit.Params
import SignHash.Json.Reader
import SignHash.Json.Writer
import SignHash.Store.FileTree

/-!
# Training configurations

Everything that is needed to train a model and save it: how it is fitted, to which descriptors, how
they are fetched, and where the model goes. In JSON only the number of bits has to be given.
-/

namespace SignHash

/-- What to train, and where to put it. -/
structure TrainConfig where
  /-- How the model is fitted. -/
  params : FitParams
  /-- A list of the identifiers to train on; without one, all of the source. -/
  listPath : Option String
  /-- Where the descriptors are. -/
  source : SourceConfig
  /-- How they are fetched. -/
  extraction : ExtractionOptions
  /-- Where the model goes. -/
  modelPath : String
  deriving DecidableEq

open Json

namespace ExtractionOptions

/-- Two workers, in processes, if nothing is said. -/
def default : ExtractionOptions := ⟨2, true⟩

/-- Options as a record. -/
def toJson (o : ExtractionOptions) : Document :=
  .object [("worker_count", .integer o.workers), ("use_process_workers", .bool o.useProcesses)]

/-- The options that a record describes. -/
def ofJson? (v : Value) : Option ExtractionOptions := do
  match ← v.asFields? ["worker_count", "use_process_workers"] with
  | [workers, useProcesses] =>
    return ⟨← Value.optional default.workers Value.asWord? workers,
      ← Value.optional default.useProcesses Value.asBool? useProcesses⟩
  | _ => none

end ExtractionOptions

namespace TrainConfig

/-- The number of bits if nothing is said. -/
def defaultBitLength : Nat := 256

/-- Where the model goes if nothing is said. -/
def defaultModelPath : String := "itq.model"

/-- The configuration if nothing is said. -/
def default : TrainConfig :=
  ⟨FitParams.ofBitLength defaultBitLength, none, SourceConfig.default, ExtractionOptions.default,
    defaultModelPath⟩

/-- A configuration as a record. -/
def toJson (c : TrainConfig) : Document :=
  .object
    [("itq", c.params.toJson),
      ("identifier_list_path", match c.listPath with | some path => .string path | none => .null),
      ("descriptor_source", c.source.toJson), ("parallel", c.extraction.toJson),
      ("model_path", .string c.modelPath)]

/-- The configuration that a record describes, whether or not it can be used. -/
def ofJson? (v : Value) : Option TrainConfig := do
  match ← v.asFields?
    ["itq", "identifier_list_path", "descriptor_source", "parallel", "model_path"] with
  | [params, listPath, source, extraction, modelPath] =>
    return {
      params := ← Value.required FitParams.ofJson? params
      listPath := ← Value.optional none (·.asOption? Value.asText?) listPath
      source := ← Value.optional SourceConfig.default (SourceConfig.ofJson? 1) source
      extraction :=
        ← Value.optional ExtractionOptions.default ExtractionOptions.ofJson? extraction
      modelPath := ← Value.optional defaultModelPath Value.asText? modelPath }
  | _ => none

/-- The first issue with a configuration, if there is one. -/
def issue? (c : TrainConfig) : Option ConfigurationIssue :=
  match c.params.issue? with
  | some issue => some issue
  | none => if c.extraction.workers = 0 then some .noWorkersSet else none

/-- Configurations that can be used. -/
def validate (c : TrainConfig) : Except Error Unit :=
  match c.issue? with
  | some issue => .error (.configuration issue)
  | none => .ok ()

/-- The usable configuration that a text describes. -/
def parse (text : String) : Except Error TrainConfig :=
  match (Value.ofString? text).bind ofJson? with
  | none => .error (.configuration .malformed)
  | some c => c.validate.map fun _ => c

/-- A configuration as a text with an entry on each line. -/
def pretty (c : TrainConfig) : String := c.toJson.pretty

/-- The usable configuration in the file at a path. -/
def load (files : FileTree) (path : String) : Except Error TrainConfig :=
  match (files.contentAt path).toOption.bind Utf8.decode? with
  | none => .error (.configuration (.unreadable path))
  | some text => parse text

end TrainConfig

end SignHash
