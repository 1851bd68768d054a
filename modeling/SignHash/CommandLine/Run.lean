import SignHash.CommandLine.Arguments
import SignHash.Training.Run

/-!
# Running commands

A command turns the files, and what comes in, into an exit status, what goes out, and the files
afterwards. Wrong arguments are status two, failures status one, and a broken promise is the status
of a program that is stopped.
-/

namespace SignHash.CommandLine

/-- How a command ends. -/
structure Result where
  /-- The exit status. -/
  status : Nat
  /-- What is written to the standard output. -/
  output : Bytes
  /-- The files afterwards. -/
  files : FileTree

/-- The status of success. -/
def succeeded : Nat := 0

/-- The status of a failure. -/
def failed : Nat := 1

/-- The status of wrong arguments. -/
def misused : Nat := 2

/-- The status of a program that is stopped. -/
def stopped : Nat := 101

/-- The status of a computation that ends without a result. -/
def statusOf : Stop → Nat
  | .error _ => failed
  | .fault _ => stopped

/-! ## Hashing -/

/-- How many descriptors are hashed at a time. -/
def chunkSize : Nat := 1000

/-- The lines of descriptors with their codes. -/
def hashLines (ds : List Descriptor) (codes : List Code) : Bytes :=
  (ds.zip codes).flatMap fun (d, code) =>
    Utf8.encode d.id ++ [9] ++ Utf8.encode code.toHex ++ [10]

/-- The lines of the descriptors of identifiers. -/
def hashChunk (e : Encoder) (fetch : String → Except Error Descriptor) (ids : List String) :
    Except Error Bytes := do
  let ds ← ids.mapM fetch
  return hashLines ds (← e.encodeAll ds)

/-- The lines of chunks up to the first that fails, and whether none does. -/
def hashChunks (e : Encoder) (fetch : String → Except Error Descriptor) :
    List (List String) → Bytes × Bool
  | [] => ([], true)
  | ids :: rest =>
    match hashChunk e fetch ids with
    | .error _ => ([], false)
    | .ok lines =>
      let (more, complete) := hashChunks e fetch rest
      (lines ++ more, complete)

/-- The lines of the descriptors of identifiers, by chunks, and whether they are complete. -/
def hashAll (e : Encoder) (fetch : String → Except Error Descriptor) (ids : List String) :
    Bytes × Bool :=
  hashChunks e fetch (chunks chunkSize ids.length ids)

/-- The configuration of the source in the file at a path. -/
def loadSourceConfig? (files : FileTree) (path : String) : Option SourceConfig := do
  let content ← (files.contentAt path).toOption
  let value ← Json.Value.ofString? (← Utf8.decode? content)
  SourceConfig.ofJson? 0 value

/-! ## Commands -/

/-- Training, as the file at a path says. -/
def runTrain (files : FileTree) (drawn : Nat) (path : String) (seed workers : Option Nat) :
    Result :=
  match TrainConfig.load files path with
  | .error _ => ⟨failed, [], files⟩
  | .ok config =>
    let config := { config with
      params := { config.params with seed := seed.or config.params.seed }
      extraction :=
        { config.extraction with workers := workers.getD config.extraction.workers } }
    match config.validate with
    | .error _ => ⟨failed, [], files⟩
    | .ok () =>
      match trainAndSave files config (workerProgram files) drawn with
      | (.ok _, files) => ⟨succeeded, [], files⟩
      | (.error (.failure _ _), files) => ⟨failed, [], files⟩
      | (.error (.fault _), files) => ⟨stopped, [], files⟩

/-- The configuration that holds if nothing is said. -/
def runDefaultConfig (files : FileTree) (output : Option String) : Result :=
  let content := Utf8.encode (TrainConfig.default.pretty ++ "\n")
  match output with
  | none => ⟨succeeded, content, files⟩
  | some path =>
    match files.writeFile path content with
    | .ok files => ⟨succeeded, [], files⟩
    | .error _ => ⟨failed, [], files⟩

/-- The codes of the descriptors of an open source. -/
def runHashWith (files : FileTree) (m : Model Double) (source : Source) (list : Option String) :
    Result :=
  match resolveIdentifiers files list source with
  | .error _ => ⟨failed, [], files⟩
  | .ok ids =>
    let (output, complete) := hashAll (Encoder.ofModel m) source.fetch ids
    ⟨if complete then succeeded else failed, output, files⟩

/-- The codes of descriptors. -/
def runHash (files : FileTree) (model source : String) (list : Option String) : Result :=
  match Model.load files model with
  | .error _ => ⟨failed, [], files⟩
  | .ok m =>
    match loadSourceConfig? files source with
    | none => ⟨failed, [], files⟩
    | some config =>
      match Handle.ofConfig files config with
      | (.error stop, files) => ⟨statusOf stop, [], files⟩
      | (.ok handle, files) => runHashWith files m (handle.source files) list

/-- The service of a source. -/
def runFetchWorker (files : FileTree) (input : Bytes) (source : String) : Result :=
  match (Json.Value.ofString? source).bind (SourceConfig.ofJson? 0) with
  | none => ⟨failed, [], files⟩
  | some config =>
    match Handle.ofConfig files config with
    | (.error stop, files) => ⟨statusOf stop, [], files⟩
    | (.ok handle, files) =>
      let (output, ending) := serve (handle.source files).fetch input
      ⟨if ending.isOk then succeeded else failed, output, files⟩

/-- The command that arguments give, run on files and an input; `drawn` is the seed of a training
without one. -/
def run (files : FileTree) (input : Bytes) (drawn : Nat) (arguments : List String) : Result :=
  match parse? arguments with
  | none => ⟨misused, [], files⟩
  | some (.train config seed workers) => runTrain files drawn config seed workers
  | some (.defaultConfig output) => runDefaultConfig files output
  | some (.hash model source ids) => runHash files model source ids
  | some (.fetchWorker source) => runFetchWorker files input source

end SignHash.CommandLine
