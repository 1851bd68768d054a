import SignHash.Encoder
import SignHash.Extraction.Identifiers
import SignHash.Fit.Basic
import SignHash.Model.File
import SignHash.Training.Config

/-!
# Training

Training resolves identifiers, extracts their descriptors and fits a model to them; nothing is
fitted unless all of them are extracted. A failure says in which stage it arose.
-/

namespace SignHash

universe u v

/-- A stage of training. -/
inductive Stage where
  /-- Getting the descriptors. -/
  | extraction
  /-- Fitting a model to them. -/
  | fitting
  /-- Saving the model. -/
  | persistence
  deriving DecidableEq, Repr

/-- The name of a stage. -/
def Stage.name : Stage → String
  | .extraction => "extraction"
  | .fitting => "fitting"
  | .persistence => "persistence"

/-- Why training ends without a model. -/
inductive TrainingStop where
  /-- A stage failed. -/
  | failure (stage : Stage) (cause : Error)
  /-- The caller broke a promise. -/
  | fault (cause : Fault)
  deriving DecidableEq

/-- The wording of a failure. -/
def Stage.message (stage : Stage) (cause : Error) : String :=
  stage.name ++ " stage failed: " ++ cause.message

/-- A result of a stage as one of training. -/
def inStage {α : Type u} (stage : Stage) : Except Stop α → Except TrainingStop α
  | .ok a => .ok a
  | .error (.error e) => .error (.failure stage e)
  | .error (.fault f) => .error (.fault f)

/-- The corpus to train on. -/
def trainingCorpus (deliver : Delivery) (files : FileTree) (listPath : Option String)
    (source : Source) (o : ExtractionOptions) : Except Error Corpus := do
  extractBy deliver o (← resolveIdentifiers files listPath source)

/-- What a fitter makes of the corpus to train on, with all that it does besides. -/
def trainBy {m : Type u → Type v} [Monad m] {α : Type u} (deliver : Delivery) (files : FileTree)
    (listPath : Option String) (source : Source) (o : ExtractionOptions)
    (fitter : Corpus → m (Except Stop α)) : m (Except TrainingStop α) :=
  match trainingCorpus deliver files listPath source o with
  | .error e => pure (.error (.failure .extraction e))
  | .ok corpus => inStage .fitting <$> fitter corpus

/-- What a fitter makes of the corpus to train on. -/
def train {α : Type} (files : FileTree) (listPath : Option String) (source : Source)
    (o : ExtractionOptions) (program : Program) (fitter : Corpus → Except Stop α) :
    Except TrainingStop α :=
  Id.run (trainBy (fun pool => pool.fetchAll program source) files listPath source o
    fun corpus => pure (fitter corpus))

/-- The model that is fitted to a corpus. -/
def fitModel (p : FitParams) (drawn : Nat) (c : Corpus) : Except Stop (Model Double) :=
  (fit c p drawn).map (·.model)

/-- The encoder of the model that a configuration asks for, and the files after it is saved. The
parameters are looked at before anything else, and the model's file is only written with a model. -/
def trainAndSave (files : FileTree) (c : TrainConfig) (program : Program) (drawn : Nat) :
    Except TrainingStop Encoder × FileTree :=
  match inStage .fitting (orStop c.params.validate) with
  | .error e => (.error e, files)
  | .ok () =>
    let (opened, files) := Handle.ofConfig files c.source
    match inStage .extraction opened with
    | .error e => (.error e, files)
    | .ok handle =>
      match train files c.listPath (handle.source files) c.extraction program
        (fitModel c.params drawn) with
      | .error e => (.error e, files)
      | .ok model =>
        match inStage .persistence (orStop (model.save files c.modelPath)) with
        | .error e => (.error e, files)
        | .ok files => (.ok (Encoder.ofModel model), files)

end SignHash
