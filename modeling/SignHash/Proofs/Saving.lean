import SignHash.Proofs.Corpus
import SignHash.Proofs.Fit
import SignHash.Proofs.Folder
import SignHash.Proofs.Opening
import SignHash.Proofs.Record
import SignHash.Training.Run

/-!
# Training and saving

Training as configured looks at the parameters, opens the source, extracts the corpus, fits the model and
saves it, in this order. `TrainingEnds` lists how it may end, with the stage that a failure says and the
files that are left: until a model is saved, nothing is changed but by opening the source.

What is delivered may be anything, so that it does not matter how a pool's workers take turns. So may what
the fit and the storage of a keyspace come to: they may fail, stop the program, or go on for ever.
-/

namespace SignHash

open FileTree

/-! ## Steps -/

section

variable (deliver : Source → Delivery) {m : Type → Type} [Monad m]
  (fitter : Corpus → m (Except Stop (Model Double)))

/-- Training from what opening a source comes to. -/
def trainFrom (c : TrainConfig) (opened : Except Stop Source) (files : FileTree) :
    m (Except TrainingStop Encoder × FileTree) :=
  match inStage .extraction opened with
  | .error e => pure (.error e, files)
  | .ok source => do
    match ← trainBy (deliver source) files c.listPath source c.extraction fitter with
    | .error e => return (.error e, files)
    | .ok model =>
      match inStage .persistence (orStop (model.save files c.modelPath)) with
      | .error e => return (.error e, files)
      | .ok files => return (.ok (Encoder.ofModel model), files)

/-- `trainAndSave` for any delivery, and for opening and fitting with all that they do besides. -/
def trainAndSaveBy (opening : m (Except Stop Source × FileTree)) (files : FileTree) (c : TrainConfig) :
    m (Except TrainingStop Encoder × FileTree) :=
  match inStage .fitting (orStop c.params.validate) with
  | .error e => pure (.error e, files)
  | .ok () => do
    let (opened, files) ← opening
    trainFrom deliver fitter c opened files

end

section

-- without a result, the fitter or the opening goes on for ever
variable (deliver : Source → Delivery) (fitter : Corpus → Option (Except Stop (Model Double)))
  (opening : Option (Except Stop Source × FileTree))

/-- The parameters can be used, and the source is open. -/
structure Opens (c : TrainConfig) (source : Source) (opened : FileTree) : Prop where
  usable : c.params.validate = .ok ()
  opening : opening = some (.ok source, opened)

/-- The corpus is extracted from the open source. -/
structure Extracts (c : TrainConfig) (source : Source) (opened : FileTree) (corpus : Corpus) : Prop
    extends Opens opening c source opened where
  corpus : trainingCorpus (deliver source) opened c.listPath source c.extraction = .ok corpus

/-- How training ends, and the files that are left. -/
inductive TrainingEnds (files : FileTree) (c : TrainConfig) :
    Except TrainingStop Encoder → FileTree → Prop where
  /-- The parameters cannot be used. -/
  | parameters {e : Error} (unusable : c.params.validate = .error e) :
      TrainingEnds files c (.error (.failure .fitting e)) files
  /-- The source cannot be opened. -/
  | opening {opened : FileTree} {e : Error} (usable : c.params.validate = .ok ())
      (failed : opening = some (.error (.error e), opened)) :
      TrainingEnds files c (.error (.failure .extraction e)) opened
  /-- Opening the source is stopped. -/
  | openingStopped {opened : FileTree} {f : Fault} (usable : c.params.validate = .ok ())
      (stopped : opening = some (.error (.fault f), opened)) :
      TrainingEnds files c (.error (.fault f)) opened
  /-- It is not known which identifiers there are. -/
  | resolving {source : Source} {opened : FileTree} {e : Error} (opens : Opens opening c source opened)
      (failed : resolveIdentifiers opened c.listPath source = .error e) :
      TrainingEnds files c (.error (.failure .extraction e)) opened
  /-- There is no pool. -/
  | pooling {source : Source} {opened : FileTree} {ids : List String} {e : Error}
      (opens : Opens opening c source opened)
      (resolved : resolveIdentifiers opened c.listPath source = .ok ids)
      (failed : Pool.ofOptions c.extraction = .error e) :
      TrainingEnds files c (.error (.failure .extraction e)) opened
  /-- The pool does not deliver the descriptors. -/
  | fetching {source : Source} {opened : FileTree} {ids : List String} {pool : Pool} {e : Error}
      (opens : Opens opening c source opened)
      (resolved : resolveIdentifiers opened c.listPath source = .ok ids)
      (pooled : Pool.ofOptions c.extraction = .ok pool)
      (failed : deliver source pool ids = .error e) :
      TrainingEnds files c (.error (.failure .extraction e)) opened
  /-- The descriptors do not make a corpus. -/
  | assembling {source : Source} {opened : FileTree} {ids : List String} {pool : Pool}
      {ds : List Descriptor} {e : Error} (opens : Opens opening c source opened)
      (resolved : resolveIdentifiers opened c.listPath source = .ok ids)
      (pooled : Pool.ofOptions c.extraction = .ok pool)
      (delivered : deliver source pool ids = .ok ds)
      (failed : Corpus.ofList ds = .error e) :
      TrainingEnds files c (.error (.failure .extraction e)) opened
  /-- The corpus does not determine a model. -/
  | fitting {source : Source} {opened : FileTree} {corpus : Corpus} {e : Error}
      (extracts : Extracts deliver opening c source opened corpus)
      (failed : fitter corpus = some (.error (.error e))) :
      TrainingEnds files c (.error (.failure .fitting e)) opened
  /-- The fit is stopped. -/
  | fittingStopped {source : Source} {opened : FileTree} {corpus : Corpus} {f : Fault}
      (extracts : Extracts deliver opening c source opened corpus)
      (stopped : fitter corpus = some (.error (.fault f))) :
      TrainingEnds files c (.error (.fault f)) opened
  /-- The model cannot be saved. -/
  | saving {source : Source} {opened : FileTree} {corpus : Corpus} {model : Model Double} {e : Error}
      (extracts : Extracts deliver opening c source opened corpus)
      (fitted : fitter corpus = some (.ok model))
      (failed : model.save opened c.modelPath = .error e) :
      TrainingEnds files c (.error (.failure .persistence e)) opened
  /-- The model is saved. -/
  | saved {source : Source} {opened after : FileTree} {corpus : Corpus} {model : Model Double}
      (extracts : Extracts deliver opening c source opened corpus)
      (fitted : fitter corpus = some (.ok model))
      (saved : model.save opened c.modelPath = .ok after) :
      TrainingEnds files c (.ok (Encoder.ofModel model)) after

/-- How training goes on for ever. -/
inductive NeverEnds (c : TrainConfig) : Prop where
  /-- The source is never open. -/
  | opening (usable : c.params.validate = .ok ()) (endless : opening = none)
  /-- The corpus is never fitted. -/
  | fitting {source : Source} {opened : FileTree} {corpus : Corpus}
      (extracts : Extracts deliver opening c source opened corpus) (endless : fitter corpus = none)

end

/-! ## What each step comes to -/

section Steps

variable {deliver : Source → Delivery} {fitter : Corpus → Option (Except Stop (Model Double))}
  {opening : Option (Except Stop Source × FileTree)} {files opened : FileTree} {c : TrainConfig}
  {source : Source} {corpus : Corpus}

theorem trainAndSaveBy_of_unusable {m : Type → Type} [Monad m]
    {fitter : Corpus → m (Except Stop (Model Double))} {opening : m (Except Stop Source × FileTree)}
    {e : Error} (h : c.params.validate = .error e) :
    trainAndSaveBy deliver fitter opening files c = pure (.error (.failure .fitting e), files) := by
  rw [trainAndSaveBy, h]
  rfl

/-- With parameters that can be used, what opening comes to decides. -/
theorem trainAndSaveBy_of_usable {m : Type → Type} [Monad m]
    {fitter : Corpus → m (Except Stop (Model Double))} {opening : m (Except Stop Source × FileTree)}
    (h : c.params.validate = .ok ()) :
    trainAndSaveBy deliver fitter opening files c =
      opening >>= fun o => trainFrom deliver fitter c o.1 o.2 := by
  rw [trainAndSaveBy, h]
  rfl

/-- With an open source, the corpus, the fit and the file decide. -/
theorem trainAndSaveBy_of_opens (h : Opens opening c source opened) :
    trainAndSaveBy deliver fitter opening files c =
      match trainingCorpus (deliver source) opened c.listPath source c.extraction with
      | .error e => some (.error (.failure .extraction e), opened)
      | .ok corpus =>
        match fitter corpus with
        | none => none
        | some (.error (.error e)) => some (.error (.failure .fitting e), opened)
        | some (.error (.fault f)) => some (.error (.fault f), opened)
        | some (.ok model) =>
          match model.save opened c.modelPath with
          | .error e => some (.error (.failure .persistence e), opened)
          | .ok after => some (.ok (Encoder.ofModel model), after) := by
  rw [trainAndSaveBy_of_usable h.usable, h.opening]
  show trainFrom deliver fitter c (.ok source) opened = _
  simp only [trainFrom, inStage, trainBy]
  cases trainingCorpus (deliver source) opened c.listPath source c.extraction with
  | error e => rfl
  | ok corpus =>
    simp only
    cases fitter corpus with
    | none => rfl
    | some fitted =>
      rcases fitted with (e | f) | model
      · rfl
      · rfl
      · show (match inStage .persistence (orStop (model.save opened c.modelPath)) with
          | .error e => _
          | .ok files => _) = _
        cases hsaved : model.save opened c.modelPath with
        | error e =>
          simp only [hsaved]
          rfl
        | ok after =>
          simp only [hsaved]
          rfl

/-- Where extracting the corpus of an open source fails, training ends. -/
theorem trainingEnds_of_trainingCorpus (opens : Opens opening c source opened) {e : Error}
    (failed : trainingCorpus (deliver source) opened c.listPath source c.extraction = .error e) :
    TrainingEnds deliver fitter opening files c (.error (.failure .extraction e)) opened := by
  rw [trainingCorpus] at failed
  cases hids : resolveIdentifiers opened c.listPath source with
  | error cause =>
    rw [hids] at failed
    cases failed
    exact .resolving opens hids
  | ok ids =>
    rw [hids] at failed
    simp only [extractBy, bind, Except.bind] at failed
    cases hpool : Pool.ofOptions c.extraction with
    | error cause =>
      rw [hpool] at failed
      cases failed
      exact .pooling opens hids hpool
    | ok pool =>
      simp only [hpool] at failed
      cases hds : deliver source pool ids with
      | error cause =>
        rw [hds] at failed
        cases failed
        exact .fetching opens hids hpool hds
      | ok ds =>
        rw [hds] at failed
        exact .assembling opens hids hpool hds failed

theorem trainAndSaveBy_of_unextracted (opens : Opens opening c source opened) {ids : List String}
    {e : Error} (resolved : resolveIdentifiers opened c.listPath source = .ok ids)
    (failed : extractBy (deliver source) c.extraction ids = .error e) :
    trainAndSaveBy deliver fitter opening files c =
      some (.error (.failure .extraction e), opened) := by
  have hcorpus : trainingCorpus (deliver source) opened c.listPath source c.extraction =
      .error e := by
    rw [trainingCorpus, resolved]
    exact failed
  rw [trainAndSaveBy_of_opens opens, hcorpus]

/-! ## What training comes to -/

variable {result : Except TrainingStop Encoder} {after : FileTree}

theorem TrainingEnds.eq (h : TrainingEnds deliver fitter opening files c result after) :
    trainAndSaveBy deliver fitter opening files c = some (result, after) := by
  cases h with
  | parameters unusable => exact trainAndSaveBy_of_unusable unusable
  | opening usable failed =>
    rw [trainAndSaveBy_of_usable usable, failed]
    rfl
  | openingStopped usable stopped =>
    rw [trainAndSaveBy_of_usable usable, stopped]
    rfl
  | resolving opens failed =>
    rw [trainAndSaveBy_of_opens opens, trainingCorpus, failed]
    rfl
  | pooling opens resolved failed =>
    refine trainAndSaveBy_of_unextracted opens resolved ?_
    rw [extractBy, failed]
    rfl
  | fetching opens resolved pooled failed =>
    refine trainAndSaveBy_of_unextracted opens resolved ?_
    rw [extractBy, pooled]
    simp only [bind, Except.bind, failed]
  | assembling opens resolved pooled delivered failed =>
    refine trainAndSaveBy_of_unextracted opens resolved ?_
    rw [extractBy, pooled]
    simp only [bind, Except.bind, delivered, failed]
  | fitting extracts failed =>
    rw [trainAndSaveBy_of_opens extracts.toOpens, extracts.corpus]
    simp only [failed]
  | fittingStopped extracts stopped =>
    rw [trainAndSaveBy_of_opens extracts.toOpens, extracts.corpus]
    simp only [stopped]
  | saving extracts fitted failed =>
    rw [trainAndSaveBy_of_opens extracts.toOpens, extracts.corpus]
    simp only [fitted, failed]
  | saved extracts fitted saved =>
    rw [trainAndSaveBy_of_opens extracts.toOpens, extracts.corpus]
    simp only [fitted, saved]

theorem NeverEnds.eq (h : NeverEnds deliver fitter opening c) :
    trainAndSaveBy deliver fitter opening files c = none := by
  cases h with
  | opening usable endless =>
    rw [trainAndSaveBy_of_usable usable, endless]
    rfl
  | fitting extracts endless =>
    rw [trainAndSaveBy_of_opens extracts.toOpens, extracts.corpus]
    simp only [endless]

/-- There is no other way for training to end, or not to. -/
theorem exists_trainingEnds_or_neverEnds (deliver : Source → Delivery)
    (fitter : Corpus → Option (Except Stop (Model Double)))
    (opening : Option (Except Stop Source × FileTree)) (files : FileTree) (c : TrainConfig) :
    (∃ result after, TrainingEnds deliver fitter opening files c result after) ∨
      NeverEnds deliver fitter opening c := by
  cases husable : c.params.validate with
  | error e => exact .inl ⟨_, _, .parameters husable⟩
  | ok _ =>
    rcases hopening : opening with _ | ⟨(e | f) | source, opened⟩
    · exact .inr (.opening husable rfl)
    · exact .inl ⟨_, _, .opening husable rfl⟩
    · exact .inl ⟨_, _, .openingStopped husable rfl⟩
    · have opens : Opens (some (.ok source, opened)) c source opened := ⟨husable, rfl⟩
      cases hcorpus : trainingCorpus (deliver source) opened c.listPath source c.extraction with
      | error e => exact .inl ⟨_, _, trainingEnds_of_trainingCorpus opens hcorpus⟩
      | ok corpus =>
        have extracts : Extracts deliver (some (.ok source, opened)) c source opened corpus :=
          ⟨opens, hcorpus⟩
        rcases hfit : fitter corpus with _ | (e | f) | model
        · exact .inr (.fitting extracts hfit)
        · exact .inl ⟨_, _, .fitting extracts hfit⟩
        · exact .inl ⟨_, _, .fittingStopped extracts hfit⟩
        · cases hsaved : model.save opened c.modelPath with
          | error e => exact .inl ⟨_, _, .saving extracts hfit hsaved⟩
          | ok after => exact .inl ⟨_, _, .saved extracts hfit hsaved⟩

theorem trainAndSaveBy_eq_some_iff :
    trainAndSaveBy deliver fitter opening files c = some (result, after) ↔
      TrainingEnds deliver fitter opening files c result after := by
  refine ⟨fun h => ?_, TrainingEnds.eq⟩
  rcases exists_trainingEnds_or_neverEnds deliver fitter opening files c with
    ⟨_, _, hends⟩ | hnever
  · cases h.symm.trans hends.eq
    exact hends
  · cases h.symm.trans hnever.eq

theorem trainAndSaveBy_eq_none_iff :
    trainAndSaveBy deliver fitter opening files c = none ↔ NeverEnds deliver fitter opening c := by
  refine ⟨fun h => ?_, NeverEnds.eq⟩
  rcases exists_trainingEnds_or_neverEnds deliver fitter opening files c with
    ⟨_, _, hends⟩ | hnever
  · cases h.symm.trans hends.eq
  · exact hnever

/-- Unless a model is saved, training leaves the files that it found or those that opening left. -/
theorem TrainingEnds.files_eq {stop : TrainingStop}
    (h : TrainingEnds deliver fitter opening files c (.error stop) after) :
    after = files ∨ ∃ opened, opening = some (opened, after) := by
  cases h with
  | parameters => exact .inl rfl
  | opening _ failed => exact .inr ⟨_, failed⟩
  | openingStopped _ stopped => exact .inr ⟨_, stopped⟩
  | resolving opens => exact .inr ⟨_, opens.opening⟩
  | pooling opens => exact .inr ⟨_, opens.opening⟩
  | fetching opens => exact .inr ⟨_, opens.opening⟩
  | assembling opens => exact .inr ⟨_, opens.opening⟩
  | fitting extracts => exact .inr ⟨_, extracts.opening⟩
  | fittingStopped extracts => exact .inr ⟨_, extracts.opening⟩
  | saving extracts => exact .inr ⟨_, extracts.opening⟩

/-- So what is not the storage's own is what it was, and without a keyspace everything is. -/
theorem TrainingEnds.frame {own : Place → Prop} {stop : TrainingStop}
    (opens : ∀ o, opening = some o → MayOpen own files c.source o)
    (h : TrainingEnds deliver fitter opening files c (.error stop) after) :
    KeepsOthers own files after ∧ (¬c.source.IsKeyspace → after = files) := by
  rcases h.files_eq with rfl | ⟨opened, hopening⟩
  · exact ⟨.refl _, fun _ => rfl⟩
  · have hopens := opens _ hopening
    exact ⟨hopens.others, hopens.snd_eq⟩

/-- A model that is saved is one file more than opening leaves, or another content of one. -/
theorem TrainingEnds.exists_put {e : Encoder}
    (h : TrainingEnds deliver fitter opening files c (.ok e) after) :
    ∃ source opened place, opening = some (.ok source, opened) ∧
      after = opened.put place (.file e.model.toBytes) ∧ after.placeOf c.modelPath = .ok place := by
  cases h with
  | @saved source opened _ corpus model extracts fitted saved =>
    rw [Model.save] at saved
    cases hwritten : opened.writeFile c.modelPath model.toBytes with
    | error issue =>
      rw [hwritten] at saved
      cases saved
    | ok written =>
      rw [hwritten] at saved
      obtain rfl := Except.ok.inj saved
      obtain ⟨place, hput, hplace⟩ := exists_placeOf_of_writeFile hwritten
      exact ⟨source, opened, place, extracts.opening, hput, hplace⟩

theorem load_of_placeOf {path : String} {place : Place} {m : Model Double}
    (hplace : after.placeOf path = .ok place) (hfile : after.get? place = some (.file m.toBytes))
    (consistent : m.issue? = none) (fits : m.Fits) : Model.load after path = .ok m := by
  have hcontent : after.contentAt path = .ok m.toBytes :=
    contentAt_eq_ok_iff.mpr (open?_eq_ok_iff.mpr ⟨place, hplace, hfile⟩)
  rw [Model.load, hcontent]
  exact Model.ofBytes_toBytes consistent fits

/-- Training is only stopped as a keyspace is opened, or by the fit of the corpus that it extracts. -/
theorem TrainingEnds.fault_cases {own : Place → Prop} {f : Fault}
    (opens : ∀ o, opening = some o → MayOpen own files c.source o)
    (h : TrainingEnds deliver fitter opening files c (.error (.fault f)) after) :
    c.source.IsKeyspace ∧ opening = some (.error (.fault f), after) ∨
      ∃ source corpus, Extracts deliver opening c source after corpus ∧
        fitter corpus = some (.error (.fault f)) := by
  cases h with
  | openingStopped _ stopped => exact .inl ⟨(opens _ stopped).isKeyspace_of_fault rfl, stopped⟩
  | fittingStopped extracts stopped => exact .inr ⟨_, _, extracts, stopped⟩

/-- All that training does before it opens the source is to look at the parameters. -/
theorem trainAndSaveBy_note {m : Type → Type} [Monad m] [LawfulMonad m] (note : m PUnit)
    (fitter : Corpus → m (Except Stop (Model Double))) (opening : m (Except Stop Source × FileTree)) :
    trainAndSaveBy deliver fitter (do note; opening) files c =
      (do if c.params.issue? = none then note
          trainAndSaveBy deliver fitter opening files c) := by
  cases husable : c.params.validate with
  | error e =>
    have hissue : ¬c.params.issue? = none := by
      rw [← FitParams.validate_eq_ok_iff, husable]
      exact nofun
    simp [trainAndSaveBy_of_unusable husable, hissue]
  | ok _ =>
    have hissue := FitParams.validate_eq_ok_iff.mp husable
    simp [trainAndSaveBy_of_usable husable, hissue]

end Steps

/-! ## Training as configured -/

/-- `trainAndSave` is one case of this, which always ends. -/
theorem trainAndSave_eq (files : FileTree) (c : TrainConfig) (program : Program) (drawn : Nat) :
    some (trainAndSave files c program drawn) =
      trainAndSaveBy (fun source pool => pool.fetchAll program source)
        (fun corpus => some (fitModel c.params drawn corpus)) (some (openedSource files c.source))
        files c := by
  rw [trainAndSave]
  rcases husable : c.params.validate with e | ⟨⟩
  · rw [trainAndSaveBy_of_unusable husable]
    rfl
  · rw [trainAndSaveBy_of_usable husable, openedSource]
    rcases Handle.ofConfig files c.source with ⟨(e | f) | handle, opened⟩
    · rfl
    · rfl
    · simp only [orStop, inStage, Except.map, Option.bind_eq_bind, Option.bind_some, trainFrom, train,
        trainBy]
      cases trainingCorpus (fun pool => pool.fetchAll program (handle.source opened)) opened c.listPath
          (handle.source opened) c.extraction with
      | error e => rfl
      | ok corpus =>
        show some (match inStage .fitting (fitModel c.params drawn corpus) with
          | .error e => _
          | .ok model => _) =
            (some (inStage .fitting (fitModel c.params drawn corpus))).bind _
        rcases fitModel c.params drawn corpus with (e | f) | model
        · rfl
        · rfl
        · simp only [inStage, Option.bind_some]
          cases model.save opened c.modelPath <;> rfl

/-- Training as configured, for any configuration and files, however descriptors are delivered, whatever
comes of the fit and whatever the storage of a keyspace does with places of its own.

The source is opened once if the parameters can be used, and not at all otherwise. Training ends in one
of the ways that are listed, each with its stage, or goes on for ever as the storage or the fit does. Unless
it ends with an encoder, without a keyspace nothing at all is changed, and with one the file at the path of
the model is what it was; it is only stopped without a stage as a keyspace is opened, or by the fit of the
corpus that was extracted. If it ends with an encoder, its model is in the file at the path of the model,
and is loaded from it if its parts fit together, and without a keyspace that one file is all that is
changed. -/
theorem training_changes_files_by_saving (files : FileTree) (c : TrainConfig)
    (deliver : Source → Delivery) (fitter : Corpus → Option (Except Stop (Model Double)))
    (opening : Option (Except Stop Source × FileTree)) (own : Place → Prop)
    (opens : ∀ o, opening = some o → MayOpen own files c.source o) :
    (∀ program drawn, some (trainAndSave files c program drawn) =
      trainAndSaveBy (fun source pool => pool.fetchAll program source)
        (fun corpus => some (fitModel c.params drawn corpus)) (some (openedSource files c.source))
        files c) ∧
    MayOpen own files c.source (openedSource files c.source) ∧
    (∀ {m : Type → Type} [Monad m] [LawfulMonad m] (note : m PUnit)
      (fitter : Corpus → m (Except Stop (Model Double))) (opening : m (Except Stop Source × FileTree)),
      trainAndSaveBy deliver fitter (do note; opening) files c =
        (do if c.params.issue? = none then note
            trainAndSaveBy deliver fitter opening files c)) ∧
    (∀ result after, trainAndSaveBy deliver fitter opening files c = some (result, after) ↔
      TrainingEnds deliver fitter opening files c result after) ∧
    (trainAndSaveBy deliver fitter opening files c = none ↔ NeverEnds deliver fitter opening c) ∧
    (∀ stop after, trainAndSaveBy deliver fitter opening files c = some (.error stop, after) →
      (¬c.source.IsKeyspace → after = files) ∧
      ((∀ place ∈ wayTo c.modelPath, ¬own place) →
        (∀ place, files.placeOf c.modelPath = .ok place → ∀ content,
          after.get? place = some (.file content) ↔ files.get? place = some (.file content)) ∧
        ∀ content, files.contentAt c.modelPath = .ok content →
          after.contentAt c.modelPath = .ok content)) ∧
    (∀ f after, trainAndSaveBy deliver fitter opening files c = some (.error (.fault f), after) →
      c.source.IsKeyspace ∧ opening = some (.error (.fault f), after) ∨
        ∃ source corpus, Extracts deliver opening c source after corpus ∧
          fitter corpus = some (.error (.fault f))) ∧
    ∀ e after, trainAndSaveBy deliver fitter opening files c = some (.ok e, after) →
      ∃ place, after.placeOf c.modelPath = .ok place ∧
        after.get? place = some (.file e.model.toBytes) ∧
        (¬c.source.IsKeyspace → ∀ other ≠ place, after.get? other = files.get? other) ∧
        (e.model.issue? = none → e.model.Fits → Model.load after c.modelPath = .ok e.model) := by
  refine ⟨trainAndSave_eq files c, mayOpen_openedSource own files c.source, trainAndSaveBy_note,
    fun result after => trainAndSaveBy_eq_some_iff, trainAndSaveBy_eq_none_iff, fun stop after h => ?_,
    fun f after h => (trainAndSaveBy_eq_some_iff.mp h).fault_cases opens, fun e after h => ?_⟩
  · obtain ⟨hkept, hsame⟩ := (trainAndSaveBy_eq_some_iff.mp h).frame opens
    exact ⟨hsame, fun clear => ⟨fun place hplace => hkept.file_iff_of_placeOf clear hplace,
      fun content hcontent => hkept.contentAt clear hcontent⟩⟩
  · obtain ⟨source, opened, place, hopening, rfl, hplace⟩ :=
      (trainAndSaveBy_eq_some_iff.mp h).exists_put
    have hfile := get?_put opened place (.file e.model.toBytes)
    have hmodel := (hfile place).trans (if_pos rfl)
    refine ⟨place, hplace, hmodel, fun hplain other hother => ?_, load_of_placeOf hplace hmodel⟩
    rw [hfile other, if_neg hother, ← (opens _ hopening).snd_eq hplain]

/-- Two opposite descriptors: with a list of both a model is saved, and without the list nothing is
changed. -/
theorem training_changes_files_by_saving_of_opposite :
    let files : FileTree := ⟨[([[100]], .folder none),
      ([[100], DescriptorFolder.nameOf "a"], .file (DescriptorFolder.fileContent [1])),
      ([[100], DescriptorFolder.nameOf "b"], .file (DescriptorFolder.fileContent [-1])),
      ([[108]], .file (Utf8.encode "a\nb")), ([[109]], .file [0])]⟩
    let c : TrainConfig := ⟨⟨1, 5, some 7, false, 0⟩, some "l", .files "d", ⟨2, false⟩, "m"⟩
    (∃ e after, trainAndSave files c (workerProgram files) 0 = (.ok e, after) ∧
      Model.load after "m" = .ok e.model) ∧
    ∃ e after, trainAndSave files { c with listPath := some "k" } (workerProgram files) 0 =
      (.error (.failure .extraction e), after) ∧ after = files := by
  intro files c
  let deliver : Source → Delivery := fun source pool => pool.fetchAll (workerProgram files) source
  let fitter : Corpus → Option (Except Stop (Model Double)) :=
    fun corpus => some (fitModel c.params 0 corpus)
  let opening := some (openedSource files c.source)
  let source := (Handle.folder "d").source files
  have husable : c.params.validate = .ok () := by decide +kernel
  have hopens : ∀ list, Opens opening { c with listPath := list } source files :=
    fun list => ⟨husable, rfl⟩
  have hmay : ∀ o, opening = some o → MayOpen (fun _ => False) files c.source o := by
    intro o ho
    obtain rfl := Option.some.inj ho
    exact mayOpen_openedSource _ files c.source
  constructor
  · let ds : List Descriptor := [⟨"a", [1]⟩, ⟨"b", [-1]⟩]
    let corpus : Corpus := ⟨ds, 1, by decide⟩
    have hfetch : ["a", "b"].mapM (DescriptorFolder.fetch files "d") = .ok ds := by
      have ha : DescriptorFolder.fetch files "d" "a" = .ok ⟨"a", [1]⟩ :=
        DescriptorFolder.fetch_of_open? (by decide) (by decide) (by decide +kernel)
      have hb : DescriptorFolder.fetch files "d" "b" = .ok ⟨"b", [-1]⟩ :=
        DescriptorFolder.fetch_of_open? (by decide) (by decide) (by decide +kernel)
      rw [List.mapM_cons, ha, List.mapM_cons, hb]
      rfl
    have hcorpus : Corpus.ofList ds = .ok corpus :=
      Corpus.ofList_eq_ok_iff.mpr ⟨⟨1, by decide⟩, Corpus.eq_of_pairwise_order
        (List.mergeSort_perm _ _).symm (by decide) (Corpus.pairwise_sorted ds), rfl⟩
    have hextracts : Extracts deliver opening c source files corpus := by
      refine ⟨hopens (some "l"), ?_⟩
      show (["a", "b"].mapM (DescriptorFolder.fetch files "d") >>= Corpus.ofList) = _
      rw [hfetch]
      exact hcorpus
    have hsound : (fit corpus c.params 0).toOption.map (·.model.issue?.isNone) = some true := by
      decide +kernel
    obtain ⟨f, hfit, hissue⟩ : ∃ f, fit corpus c.params 0 = .ok f ∧ f.model.issue? = none := by
      cases hfit : fit corpus c.params 0 with
      | error stop =>
        rw [hfit] at hsound
        cases hsound
      | ok f =>
        rw [hfit] at hsound
        exact ⟨f, rfl, Option.isNone_iff_eq_none.mp (Option.some.inj hsound)⟩
    have hfits : f.model.Fits := by
      obtain ⟨hdimension, hbits, -⟩ := shape_of_fit hfit
      rw [Model.Fits, hdimension, hbits]
      decide
    have hfitted : fitter corpus = some (.ok f.model) := by
      show some ((fit corpus c.params 0).map (·.model)) = _
      rw [hfit]
      rfl
    have hends : TrainingEnds deliver fitter opening files c (.ok (Encoder.ofModel f.model)) _ :=
      .saved hextracts hfitted rfl
    obtain ⟨htrain, -, -, hiff, -, -, -, hsaved⟩ :=
      training_changes_files_by_saving files c deliver fitter opening _ hmay
    have hresult := (hiff _ _).mpr hends
    obtain ⟨place, -, -, -, hload⟩ := hsaved _ _ hresult
    exact ⟨_, _, Option.some.inj ((htrain _ _).trans hresult), hload hissue hfits⟩
  · obtain ⟨htrain, -, -, hiff, -, hframe, -⟩ := training_changes_files_by_saving files
      { c with listPath := some "k" } deliver fitter opening _ hmay
    have hresult := (hiff _ _).mpr (.resolving (hopens (some "k")) rfl)
    exact ⟨_, _, Option.some.inj ((htrain _ _).trans hresult), (hframe _ _ hresult).1 nofun⟩

/-- A name that no partition can have stops training instead of failing it, although the configuration is
one that can be used. -/
theorem training_stops_over_partition_name :
    ¬∀ (files : FileTree) (c : TrainConfig) (program : Program) (drawn : Nat), c.validate = .ok () →
      (∀ handle opened, Handle.ofConfig files c.source ≠ (.ok handle, opened)) →
        ∃ e after, trainAndSave files c program drawn = (.error (.failure .extraction e), after) := by
  intro h
  let c : TrainConfig := ⟨⟨1, 5, some 3, false, 0⟩, none, .keyspace "kv" "bad name", ⟨1, false⟩, "m"⟩
  have husable : c.params.validate = .ok () := by decide +kernel
  obtain ⟨opened, hsource⟩ : ∃ opened,
      Handle.ofConfig .empty c.source = (.error (.fault .partitionName), opened) := by
    refine ⟨_, Prod.ext ?_ rfl⟩
    decide +kernel
  have hunopened : ∀ handle after, Handle.ofConfig .empty c.source ≠ (.ok handle, after) := by
    intro handle after
    rw [hsource]
    exact nofun
  obtain ⟨e, after, hfails⟩ := h .empty c (workerProgram .empty) 0 (by decide +kernel) hunopened
  have hopening : openedSource .empty c.source = (.error (.fault .partitionName), opened) := by
    rw [openedSource, hsource]
    rfl
  have hstops := trainAndSave_eq .empty c (workerProgram .empty) 0
  rw [(TrainingEnds.openingStopped husable (congrArg some hopening)).eq, hfails] at hstops
  cases hstops

end SignHash
