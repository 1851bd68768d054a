import SignHash.Proofs.Answers
import SignHash.Source.Handle

/-!
# What open sources answer

Every kind of source answers about the identifier that it is asked for: a descriptor has it, and what
is missing is named by it. So what is reported for an identifier never names another one.
-/

namespace SignHash

/-- The fetch answers about the identifiers that it is asked for. -/
def AnswersFor (fetch : String → Except Error Descriptor) : Prop :=
  ∀ id, (∀ d, fetch id = .ok d → d.id = id) ∧
    ∀ missing, fetch id = .error (.lookup missing) → missing = id

/-! ## Kinds of sources -/

/-- A table fetches under an identifier what was put in under it. -/
theorem Table.answersFor_fetch (t : Table) : AnswersFor t.fetch := by
  intro id
  rw [Table.fetch]
  cases t.get? id with
  | none =>
    refine ⟨fun d h => (by cases h), fun missing h => ?_⟩
    cases h
    rfl
  | some components =>
    refine ⟨fun d h => ?_, fun missing h => (by cases h)⟩
    cases h
    rfl

/-- A file does not say whose it is: the descriptor takes the identifier that is asked for. -/
theorem DescriptorFolder.answersFor_fetch (files : FileTree) (directory : String) :
    AnswersFor (fetch files directory) := by
  intro id
  rw [fetch]
  cases fileName? id with
  | none =>
    refine ⟨fun d h => (by cases h), fun missing h => ?_⟩
    cases h
    rfl
  | some name =>
    dsimp only
    refine ⟨fun d h => ?_, fun missing h => ?_⟩
    · split at h
      iterate 3 cases h
      split at h
      · cases h
        rfl
      · cases h
    · split at h
      · cases h
        rfl
      iterate 2 cases h
      split at h
      iterate 2 cases h

/-- So every kind of open source answers about what it is asked for. -/
theorem Handle.answersFor_fetch (h : Handle) (files : FileTree) :
    AnswersFor (h.source files).fetch := by
  cases h with
  | memory table => exact table.answersFor_fetch
  | document path table => exact table.answersFor_fetch
  | folder directory => exact DescriptorFolder.answersFor_fetch files directory
  | keyspace partition => exact partition.table.answersFor_fetch

/-! ## What is reported -/

/-- The failure that is reported for a share is about the identifier whose fetch fails: it is the one
that is missing, or the failure of the worker names it. -/
theorem FirstFailure.names {fetch : String → Except Error Descriptor} (answers : AnswersFor fetch)
    {ids : List String} {e : Error} (h : FirstFailure fetch ids e) :
    ∃ before id after cause, ids = before ++ id :: after ∧ (∀ x ∈ before, ∃ d, fetch x = .ok d) ∧
      fetch id = .error cause ∧
      (cause = .lookup id ∧ e = .lookup id ∨
        (∀ missing, cause ≠ .lookup missing) ∧ e = .worker (.fetchFailed id cause.message)) := by
  obtain ⟨before, id, after, cause, hids, hbefore, hid, rfl⟩ := h
  refine ⟨before, id, after, cause, hids, hbefore, hid, ?_⟩
  cases cause with
  | lookup missing =>
    obtain rfl : missing = id := (answers id).2 missing hid
    exact .inl ⟨rfl, rfl⟩
  | _ => exact .inr ⟨fun missing h => (by cases h), rfl⟩

end SignHash
