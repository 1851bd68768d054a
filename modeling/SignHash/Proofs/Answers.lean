import SignHash.Proofs.Requests

/-!
# Answers of a worker

`answers` are the replies that a worker gives for identifiers: one for each, up to the first that is
not a descriptor. Its requests in lines, and its replies in bytes, come to the same.
-/

namespace SignHash

/-- The replies to identifiers, up to the first that is not a descriptor. -/
def answers (fetch : String → Except Error Descriptor) : List String → List Reply
  | [] => []
  | id :: ids =>
    if (replyTo fetch id).isFetched then replyTo fetch id :: answers fetch ids
    else [replyTo fetch id]

/-- What is reported for an identifier whose fetch fails: what is missing keeps its own failure, and
all others name the identifier. -/
def reported (id : String) : Error → Error
  | .lookup missing => .lookup missing
  | cause => .worker (.fetchFailed id cause.message)

/-- The failure is what is reported for the first of the identifiers whose fetch fails. -/
def FirstFailure (fetch : String → Except Error Descriptor) (ids : List String) (e : Error) : Prop :=
  ∃ before id after cause, ids = before ++ id :: after ∧ (∀ x ∈ before, ∃ d, fetch x = .ok d) ∧
    fetch id = .error cause ∧ e = reported id cause

variable {fetch : String → Except Error Descriptor}

/-! ## Single replies -/

theorem replyTo_ok {id : String} {d : Descriptor} (h : fetch id = .ok d) :
    replyTo fetch id = .fetched d := by rw [replyTo, h]

/-- A source names what it does not find, and that name is in the reply. -/
theorem replyTo_lookup {id missing : String} (h : fetch id = .error (.lookup missing)) :
    replyTo fetch id = .missing missing := by rw [replyTo, h]

/-- Of any other failure only the message is sent. -/
theorem replyTo_error {id : String} {cause : Error} (h : fetch id = .error cause)
    (other : ∀ missing, cause ≠ .lookup missing) :
    replyTo fetch id = .failed id cause.message := by
  rw [replyTo, h]
  cases cause with
  | lookup missing => exact absurd rfl (other missing)
  | _ => rfl

theorem isFetched_replyTo {id : String} {d : Descriptor} (h : fetch id = .ok d) :
    (replyTo fetch id).isFetched = true := by rw [replyTo_ok h]; rfl

theorem result_replyTo_ok {id : String} {d : Descriptor} (h : fetch id = .ok d) :
    (replyTo fetch id).result = .ok d := by rw [replyTo_ok h]; rfl

theorem isFetched_replyTo_error {id : String} {cause : Error} (h : fetch id = .error cause) :
    (replyTo fetch id).isFetched = false := by
  rw [replyTo, h]
  cases cause <;> rfl

/-- So the parent learns of a failure what is reported of it, not its cause. -/
theorem result_replyTo_error {id : String} {cause : Error} (h : fetch id = .error cause) :
    (replyTo fetch id).result = .error (reported id cause) := by
  rw [replyTo, h]
  cases cause <;> rfl

/-- A reply with a descriptor says what the source says. -/
theorem result_replyTo {id : String} (h : (replyTo fetch id).isFetched = true) :
    (replyTo fetch id).result = fetch id := by
  cases hfetch : fetch id with
  | ok d => exact result_replyTo_ok hfetch
  | error cause => rw [isFetched_replyTo_error hfetch] at h; cases h

/-- The result of a descriptor is no failure, and that of every other reply is one. -/
theorem exists_result_ok_iff (r : Reply) : (∃ d, r.result = .ok d) ↔ r.isFetched = true := by
  cases r <;> simp [Reply.result, Reply.isFetched]

/-! ## All answers -/

theorem exists_replyTo_of_mem_answers {ids : List String} {r : Reply} (hr : r ∈ answers fetch ids) :
    ∃ id ∈ ids, r = replyTo fetch id := by
  induction ids with
  | nil => cases hr
  | cons id ids ih =>
    rw [answers] at hr
    split at hr
    · rcases List.mem_cons.mp hr with rfl | hr
      · exact ⟨id, List.mem_cons_self, rfl⟩
      · obtain ⟨x, hx, rfl⟩ := ih hr
        exact ⟨x, List.mem_cons_of_mem _ hx, rfl⟩
    · exact ⟨id, List.mem_cons_self, List.mem_singleton.mp hr⟩

theorem length_answers_le (ids : List String) : (answers fetch ids).length ≤ ids.length := by
  induction ids with
  | nil => exact Nat.le_refl 0
  | cons id ids ih =>
    rw [answers]
    split
    · simpa using ih
    · simp

/-- Nothing is left out of the answers if all of them are descriptors. -/
theorem answers_eq_map {ids : List String} (h : ∀ r ∈ answers fetch ids, r.isFetched = true) :
    answers fetch ids = ids.map (replyTo fetch) := by
  induction ids with
  | nil => rfl
  | cons id ids ih =>
    rw [answers] at h ⊢
    by_cases hid : (replyTo fetch id).isFetched = true
    · rw [if_pos hid] at h ⊢
      rw [ih (fun r hr => h r (List.mem_cons_of_mem _ hr)), List.map_cons]
    · rw [if_neg hid] at h
      exact absurd (h _ List.mem_cons_self) hid

/-- Since nothing is answered after a failure, one among the answers is the first. -/
theorem firstFailure_of_mem_answers {ids : List String} {r : Reply} (hr : r ∈ answers fetch ids)
    {e : Error} (he : r.result = .error e) : FirstFailure fetch ids e := by
  induction ids with
  | nil => cases hr
  | cons id ids ih =>
    rw [answers] at hr
    cases hfetch : fetch id with
    | ok d =>
      rw [if_pos (isFetched_replyTo hfetch)] at hr
      rcases List.mem_cons.mp hr with rfl | hr
      · rw [result_replyTo_ok hfetch] at he; cases he
      · obtain ⟨before, x, after, cause, rfl, hbefore, hx, hreported⟩ := ih hr
        exact ⟨id :: before, x, after, cause, rfl,
          List.forall_mem_cons.mpr ⟨⟨d, hfetch⟩, hbefore⟩, hx, hreported⟩
    | error cause =>
      rw [if_neg (by rw [isFetched_replyTo_error hfetch]; exact Bool.false_ne_true),
        List.mem_singleton] at hr
      subst hr
      rw [result_replyTo_error hfetch] at he
      exact ⟨[], id, ids, cause, rfl, by simp, hfetch, (Except.error.inj he).symm⟩

/-! ## Lines and bytes -/

/-- A line that is text is answered, and the lines after it are read if that is a descriptor. -/
theorem serveLines_text (id : String) (rest : List Bytes) :
    serveLines fetch (Utf8.encode id :: rest) =
      if (replyTo fetch id).isFetched then
        (replyTo fetch id :: (serveLines fetch rest).1, (serveLines fetch rest).2)
      else ([replyTo fetch id], .ok ()) := by
  rw [serveLines, Utf8.decode?_encode]

/-- On lines that are all text, serving ends in success, also after a failed fetch. -/
theorem serveLines_encode (ids : List String) :
    serveLines fetch (ids.map Utf8.encode) = (answers fetch ids, .ok ()) := by
  induction ids with
  | nil => rfl
  | cons id ids ih =>
    rw [List.map_cons, serveLines_text, answers, ih]
    split <;> rfl

/-- A worker that reads requests writes the answers to them, one after the other. -/
theorem serve_requestsFor {ids : List String} (plain : ∀ id ∈ ids, breaksLines id = false) :
    serve fetch (requestsFor ids) = ((answers fetch ids).flatMap Reply.write, .ok ()) := by
  rw [serve, lines_requestsFor plain, serveLines_encode]

end SignHash
