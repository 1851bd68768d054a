import SignHash.Proofs.Reply
import SignHash.Proofs.Sources

/-!
# The service of a worker

A worker may be sent any bytes. `Served` says what it has to do with them, once they are cut into
lines: send the descriptors for the lines in order, send the first failure and stop there, or break
off at a line that is no text. To see which lines are fetched, fetching is given an effect.
-/

namespace SignHash

open Wire

/-- `serveLines` for fetching with all that it does besides. -/
def serveLinesBy {m : Type → Type} [Monad m] (fetch : String → m (Except Error Descriptor)) :
    List Bytes → m (List Reply × Except Error Unit)
  | [] => pure ([], .ok ())
  | line :: rest =>
    match Utf8.decode? line with
    | none => pure ([], .error (.io .invalidData))
    | some id => do
      let answer ← fetch id
      let reply := replyTo (fun _ => answer) id
      if reply.isFetched then do
        let (replies, ending) ← serveLinesBy fetch rest
        pure (reply :: replies, ending)
      else pure ([reply], .ok ())

/-- `serve` for fetching with all that it does besides. -/
def serveBy {m : Type → Type} [Monad m] (fetch : String → m (Except Error Descriptor))
    (requests : Bytes) : m (Bytes × Except Error Unit) := do
  let (replies, ending) ← serveLinesBy fetch (Text.lines requests)
  pure (replies.flatMap Reply.write, ending)

/-- Lines are served: these replies are sent, for the identifiers that are asked for, and so the
service ends. -/
inductive Served (fetch : String → Except Error Descriptor) :
    List Bytes → List Reply → List String → Except Error Unit → Prop where
  /-- All lines are answered with descriptors. -/
  | fetched {ids : List String} {ds : List Descriptor} (before : ids.map fetch = ds.map .ok) :
      Served fetch (ids.map Utf8.encode) (ds.map .fetched) ids (.ok ())
  /-- A line is missing, and the lines after it are left. -/
  | missing {ids : List String} {ds : List Descriptor} (before : ids.map fetch = ds.map .ok)
      {id missing : String} (cause : fetch id = .error (.lookup missing)) (after : List Bytes) :
      Served fetch (ids.map Utf8.encode ++ Utf8.encode id :: after)
        (ds.map .fetched ++ [.missing missing]) (ids ++ [id]) (.ok ())
  /-- A line fails for another reason, and the lines after it are left. -/
  | failed {ids : List String} {ds : List Descriptor} (before : ids.map fetch = ds.map .ok)
      {id : String} {e : Error} (cause : fetch id = .error e) (other : ∀ missing, e ≠ .lookup missing)
      (after : List Bytes) :
      Served fetch (ids.map Utf8.encode ++ Utf8.encode id :: after)
        (ds.map .fetched ++ [.failed id e.message]) (ids ++ [id]) (.ok ())
  /-- A line is no text, and neither it nor the lines after it are asked for. -/
  | garbled {ids : List String} {ds : List Descriptor} (before : ids.map fetch = ds.map .ok)
      {line : Bytes} (noText : ∀ id, line ≠ Utf8.encode id) (after : List Bytes) :
      Served fetch (ids.map Utf8.encode ++ line :: after) (ds.map .fetched) ids
        (.error (.io .invalidData))

variable {fetch : String → Except Error Descriptor}

/-! ## Lines -/

theorem serveLines_ok {id : String} {d : Descriptor} (h : fetch id = .ok d) (rest : List Bytes) :
    serveLines fetch (Utf8.encode id :: rest) =
      (.fetched d :: (serveLines fetch rest).1, (serveLines fetch rest).2) := by
  rw [serveLines_text, if_pos (isFetched_replyTo h), replyTo_ok h]

/-- A failure is the last reply, and the service ends in success all the same. -/
theorem serveLines_error {id : String} {cause : Error} (h : fetch id = .error cause)
    (rest : List Bytes) :
    serveLines fetch (Utf8.encode id :: rest) = ([replyTo fetch id], .ok ()) := by
  rw [serveLines_text, isFetched_replyTo_error h]
  rfl

/-- At a line that is no text the service itself fails, without a reply. -/
theorem serveLines_garbled {line : Bytes} (h : ∀ id, line ≠ Utf8.encode id) (rest : List Bytes) :
    serveLines fetch (line :: rest) = ([], .error (.io .invalidData)) := by
  rw [serveLines, Utf8.decode?_eq_none_iff.mpr h]

/-- A descriptor in front leaves the rest as it was. -/
theorem Served.cons {lines : List Bytes} {replies : List Reply} {asked : List String}
    {ending : Except Error Unit} (h : Served fetch lines replies asked ending) {id : String}
    {d : Descriptor} (hd : fetch id = .ok d) :
    Served fetch (Utf8.encode id :: lines) (.fetched d :: replies) (id :: asked) ending := by
  have hcons : ∀ {ids : List String} {ds : List Descriptor}, ids.map fetch = ds.map .ok →
      (id :: ids).map fetch = (d :: ds).map .ok := by
    intro ids ds before
    rw [List.map_cons, List.map_cons, hd, before]
  cases h with
  | fetched before => exact .fetched (hcons before)
  | missing before cause after => exact .missing (hcons before) cause after
  | failed before cause other after => exact .failed (hcons before) cause other after
  | garbled before noText after => exact .garbled (hcons before) noText after

/-- All that serving does besides is what fetching does for the identifiers that are asked for, one
after the other. -/
def AsksFor (fetch : String → Except Error Descriptor) (lines : List Bytes) (asked : List String) :
    Prop :=
  ∀ {m : Type → Type} [Monad m] [LawfulMonad m] (note : String → m PUnit),
    serveLinesBy (fun id => do note id; pure (fetch id)) lines =
      (do asked.forM note; pure (serveLines fetch lines))

/-- Only what is fetched for the identifier itself matters. -/
theorem replyTo_const (id : String) : replyTo (fun _ => fetch id) id = replyTo fetch id := rfl

theorem asksFor_nil : AsksFor fetch [] [] := by
  intro m _ _ note
  simp [serveLinesBy, serveLines]

theorem asksFor_garbled {line : Bytes} (h : ∀ id, line ≠ Utf8.encode id) (rest : List Bytes) :
    AsksFor fetch (line :: rest) [] := by
  intro m _ _ note
  simp [serveLinesBy, serveLines, Utf8.decode?_eq_none_iff.mpr h]

theorem asksFor_error {id : String} {cause : Error} (h : fetch id = .error cause)
    (rest : List Bytes) : AsksFor fetch (Utf8.encode id :: rest) [id] := by
  intro m _ _ note
  rw [serveLines_error h]
  simp [serveLinesBy, replyTo_const, isFetched_replyTo_error h]

/-- After a descriptor, the next line is asked for. -/
theorem AsksFor.cons {rest : List Bytes} {asked : List String} (hrest : AsksFor fetch rest asked)
    {id : String} {d : Descriptor} (h : fetch id = .ok d) :
    AsksFor fetch (Utf8.encode id :: rest) (id :: asked) := by
  intro m _ _ note
  -- `simp` turns the fetch that notes into a map, in the goal as well
  have hnoted := hrest note
  simp only [bind_pure_comp] at hnoted
  rw [serveLines_ok h]
  simp [serveLinesBy, replyTo_const, replyTo_ok h, Reply.isFetched, hnoted]

/-- However lines go on, they are served in one of the ways that are listed. -/
theorem exists_served (fetch : String → Except Error Descriptor) (lines : List Bytes) :
    ∃ asked, Served fetch lines (serveLines fetch lines).1 asked (serveLines fetch lines).2 ∧
      AsksFor fetch lines asked := by
  -- the first line decides whether the others are looked at
  induction lines with
  | nil => exact ⟨[], @Served.fetched fetch [] [] rfl, asksFor_nil⟩
  | cons line rest ih =>
    cases htext : Utf8.decode? line with
    | none =>
      have garbled := Utf8.decode?_eq_none_iff.mp htext
      rw [serveLines_garbled garbled]
      exact ⟨[], @Served.garbled fetch [] [] rfl line garbled rest, asksFor_garbled garbled rest⟩
    | some id =>
      obtain rfl := Utf8.decode?_eq_some_iff.mp htext
      cases hfetch : fetch id with
      | ok d =>
        obtain ⟨asked, hserved, hasks⟩ := ih
        rw [serveLines_ok hfetch]
        exact ⟨id :: asked, hserved.cons hfetch, hasks.cons hfetch⟩
      | error cause =>
        refine ⟨[id], ?_, asksFor_error hfetch rest⟩
        rw [serveLines_error hfetch]
        by_cases hlookup : ∃ missing, cause = .lookup missing
        · obtain ⟨missing, rfl⟩ := hlookup
          rw [replyTo_lookup hfetch]
          exact @Served.missing fetch [] [] rfl id missing hfetch rest
        · rw [not_exists] at hlookup
          rw [replyTo_error hfetch hlookup]
          exact @Served.failed fetch [] [] rfl id cause hfetch hlookup rest

/-- Lines with descriptors are answered, and then the lines behind them. -/
theorem serveLines_append {ids : List String} {ds : List Descriptor}
    (before : ids.map fetch = ds.map .ok) (rest : List Bytes) :
    serveLines fetch (ids.map Utf8.encode ++ rest) =
      (ds.map .fetched ++ (serveLines fetch rest).1, (serveLines fetch rest).2) := by
  induction ids generalizing ds with
  | nil =>
    cases ds with
    | nil => rfl
    | cons d ds => cases before
  | cons id ids ih =>
    cases ds with
    | nil => cases before
    | cons d ds =>
      obtain ⟨hid, hids⟩ := List.cons.inj before
      rw [List.map_cons, List.cons_append, serveLines_ok hid, ih hids]
      rfl

/-- Lines are served in one way. -/
theorem Served.eq_serveLines {lines : List Bytes} {replies : List Reply} {asked : List String}
    {ending : Except Error Unit} (h : Served fetch lines replies asked ending) :
    serveLines fetch lines = (replies, ending) := by
  cases h with
  | fetched before =>
    have hall := serveLines_append before []
    rwa [List.append_nil, serveLines, List.append_nil] at hall
  | missing before cause after =>
    rw [serveLines_append before, serveLines_error cause, replyTo_lookup cause]
  | failed before cause other after =>
    rw [serveLines_append before, serveLines_error cause, replyTo_error cause other]
  | garbled before noText after =>
    rw [serveLines_append before, serveLines_garbled noText, List.append_nil]

/-- What is missing is the last that is asked for, if the fetch answers for what it is asked. -/
theorem Served.asked_of_missing {lines : List Bytes} {replies : List Reply} {asked : List String}
    {ending : Except Error Unit} (h : Served fetch lines replies asked ending)
    (answers : AnswersFor fetch) {missing : String} (sent : .missing missing ∈ replies) :
    asked.getLast? = some missing := by
  cases h with
  | fetched before => simp at sent
  | @missing ids ds before id missing' cause after =>
    obtain rfl : missing = missing' := by simpa using sent
    rw [List.getLast?_concat, (answers id).2 missing cause]
  | failed before cause other after => simp at sent
  | garbled before noText after => simp at sent

/-! ## Bytes -/

/-- A worker that is sent any bytes cuts them into lines and serves these: what it writes are the
replies, with nothing more, and so it ends. Fetching does what it does besides only for the
identifiers that are asked for, in this order. -/
theorem serves_up_to_first_failure (fetch : String → Except Error Descriptor) (requests : Bytes) :
    ∃ lines replies asked ending,
      Text.CutIntoLines requests lines ∧ Served fetch lines replies asked ending ∧
      serve fetch requests = (replies.flatMap Reply.write, ending) ∧
      ((∀ r ∈ replies, r.Fits) → ∀ n taken,
        readMany Reply.read n (serve fetch requests).1 = some (taken, []) ↔
          n = replies.length ∧ taken = replies) ∧
      (AnswersFor fetch → ∀ missing, .missing missing ∈ replies → asked.getLast? = some missing) ∧
      ∀ {m : Type → Type} [Monad m] [LawfulMonad m] (note : String → m PUnit),
        serveBy (fun id => do note id; pure (fetch id)) requests =
          (do asked.forM note; pure (serve fetch requests)) := by
  obtain ⟨asked, hserved, hasks⟩ := exists_served fetch (Text.lines requests)
  refine ⟨Text.lines requests, _, asked, _, Text.cutIntoLines_iff.mpr rfl, hserved, rfl,
    fun fits n taken => ?_, fun answers missing sent => hserved.asked_of_missing answers sent,
    fun note => ?_⟩
  · exact readMany_flatMap_iff Reply.decodes_read Reply.write_ne_nil fits n
  · rw [serveBy, hasks note]
    simp [serve]

/-- Notes an identifier down. -/
def noteDown (id : String) : StateM (List String) PUnit := fun noted => pure ((), noted ++ [id])

theorem run_forM_noteDown (ids noted : List String) :
    (ids.forM noteDown).run noted = pure ((), noted ++ ids) := by
  induction ids generalizing noted with
  | nil => rw [List.append_nil]; rfl
  | cons id ids ih =>
    show (ids.forM noteDown).run (noted ++ [id]) = _
    rw [ih, List.append_assoc, List.singleton_append]

/-- A line that is ended by both, and one that is missing before another. -/
theorem serves_up_to_first_failure_of_missing :
    let table : Table := ⟨[("a", [1])]⟩
    let replies : List Reply := [.fetched ⟨"a", [1]⟩, .missing "ghost"]
    let requests := Utf8.encode "a\r\nghost\na"
    readMany Reply.read 2 (serve table.fetch requests).1 = some (replies, []) ∧
      (serve table.fetch requests).2 = .ok () ∧
      ∃ asked : List String, asked.getLast? = some "ghost" ∧
        (serveBy (fun id => do noteDown id; pure (table.fetch id)) requests).run [] =
          (serve table.fetch requests, asked) := by
  intro table replies requests
  obtain ⟨lines, sent, asked, ending, hlines, hserved, hserve, hread, hmissing, hnoted⟩ :=
    serves_up_to_first_failure table.fetch requests
  have hpair : serveLines table.fetch (Text.lines requests) = (replies, .ok ()) := by decide +kernel
  rw [Text.cutIntoLines_iff.mp hlines] at hserved
  obtain ⟨rfl, rfl⟩ := Prod.mk.injEq .. |>.mp (hpair.symm.trans hserved.eq_serveLines)
  have hfits : ∀ r ∈ replies, r.Fits := by
    intro r hr
    simp only [replies, List.mem_cons, List.not_mem_nil, or_false] at hr
    rcases hr with rfl | rfl
    · show TextFits "a" ∧ ListFits [(1 : Double)]
      decide
    · show TextFits "ghost"
      decide
  refine ⟨(hread hfits 2 replies).mpr ⟨rfl, rfl⟩, congrArg Prod.snd hserve, asked, ?_, ?_⟩
  · exact hmissing table.answersFor_fetch "ghost" (by simp [replies])
  · rw [hnoted, StateT.run_bind, run_forM_noteDown, List.nil_append]
    rfl

/-- A line that is no text does not undo the replies before it. -/
example : serve (Table.fetch ⟨[("a", [1])]⟩) (Utf8.encode "a\n" ++ [255]) =
    ((Reply.fetched ⟨"a", [1]⟩).write, .error (.io .invalidData)) := by decide +kernel

end SignHash
