import SignHash.Proofs.Exchange
import SignHash.Proofs.Fallible

/-!
# Pools of processes

`fetchInProcesses` is one of the runs of its exchange: every process gets all its requests, serves
them and ends before its replies are read, lane after lane, and the pool takes what is read at last.
-/

namespace SignHash

variable {fetch : String → Except Error Descriptor}

/-! ## Runs of a lane -/

/-- The lanes that steps of one lane lead to, and all that they put into the queue. -/
inductive Lane.Runs (fetch : String → Except Error Descriptor) :
    Lane → Lane → List (Except Error Descriptor) → Prop where
  /-- No step is taken. -/
  | refl (l : Lane) : Runs fetch l l []
  /-- A step is taken before others. -/
  | head {l l' l'' : Lane} {new put : List (Except Error Descriptor)} (step : Lane.Step fetch l l' new)
      (run : Runs fetch l' l'' put) : Runs fetch l l'' (new ++ put)

namespace Lane

theorem Runs.trans {l l' l'' : Lane} {put put' : List (Except Error Descriptor)}
    (h : Runs fetch l l' put) (h' : Runs fetch l' l'' put') : Runs fetch l l'' (put ++ put') := by
  induction h with
  | refl => exact h'
  | head step _ ih =>
    rw [List.append_assoc]
    exact .head step (ih h')

theorem runs_write (share : List String) :
    Runs fetch (start share) ⟨[], requestsFor share, .serving, [], share.length⟩ [] := by
  by_cases hrequests : requestsFor share = []
  · rw [start, hrequests]
    exact .refl _
  · have hstep : Step fetch _ _ _ :=
      .write (requestsFor share) [] [] [] .serving share.length hrequests
    rw [List.append_nil, List.nil_append] at hstep
    exact .head hstep (.refl _)

/-- A process that has all its requests answers them and ends. -/
theorem exists_runs_serve {ids : List String} (plain : ∀ id ∈ ids, breaksLines id = false)
    (success : Bool) (replies : Bytes) (awaited : Nat) :
    ∃ rest, Runs fetch ⟨[], requestsFor ids, .serving, replies, awaited⟩
      ⟨[], rest, .ended success, replies ++ (answers fetch ids).flatMap Reply.write, awaited⟩ [] := by
  induction ids generalizing replies with
  | nil =>
    rw [answers, List.flatMap_nil, List.append_nil]
    exact ⟨[], .head (.finish replies success awaited) (.refl _)⟩
  | cons id ids ih =>
    obtain ⟨hid, hids⟩ := List.forall_mem_cons.mp plain
    have hstep : Step fetch _ _ _ := .serve (Utf8.encode id) [] (requestsFor ids) replies id success
      awaited (notMem_encode_of_plain hid).1 (decode?_dropReturn_encode hid)
    rw [requestsFor_cons, answers]
    rw [afterReply] at hstep
    by_cases hfetched : (replyTo fetch id).isFetched = true
    · rw [if_pos hfetched] at hstep ⊢
      obtain ⟨rest, hrun⟩ := ih hids (replies ++ (replyTo fetch id).write)
      rw [List.append_assoc] at hrun
      exact ⟨rest, .head hstep hrun⟩
    · rw [if_neg hfetched] at hstep ⊢
      rw [List.flatMap_singleton]
      exact ⟨requestsFor ids, .head hstep (.refl _)⟩

/-- All replies of a process are read, up to the first that is not a descriptor. -/
theorem runs_receive {ids : List String} (fits : ∀ r ∈ answers fetch ids, r.Fits) (requests : Bytes)
    (process : ProcessState) :
    Runs fetch ⟨[], requests, process, (answers fetch ids).flatMap Reply.write, ids.length⟩
      ⟨[], requests, process, [], 0⟩ ((answers fetch ids).map Reply.result) := by
  induction ids with
  | nil => exact .refl _
  | cons id ids ih =>
    rw [answers] at fits ⊢
    by_cases hfetched : (replyTo fetch id).isFetched = true
    · rw [if_pos hfetched] at fits ⊢
      obtain ⟨hfits, hrest⟩ := List.forall_mem_cons.mp fits
      have hstep : Step fetch _ _ _ := .receive [] requests _ _ process ids.length _
        (Reply.decodes_read.read_write hfits ((answers fetch ids).flatMap Reply.write))
      rw [awaitedAfter, if_pos hfetched] at hstep
      exact .head hstep (ih hrest)
    · rw [if_neg hfetched] at fits ⊢
      have hstep : Step fetch _ _ _ := .receive [] requests _ _ process ids.length _
        (Reply.decodes_read.read_write (fits _ List.mem_cons_self) [])
      rw [awaitedAfter, if_neg hfetched] at hstep
      exact .head hstep (.refl _)

/-- The whole run of a lane. -/
theorem exists_runs_start {share : List String} (plain : ∀ id ∈ share, breaksLines id = false)
    (fits : ∀ r ∈ answers fetch share, r.Fits) (success : Bool) :
    ∃ requests, Runs fetch (start share) ⟨[], requests, .ended success, [], 0⟩
      ((answers fetch share).map Reply.result) := by
  obtain ⟨requests, hserve⟩ := @exists_runs_serve fetch _ plain success [] share.length
  exact ⟨requests, (runs_write share).trans (hserve.trans (runs_receive fits requests _))⟩

end Lane

/-! ## The run of an exchange -/

theorem LanesStep.append_left {lanes lanes' : List Lane} {new : List (Except Error Descriptor)}
    (before : List Lane) (h : LanesStep fetch lanes lanes' new) :
    LanesStep fetch (before ++ lanes) (before ++ lanes') new := by
  induction before with
  | nil => exact h
  | cons lane before ih => exact .tail ih

namespace Exchange

theorem Reaches.trans {x y z : Exchange} (h : Reaches fetch x y) (h' : Reaches fetch y z) :
    Reaches fetch x z := by
  induction h' with
  | refl => exact h
  | snoc _ step ih => exact .snoc ih step

theorem reaches_of_runs {l l' : Lane} {put : List (Except Error Descriptor)}
    (h : Lane.Runs fetch l l' put) (before after : List Lane) (queue : List (Except Error Descriptor))
    (taken : List Descriptor) (verdict : Option Error) :
    Reaches fetch ⟨before ++ l :: after, queue, taken, verdict⟩
      ⟨before ++ l' :: after, queue ++ put, taken, verdict⟩ := by
  induction h generalizing queue with
  | refl =>
    rw [List.append_nil]
    exact .refl _
  | @head _ _ _ new put step _ ih =>
    rw [← List.append_assoc]
    exact .head (.lane (.append_left before (.head step)) queue taken verdict) (ih (queue ++ new))

/-- The lanes run one after the other. -/
theorem exists_reaches_ended {shares : List (List String)} (success : List String → Bool)
    (plain : ∀ share ∈ shares, ∀ id ∈ share, breaksLines id = false)
    (fits : ∀ share ∈ shares, ∀ r ∈ answers fetch share, r.Fits) (before : List Lane)
    (queue : List (Except Error Descriptor)) :
    ∃ lanes, (∀ l ∈ lanes, l.IsQuiet) ∧
      lanes.map Lane.process = shares.map (fun share => .ended (success share)) ∧
      Reaches fetch ⟨before ++ shares.map Lane.start, queue, [], none⟩
        ⟨before ++ lanes, queue ++ shares.flatMap fun share => (answers fetch share).map Reply.result,
          [], none⟩ := by
  induction shares generalizing before queue with
  | nil =>
    refine ⟨[], fun l hl => (by cases hl), rfl, ?_⟩
    rw [List.map_nil, List.flatMap_nil, List.append_nil, List.append_nil]
    exact .refl _
  | cons share shares ih =>
    obtain ⟨hplain, hplains⟩ := List.forall_mem_cons.mp plain
    obtain ⟨hfits, hfitss⟩ := List.forall_mem_cons.mp fits
    obtain ⟨requests, hrun⟩ := Lane.exists_runs_start hplain hfits (success share)
    have hfirst := reaches_of_runs hrun before (shares.map Lane.start) queue [] none
    obtain ⟨lanes, hquiet, hprocess, hrest⟩ := ih hplains hfitss
      (before ++ [⟨[], requests, .ended (success share), [], 0⟩])
      (queue ++ (answers fetch share).map Reply.result)
    refine ⟨⟨[], requests, .ended (success share), [], 0⟩ :: lanes,
      List.forall_mem_cons.mpr ⟨⟨rfl, rfl⟩, hquiet⟩, ?_, ?_⟩
    · rw [List.map_cons, List.map_cons, hprocess]
    · rw [List.append_assoc, List.append_assoc, List.append_assoc] at hrest
      rw [List.map_cons, List.flatMap_cons]
      exact hfirst.trans hrest

/-- What waits in the queue is taken, up to the first failure. -/
theorem exists_reaches_taken {lanes : List Lane} (gone : ∀ l ∈ lanes, l.process ≠ .serving)
    (queue : List (Except Error Descriptor)) (taken : List Descriptor) :
    (∃ ds, queue.mapM id = .ok ds ∧
      Reaches fetch ⟨lanes, queue, taken, none⟩ ⟨lanes, [], taken ++ ds, none⟩) ∨
    (∃ e queue' taken', queue.mapM id = .error e ∧
      Reaches fetch ⟨lanes, queue, taken, none⟩ ⟨lanes, queue', taken', some e⟩) := by
  induction queue generalizing taken with
  | nil =>
    refine .inl ⟨[], rfl, ?_⟩
    rw [List.append_nil]
    exact .refl _
  | cons r queue ih =>
    cases r with
    | error e =>
      exact .inr ⟨e, queue, taken, rfl, .snoc (.refl _) (.abort (.of_gone gone) e queue taken)⟩
    | ok d =>
      have hstep : Step fetch _ _ := .take lanes d queue taken
      rcases ih (taken ++ [d]) with ⟨ds, hds, hrun⟩ | ⟨e, queue', taken', he, hrun⟩
      · rw [List.append_assoc] at hrun
        exact .inl ⟨d :: ds, by rw [List.mapM_cons, hds]; rfl, .head hstep hrun⟩
      · exact .inr ⟨e, queue', taken', by rw [List.mapM_cons, he]; rfl, .head hstep hrun⟩

/-- Lanes that are quiet come to what their processes have ended with. -/
theorem ends_of_taken {lanes : List Lane} {success : List Bool} (quiet : ∀ l ∈ lanes, l.IsQuiet)
    (ended : lanes.map Lane.process = success.map .ended) (taken : List Descriptor) :
    Ends ⟨lanes, [], taken, none⟩
      (if success.all id then .ok taken else .error (.worker .badExit)) := by
  rcases forall_or_exists_first (p := fun l => l.process = .ended true) lanes with
    hended | ⟨before, l, after, rfl, hbefore, hl⟩
  · have hall : success.all id = true := by
      rw [List.all_eq_true]
      intro b hb
      have hmem : ProcessState.ended b ∈ lanes.map Lane.process := ended ▸ List.mem_map_of_mem hb
      obtain ⟨l, hl, hprocess⟩ := List.mem_map.mp hmem
      rw [hended l hl] at hprocess
      cases hprocess
      rfl
    rw [if_pos hall]
    exact .complete lanes taken quiet hended
  · have hmem : l.process ∈ success.map ProcessState.ended := by
      rw [← ended]
      exact List.mem_map_of_mem (by simp)
    obtain ⟨b, hb, hprocess⟩ := List.mem_map.mp hmem
    have hfalse : b = false := by
      cases b with
      | false => rfl
      | true => exact absurd hprocess.symm hl
    subst hfalse
    have hall : ¬success.all id = true := by
      rw [List.all_eq_true]
      intro h
      exact Bool.false_ne_true (h false hb)
    rw [if_neg hall]
    exact .badExit before after l taken quiet hbefore (.inl hprocess.symm)

/-- The run in which the lanes go one after the other, to its end. -/
theorem exists_yields {shares : List (List String)} (success : List String → Bool)
    (plain : ∀ share ∈ shares, ∀ id ∈ share, breaksLines id = false)
    (fits : ∀ share ∈ shares, ∀ r ∈ answers fetch share, r.Fits) :
    ∃ last, last.lanes.map Lane.process = shares.map (fun share => .ended (success share)) ∧
      Yields fetch shares last (do
        let ds ← (shares.flatMap fun share => (answers fetch share).map Reply.result).mapM id
        if shares.all success then return ds else throw (.worker .badExit)) := by
  obtain ⟨lanes, hquiet, hprocess, hrun⟩ := exists_reaches_ended success plain fits [] []
  have hended : lanes.map Lane.process = (shares.map success).map .ended := by
    rw [hprocess, List.map_map]
    rfl
  have hgone : ∀ l ∈ lanes, l.process ≠ .serving := by
    intro l hl hserving
    have hmem : ProcessState.serving ∈ (shares.map success).map ProcessState.ended := by
      rw [← hended, ← hserving]
      exact List.mem_map_of_mem hl
    obtain ⟨b, -, hb⟩ := List.mem_map.mp hmem
    cases hb
  rw [List.nil_append, List.nil_append, List.nil_append] at hrun
  rcases exists_reaches_taken hgone (shares.flatMap fun share => (answers fetch share).map Reply.result)
    [] with ⟨ds, hds, htaken⟩ | ⟨e, queue, taken, he, htaken⟩
  · have hends := ends_of_taken hquiet hended ds
    rw [List.all_map, Function.id_comp] at hends
    rw [hds]
    exact ⟨_, hprocess, hrun.trans htaken, hends⟩
  · rw [he]
    exact ⟨_, hprocess, hrun.trans htaken, .failed lanes e queue taken hquiet⟩

end Exchange

/-! ## The pool -/

theorem readReplies_answers {ids : List String} (fits : ∀ r ∈ answers fetch ids, r.Fits) :
    readReplies ids.length ((answers fetch ids).flatMap Reply.write) =
      ((answers fetch ids).map Reply.result).mapM id := by
  induction ids with
  | nil => rfl
  | cons id ids ih =>
    rw [answers] at fits ⊢
    by_cases hfetched : (replyTo fetch id).isFetched = true
    · rw [if_pos hfetched] at fits ⊢
      obtain ⟨hfits, hrest⟩ := List.forall_mem_cons.mp fits
      rw [List.flatMap_cons, List.length_cons, readReplies, Reply.decodes_read.read_write hfits,
        List.map_cons, List.mapM_cons, ← ih hrest]
      rfl
    · rw [if_neg hfetched] at fits ⊢
      rw [List.flatMap_cons, List.length_cons, readReplies,
        Reply.decodes_read.read_write (fits _ List.mem_cons_self), List.map_cons, List.mapM_cons]
      cases hfetch : fetch id with
      | ok d => exact absurd (isFetched_replyTo hfetch) hfetched
      | error cause =>
        simp only [result_replyTo_error hfetch]
        rfl

theorem plain_of_mem_shares {workers : Nat} {ids : List String} (positive : 0 < workers)
    (plain : ∀ id ∈ ids, breaksLines id = false) :
    ∀ share ∈ shares workers ids, ∀ id ∈ share, breaksLines id = false :=
  fun _ hshare id hid => plain id (mem_of_mem_shares positive hshare hid)

theorem fits_of_mem_shares {workers : Nat} {ids : List String} (positive : 0 < workers)
    (fits : ∀ id ∈ ids, (replyTo fetch id).Fits) :
    ∀ share ∈ shares workers ids, ∀ r ∈ answers fetch share, r.Fits := by
  intro share hshare r hr
  obtain ⟨id, hid, rfl⟩ := exists_replyTo_of_mem_answers hr
  exact fits id (mem_of_mem_shares positive hshare hid)

/-- A program works for a source: launched with requests it writes what the source's worker writes,
however it ends. -/
def Program.Serves (program : Program) (config : SourceConfig)
    (fetch : String → Except Error Descriptor) (success : List String → Bool) : Prop :=
  ∀ share, program config (requestsFor share) =
    .ok ⟨(serve fetch (requestsFor share)).1, success share⟩

/-- What processes fetch is what their replies say, if then all have ended with success. -/
theorem fetchInProcesses_eq {program : Program} {config : SourceConfig}
    {success : List String → Bool} {workers : Nat} {ids : List String}
    (serves : program.Serves config fetch success)
    (plain : ∀ id ∈ ids, breaksLines id = false)
    (plains : ∀ share ∈ shares workers ids, ∀ id ∈ share, breaksLines id = false)
    (fits : ∀ share ∈ shares workers ids, ∀ r ∈ answers fetch share, r.Fits) :
    fetchInProcesses program workers config ids = (do
      let ds ← ((shares workers ids).flatMap fun share =>
        (answers fetch share).map Reply.result).mapM id
      if (shares workers ids).all success then return ds else throw (.worker .badExit)) := by
  have hfind : ids.find? breaksLines = none := find?_breaksLines_eq_none_iff.mpr plain
  have hlaunch : launchAll program config (shares workers ids) = .ok ((shares workers ids).map
      fun share => (share, ⟨(serve fetch (requestsFor share)).1, success share⟩)) := by
    rw [launchAll]
    simp only [serves _]
    exact List.mapM_pure
  have hread : (((shares workers ids).map fun share => (share,
      (⟨(serve fetch (requestsFor share)).1, success share⟩ : Outcome))).mapM
        fun o => readReplies o.1.length o.2.output) =
      (shares workers ids).mapM fun share => ((answers fetch share).map Reply.result).mapM id := by
    rw [List.mapM_map]
    refine mapM_congr fun share hshare => ?_
    show readReplies share.length (serve fetch (requestsFor share)).1 = _
    rw [serve_requestsFor (plains share hshare), readReplies_answers (fits share hshare)]
  rw [fetchInProcesses, hfind]
  simp only [hlaunch, bind, Except.bind]
  rw [hread, mapM_flatMap_id]
  cases (shares workers ids).mapM fun share => ((answers fetch share).map Reply.result).mapM id with
  | error e => rfl
  | ok fetched =>
    simp only [Except.map, List.all_map]
    rfl

/-- What processes fetch is what the exchange of their shares may come to. -/
theorem exists_yields_fetchInProcesses {program : Program} {config : SourceConfig}
    {success : List String → Bool} {workers : Nat} {ids : List String}
    (serves : program.Serves config fetch success) (positive : 0 < workers)
    (plain : ∀ id ∈ ids, breaksLines id = false) (fits : ∀ id ∈ ids, (replyTo fetch id).Fits) :
    ∃ last, last.lanes.map Lane.process =
        (shares workers ids).map (fun share => .ended (success share)) ∧
      Exchange.Yields fetch (shares workers ids) last
        (fetchInProcesses program workers config ids) := by
  have hplain := plain_of_mem_shares positive plain
  have hfits := fits_of_mem_shares positive fits
  rw [fetchInProcesses_eq serves plain hplain hfits]
  exact Exchange.exists_yields success hplain hfits

/-- The program whose workers open the source on their own works for it. -/
theorem serves_workerProgram {files : FileTree} {config : SourceConfig} {handle : Handle}
    (opened : (Handle.ofConfig files config).1 = .ok handle) :
    (workerProgram files).Serves config (handle.source files).fetch
      (fun share => (serve (handle.source files).fetch (requestsFor share)).2.isOk) := by
  intro share
  rw [workerProgram, opened]

/-- Whatever the processes have done, the pool can come to a result. -/
theorem exists_end_of_reaches {workers : Nat} (positive : 0 < workers) {ids : List String}
    (plain : ∀ id ∈ ids, breaksLines id = false) (fits : ∀ id ∈ ids, (replyTo fetch id).Fits)
    {x : Exchange} (h : Exchange.Reaches fetch (.start (shares workers ids)) x) :
    ∃ last result, Exchange.Reaches fetch x last ∧ last.Ends result := by
  have hfits := fits_of_mem_shares positive fits
  have hstart : Exchange.Inv fetch (shares workers ids) (.start (shares workers ids)) :=
    Exchange.inv_start (plain_of_mem_shares positive plain)
  exact (hstart.reaches hfits h).exists_end hfits

/-! ## What processes come to -/

/-- All descriptors in some order; the first failure of a share, or that of a process that died; or,
with all fetches done, that of a process that has not ended with success. -/
theorem Exchange.Yields.cases {workers : Nat} (positive : 0 < workers) {ids : List String}
    (plain : ∀ id ∈ ids, breaksLines id = false) (fits : ∀ id ∈ ids, (replyTo fetch id).Fits)
    {last : Exchange} {result : Except Error (List Descriptor)}
    (h : Exchange.Yields fetch (shares workers ids) last result) :
    (∃ ds, result = .ok ds ∧ (ds.map .ok).Perm (ids.map fetch) ∧
      ∀ l ∈ last.lanes, l.process = .ended true) ∨
    (∃ e, result = .error e ∧ ((∃ share ∈ shares workers ids, FirstFailure fetch share e) ∨
      e = .worker .stoppedReplying ∧ ∃ l ∈ last.lanes, l.process = .died)) ∨
    (result = .error (.worker .badExit) ∧ (∃ l ∈ last.lanes, l.HasFailed) ∧
      ∀ id ∈ ids, ∃ d, fetch id = .ok d) := by
  obtain ⟨hinv, hends⟩ := Exchange.Inv.yields (plain_of_mem_shares positive plain)
    (fits_of_mem_shares positive fits) h
  have hcases := hinv.ends hends
  rw [flatten_shares positive] at hcases
  exact hcases

/-- A share has no first failure if there is none among the identifiers. -/
theorem not_firstFailure {workers : Nat} (positive : 0 < workers) {ids : List String}
    (fetched : ∀ id ∈ ids, ∃ d, fetch id = .ok d) (e : Error) :
    ¬∃ share ∈ shares workers ids, FirstFailure fetch share e := by
  rintro ⟨share, hshare, before, id, after, cause, rfl, -, hid, -⟩
  obtain ⟨d, hd⟩ := fetched id (mem_of_mem_shares positive hshare (by simp))
  rw [hid] at hd
  cases hd

/-- If every fetch succeeds and every process ends with success, all descriptors are there. -/
theorem Exchange.Yields.exists_ok {workers : Nat} (positive : 0 < workers) {ids : List String}
    (plain : ∀ id ∈ ids, breaksLines id = false) (fits : ∀ id ∈ ids, (replyTo fetch id).Fits)
    {last : Exchange} {result : Except Error (List Descriptor)}
    (h : Exchange.Yields fetch (shares workers ids) last result)
    (fetched : ∀ id ∈ ids, ∃ d, fetch id = .ok d) (ended : ∀ l ∈ last.lanes, l.process = .ended true) :
    ∃ ds, result = .ok ds ∧ (ds.map .ok).Perm (ids.map fetch) := by
  rcases h.cases positive plain fits with ⟨ds, hds, hperm, -⟩ |
    ⟨e, -, hfirst | ⟨-, l, hl, hdied⟩⟩ | ⟨-, ⟨l, hl, hfailed⟩, -⟩
  · exact ⟨ds, hds, hperm⟩
  · exact absurd hfirst (not_firstFailure positive fetched e)
  · exact absurd (.inr hdied) (Lane.not_hasFailed (ended l hl))
  · exact absurd hfailed (Lane.not_hasFailed (ended l hl))

/-- A pool of processes, however its steps and theirs are ordered. If every fetch succeeds and every
process ends with success, it comes to the descriptors of all identifiers in some order. If a fetch
fails, it never comes to descriptors, and unless a process dies on its own it comes to the failure
that is reported for the first such identifier of a share. If every fetch succeeds and a process does
not end with success, it comes to a failure of a worker. -/
theorem processes_come_to {workers : Nat} (positive : 0 < workers) {ids : List String}
    (plain : ∀ id ∈ ids, breaksLines id = false) (fits : ∀ id ∈ ids, (replyTo fetch id).Fits)
    {last : Exchange} {result : Except Error (List Descriptor)}
    (h : Exchange.Yields fetch (shares workers ids) last result) :
    ((∀ id ∈ ids, ∃ d, fetch id = .ok d) → (∀ l ∈ last.lanes, l.process = .ended true) →
      ∃ ds, result = .ok ds ∧ (ds.map .ok).Perm (ids.map fetch)) ∧
    ((∃ id ∈ ids, ∃ cause, fetch id = .error cause) →
      (∀ ds, result ≠ .ok ds) ∧
      ((∀ l ∈ last.lanes, l.process ≠ .died) →
        ∃ share ∈ shares workers ids, ∃ e, FirstFailure fetch share e ∧ result = .error e)) ∧
    ((∀ id ∈ ids, ∃ d, fetch id = .ok d) → (∃ l ∈ last.lanes, l.process ≠ .ended true) →
      ∃ issue, result = .error (.worker issue)) := by
  have hcases := h.cases positive plain fits
  refine ⟨fun hall hended => ?_, fun hfails => ?_, fun hall hbad => ?_⟩
  · exact h.exists_ok positive plain fits hall hended
  · obtain ⟨id, hid, cause, hcause⟩ := hfails
    have hnotall : ¬∀ id ∈ ids, ∃ d, fetch id = .ok d := by
      intro hall
      obtain ⟨d, hd⟩ := hall id hid
      rw [hcause] at hd
      cases hd
    rcases hcases with ⟨ds, rfl, hperm, -⟩ | ⟨e, rfl, hwhy⟩ | ⟨rfl, -, hall⟩
    · exact absurd (Exchange.exists_ok_of_perm hperm) hnotall
    · refine ⟨fun ds hds => (by cases hds), fun halive => ?_⟩
      rcases hwhy with ⟨share, hshare, hfirst⟩ | ⟨-, l, hl, hdied⟩
      · exact ⟨share, hshare, e, hfirst, rfl⟩
      · exact absurd hdied (halive l hl)
    · exact absurd hall hnotall
  · rcases hcases with ⟨ds, rfl, -, hended⟩ | ⟨e, rfl, hfirst | ⟨rfl, -⟩⟩ | ⟨rfl, -⟩
    · obtain ⟨l, hl, hbad⟩ := hbad
      exact absurd (hended l hl) hbad
    · exact absurd hfirst (not_firstFailure positive hall e)
    · exact ⟨.stoppedReplying, rfl⟩
    · exact ⟨.badExit, rfl⟩

/-- Two processes that each fetch one descriptor. -/
theorem processes_come_to_both : ∃ last result, ∃ ds : List Descriptor,
    Exchange.Yields (fun id => .ok ⟨id, []⟩) (shares 2 ["a", "b"]) last result ∧ result = .ok ds ∧
      (ds.map Except.ok).Perm (["a", "b"].map fun id => (.ok ⟨id, []⟩ : Except Error Descriptor)) := by
  have hplain : ∀ id ∈ ["a", "b"], breaksLines id = false := by decide
  have hfits : ∀ id ∈ ["a", "b"], (replyTo (fun id => .ok ⟨id, []⟩) id).Fits := by
    simp [replyTo, Reply.Fits]
    decide
  obtain ⟨last, hprocess, hyields⟩ := Exchange.exists_yields (fun _ => true)
    (plain_of_mem_shares (by decide : 0 < 2) hplain) (fits_of_mem_shares (by decide) hfits)
  have hended : ∀ l ∈ last.lanes, l.process = .ended true := by
    intro l hl
    have hmem := List.mem_map_of_mem (f := Lane.process) hl
    rw [hprocess] at hmem
    obtain ⟨share, -, hshare⟩ := List.mem_map.mp hmem
    exact hshare.symm
  obtain ⟨ds, hds, hperm⟩ := (processes_come_to (by decide) hplain hfits hyields).1
    (fun id _ => ⟨⟨id, []⟩, rfl⟩) hended
  exact ⟨last, _, ds, hyields, hds, hperm⟩

end SignHash
