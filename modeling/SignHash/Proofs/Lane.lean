import SignHash.Extraction.Exchange
import SignHash.Proofs.Answers
import SignHash.Proofs.Reply

/-!
# Lanes

The invariant of a lane, and that its steps keep it. The answers to a share are in three parts: what
is read, what is replied and not read, and what is to come. The requests on the way to a process that
serves are those for what is to come; the bytes on the way back are the replies that are not read.
-/

namespace SignHash.Lane

/-! ## The invariant -/

/-- What a process has on its way, given the replies that are not read and those to come. -/
def AtReplies (fetch : String → Except Error Descriptor) (l : Lane) (unread later : List Reply) :
    Prop :=
  match l.process with
  | .serving => l.replies = unread.flatMap Reply.write ∧ ∃ pending, later = answers fetch pending ∧
      (∀ id ∈ pending, breaksLines id = false) ∧ l.requests ++ l.unwritten = requestsFor pending
  | .ended _ => l.replies = unread.flatMap Reply.write ∧ later = []
  | .died | .killed => l.replies <+: unread.flatMap Reply.write

/-- What is put into the queue after some replies are read, of so many. -/
inductive HasRead (count : Nat) (read : List Reply) : Lane → List (Except Error Descriptor) → Prop where
  /-- The others are awaited. -/
  | awaiting (l : Lane) (total : l.awaited + read.length = count)
      (fetched : ∀ r ∈ read, r.isFetched = true) : HasRead count read l (read.map Reply.result)
  /-- One of them was no descriptor. -/
  | failed (l : Lane) (done : l.awaited = 0) (failure : ∃ r ∈ read, r.isFetched = false) :
      HasRead count read l (read.map Reply.result)
  /-- The next one was missed. -/
  | missed (l : Lane) (done : l.awaited = 0) (gone : l.process = .died ∨ l.process = .killed) :
      HasRead count read l (read.map Reply.result ++ [.error (.worker .stoppedReplying)])

/-- The invariant of the lane of a share that has put so much into the queue. -/
def Inv (fetch : String → Except Error Descriptor) (share : List String) (l : Lane)
    (put : List (Except Error Descriptor)) : Prop :=
  ∃ read unread later, answers fetch share = read ++ unread ++ later ∧
    l.AtReplies fetch unread later ∧ HasRead share.length read l put

variable {fetch : String → Except Error Descriptor} {share : List String} {l l' : Lane}
  {put new : List (Except Error Descriptor)}

theorem HasRead.congr {count : Nat} {read : List Reply} (h : HasRead count read l put)
    (awaited : l'.awaited = l.awaited)
    (gone : l.process = .died ∨ l.process = .killed → l'.process = .died ∨ l'.process = .killed) :
    HasRead count read l' put := by
  cases h with
  | awaiting total fetched => exact .awaiting l' (by rw [awaited]; exact total) fetched
  | failed done failure => exact .failed l' (by rw [awaited]; exact done) failure
  | missed done hgone => exact .missed l' (by rw [awaited]; exact done) (gone hgone)

theorem inv_start (plain : ∀ id ∈ share, breaksLines id = false) :
    Inv fetch share (start share) [] :=
  ⟨[], [], answers fetch share, rfl, ⟨rfl, share, rfl, plain, rfl⟩,
    .awaiting (start share) rfl (by simp)⟩

/-! ## Steps keep it -/

/-- What is read next are the replies that are not read, in whatever state the process is. -/
theorem AtReplies.prefix {unread later : List Reply} (h : l.AtReplies fetch unread later) :
    l.replies <+: unread.flatMap Reply.write := by
  unfold AtReplies at h
  split at h
  · exact h.1 ▸ List.prefix_rfl
  · exact h.1 ▸ List.prefix_rfl
  · exact h
  · exact h

/-- Reading takes the next reply off what is not read. -/
theorem AtReplies.receive {unread later : List Reply} {unwritten requests replies rest : Bytes}
    {process : ProcessState} {awaited awaited' : Nat} {reply : Reply} (fits : ∀ r ∈ unread, r.Fits)
    (h : AtReplies fetch ⟨unwritten, requests, process, replies, awaited⟩ unread later)
    (hread : Reply.read replies = some (reply, rest)) :
    ∃ unread', unread = reply :: unread' ∧
      AtReplies fetch ⟨unwritten, requests, process, rest, awaited'⟩ unread' later := by
  obtain ⟨unread', rfl, hreplies, hrest⟩ :=
    Reply.decodes_read.read_eq_head Reply.write_ne_nil fits h.prefix hread
  refine ⟨unread', rfl, ?_⟩
  -- while no byte is lost, what is left is exactly the other replies
  have hexact : replies = (reply :: unread').flatMap Reply.write → rest = unread'.flatMap Reply.write := by
    intro hall
    have hsame : reply.write ++ rest = reply.write ++ unread'.flatMap Reply.write := by
      rw [← List.flatMap_cons, ← hall]
      exact hreplies.symm
    exact List.append_cancel_left hsame
  cases process with
  | serving => exact ⟨hexact h.1, h.2⟩
  | ended success => exact ⟨hexact h.1, h.2⟩
  | died => exact hrest
  | killed => exact hrest

/-- Serving a line answers the first of the requests that are on their way. -/
theorem AtReplies.serve {unread later : List Reply} {line unwritten requests replies : Bytes}
    {awaited : Nat} {id : String}
    (h : AtReplies fetch ⟨unwritten, line ++ 10 :: requests, .serving, replies, awaited⟩ unread later)
    (whole : (10 : UInt8) ∉ line) (text : Utf8.decode? (Text.dropReturn line) = some id)
    (success : Bool) :
    ∃ later', later = replyTo fetch id :: later' ∧
      AtReplies fetch ⟨unwritten, requests, afterReply success (replyTo fetch id),
        replies ++ (replyTo fetch id).write, awaited⟩ (unread ++ [replyTo fetch id]) later' := by
  obtain ⟨hreplies, pending, rfl, plain, hrequests⟩ := h
  have hline : line ++ 10 :: (requests ++ unwritten) = requestsFor pending := by
    rw [← hrequests, List.append_assoc, List.cons_append]
  obtain ⟨id', pending', rfl, rfl, hrest⟩ := exists_cons_of_requestsFor plain whole hline
  obtain ⟨hid, plain'⟩ := List.forall_mem_cons.mp plain
  rw [decode?_dropReturn_encode hid] at text
  obtain rfl := Option.some.inj text
  have hwritten : replies ++ (replyTo fetch id').write =
      (unread ++ [replyTo fetch id']).flatMap Reply.write := by
    rw [List.flatMap_append, ← hreplies, List.flatMap_singleton]
  rw [answers, afterReply]
  split
  · exact ⟨_, rfl, hwritten, pending', rfl, plain', hrest⟩
  · exact ⟨_, rfl, hwritten, rfl⟩

/-- Nothing is missed of a process that has ended on its own. -/
theorem not_missed {read unread later : List Reply} {unwritten requests replies : Bytes}
    {success : Bool} {awaited : Nat} (fits : ∀ r ∈ answers fetch share, r.Fits)
    (heq : answers fetch share = read ++ unread ++ later)
    (h : AtReplies fetch ⟨unwritten, requests, .ended success, replies, awaited + 1⟩ unread later)
    (hread : HasRead share.length read ⟨unwritten, requests, .ended success, replies, awaited + 1⟩ put)
    (cutOff : Reply.read replies = none) : False := by
  obtain ⟨hreplies, rfl⟩ := h
  cases unread with
  | nil =>
    rw [List.append_nil, List.append_nil] at heq
    cases hread with
    | awaiting total fetched =>
      have hlen := congrArg List.length (answers_eq_map (heq ▸ fetched))
      rw [heq, List.length_map] at hlen
      have htotal : awaited + 1 + read.length = share.length := total
      omega
    | failed done => simp at done
    | missed done => simp at done
  | cons r unread =>
    have hfits : r.Fits := fits r (by rw [heq]; simp)
    have hnext := Reply.decodes_read.read_write hfits (unread.flatMap Reply.write)
    rw [← List.flatMap_cons, ← show replies = _ from hreplies, cutOff] at hnext
    cases hnext

/-- A step of a lane keeps the invariant, with what it puts into the queue added. -/
theorem Inv.step (fits : ∀ r ∈ answers fetch share, r.Fits) (hstep : Step fetch l l' new)
    (h : Inv fetch share l put) : Inv fetch share l' (put ++ new) := by
  obtain ⟨read, unread, later, heq, hat, hread⟩ := h
  cases hstep with
  | write piece unwritten requests replies process awaited =>
    rw [List.append_nil]
    refine ⟨read, unread, later, heq, ?_, hread.congr rfl (fun h => h)⟩
    cases process with
    | serving =>
      obtain ⟨hreplies, pending, hlater, plain, hrequests⟩ := hat
      exact ⟨hreplies, pending, hlater, plain, by rw [← hrequests, List.append_assoc]⟩
    | _ => exact hat
  | giveUp unwritten requests replies process awaited gone =>
    rw [List.append_nil]
    refine ⟨read, unread, later, heq, ?_, hread.congr rfl (fun h => h)⟩
    cases process with
    | serving => exact absurd rfl gone
    | _ => exact hat
  | serve line unwritten requests replies id success awaited whole text =>
    rw [List.append_nil]
    obtain ⟨later', rfl, hat'⟩ := hat.serve whole text success
    refine ⟨read, unread ++ [replyTo fetch id], later', ?_, hat', hread.congr rfl (by simp)⟩
    rw [heq]
    simp
  | refuse line unwritten requests replies awaited whole noText =>
    obtain ⟨-, pending, -, plain, hrequests⟩ := hat
    have hline : line ++ 10 :: (requests ++ unwritten) = requestsFor pending := by
      rw [← hrequests, List.append_assoc, List.cons_append]
    obtain ⟨id, pending', rfl, rfl, -⟩ := exists_cons_of_requestsFor plain whole hline
    rw [decode?_dropReturn_encode (plain id List.mem_cons_self)] at noText
    cases noText
  | finish replies success awaited =>
    rw [List.append_nil]
    obtain ⟨hreplies, pending, rfl, -, hrequests⟩ := hat
    -- nothing is on its way, so nothing is to come
    have hpending : pending = [] := by
      cases pending with
      | nil => rfl
      | cons id pending => simp at hrequests
    subst hpending
    exact ⟨read, unread, [], heq, ⟨hreplies, rfl⟩, hread.congr rfl (by simp)⟩
  | die unwritten requests kept lost awaited =>
    rw [List.append_nil]
    exact ⟨read, unread, later, heq, ⟨lost, hat.1⟩, hread.congr rfl (by simp)⟩
  | receive unwritten requests replies rest process awaited reply hreply =>
    have hunread : ∀ r ∈ unread, r.Fits := fun r hr => fits r (by rw [heq]; simp [hr])
    obtain ⟨unread', rfl, hat'⟩ := hat.receive hunread hreply
    refine ⟨read ++ [reply], unread', later, by rw [heq]; simp, hat', ?_⟩
    cases hread with
    | awaiting total fetched =>
      rw [← List.map_singleton, ← List.map_append]
      by_cases hfetched : reply.isFetched = true
      · refine .awaiting _ ?_ ?_
        · simp only [awaitedAfter, hfetched, if_true, List.length_append, List.length_singleton] at total ⊢
          omega
        · intro r hr
          rcases List.mem_append.mp hr with hr | hr
          · exact fetched r hr
          · rw [List.mem_singleton.mp hr]; exact hfetched
      · refine .failed _ ?_ ⟨reply, by simp, by simpa using hfetched⟩
        simp [awaitedAfter, hfetched]
    | failed done => simp at done
    | missed done => simp at done
  | miss unwritten requests replies process awaited gone cutOff =>
    have hgone : process = .died ∨ process = .killed := by
      cases process with
      | serving => exact absurd rfl gone
      | ended success => exact (not_missed fits heq hat hread cutOff).elim
      | died => exact .inl rfl
      | killed => exact .inr rfl
    refine ⟨read, unread, later, heq, ?_, ?_⟩
    · rcases hgone with rfl | rfl <;> exact hat
    · cases hread with
      | awaiting total fetched => exact .missed _ rfl hgone
      | failed done => simp at done
      | missed done => simp at done

/-- So does a kill, which puts nothing into the queue. -/
theorem Inv.kill (hkill : Kill l l') (h : Inv fetch share l put) : Inv fetch share l' put := by
  cases hkill with
  | serving unwritten requests kept lost awaited =>
    obtain ⟨read, unread, later, heq, hat, hread⟩ := h
    exact ⟨read, unread, later, heq, ⟨lost, hat.1⟩, hread.congr rfl (by simp)⟩
  | gone => exact h

/-! ## What it says -/

/-- A lane without failures that awaits nothing has put everything into the queue. -/
theorem Inv.put_eq (h : Inv fetch share l put) (done : l.awaited = 0)
    (fetched : ∀ r ∈ put, ∃ d, r = .ok d) : put = share.map fetch := by
  obtain ⟨read, unread, later, heq, -, hread⟩ := h
  cases hread with
  | awaiting total hfetched =>
    rw [done, Nat.zero_add] at total
    have hlen : (answers fetch share).length ≤ share.length := length_answers_le share
    rw [heq, List.length_append, List.length_append] at hlen
    have hunread : unread = [] := List.eq_nil_of_length_eq_zero (by omega)
    have hlater : later = [] := List.eq_nil_of_length_eq_zero (by omega)
    rw [hunread, hlater, List.append_nil, List.append_nil] at heq
    subst heq
    have hall := answers_eq_map hfetched
    rw [hall, List.map_map]
    refine List.map_congr_left fun id hid => result_replyTo (hfetched _ ?_)
    rw [hall]
    exact List.mem_map_of_mem hid
  | failed _ failure =>
    obtain ⟨r, hr, hfailed⟩ := failure
    rw [(exists_result_ok_iff r).mp (fetched _ (List.mem_map_of_mem hr))] at hfailed
    cases hfailed
  | missed =>
    obtain ⟨d, hd⟩ := fetched _ (List.mem_append_right _ List.mem_cons_self)
    cases hd

/-- A failure in the queue is that of the first fetch that fails, or the process is gone. -/
theorem Inv.of_error (h : Inv fetch share l put) {e : Error} (he : .error e ∈ put) :
    FirstFailure fetch share e ∨
      e = .worker .stoppedReplying ∧ (l.process = .died ∨ l.process = .killed) := by
  obtain ⟨read, unread, later, heq, -, hread⟩ := h
  have hfailure : .error e ∈ read.map Reply.result → FirstFailure fetch share e := by
    intro hmem
    obtain ⟨r, hr, hresult⟩ := List.mem_map.mp hmem
    exact firstFailure_of_mem_answers (by rw [heq]; simp [hr]) hresult
  cases hread with
  | awaiting => exact .inl (hfailure he)
  | failed => exact .inl (hfailure he)
  | missed _ gone =>
    rcases List.mem_append.mp he with he | he
    · exact .inl (hfailure he)
    · exact .inr ⟨by cases List.mem_singleton.mp he; rfl, gone⟩

/-! ## Progress -/

/-- A lane that is not quiet, or whose process serves, can take a step. -/
theorem Inv.quiet_or_step (h : Inv fetch share l put) :
    l.IsQuiet ∧ l.process ≠ .serving ∨ ∃ l' new, Step fetch l l' new := by
  obtain ⟨unwritten, requests, process, replies, awaited⟩ := l
  obtain ⟨read, unread, later, -, hat, -⟩ := h
  by_cases hunwritten : unwritten = []
  · subst hunwritten
    by_cases hserving : process = .serving
    · subst hserving
      obtain ⟨-, pending, -, plain, hrequests⟩ := hat
      cases pending with
      | nil =>
        obtain ⟨rfl, -⟩ := List.append_eq_nil_iff.mp hrequests
        exact .inr ⟨_, _, .finish replies true awaited⟩
      | cons id pending =>
        obtain ⟨hid, -⟩ := List.forall_mem_cons.mp plain
        obtain rfl : requests = Utf8.encode id ++ 10 :: requestsFor pending := by
          rw [← requestsFor_cons, ← hrequests]
          exact (List.append_nil requests).symm
        exact .inr ⟨_, _, .serve _ [] _ replies id true awaited (notMem_encode_of_plain hid).1
          (decode?_dropReturn_encode hid)⟩
    · cases awaited with
      | zero => exact .inl ⟨⟨rfl, rfl⟩, hserving⟩
      | succ awaited =>
        cases hreply : Reply.read replies with
        | none => exact .inr ⟨_, _, .miss [] requests replies process awaited hserving hreply⟩
        | some r => exact .inr ⟨_, _, .receive [] requests replies r.2 process awaited r.1 hreply⟩
  · have hstep : Step fetch ⟨unwritten ++ [], requests, process, replies, awaited⟩ _ _ :=
      .write unwritten [] requests replies process awaited hunwritten
    rw [List.append_nil] at hstep
    exact .inr ⟨_, _, hstep⟩

/-- What is left to do in a lane, in steps at most. -/
def work (l : Lane) : Nat :=
  2 * l.unwritten.length + l.requests.length + (if l.process = .serving then 1 else 0) + 2 * l.awaited

theorem awaitedAfter_le (awaited : Nat) (reply : Reply) : awaitedAfter awaited reply ≤ awaited := by
  rw [awaitedAfter]
  split
  · exact Nat.le_refl _
  · exact Nat.zero_le _

/-- Every step does some of the work, what it puts into the queue counted as work left. -/
theorem work_lt (hstep : Step fetch l l' new) : l'.work + new.length < l.work := by
  cases hstep with
  | write piece unwritten requests replies process awaited nonempty =>
    have hpiece := List.length_pos_iff.mpr nonempty
    simp only [work, List.length_append, List.length_nil]
    omega
  | giveUp unwritten requests replies process awaited gone left =>
    have hleft := List.length_pos_iff.mpr left
    simp only [work, List.length_nil]
    omega
  | serve =>
    simp only [work, List.length_append, List.length_cons, List.length_nil]
    split <;> simp <;> omega
  | refuse =>
    simp only [work, List.length_append, List.length_cons, List.length_nil]
    simp
    omega
  | finish => simp [work]
  | die => simp [work]
  | receive unwritten requests replies rest process awaited reply =>
    have hawaited := awaitedAfter_le awaited reply
    simp only [work, List.length_singleton]
    omega
  | miss =>
    simp only [work, List.length_singleton]
    omega

theorem work_le_of_kill (hkill : Kill l l') : l'.work ≤ l.work := by
  cases hkill with
  | serving => simp [work]
  | gone => exact Nat.le_refl _

end SignHash.Lane
