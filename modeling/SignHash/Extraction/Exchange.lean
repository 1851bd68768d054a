import SignHash.Extraction.Pool

/-!
# The exchange between a pool and its processes

What happens while processes fetch, one small step after another. Every process has a lane of its
own: requests are written to it in pieces, it serves them line by line, and its replies are read one
at a time. What is read goes into a queue that all lanes share, from whose front the pool takes it.
Nothing orders the steps of different lanes, or those of the two ends of one lane. A process may
also die on its own, with what it has replied and nobody has read. The first failure that the pool
takes is its verdict: all processes are killed, and the pool waits until the lanes are quiet.

`Exchange.Yields` says which results a pool may come to. `fetchInProcesses` is the run in which
every process ends before its replies are read, lane after lane.
-/

namespace SignHash

/-! ## Lanes -/

/-- How far a process is. -/
inductive ProcessState where
  /-- It waits for requests and serves them. -/
  | serving
  /-- It has ended on its own. -/
  | ended (success : Bool)
  /-- It has died on its own. -/
  | died
  /-- The pool has killed it. -/
  | killed
  deriving DecidableEq

/-- The requests and replies of one process. -/
structure Lane where
  /-- The requests that are yet to be written. -/
  unwritten : Bytes
  /-- The requests that are written and not yet served. -/
  requests : Bytes
  /-- How far the process is. -/
  process : ProcessState
  /-- The replies that are not yet read. -/
  replies : Bytes
  /-- How many replies are yet to be read. -/
  awaited : Nat
  deriving DecidableEq

namespace Lane

/-- The lane of a process for a share of identifiers, before anything happens. -/
def start (share : List String) : Lane := ⟨requestsFor share, [], .serving, [], share.length⟩

/-- How far a process is after a reply: one that is not a descriptor is the last. -/
def afterReply (success : Bool) (reply : Reply) : ProcessState :=
  if reply.isFetched then .serving else .ended success

/-- How many replies are awaited after one is read. -/
def awaitedAfter (awaited : Nat) (reply : Reply) : Nat := if reply.isFetched then awaited else 0

/-- A step of a lane, and what it puts into the queue. -/
inductive Step (fetch : String → Except Error Descriptor) :
    Lane → Lane → List (Except Error Descriptor) → Prop where
  /-- A piece of the requests is written. -/
  | write (piece unwritten requests replies : Bytes) (process : ProcessState) (awaited : Nat)
      (nonempty : piece ≠ []) :
      Step fetch ⟨piece ++ unwritten, requests, process, replies, awaited⟩
        ⟨unwritten, requests ++ piece, process, replies, awaited⟩ []
  /-- Nothing more is written to a process that is gone. -/
  | giveUp (unwritten requests replies : Bytes) (process : ProcessState) (awaited : Nat)
      (gone : process ≠ .serving) (left : unwritten ≠ []) :
      Step fetch ⟨unwritten, requests, process, replies, awaited⟩
        ⟨[], requests, process, replies, awaited⟩ []
  /-- The process serves a line. -/
  | serve (line unwritten requests replies : Bytes) (id : String) (success : Bool) (awaited : Nat)
      (whole : 10 ∉ line) (text : Utf8.decode? (Text.dropReturn line) = some id) :
      Step fetch ⟨unwritten, line ++ 10 :: requests, .serving, replies, awaited⟩
        ⟨unwritten, requests, afterReply success (replyTo fetch id),
          replies ++ (replyTo fetch id).write, awaited⟩ []
  /-- The process ends at a line that is no text. -/
  | refuse (line unwritten requests replies : Bytes) (awaited : Nat)
      (whole : 10 ∉ line) (noText : Utf8.decode? (Text.dropReturn line) = none) :
      Step fetch ⟨unwritten, line ++ 10 :: requests, .serving, replies, awaited⟩
        ⟨unwritten, requests, .ended false, replies, awaited⟩ []
  /-- The process ends after all requests. -/
  | finish (replies : Bytes) (success : Bool) (awaited : Nat) :
      Step fetch ⟨[], [], .serving, replies, awaited⟩ ⟨[], [], .ended success, replies, awaited⟩ []
  /-- The process dies before it has replied to everything, and an end of what it has replied may be
  lost. -/
  | die (unwritten requests kept lost : Bytes) (awaited : Nat)
      (early : unwritten ≠ [] ∨ requests ≠ [] ∨ lost ≠ []) :
      Step fetch ⟨unwritten, requests, .serving, kept ++ lost, awaited⟩
        ⟨unwritten, requests, .died, kept, awaited⟩ []
  /-- A reply is read. -/
  | receive (unwritten requests replies rest : Bytes) (process : ProcessState) (awaited : Nat)
      (reply : Reply) (read : Reply.read replies = some (reply, rest)) :
      Step fetch ⟨unwritten, requests, process, replies, awaited + 1⟩
        ⟨unwritten, requests, process, rest, awaitedAfter awaited reply⟩ [reply.result]
  /-- A reply is missed, since the process is gone. -/
  | miss (unwritten requests replies : Bytes) (process : ProcessState) (awaited : Nat)
      (gone : process ≠ .serving) (cutOff : Reply.read replies = none) :
      Step fetch ⟨unwritten, requests, process, replies, awaited + 1⟩
        ⟨unwritten, requests, process, replies, 0⟩ [.error (.worker .stoppedReplying)]

/-- A lane before and after its process is told to die: one that serves loses an end of what it has
replied, one that is gone stays as it is. -/
inductive Kill : Lane → Lane → Prop where
  /-- The process is killed. -/
  | serving (unwritten requests kept lost : Bytes) (awaited : Nat) :
      Kill ⟨unwritten, requests, .serving, kept ++ lost, awaited⟩
        ⟨unwritten, requests, .killed, kept, awaited⟩
  /-- The process is gone already. -/
  | gone (l : Lane) (gone : l.process ≠ .serving) : Kill l l

/-- Nothing is left to be written or read. -/
def IsQuiet (l : Lane) : Prop := l.unwritten = [] ∧ l.awaited = 0

/-- The process has not ended with success, and that is not the pool's doing. -/
def HasFailed (l : Lane) : Prop := l.process = .ended false ∨ l.process = .died

end Lane

/-- A step of one of several lanes. -/
inductive LanesStep (fetch : String → Except Error Descriptor) :
    List Lane → List Lane → List (Except Error Descriptor) → Prop where
  /-- The first lane takes the step. -/
  | head {lane lane' : Lane} {lanes : List Lane} {put : List (Except Error Descriptor)}
      (h : Lane.Step fetch lane lane' put) : LanesStep fetch (lane :: lanes) (lane' :: lanes) put
  /-- One of the other lanes takes the step. -/
  | tail {lane : Lane} {lanes lanes' : List Lane} {put : List (Except Error Descriptor)}
      (h : LanesStep fetch lanes lanes' put) : LanesStep fetch (lane :: lanes) (lane :: lanes') put

/-- All lanes before and after their processes are told to die. -/
inductive LanesKill : List Lane → List Lane → Prop where
  /-- There are no lanes. -/
  | nil : LanesKill [] []
  /-- The first process is told, and all others are. -/
  | cons {lane lane' : Lane} {lanes lanes' : List Lane} (h : Lane.Kill lane lane')
      (t : LanesKill lanes lanes') : LanesKill (lane :: lanes) (lane' :: lanes')

/-! ## Exchanges -/

/-- All lanes, and what the pool has of them. -/
structure Exchange where
  /-- The lanes. -/
  lanes : List Lane
  /-- What is read and not yet taken. -/
  queue : List (Except Error Descriptor)
  /-- The descriptors that the pool has taken. -/
  taken : List Descriptor
  /-- The failure that the pool has taken, if there is one. -/
  verdict : Option Error

namespace Exchange

/-- The exchange for shares of identifiers, before anything happens. -/
def start (shares : List (List String)) : Exchange := ⟨shares.map Lane.start, [], [], none⟩

/-- A step of an exchange. -/
inductive Step (fetch : String → Except Error Descriptor) : Exchange → Exchange → Prop where
  /-- A lane takes a step. -/
  | lane {lanes lanes' : List Lane} {put : List (Except Error Descriptor)}
      (h : LanesStep fetch lanes lanes' put) (queue : List (Except Error Descriptor))
      (taken : List Descriptor) (verdict : Option Error) :
      Step fetch ⟨lanes, queue, taken, verdict⟩ ⟨lanes', queue ++ put, taken, verdict⟩
  /-- The pool takes a descriptor. -/
  | take (lanes : List Lane) (d : Descriptor) (queue : List (Except Error Descriptor))
      (taken : List Descriptor) :
      Step fetch ⟨lanes, .ok d :: queue, taken, none⟩ ⟨lanes, queue, taken ++ [d], none⟩
  /-- The pool takes a failure, kills all processes and takes nothing more. -/
  | abort {lanes lanes' : List Lane} (h : LanesKill lanes lanes') (e : Error)
      (queue : List (Except Error Descriptor)) (taken : List Descriptor) :
      Step fetch ⟨lanes, .error e :: queue, taken, none⟩ ⟨lanes', queue, taken, some e⟩

/-- The exchanges that steps lead to. -/
inductive Reaches (fetch : String → Except Error Descriptor) : Exchange → Exchange → Prop where
  /-- No step is taken. -/
  | refl (x : Exchange) : Reaches fetch x x
  /-- A step is taken after others. -/
  | snoc {x y z : Exchange} (run : Reaches fetch x y) (step : Step fetch y z) : Reaches fetch x z

/-- The result with which the pool leaves an exchange, once all lanes are quiet. -/
inductive Ends : Exchange → Except Error (List Descriptor) → Prop where
  /-- There is a verdict. -/
  | failed (lanes : List Lane) (e : Error) (queue : List (Except Error Descriptor))
      (taken : List Descriptor) (quiet : ∀ l ∈ lanes, l.IsQuiet) :
      Ends ⟨lanes, queue, taken, some e⟩ (.error e)
  /-- Everything is taken, and every process has ended with success. -/
  | complete (lanes : List Lane) (taken : List Descriptor) (quiet : ∀ l ∈ lanes, l.IsQuiet)
      (ended : ∀ l ∈ lanes, l.process = .ended true) : Ends ⟨lanes, [], taken, none⟩ (.ok taken)
  /-- Everything is taken, and the first process that has not ended with success has failed; those
  after it are not waited for. -/
  | badExit (before after : List Lane) (l : Lane) (taken : List Descriptor)
      (quiet : ∀ l' ∈ before ++ l :: after, l'.IsQuiet)
      (ended : ∀ l' ∈ before, l'.process = .ended true) (bad : l.HasFailed) :
      Ends ⟨before ++ l :: after, [], taken, none⟩ (.error (.worker .badExit))

/-- The results that a pool may come to for shares of identifiers, along with the exchanges that it
leaves. -/
def Yields (fetch : String → Except Error Descriptor) (shares : List (List String))
    (last : Exchange) (result : Except Error (List Descriptor)) : Prop :=
  Reaches fetch (start shares) last ∧ last.Ends result

end Exchange

end SignHash
