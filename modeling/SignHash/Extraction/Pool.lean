import SignHash.Corpus
import SignHash.Extraction.Worker

/-!
# Pools of workers

Descriptors are fetched by a pool, in threads that share the source or in processes that each open
it on their own. A process gets a share of the identifiers, which follow each other in the list. The
first failure ends the work, and nothing is kept.
-/

namespace SignHash

/-! ## Shares -/

/-- How many identifiers a worker gets. -/
def shareSize (count workers : Nat) : Nat := (count + workers - 1) / workers

/-- A list cut into pieces of one size, the last one perhaps shorter; `fuel` pieces at most. -/
def chunks {α : Type} (size : Nat) : Nat → List α → List (List α)
  | 0, _ => []
  | _, [] => []
  | fuel + 1, items => items.take size :: chunks size fuel (items.drop size)

/-- The shares of the workers. -/
def shares (workers : Nat) (ids : List String) : List (List String) :=
  chunks (shareSize ids.length workers) ids.length ids

/-! ## Processes -/

/-- The requests for identifiers: each on a line. -/
def requestsFor (ids : List String) : Bytes := ids.flatMap fun id => Utf8.encode id ++ [10]

/-- What a reply says about the request that it answers. -/
def Reply.result : Reply → Except Error Descriptor
  | fetched d => .ok d
  | missing id => .error (.lookup id)
  | failed id message => .error (.worker (.fetchFailed id message))

/-- The descriptors in so many replies at the front of a byte string, or the failure in the first
that is none. -/
def readReplies : Nat → Bytes → Except Error (List Descriptor)
  | 0, _ => .ok []
  | expected + 1, bytes =>
    match Reply.read bytes with
    | some (reply, rest) => do return (← reply.result) :: (← readReplies expected rest)
    | none => .error (.worker .stoppedReplying)

/-- The outcomes of a program for shares, or the failure to launch it. -/
def launchAll (program : Program) (config : SourceConfig) (shares : List (List String)) :
    Except Error (List (List String × Outcome)) :=
  shares.mapM fun share =>
    match program config (requestsFor share) with
    | .ok outcome => .ok (share, outcome)
    | .error issue => .error (.io issue)

/-- Whether an identifier cannot be sent as a line. -/
def breaksLines (id : String) : Bool := id.toList.any fun c => c = '\n' || c = '\r'

/-- The descriptors that processes fetch. All replies have to be descriptors, then all processes
have to end with success. -/
def fetchInProcesses (program : Program) (workers : Nat) (config : SourceConfig)
    (ids : List String) : Except Error (List Descriptor) :=
  match ids.find? breaksLines with
  | some id => .error (.validation (.lineBreak id))
  | none => do
    let outcomes ← launchAll program config (shares workers ids)
    let fetched ← outcomes.mapM fun o => readReplies o.1.length o.2.output
    if outcomes.all (·.2.success) then return fetched.flatten
    else throw (.worker .badExit)

/-! ## Pools -/

/-- How descriptors are fetched. -/
structure ExtractionOptions where
  /-- The number of workers. -/
  workers : Nat
  /-- Whether they are processes. -/
  useProcesses : Bool
  deriving DecidableEq

/-- A pool of workers. -/
structure Pool where
  /-- The number of workers. -/
  workers : Nat
  /-- Whether they are processes. -/
  useProcesses : Bool
  /-- There is a worker. -/
  positive : 0 < workers

namespace Pool

/-- The most threads of a pool. -/
def threadLimit : Nat := 65535

/-- A pool of the size and kind that options ask for. -/
def ofOptions (o : ExtractionOptions) : Except Error Pool :=
  if h : 0 < o.workers then
    if o.useProcesses then .ok ⟨o.workers, true, h⟩
    else .ok ⟨min o.workers threadLimit, false, Nat.lt_min.mpr ⟨h, by decide⟩⟩
  else .error (.configuration .noWorkers)

/-- The descriptors of identifiers. -/
def fetchAll (pool : Pool) (program : Program) (source : Source) (ids : List String) :
    Except Error (List Descriptor) :=
  if pool.useProcesses then
    match source.shareable with
    | none => .error (.configuration .notShareable)
    | some config => fetchInProcesses program pool.workers config ids
  else ids.mapM source.fetch

end Pool

/-! ## Extraction -/

/-- The descriptors of identifiers, as a pool comes to deliver them. -/
abbrev Delivery := Pool → List String → Except Error (List Descriptor)

/-- The corpus of the descriptors that are delivered to a pool that options ask for. -/
def extractBy (deliver : Delivery) (o : ExtractionOptions) (ids : List String) :
    Except Error Corpus := do
  Corpus.ofList (← deliver (← Pool.ofOptions o) ids)

/-- The corpus of the descriptors of identifiers, fetched as options say. -/
def extract (o : ExtractionOptions) (program : Program) (source : Source) (ids : List String) :
    Except Error Corpus :=
  extractBy (fun pool => pool.fetchAll program source) o ids

end SignHash
