import SignHash.Decimal.Written
import SignHash.Text.Quoted
import SignHash.Utf8

/-!
# What can go wrong

An `Error` is the cause of a failed operation, grouped by the part of the work that it belongs to;
`Error.message` words it. A `Fault` is a broken promise of the caller, which stops the program
instead of failing an operation. `Stop` is either.
-/

namespace SignHash

/-! ## Causes -/

/-- What is wrong with a setting. -/
inductive ConfigurationIssue where
  /-- Codes of no bits are asked for. -/
  | noBits
  /-- No iterations are allowed. -/
  | noIterations
  /-- The tolerance is negative or not a number. -/
  | badTolerance
  /-- A pool of no workers is asked for. -/
  | noWorkers
  /-- A training configuration asks for no workers. -/
  | noWorkersSet
  /-- A text is not a training configuration. -/
  | malformed
  /-- The configuration file at `path` cannot be read as text. -/
  | unreadable (path : String)
  /-- The file at `path` is not a document of descriptors. -/
  | malformedDescriptors (path : String)
  /-- There is no folder at `path`. -/
  | noFolder (path : String)
  /-- There is no identifier list at `path`. -/
  | noList (path : String)
  /-- Worker processes cannot open the source. -/
  | notShareable
  /-- More bits are asked for than the descriptors have dimensions. -/
  | tooManyBits (bits dimension : Nat)
  deriving DecidableEq, Repr

/-- Why a corpus does not determine a model. -/
inductive DataIssue where
  /-- There are no descriptors. -/
  | emptyCorpus
  /-- There are fewer descriptors than bits. -/
  | tooFew (descriptors bits : Nat)
  /-- The descriptors vary in fewer directions than there are bits. -/
  | lowRank (bits : Nat)
  deriving DecidableEq, Repr

/-- What is wrong with a code or a descriptor. -/
inductive ValidationIssue where
  /-- A code of `length` bits is written with `needed` digits. -/
  | digitCount (length needed given : Nat)
  /-- A byte of the digits is no digit. -/
  | notHexadecimal (digits : String) (byte : UInt8) (position : Nat)
  /-- Bits beyond the end of the code are set. -/
  | strayBits (digits : String) (length : Nat)
  /-- A number takes more bits than the code has. -/
  | doesNotFit (value length : Nat)
  /-- Two codes of different lengths are compared. -/
  | differentLengths (left right : Nat)
  /-- A descriptor has another dimension than the first one. -/
  | dimensions (id : String) (given expected : Nat)
  /-- A descriptor has a component that is not finite. -/
  | nonFinite (id : String)
  /-- As many components as the model's dimension are needed. -/
  | componentCount (expected given : Nat)
  /-- A component to be hashed is not finite. -/
  | nonFiniteComponents
  /-- An issue with the components of a descriptor. -/
  | ofDescriptor (id : String) (issue : ValidationIssue)
  /-- An identifier is too long to be stored, with the number of bytes that are allowed. -/
  | longIdentifier (id : String) (limit : Nat)
  /-- What is stored for an identifier is no descriptor. -/
  | undecodable (id : String)
  /-- An identifier cannot be sent as a line. -/
  | lineBreak (id : String)
  deriving DecidableEq

/-- Why the parts of a model do not fit together. -/
inductive ModelIssue where
  /-- The number of bits is zero or exceeds the dimension. -/
  | bitLength (bits dimension : Nat)
  /-- A value of the model is not finite. -/
  | nonFinite
  /-- The rotation is this far from orthogonal. -/
  | rotation (distance : Double)
  /-- The projection is this far from having orthonormal columns. -/
  | projection (distance : Double)
  deriving DecidableEq

/-- Why bytes are not a model. -/
inductive PersistenceIssue where
  /-- They are not the compressed form of a record. -/
  | undecodable
  /-- The record does not start as models do. -/
  | notAModel
  /-- The record has another version. -/
  | version (number : Nat)
  /-- The record's parts have other sizes than it declares. -/
  | shape (dimension bits : Nat)
  /-- The parts do not fit together. -/
  | inconsistent (issue : ModelIssue)
  /-- There is no file at `path`. -/
  | noModel (path : String)
  deriving DecidableEq

/-- How a worker process lets its parent down. -/
inductive WorkerIssue where
  /-- It stops before it has sent all its replies. -/
  | stoppedReplying
  /-- It exits without success. -/
  | badExit
  /-- It could not fetch a descriptor, for a reason other than its absence. -/
  | fetchFailed (id message : String)
  deriving DecidableEq, Repr

/-- Why the file system refuses an operation. -/
inductive IoIssue where
  /-- Nothing is there. -/
  | notFound
  /-- A folder is to be made where a file is. -/
  | alreadyExists
  /-- A folder is, or is asked for, where a file is needed. -/
  | isADirectory
  /-- A file is where a folder is needed. -/
  | notADirectory
  /-- A name or a path is too long. -/
  | invalidFilename
  /-- A path has a null character. -/
  | invalidInput
  /-- A content is not text. -/
  | invalidData
  deriving DecidableEq, Repr

/-- The cause of a failed operation. -/
inductive Error where
  /-- A setting is wrong. -/
  | configuration (issue : ConfigurationIssue)
  /-- A corpus does not determine a model. -/
  | insufficientData (issue : DataIssue)
  /-- A source does not hold the identifier. -/
  | lookup (id : String)
  /-- A code or a descriptor is wrong. -/
  | validation (issue : ValidationIssue)
  /-- A model cannot be stored or restored. -/
  | persistence (issue : PersistenceIssue)
  /-- A worker process lets its parent down. -/
  | worker (issue : WorkerIssue)
  /-- The file system refuses an operation. -/
  | io (issue : IoIssue)
  /-- The storage engine of a keyspace fails. -/
  | storage
  deriving DecidableEq

/-- A promise that a caller has broken. -/
inductive Fault where
  /-- A bit is read that the code has no byte for. -/
  | bitOutOfRange
  /-- Codes of one length are compared that have different numbers of bytes. -/
  | byteCounts
  /-- More iterations are allowed than a trace has room for. -/
  | traceCapacity
  /-- A partition name is empty, too long, or has a character that is not allowed. -/
  | partitionName
  /-- A partition is given a key that is empty or too long. -/
  | keyLength
  /-- A partition is given something after it was given a key that it does not take. -/
  | brokenPartition
  /-- A keyspace is opened that keeps an entry with an empty key. -/
  | emptyKeyKept
  deriving DecidableEq, Repr

/-- Why a computation ends without a result. -/
inductive Stop where
  /-- An operation fails. -/
  | error (cause : Error)
  /-- A promise is broken. -/
  | fault (cause : Fault)
  deriving DecidableEq

/-- The result of a computation that does not fault, where others may. -/
def orStop {α : Type} : Except Error α → Except Stop α
  | .ok a => .ok a
  | .error e => .error (.error e)

/-! ## Wording -/

/-- The wording of a setting's issue. -/
def ConfigurationIssue.message : ConfigurationIssue → String
  | .noBits => "bit_length must be a positive integer"
  | .noIterations => "max_iterations must be a positive integer"
  | .badTolerance => "convergence_tolerance must be a non-negative number"
  | .noWorkers => "worker_count must be a positive integer"
  | .noWorkersSet => "parallel.worker_count must be a positive integer"
  | .malformed => "invalid configuration: not a training configuration in JSON"
  | .unreadable path => "could not read " ++ path ++ ": not a readable text file"
  | .malformedDescriptors path =>
    "could not read descriptors from " ++ path ++ ": not a document of descriptors"
  | .noFolder path => "descriptor directory " ++ path ++ " does not exist"
  | .noList path => "identifier list " ++ path ++ " does not exist"
  | .notShareable =>
    "this descriptor source cannot be opened by worker processes; " ++ "disable use_process_workers"
  | .tooManyBits bits dimension =>
    s!"cannot produce {bits}-bit codes from {dimension}-dimensional descriptors"

/-- The wording of a corpus's issue. -/
def DataIssue.message : DataIssue → String
  | .emptyCorpus => "the training corpus is empty"
  | .tooFew descriptors bits => s!"{descriptors} descriptors are too few to fit {bits}-bit codes"
  | .lowRank bits => s!"the covariance of the corpus has rank below {bits}"

/-- The wording of an issue with a code or a descriptor. -/
def ValidationIssue.message : ValidationIssue → String
  | .digitCount length needed given =>
    s!"a {length}-bit code needs {needed} hexadecimal digits, got {given}"
  | .notHexadecimal digits byte position =>
    "'" ++ digits ++ "' is not hexadecimal: Invalid character " ++
      Text.quotedChar (Char.ofNat byte.toNat) ++ s!" at position {position}"
  | .strayBits digits length =>
    "'" ++ digits ++ s!"' sets bits beyond the end of a {length}-bit code"
  | .doesNotFit value length => s!"{value} does not fit in a {length}-bit code"
  | .differentLengths left right => s!"cannot compare a {left}-bit code with a {right}-bit code"
  | .dimensions id given expected =>
    "descriptor '" ++ id ++ s!"' has {given} dimensions, expected {expected}"
  | .nonFinite id => "descriptor '" ++ id ++ "' contains non-finite values"
  | .componentCount expected given => s!"expected {expected} components, got {given}"
  | .nonFiniteComponents => "cannot hash non-finite components"
  | .ofDescriptor id issue => "descriptor '" ++ id ++ "': " ++ issue.message
  | .longIdentifier id limit => "identifier '" ++ id ++ s!"' is longer than {limit} bytes"
  | .undecodable id =>
    "descriptor '" ++ id ++ "' could not be decoded: not a compressed list of components"
  | .lineBreak id => "identifier " ++ Text.quoted id ++ " contains a line break"

/-- The wording of a model's issue. -/
def ModelIssue.message : ModelIssue → String
  | .bitLength bits dimension => s!"bit length {bits} is not between 1 and {dimension}"
  | .nonFinite => "model contains non-finite values"
  | .rotation distance =>
    "rotation is not orthogonal (‖RᵀR − I‖ = " ++ Decimal.messageText distance ++ ")"
  | .projection distance =>
    "projection columns are not orthonormal (‖PᵀP − I‖ = " ++ Decimal.messageText distance ++ ")"

/-- The wording of an issue with the bytes of a model. -/
def PersistenceIssue.message : PersistenceIssue → String
  | .undecodable => "could not decode model: not a compressed model record"
  | .notAModel => "not an ITQ model"
  | .version number => s!"unsupported model format version {number}"
  | .shape dimension bits =>
    s!"model parts do not match its declared shape (d = {dimension}, k = {bits})"
  | .inconsistent issue => "inconsistent model: " ++ issue.message
  | .noModel path => "no model at " ++ path

/-- The wording of an issue with a worker process. -/
def WorkerIssue.message : WorkerIssue → String
  | .stoppedReplying => "worker process stopped replying"
  | .badExit => "worker process exited without success"
  | .fetchFailed id message => "fetching '" ++ id ++ "' failed: " ++ message

/-- The wording of the file system's refusals. -/
def IoIssue.message : IoIssue → String
  | .notFound => "No such file or directory (os error 2)"
  | .alreadyExists => "File exists (os error 17)"
  | .isADirectory => "Is a directory (os error 21)"
  | .notADirectory => "Not a directory (os error 20)"
  | .invalidFilename => "File name too long (os error 36)"
  | .invalidInput => "file name contained an unexpected NUL byte"
  | .invalidData => "stream did not contain valid UTF-8"

/-- The wording of a failure. -/
def Error.message : Error → String
  | .configuration issue => "configuration error: " ++ issue.message
  | .insufficientData issue => "insufficient data: " ++ issue.message
  | .lookup id => "descriptor not found: " ++ id
  | .validation issue => "validation error: " ++ issue.message
  | .persistence issue => "persistence error: " ++ issue.message
  | .worker issue => "worker error: " ++ issue.message
  | .io issue => issue.message
  | .storage => "the storage engine failed"

end SignHash
