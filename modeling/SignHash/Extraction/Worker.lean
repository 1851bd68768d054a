import SignHash.Source.Handle
import SignHash.Text.Lines
import SignHash.Wire.Reply

/-!
# Workers

A worker reads identifiers, one on each line, and replies to each in turn. After the first reply
that is not a descriptor it reads no more.
-/

namespace SignHash

/-- The reply to a request. -/
def replyTo (fetch : String → Except Error Descriptor) (id : String) : Reply :=
  match fetch id with
  | .ok d => .fetched d
  | .error (.lookup missing) => .missing missing
  | .error e => .failed id e.message

/-- The replies to the requests on lines, and how the service ends. -/
def serveLines (fetch : String → Except Error Descriptor) :
    List Bytes → List Reply × Except Error Unit
  | [] => ([], .ok ())
  | line :: rest =>
    match Utf8.decode? line with
    | none => ([], .error (.io .invalidData))
    | some id =>
      let reply := replyTo fetch id
      if reply.isFetched then
        let (replies, ending) := serveLines fetch rest
        (reply :: replies, ending)
      else ([reply], .ok ())

/-- The bytes that a worker writes for the requests that it reads, and how the service ends. -/
def serve (fetch : String → Except Error Descriptor) (requests : Bytes) :
    Bytes × Except Error Unit :=
  let (replies, ending) := serveLines fetch (Text.lines requests)
  (replies.flatMap Reply.write, ending)

/-! ## Programs -/

/-- What a process has done when it has ended. -/
structure Outcome where
  /-- What it has written. -/
  output : Bytes
  /-- Whether it ended with success. -/
  success : Bool

/-- A program that is launched to work: how to open the source and what is sent to it determine the
outcome, unless it cannot be launched. -/
abbrev Program := SourceConfig → Bytes → Except IoIssue Outcome

/-- The program whose workers open the source on their own and serve it. -/
def workerProgram (files : FileTree) : Program := fun config requests =>
  match (Handle.ofConfig files config).1 with
  | .error _ => .ok ⟨[], false⟩
  | .ok handle =>
    let (output, ending) := serve (handle.source files).fetch requests
    .ok ⟨output, ending.isOk⟩

end SignHash
