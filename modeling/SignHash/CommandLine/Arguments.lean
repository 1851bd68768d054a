import SignHash.Extraction.Pool

/-!
# Command lines

The first argument is the command, and the others are its options, each with a value: `--name
value`, `--name=value`, and for a letter `-n value`, `-nvalue` or `-n=value`. No option is given
twice, and there are no other arguments.
-/

namespace SignHash.CommandLine

/-- What the program is asked to do. -/
inductive Command where
  /-- Train as the file at `config` says, with another seed or number of workers if given. -/
  | train (config : String) (seed workers : Option Nat)
  /-- Write the configuration that holds if nothing is said, to a file if one is given. -/
  | defaultConfig (output : Option String)
  /-- Write the codes of descriptors, all of a source or those of a list. -/
  | hash (model source : String) (ids : Option String)
  /-- Serve a source, given by its configuration in JSON. -/
  | fetchWorker (source : String)
  deriving DecidableEq, Repr

/-- An option of a command. -/
structure Flag where
  /-- Its name, after two dashes. -/
  name : String
  /-- Its letter, after one dash, if it has one. -/
  letter : Option Char
  deriving DecidableEq, Repr

/-- A text with a value after an equals sign, if there is one. -/
def splitEquals (cs : List Char) : List Char × Option (List Char) :=
  match cs.dropWhile (· != '=') with
  | [] => (cs, none)
  | _ :: value => (cs.takeWhile (· != '='), some value)

/-- Whether an argument is an option rather than a value: it starts with a dash and goes on. -/
def isOption (argument : String) : Bool :=
  match argument.toList with
  | '-' :: _ :: _ => true
  | _ => false

/-- The name of the option that an argument gives, and its value if the argument holds it too. -/
def optionOf? (flags : List Flag) (argument : String) : Option (String × Option String) :=
  match argument.toList with
  | '-' :: '-' :: rest =>
    let (name, value) := splitEquals rest
    (flags.find? fun f => f.name.toList == name).map fun f => (f.name, value.map String.ofList)
  | '-' :: letter :: rest =>
    (flags.find? fun f => f.letter == some letter).map fun f =>
      match rest with
      | [] => (f.name, none)
      | '=' :: value => (f.name, some (String.ofList value))
      | value => (f.name, some (String.ofList value))
  | _ => none

/-- The values of the options in arguments; two dashes alone end them. -/
def parseOptions (flags : List Flag) : List String → Option (List (String × String))
  | [] => some []
  | argument :: rest =>
    if argument = "--" then (if rest.isEmpty then some [] else none)
    else
      match optionOf? flags argument, rest with
      | none, _ => none
      | some (name, some value), rest => (parseOptions flags rest).map ((name, value) :: ·)
      | some (_, none), [] => none
      | some (name, none), value :: rest =>
        if isOption value then none else (parseOptions flags rest).map ((name, value) :: ·)

/-- Whether an option is given twice. -/
def hasRepeated : List (String × String) → Bool
  | [] => false
  | (name, _) :: rest => rest.any (·.1 == name) || hasRepeated rest

/-- A number of sixty-four bits, in decimal digits with perhaps a plus sign in front. -/
def word? (text : String) : Option Nat :=
  let digits := match text.toList with
    | '+' :: ds => ds
    | ds => ds
  let n := digits.foldl (fun n d => 10 * n + (d.toNat - 48)) 0
  if !digits.isEmpty && digits.all Char.isDigit && n < 0x10000000000000000 then some n else none

/-- A path, which is not empty. -/
def path? (text : String) : Option String := if text.isEmpty then none else some text

/-- The value of an option that may be left out; `none` if it is given but not well formed. -/
def valueOf? {α : Type} (read : String → Option α) (name : String)
    (options : List (String × String)) : Option (Option α) :=
  match options.lookup name with
  | none => some none
  | some text => (read text).map some

/-- The value of an option that has to be given. -/
def needed? {α : Type} (read : String → Option α) (name : String)
    (options : List (String × String)) : Option α :=
  (options.lookup name).bind read

/-- The options of each command. -/
def flagsOf? (command : String) : Option (List Flag) :=
  if command = "train" then some [⟨"config", 'c'⟩, ⟨"seed", none⟩, ⟨"workers", none⟩]
  else if command = "default-config" then some [⟨"output", 'o'⟩]
  else if command = "hash" then some [⟨"model", 'm'⟩, ⟨"source", 's'⟩, ⟨"ids", none⟩]
  else if command = "fetch-worker" then some [⟨"source", none⟩]
  else none

/-- The command with its options. -/
def commandOf? (command : String) (options : List (String × String)) : Option Command :=
  if command = "train" then do
    return .train (← needed? path? "config" options) (← valueOf? word? "seed" options)
      (← valueOf? word? "workers" options)
  else if command = "default-config" then do
    return .defaultConfig (← valueOf? path? "output" options)
  else if command = "hash" then do
    return .hash (← needed? path? "model" options) (← needed? path? "source" options)
      (← valueOf? path? "ids" options)
  else if command = "fetch-worker" then do
    return .fetchWorker (← needed? some "source" options)
  else none

/-- The command that arguments give; `none` if they are not well formed. -/
def parse? : List String → Option Command
  | [] => none
  | command :: arguments => do
    let options ← parseOptions (← flagsOf? command) arguments
    if hasRepeated options then none else commandOf? command options

end SignHash.CommandLine
