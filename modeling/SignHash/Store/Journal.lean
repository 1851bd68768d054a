import SignHash.Table

/-!
# Journals

A journal is what a keyspace keeps between one opening and the next: entries behind each other, each
a descriptor put in a partition, with a number that says which of two is the newer.

Several can write in one journal. Who started it goes on behind their own last entry, over what
others have written there since; all others write at the end. What is left of an entry that was
written over in part is no entry, and nothing behind it is found again.
-/

namespace SignHash

/-- A descriptor put in a partition. -/
structure JournalEntry where
  /-- The partition. -/
  partition : String
  /-- The descriptor. -/
  descriptor : Descriptor
  /-- The number of the entry; newer entries have greater ones. -/
  number : Nat
  deriving DecidableEq

/-- The bytes of a journal that an entry takes. -/
def JournalEntry.size (e : JournalEntry) : Nat :=
  44 + Utf8.byteCount e.partition + Utf8.byteCount e.descriptor.id + 8 * e.descriptor.dimension

/-- A stretch of a journal. -/
structure Stretch where
  /-- How many bytes it takes. -/
  size : Nat
  /-- The entry in it; `none` if there is none to be found. -/
  entry : Option JournalEntry
  deriving DecidableEq

/-- What a keyspace keeps. -/
structure Journal where
  /-- The stretches, in the order in which they lie. -/
  stretches : List Stretch
  /-- Whether the files of a partition lie where those of all partitions are looked for. -/
  obstructed : Bool
  deriving DecidableEq

namespace Journal

/-- The journal of a new keyspace. -/
def empty : Journal := ⟨[], false⟩

/-- The first so many bytes of stretches. -/
def front : Nat → List Stretch → List Stretch
  | _, [] => []
  | position, s :: rest =>
    if position = 0 then []
    else if s.size ≤ position then s :: front (position - s.size) rest
    else [⟨position, none⟩]

/-- What follows the first so many bytes of stretches. -/
def back : Nat → List Stretch → List Stretch
  | _, [] => []
  | position, s :: rest =>
    if position = 0 then s :: rest
    else if s.size ≤ position then back (position - s.size) rest
    else ⟨s.size - position, none⟩ :: rest

/-- The journal with a stretch written at a position, or at the end. -/
def write (j : Journal) (position : Option Nat) (s : Stretch) : Journal :=
  match position with
  | none => { j with stretches := j.stretches ++ [s] }
  | some position =>
    { j with
      stretches := front position j.stretches ++ s :: back (position + s.size) j.stretches }

/-- The journal as it is found: nothing after the first stretch without an entry. -/
def found (j : Journal) : Journal :=
  { j with stretches := j.stretches.takeWhile (·.entry.isSome) }

/-- The entries that are found. -/
def entries (j : Journal) : List JournalEntry := j.found.stretches.filterMap (·.entry)

/-- The number of the next entry. -/
def next (j : Journal) : Nat := j.entries.foldl (fun n e => max n (e.number + 1)) 0

/-- What a partition holds: the newest of the entries under each identifier, and the last of those
that are equally new. -/
def table (j : Journal) (partition : String) : Table :=
  let own := j.entries.filter fun e => e.partition = partition
  Table.ofList ((own.mergeSort fun a b => a.number ≤ b.number).map (·.descriptor))

end Journal

end SignHash
