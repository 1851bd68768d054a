import SignHash.Source.Basic
import SignHash.Store.FileTree

/-!
# Keyspaces

A keyspace is a folder with named partitions, each a table of descriptors. Opening a partition makes
the folder and the partition if they are not there. The names of a partition and of what is put in
it are promises of the caller.

What an open partition holds is what its keyspace kept when it was opened, and what has been put in
through it since. Others may have the same partition open; what they put in is kept beside it for
later openings, but not seen by it.
-/

namespace SignHash

/-- An open partition of a keyspace. -/
structure Partition where
  /-- The place of the keyspace. -/
  place : Place
  /-- The name of the partition. -/
  name : String
  /-- The descriptors that it holds. -/
  table : Table
  /-- The number of the next entry in the journal. -/
  next : Nat
  /-- Where the next entry is written; `none` if that is at the end. -/
  position : Option Nat
  /-- Whether it has been given a key that the storage does not take. -/
  broken : Bool
  deriving DecidableEq

namespace Partition

/-- Whether a character may be in the name of a partition. -/
def isNameChar (c : Char) : Bool :=
  c.isAlphanum || c = '_' || c = '-' || c = '#' || c = '$' || c = '.'

/-- Whether a text may be the name of a partition. -/
def isName (name : String) : Bool :=
  !name.isEmpty && Utf8.byteCount name ≤ 255 && name.toList.all isNameChar

/-- The longest key that the storage takes, in bytes. -/
def keyLimit : Nat := 65535

/-- The place of the keyspace at a path: two dots undo the name before them, whatever it leads to. -/
def keyspacePlace (path : String) : Place :=
  (FileTree.pathNames (Utf8.encode path)).foldl FileTree.enter []

/-! ## Opening -/

/-- A partition of the keyspace that is found at a place, opened, and what the keyspace keeps then.
An empty key among the entries stops the program. The name of one dot stands for the folder of all
partitions, whose own files are then in the way of the next opening; two dots stand for the keyspace
itself, which is no partition. -/
def openIn (place : Place) (known : Option Journal) (name : String) :
    Except Stop Partition × Journal :=
  let journal := (known.getD Journal.empty).found
  if journal.obstructed then (.error (.error .storage), journal)
  else if journal.entries.any (·.descriptor.id.isEmpty) then
    (.error (.fault .emptyKeyKept), journal)
  else if !isName name then (.error (.fault .partitionName), journal)
  else if name = ".." then (.error (.error .storage), journal)
  else
    let position := if known.isNone then some 0 else none
    (.ok ⟨place, name, journal.table name, journal.next, position, false⟩,
      { journal with obstructed := name = "." })

/-- A partition of the keyspace at a path, opened, and the files with its folder. The journal stands
for all that the storage keeps there: it has no files in the tree. -/
def ofPath (files : FileTree) (path name : String) : Except Stop Partition × FileTree :=
  let place := keyspacePlace path
  match files.makeFoldersTo place with
  | (.error _, files) => (.error (.error .storage), files)
  | (.ok (), files) =>
    match files.get? place with
    | some (.folder known) =>
      let (partition, journal) := openIn place known name
      (partition, files.put place (.folder (some journal)))
    | _ => (.error (.error .storage), files)

/-! ## Putting in -/

/-- The files with a stretch in the journal of the keyspace at a place. If the keyspace is gone, so
is what is written. -/
def keep (files : FileTree) (place : Place) (position : Option Nat) (s : Stretch) : FileTree :=
  match files.get? place with
  | some (.folder (some journal)) =>
    files.put place (.folder (some (journal.write position s)))
  | _ => files

/-- The stretch of a journal for a descriptor that is put in. The length of a key that is too long
is not written in full, so its entry is not found again. -/
def stretchOf (p : Partition) (d : Descriptor) : Stretch :=
  let entry : JournalEntry := ⟨p.name, d, p.next⟩
  ⟨entry.size, if Utf8.byteCount d.id ≤ keyLimit then some entry else none⟩

/-- A partition with descriptors put in, each instead of one with the same identifier, and the files
with its journal. The journal is written before the table; a key that the table does not take stops
the program and leaves the partition broken, so that nothing can be put in any more. -/
def insert (files : FileTree) (p : Partition) :
    List Descriptor → Except Stop Unit × Partition × FileTree
  | [] => (if p.broken then .error (.fault .brokenPartition) else .ok (), p, files)
  | d :: ds =>
    if p.broken then (.error (.fault .brokenPartition), p, files)
    else
      let stretch := p.stretchOf d
      let files := keep files p.place p.position stretch
      let next := { p with
        next := p.next + 1
        position := p.position.map (· + stretch.size) }
      if d.id.isEmpty ∨ keyLimit < Utf8.byteCount d.id then
        (.error (.fault .keyLength), { next with broken := true }, files)
      else insert files { next with table := p.table.insert d } ds

/-- The source of the descriptors in an open partition, which only one process may have open. -/
def source (p : Partition) : Source := Source.ofTable p.table none

end Partition

end SignHash
