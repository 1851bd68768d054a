import SignHash.Source.Document
import SignHash.Source.Folder
import SignHash.Source.Keyspace

/-!
# Open sources

A handle is a source that has been opened. A document is read when it is opened and does not change
with its file; a folder answers with what the files hold when it is asked; a partition of a keyspace
holds what it was opened with and what is put in through it.
-/

namespace SignHash

/-- An open source. -/
inductive Handle where
  /-- A table in memory. -/
  | memory (table : Table)
  /-- What a document held when it was opened. -/
  | document (path : String) (table : Table)
  /-- A folder with a file for each descriptor. -/
  | folder (directory : String)
  /-- A partition of a keyspace. -/
  | keyspace (partition : Partition)
  deriving DecidableEq

namespace Handle

/-- What an open source answers, with the files as they are. -/
def source (files : FileTree) : Handle → Source
  | memory table => Source.ofTable table none
  | document path table => Source.ofTable table (some (.json path))
  | folder directory => DescriptorFolder.source files directory
  | keyspace partition => partition.source

/-- A document of descriptors, opened. -/
def openDocument (files : FileTree) (path : String) : Except Error Handle :=
  (DescriptorDocument.load files path).map (document path)

/-- A folder of descriptors, opened; it has to be there. -/
def openFolder (files : FileTree) (directory : String) : Except Error Handle :=
  if files.isFolder directory then .ok (folder directory)
  else .error (.configuration (.noFolder directory))

/-- A folder of descriptors, opened after it is made if it is not there, and the files with it. -/
def createFolder (files : FileTree) (directory : String) : Except Error Handle × FileTree :=
  match files.makeFolders directory with
  | (.error issue, files) => (.error (.io issue), files)
  | (.ok (), files) => (openFolder files directory, files)

/-- A partition of a keyspace, opened, and the files with its folder. -/
def openKeyspace (files : FileTree) (path name : String) : Except Stop Handle × FileTree :=
  let (partition, files) := Partition.ofPath files path name
  (partition.map keyspace, files)

/-- A configured source, opened, and the files after that. Only a keyspace changes them. -/
def ofConfig (files : FileTree) : SourceConfig → Except Stop Handle × FileTree
  | .json path => (orStop (openDocument files path), files)
  | .files directory => (orStop (openFolder files directory), files)
  | .keyspace path partition => openKeyspace files path partition

/-- An open source with descriptors put in it, one after the other up to the first that fails, and
the files after that. Documents are only written as a whole, so they stay as they are. -/
def insert (files : FileTree) (ds : List Descriptor) :
    Handle → Except Stop Unit × Handle × FileTree
  | memory table => (.ok (), memory (ds.foldl Table.insert table), files)
  | document path table => (.ok (), document path table, files)
  | folder directory =>
    let (ending, files) := DescriptorFolder.insertAll files directory ds
    (orStop ending, folder directory, files)
  | keyspace partition =>
    let (ending, partition, files) := partition.insert files ds
    (ending, keyspace partition, files)

end Handle

end SignHash
