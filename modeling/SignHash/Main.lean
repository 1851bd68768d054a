import SignHash.CommandLine.Run

/-!
# The program

The command line on a real file system. The files below the working folder are read into a tree, the
command runs on it, and the files that it has put there are written back; commands remove nothing.
What a keyspace keeps is not part of them, so it is lost between runs.
-/

namespace SignHash.Main

open CommandLine

/-- The text of a place as a path from the working folder. -/
def pathText (place : Place) : Option String :=
  (place.mapM Utf8.decode?).map fun names => "/".intercalate ("." :: names)

/-- Whether a command reads the standard input. -/
def readsInput : Command → Bool
  | .fetchWorker _ => true
  | _ => false

/-- What is below a folder of the file system; what cannot be read is left out. -/
partial def nodesBelow (place : Place) (path : String) : IO (List (Place × Node)) := do
  let entries ← (← IO.FS.realPath path).readDir
  let found ← entries.toList.mapM fun entry => do
    let inner := place ++ [Utf8.encode entry.fileName]
    if ← entry.path.isDir then
      return (inner, .folder none) :: (← nodesBelow inner entry.path.toString)
    else
      try
        let content ← IO.FS.readBinFile entry.path
        return [(inner, .file content.data.toList)]
      catch _ => return []
  return found.flatten

/-- All that comes from a stream. -/
partial def readAll (stream : IO.FS.Stream) : IO Bytes := do
  let block ← stream.read 65536
  if block.isEmpty then return []
  else return block.data.toList ++ (← readAll stream)

/-- The seed of sixty-four bits for a run that is given none. -/
def drawSeed : IO Nat := do
  return ofLittleEndian (← IO.getRandomBytes 8).data.toList

/-- Writes what is new or different in the second tree. -/
def writeBack (before after : FileTree) : IO Unit :=
  after.nodes.forM fun (place, node) => do
    if before.get? place ≠ some node then
      match pathText place, node with
      | some path, .folder _ => IO.FS.createDirAll path
      | some path, .file content => IO.FS.writeBinFile path ⟨content.toArray⟩
      | none, _ => return ()

/-- Runs the command that the arguments give, in the working folder. -/
def run (arguments : List String) : IO UInt32 := do
  let input ←
    if (parse? arguments).any readsInput then readAll (← IO.getStdin) else pure []
  let files : FileTree := ⟨← nodesBelow [] "."⟩
  let result := CommandLine.run files input (← drawSeed) arguments
  let output ← IO.getStdout
  output.write ⟨result.output.toArray⟩
  output.flush
  writeBack files result.files
  return UInt32.ofNat result.status

end SignHash.Main

/-- The command line. -/
def main (arguments : List String) : IO UInt32 := SignHash.Main.run arguments
