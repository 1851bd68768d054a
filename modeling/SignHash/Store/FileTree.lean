import SignHash.Error
import SignHash.Store.Journal

/-!
# File trees

A file tree is what a program sees of its file system: files and folders at places, which are named
by the names on the way from the top. A path is a text that leads to a place, and following it may
fail on the way. The top is a folder that is always there.

A folder may also be a keyspace, whose own files are not part of the tree.
-/

namespace SignHash

/-- The name of a file or folder in its folder. -/
abbrev Name := Bytes

/-- The names on the way from the top of the tree. -/
abbrev Place := List Name

/-- What is at a place. -/
inductive Node where
  /-- A file with its content. -/
  | file (content : Bytes)
  /-- A folder, with what it keeps if it is a keyspace. -/
  | folder (keyspace : Option Journal)
  deriving DecidableEq

/-- Files and folders at places. -/
structure FileTree where
  /-- The nodes, each at its place. -/
  nodes : List (Place × Node)
  deriving DecidableEq

namespace FileTree

/-! ## Places -/

/-- The tree with nothing below the top. -/
def empty : FileTree := ⟨[]⟩

/-- What is at a place. -/
def get? (t : FileTree) (place : Place) : Option Node :=
  match t.nodes.lookup place with
  | some node => some node
  | none => if place = [] then some (.folder none) else none

/-- The nodes with one put at a place, instead of the one there. -/
def putNode (place : Place) (node : Node) : List (Place × Node) → List (Place × Node)
  | [] => [(place, node)]
  | (p, n) :: rest => if p = place then (p, node) :: rest else (p, n) :: putNode place node rest

/-- The tree with a node put at a place. -/
def put (t : FileTree) (place : Place) (node : Node) : FileTree := ⟨putNode place node t.nodes⟩

/-- The tree without what is at a place and below it. -/
def remove (t : FileTree) (place : Place) : FileTree :=
  ⟨t.nodes.filter fun e => e.1.take place.length ≠ place⟩

/-- The names of what is directly in the folder at a place. -/
def namesIn (t : FileTree) (place : Place) : List Name :=
  t.nodes.filterMap fun e =>
    match e.1.getLast? with
    | some name => if e.1.dropLast = place then some name else none
    | none => none

/-! ## Paths -/

/-- The longest name of a file or folder, in bytes. -/
def nameLimit : Nat := 255

/-- The longest path, in bytes. -/
def pathLimit : Nat := 4095

/-- The bytes of a path, if it can be followed at all. -/
def pathBytes (path : String) : Except IoIssue Bytes :=
  let bytes := Utf8.encode path
  if bytes.contains 0 then .error .invalidInput
  else if bytes.isEmpty then .error .notFound
  else if pathLimit < bytes.length then .error .invalidFilename
  else .ok bytes

/-- The pieces of a path between its slashes. -/
def pieces : Bytes → List Bytes
  | [] => [[]]
  | b :: rest =>
    match pieces rest with
    | [] => [[b]]
    | piece :: more => if b = 47 then [] :: piece :: more else (b :: piece) :: more

/-- The names in a path. -/
def pathNames (path : Bytes) : List Name := (pieces path).filter (!·.isEmpty)

/-- Whether a path ends with a slash, and so asks for a folder. -/
def asksForFolder (path : Bytes) : Bool := path.getLast? = some 47

/-- The name that stays in a folder. -/
def here : Name := [46]

/-- The name that goes up from a folder. -/
def up : Name := [46, 46]

/-- The place that a name leads to from a folder. -/
def enter (place : Place) (name : Name) : Place :=
  if name = here then place
  else if name = up then place.dropLast
  else place ++ [name]

/-- The place that names lead to. All places on the way have to be folders; what is at the end of
the way, if anything, is not looked at. -/
def follow (t : FileTree) : Place → List Name → Except IoIssue Place
  | place, [] => .ok place
  | place, name :: rest =>
    match t.get? place with
    | none => .error .notFound
    | some (.file _) => .error .notADirectory
    | some (.folder _) =>
      if nameLimit < name.length then .error .invalidFilename
      else follow t (enter place name) rest

/-- The place of the folder that names lead to. -/
def folderAt (t : FileTree) (names : List Name) : Except IoIssue Place :=
  t.follow [] (names ++ [here])

/-- The place that a path leads to. -/
def placeOf (t : FileTree) (path : String) : Except IoIssue Place := do
  let bytes ← pathBytes path
  if asksForFolder bytes then t.folderAt (pathNames bytes) else t.follow [] (pathNames bytes)

/-- The place for something new: the last of the names, in the folder that the names before it lead
to. It is `none` if the last name is none of its own, but stays in the folder or goes up. -/
def newPlace (t : FileTree) (names : List Name) : Except IoIssue (Option Place) := do
  let folder ← t.folderAt names.dropLast
  match names.getLast? with
  | none => return none
  | some name =>
    if name = here ∨ name = up then return none
    else if nameLimit < name.length then throw .invalidFilename
    else return some (folder ++ [name])

/-- A path with a name after it. -/
def join (path : String) (name : String) : String :=
  if path.isEmpty || path.endsWith "/" then path ++ name else path ++ "/" ++ name

/-! ## Looking -/

/-- What is at the end of a path. -/
def open? (t : FileTree) (path : String) : Except IoIssue Node := do
  match t.get? (← t.placeOf path) with
  | some node => return node
  | none => throw .notFound

/-- The content of a file. -/
def contentAt (t : FileTree) (path : String) : Except IoIssue Bytes := do
  match ← t.open? path with
  | .file content => return content
  | .folder _ => throw .isADirectory

/-- Whether a path leads to a folder. -/
def isFolder (t : FileTree) (path : String) : Bool :=
  match t.open? path with
  | .ok (.folder _) => true
  | _ => false

/-- The names of what is in the folder at the end of a path. -/
def list (t : FileTree) (path : String) : Except IoIssue (List Name) := do
  let place ← t.placeOf path
  match t.get? place with
  | some (.folder _) => return t.namesIn place
  | some (.file _) => throw .notADirectory
  | none => throw .notFound

/-! ## Changing -/

/-- The tree with a file of a content at the end of a path, instead of a file there. -/
def writeFile (t : FileTree) (path : String) (content : Bytes) : Except IoIssue FileTree := do
  let bytes ← pathBytes path
  let names := pathNames bytes
  if asksForFolder bytes then
    let _ ← t.folderAt names.dropLast
    throw .isADirectory
  else
    match ← t.newPlace names with
    | none => throw .isADirectory
    | some place =>
      match t.get? place with
      | some (.folder _) => throw .isADirectory
      | some (.file _) => return t.put place (.file content)
      | none => return t.put place (.file content)

/-- The tree with a folder at the end of names, which may be there already. -/
def makeFolder (t : FileTree) (names : List Name) : Except IoIssue FileTree := do
  match ← t.newPlace names with
  | none => return t
  | some place =>
    match t.get? place with
    | some (.folder _) => return t
    | some (.file _) => throw .alreadyExists
    | none => return t.put place (.folder none)

/-- The tree with a folder at the end of the first names. Where the folder around it is missing, one
is made at the end of the next names before. Folders that are made stay if a later one fails. -/
def makeFoldersAlong (t : FileTree) : List (List Name) → Except IoIssue Unit × FileTree
  | [] => (.ok (), t)
  | names :: around =>
    match t.makeFolder names with
    | .ok t => (.ok (), t)
    | .error .notFound =>
      match makeFoldersAlong t around with
      | (.error issue, t) => (.error issue, t)
      | (.ok (), t) =>
        match t.makeFolder names with
        | .ok t => (.ok (), t)
        | .error issue => (.error issue, t)
    | .error issue => (.error issue, t)

/-- The names to the folders around the end of names, the nearest first. -/
def namesAround (names : List Name) : List (List Name) :=
  ((List.range names.length).filter (0 < ·)).reverse.map names.take

/-- The tree with a folder at the end of a path, and all folders on the way to it. Dots on the way
are passed over, but one at the end asks for a folder that is there. -/
def makeFolders (t : FileTree) (path : String) : Except IoIssue Unit × FileTree :=
  if path.isEmpty then (.ok (), t)
  else
    match pathBytes path with
    | .error issue => (.error issue, t)
    | .ok bytes =>
      let names := pathNames bytes
      t.makeFoldersAlong (names :: namesAround (names.filter (· ≠ here)))

/-- The bytes of the path of names, each after a slash. -/
def pathLength (names : List Name) : Nat := names.foldl (fun n name => n + 1 + name.length) 0

/-- The tree with a folder at a place, and all folders on the way to it. -/
def makeFoldersTo (t : FileTree) (place : Place) : Except IoIssue Unit × FileTree :=
  if place.any (·.contains 0) then (.error .invalidInput, t)
  else if pathLimit < pathLength place then (.error .invalidFilename, t)
  else t.makeFoldersAlong (place :: namesAround place)

end FileTree

end SignHash
