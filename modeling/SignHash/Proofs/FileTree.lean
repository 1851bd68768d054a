import SignHash.Proofs.Fallible
import SignHash.Proofs.Utf8
import SignHash.Store.FileTree

/-!
# Files in a folder

A path with a name after it leads to that name in the folder at the path. So writing a file in a
folder is one change at one place, looking for another name in the folder finds what it found before,
and the names in the folder are those from before and the one that was written. Whatever the path, a
file that is written at it is found at it.
-/

namespace SignHash

namespace FileTree

/-! ## Places -/

theorem lookup_nodes_cons (place : Place) (node : Node) (nodes : List (Place × Node)) (other : Place) :
    ((place, node) :: nodes).lookup other =
      if other = place then some node else nodes.lookup other := by
  rw [List.lookup_cons]
  by_cases h : other = place
  · rw [if_pos h, beq_iff_eq.mpr h]
  · rw [if_neg h, beq_eq_false_iff_ne.mpr h]

theorem lookup_putNode (place : Place) (node : Node) (nodes : List (Place × Node)) (other : Place) :
    (putNode place node nodes).lookup other =
      if other = place then some node else nodes.lookup other := by
  induction nodes with
  | nil => exact lookup_nodes_cons place node [] other
  | cons e nodes ih =>
    obtain ⟨p, n⟩ := e
    rw [putNode]
    by_cases hp : p = place
    · subst hp
      rw [if_pos rfl, lookup_nodes_cons, lookup_nodes_cons]
      split <;> rfl
    · rw [if_neg hp, lookup_nodes_cons, lookup_nodes_cons, ih]
      by_cases h : other = p
      · subst h
        rw [if_pos rfl, if_neg hp, if_pos rfl]
      · rw [if_neg h, if_neg h]

/-- Putting something at a place changes that place only. -/
theorem get?_put (t : FileTree) (place : Place) (node : Node) (other : Place) :
    (t.put place node).get? other = if other = place then some node else t.get? other := by
  rw [get?, put, lookup_putNode]
  by_cases h : other = place
  · rw [if_pos h, if_pos h]
  · rw [if_neg h, if_neg h]
    rfl

/-! ## Paths with a name after them -/

/-- A name that a file can have: it does not lead elsewhere, and has no slash. -/
structure IsName (name : Name) : Prop where
  not_nil : name ≠ []
  no_slash : 47 ∉ name
  not_here : name ≠ here
  not_up : name ≠ up

theorem pieces_ne_nil (path : Bytes) : pieces path ≠ [] := by
  cases path with
  | nil => simp [pieces]
  | cons b path =>
    rw [pieces]
    split
    · simp
    · split <;> simp

theorem pieces_append_slash (path rest : Bytes) :
    pieces (path ++ 47 :: rest) = pieces path ++ pieces rest := by
  induction path with
  | nil =>
    cases h : pieces rest with
    | nil => exact absurd h (pieces_ne_nil rest)
    | cons piece more => simp [pieces, h]
  | cons b path ih =>
    rw [List.cons_append, pieces, pieces, ih]
    cases h : pieces path with
    | nil => exact absurd h (pieces_ne_nil path)
    | cons piece more => by_cases hb : b = 47 <;> simp [hb]

theorem pieces_of_notMem {name : Name} (h : 47 ∉ name) : pieces name = [name] := by
  induction name with
  | nil => rfl
  | cons b name ih =>
    obtain ⟨hb, hname⟩ := not_or.mp (mt List.mem_cons.mpr h)
    rw [pieces, ih hname]
    simp [Ne.symm hb]

theorem pathNames_of_isName {name : Name} (h : IsName name) : pathNames name = [name] := by
  rw [pathNames, pieces_of_notMem h.no_slash]
  simp [h.not_nil]

theorem pathNames_append_slash (path rest : Bytes) :
    pathNames (path ++ 47 :: rest) = pathNames path ++ pathNames rest := by
  rw [pathNames, pieces_append_slash, List.filter_append]
  rfl

/-- The bytes of a path with a name after it: there is one slash between them, unless the path is
empty. -/
theorem encode_join (path name : String) :
    Utf8.encode path = [] ∧ Utf8.encode (join path name) = Utf8.encode name ∨
    (∃ front, Utf8.encode path = front ++ [47] ∧
      Utf8.encode (join path name) = front ++ 47 :: Utf8.encode name) ∨
    Utf8.encode (join path name) = Utf8.encode path ++ 47 :: Utf8.encode name := by
  have hslash : Utf8.encode "/" = [47] := by decide
  rw [join]
  by_cases hempty : path.isEmpty = true
  · obtain rfl : path = "" := by simpa using hempty
    exact .inl ⟨rfl, by simp⟩
  · by_cases hends : path.endsWith "/" = true
    · obtain ⟨front, hfront⟩ : "/".toList <:+ path.toList := by
        simpa using String.Slice.endsWith_string_iff.mp hends
      have hpath : path = String.ofList front ++ "/" := by
        apply String.toList_inj.mp
        simp [← hfront]
      have hpathBytes : Utf8.encode path = Utf8.encode (String.ofList front) ++ [47] := by
        rw [hpath, Utf8.encode_append, hslash]
      exact .inr (.inl ⟨_, hpathBytes, by simp [hends, hpathBytes]⟩)
    · refine .inr (.inr ?_)
      simp [hempty, hends, hslash]

theorem notMem_encode_join {path name : String} {b : UInt8} (hpath : b ∉ Utf8.encode path)
    (hname : b ∉ Utf8.encode name) (hslash : b ≠ 47) : b ∉ Utf8.encode (join path name) := by
  rcases encode_join path name with ⟨-, hjoin⟩ | ⟨front, hfront, hjoin⟩ | hjoin
  · rwa [hjoin]
  · rw [hfront, List.mem_append, not_or] at hpath
    rw [hjoin]
    simp [hpath.1, hslash, hname]
  · rw [hjoin]
    simp [hpath, hslash, hname]

theorem length_encode_join_le (path name : String) :
    (Utf8.encode (join path name)).length ≤
      (Utf8.encode path).length + 1 + (Utf8.encode name).length := by
  rcases encode_join path name with ⟨hpath, hjoin⟩ | ⟨front, hpath, hjoin⟩ | hjoin
  · rw [hpath, hjoin]
    simp
  · rw [hpath, hjoin]
    simp
    omega
  · rw [hjoin]
    simp
    omega

/-- A name joined to a path is its last, however many slashes the path ends with. -/
theorem pathNames_join (path : String) {name : String} (h : IsName (Utf8.encode name)) :
    pathNames (Utf8.encode (join path name)) = pathNames (Utf8.encode path) ++ [Utf8.encode name] := by
  have hlast := pathNames_of_isName h
  rcases encode_join path name with ⟨hpath, hjoin⟩ | ⟨front, hpath, hjoin⟩ | hjoin
  · rw [hpath, hjoin, hlast]
    rfl
  · rw [hpath, hjoin, pathNames_append_slash, pathNames_append_slash, hlast]
    simp [pathNames, pieces]
  · rw [hjoin, pathNames_append_slash, hlast]

theorem asksForFolder_join (path : String) {name : String} (h : IsName (Utf8.encode name)) :
    asksForFolder (Utf8.encode (join path name)) = false := by
  obtain ⟨front, hfront⟩ : ∃ front, Utf8.encode (join path name) = front ++ Utf8.encode name := by
    rcases encode_join path name with ⟨-, hjoin⟩ | ⟨front, -, hjoin⟩ | hjoin
    · exact ⟨[], hjoin⟩
    · exact ⟨front ++ [47], by rw [hjoin, List.append_assoc]; rfl⟩
    · exact ⟨Utf8.encode path ++ [47], by rw [hjoin, List.append_assoc]; rfl⟩
  have hlast : (Utf8.encode name).getLast h.not_nil ≠ 47 :=
    fun hslash => h.no_slash (hslash ▸ List.getLast_mem h.not_nil)
  rw [asksForFolder, hfront, List.getLast?_append, List.getLast?_eq_some_getLast h.not_nil]
  simpa using hlast

/-! ## Following names -/

/-- A way is followed piece by piece. -/
theorem follow_append (t : FileTree) (place : Place) (names more : List Name) :
    t.follow place (names ++ more) = t.follow place names >>= fun q => t.follow q more := by
  induction names generalizing place with
  | nil => rfl
  | cons name names ih =>
    rw [List.cons_append, follow, follow]
    split
    · rfl
    · rfl
    · split
      · rfl
      · exact ih _

/-- A single dot stays in a folder, and fails at anything else. -/
theorem follow_here_eq_ok_iff {t : FileTree} {place q : Place} :
    t.follow place [here] = .ok q ↔ q = place ∧ ∃ keyspace, t.get? place = some (.folder keyspace) := by
  have hhere : ¬nameLimit < here.length := by decide
  rw [follow]
  cases t.get? place with
  | none => simp
  | some node =>
    cases node with
    | file content => simp
    | folder keyspace => simp [hhere, follow, enter, eq_comm]

/-- Names lead to a folder exactly if they lead to a place and a folder is there. -/
theorem folderAt_eq_ok_iff {t : FileTree} {names : List Name} {q : Place} :
    t.folderAt names = .ok q ↔
      t.follow [] names = .ok q ∧ ∃ keyspace, t.get? q = some (.folder keyspace) := by
  rw [folderAt, follow_append]
  simp only [bind_eq_ok_iff, follow_here_eq_ok_iff]
  constructor
  · rintro ⟨place, hplace, rfl, hfolder⟩
    exact ⟨hplace, hfolder⟩
  · rintro ⟨hplace, hfolder⟩
    exact ⟨q, hplace, rfl, hfolder⟩

/-- A path has a length that the system takes, and no null character. -/
theorem pathBytes_eq_ok_iff {path : String} {bytes : Bytes} :
    pathBytes path = .ok bytes ↔ bytes = Utf8.encode path ∧
      0 ∉ Utf8.encode path ∧ Utf8.encode path ≠ [] ∧ (Utf8.encode path).length ≤ pathLimit := by
  simp only [pathBytes, List.contains_iff_mem, List.isEmpty_iff]
  split
  · next h => simp [h]
  · next hzero =>
    split
    · next h => simp [h]
    · next hempty =>
      split
      · next h => simp [Nat.not_le.mpr h]
      · next h =>
        rw [Except.ok.injEq, eq_comm]
        exact ⟨fun heq => ⟨heq, hzero, hempty, Nat.not_lt.mp h⟩, And.left⟩

/-- A path leads to a folder exactly if it can be followed and its names do, whether or not it ends
with a slash. -/
theorem placeOf_folder_iff {t : FileTree} {path : String} {q : Place} :
    (t.placeOf path = .ok q ∧ ∃ keyspace, t.get? q = some (.folder keyspace)) ↔
      (∃ bytes, pathBytes path = .ok bytes) ∧
        t.folderAt (pathNames (Utf8.encode path)) = .ok q := by
  rw [placeOf]
  cases hbytes : pathBytes path with
  | error issue => simp [bind, Except.bind]
  | ok bytes =>
    obtain ⟨rfl, -⟩ := pathBytes_eq_ok_iff.mp hbytes
    simp only [bind, Except.bind, folderAt_eq_ok_iff, Except.ok.injEq, exists_eq', true_and]
    split
    · rw [folderAt_eq_ok_iff]
      exact ⟨And.left, fun h => ⟨h, h.2⟩⟩
    · exact Iff.rfl

theorem open?_eq_ok_iff {t : FileTree} {path : String} {node : Node} :
    t.open? path = .ok node ↔ ∃ place, t.placeOf path = .ok place ∧ t.get? place = some node := by
  simp only [open?, bind_eq_ok_iff]
  refine exists_congr fun place => and_congr_right fun _ => ?_
  cases t.get? place with
  | none => exact ⟨nofun, nofun⟩
  | some found =>
    constructor
    · intro h
      rw [Except.ok.inj h]
    · rintro ⟨⟩
      rfl

theorem contentAt_eq_ok_iff {t : FileTree} {path : String} {content : Bytes} :
    t.contentAt path = .ok content ↔ t.open? path = .ok (.file content) := by
  simp only [contentAt, bind_eq_ok_iff]
  constructor
  · rintro ⟨node, hopen, hcontent⟩
    cases node with
    | folder keyspace => cases hcontent
    | file old =>
      obtain rfl : old = content := Except.ok.inj hcontent
      exact hopen
  · exact fun hopen => ⟨_, hopen, rfl⟩

/-- The names in a folder are listed if the path to it can be followed. -/
theorem list_eq_ok_iff {t : FileTree} {path : String} {names : List Name} :
    t.list path = .ok names ↔ (∃ bytes, pathBytes path = .ok bytes) ∧
      ∃ q, t.folderAt (pathNames (Utf8.encode path)) = .ok q ∧ names = t.namesIn q := by
  simp only [list, bind_eq_ok_iff]
  constructor
  · rintro ⟨q, hplace, h⟩
    split at h
    · next keyspace hfolder =>
      obtain ⟨hbytes, hnames⟩ := placeOf_folder_iff.mp ⟨hplace, keyspace, hfolder⟩
      exact ⟨hbytes, q, hnames, (Except.ok.inj h).symm⟩
    · cases h
    · cases h
  · rintro ⟨hbytes, q, hnames, rfl⟩
    obtain ⟨hplace, keyspace, hfolder⟩ := placeOf_folder_iff.mpr ⟨hbytes, hnames⟩
    refine ⟨q, hplace, ?_⟩
    rw [hfolder]
    rfl

section Folder

variable {t : FileTree} {path : String} {q : Place} {name : String}
  (folder : t.folderAt (pathNames (Utf8.encode path)) = .ok q) (named : IsName (Utf8.encode name))
  (short : (Utf8.encode name).length ≤ nameLimit)

include folder named short

/-- A name in a folder is looked for at its place right below. -/
theorem open?_join :
    t.open? (join path name) = pathBytes (join path name) >>= fun _ =>
      match t.get? (q ++ [Utf8.encode name]) with
      | some node => .ok node
      | none => .error .notFound := by
  obtain ⟨hfollow, keyspace, hfolder⟩ := folderAt_eq_ok_iff.mp folder
  have hplace : t.follow [] (pathNames (Utf8.encode (join path name))) =
      .ok (q ++ [Utf8.encode name]) := by
    rw [pathNames_join path named, follow_append, hfollow]
    show t.follow q [Utf8.encode name] = _
    rw [follow, hfolder]
    simp only [if_neg (Nat.not_lt.mpr short), follow, enter, if_neg named.not_here,
      if_neg named.not_up]
  rw [open?, placeOf]
  cases hbytes : pathBytes (join path name) with
  | error issue => rfl
  | ok bytes =>
    obtain ⟨rfl, -⟩ := pathBytes_eq_ok_iff.mp hbytes
    simp only [bind, Except.bind, asksForFolder_join path named, hplace]
    rfl

/-- A file is written at its place right below the folder, unless a folder is there. -/
theorem writeFile_join (content : Bytes) :
    t.writeFile (join path name) content = pathBytes (join path name) >>= fun _ =>
      match t.get? (q ++ [Utf8.encode name]) with
      | some (.folder _) => .error .isADirectory
      | _ => .ok (t.put (q ++ [Utf8.encode name]) (.file content)) := by
  have hnew : t.newPlace (pathNames (Utf8.encode (join path name))) =
      .ok (some (q ++ [Utf8.encode name])) := by
    rw [newPlace, pathNames_join path named, List.dropLast_concat, folder, List.getLast?_concat]
    simp only [bind, Except.bind, if_neg (not_or.mpr ⟨named.not_here, named.not_up⟩),
      if_neg (Nat.not_lt.mpr short)]
    rfl
  rw [writeFile]
  cases hbytes : pathBytes (join path name) with
  | error issue => rfl
  | ok bytes =>
    obtain ⟨rfl, -⟩ := pathBytes_eq_ok_iff.mp hbytes
    simp only [bind, Except.bind, asksForFolder_join path named, hnew]
    cases t.get? (q ++ [Utf8.encode name]) with
    | none => rfl
    | some node => cases node <;> rfl

end Folder

/-- Where a file can be written in a folder, the folder is there. -/
theorem exists_folderAt_of_writeFile {t t' : FileTree} {path name : String} {content : Bytes}
    (named : IsName (Utf8.encode name)) (h : t.writeFile (join path name) content = .ok t') :
    ∃ q, t.folderAt (pathNames (Utf8.encode path)) = .ok q := by
  obtain ⟨bytes, hbytes, hwritten⟩ := bind_eq_ok_iff.mp h
  obtain ⟨rfl, -⟩ := pathBytes_eq_ok_iff.mp hbytes
  rw [asksForFolder_join path named, if_neg Bool.false_ne_true] at hwritten
  obtain ⟨place?, hplace, -⟩ := bind_eq_ok_iff.mp hwritten
  obtain ⟨q, hfolder, -⟩ := bind_eq_ok_iff.mp hplace
  rw [pathNames_join path named, List.dropLast_concat] at hfolder
  exact ⟨q, hfolder⟩

/-- What it takes to write a file in a folder, and what that changes. -/
theorem writeFile_join_eq_ok_iff {t t' : FileTree} {path name : String} {content : Bytes}
    (named : IsName (Utf8.encode name)) (short : (Utf8.encode name).length ≤ nameLimit) :
    t.writeFile (join path name) content = .ok t' ↔
      (∃ bytes, pathBytes (join path name) = .ok bytes) ∧
        ∃ q, t.folderAt (pathNames (Utf8.encode path)) = .ok q ∧
          (∀ keyspace, t.get? (q ++ [Utf8.encode name]) ≠ some (.folder keyspace)) ∧
          t' = t.put (q ++ [Utf8.encode name]) (.file content) := by
  constructor
  · intro h
    obtain ⟨q, folder⟩ := exists_folderAt_of_writeFile named h
    rw [writeFile_join folder named short] at h
    obtain ⟨bytes, hbytes, hwritten⟩ := bind_eq_ok_iff.mp h
    refine ⟨⟨bytes, hbytes⟩, q, folder, ?_⟩
    split at hwritten
    · cases hwritten
    · next hfree => exact ⟨hfree, (Except.ok.inj hwritten).symm⟩
  · rintro ⟨⟨bytes, hbytes⟩, q, folder, hfree, rfl⟩
    rw [writeFile_join folder named short]
    exact bind_eq_ok_iff.mpr ⟨bytes, hbytes, by simp only⟩

/-! ## After a change -/

/-- Ways are not cut by something put where no folder is. -/
theorem follow_put {t : FileTree} {place : Place} (node : Node)
    (free : ∀ keyspace, t.get? place ≠ some (.folder keyspace)) {start q : Place}
    {names : List Name} (h : t.follow start names = .ok q) :
    (t.put place node).follow start names = .ok q := by
  induction names generalizing start with
  | nil => exact h
  | cons name names ih =>
    rw [follow] at h ⊢
    cases hstart : t.get? start with
    | none => simp [hstart] at h
    | some here =>
      cases here with
      | file content => simp [hstart] at h
      | folder keyspace =>
        have hne : start ≠ place := fun heq => free keyspace (heq ▸ hstart)
        rw [get?_put, if_neg hne, hstart]
        rw [hstart] at h
        simp only at h ⊢
        split at h
        · cases h
        · next hlong =>
          rw [if_neg hlong]
          exact ih h

/-- Folders stay where they are when something is put where no folder is. -/
theorem folderAt_put {t : FileTree} {place : Place} (node : Node)
    (free : ∀ keyspace, t.get? place ≠ some (.folder keyspace)) {q : Place} {names : List Name}
    (h : t.folderAt names = .ok q) : (t.put place node).folderAt names = .ok q :=
  follow_put node free h

/-- A new place comes last, and one that is there keeps its turn. -/
theorem map_fst_putNode (place : Place) (node : Node) (nodes : List (Place × Node)) :
    (putNode place node nodes).map (·.1) =
      if place ∈ nodes.map (·.1) then nodes.map (·.1) else nodes.map (·.1) ++ [place] := by
  induction nodes with
  | nil => rfl
  | cons e nodes ih =>
    obtain ⟨p, n⟩ := e
    rw [putNode]
    by_cases hp : p = place
    · simp [hp]
    · rw [if_neg hp, List.map_cons, ih]
      by_cases hmem : place ∈ nodes.map (·.1)
      · rw [if_pos hmem, List.map_cons, if_pos (List.mem_cons_of_mem p hmem)]
      · rw [if_neg hmem, List.map_cons, if_neg (by simp [Ne.symm hp, hmem])]
        rfl

/-- The name right below a place that leads to another place, if one does. -/
def nameBelow? (place other : Place) : Option Name :=
  match other.getLast? with
  | some name => if other.dropLast = place then some name else none
  | none => none

theorem nameBelow?_eq_some_iff {place other : Place} {name : Name} :
    nameBelow? place other = some name ↔ other = place ++ [name] := by
  rcases List.eq_nil_or_concat other with rfl | ⟨front, last, rfl⟩
  · simp [nameBelow?]
  · rw [nameBelow?, List.concat_eq_append, List.getLast?_concat, List.dropLast_concat]
    by_cases h : front = place <;> simp [h]

theorem namesIn_eq_filterMap (t : FileTree) (place : Place) :
    t.namesIn place = (t.nodes.map (·.1)).filterMap (nameBelow? place) := by
  rw [List.filterMap_map]
  rfl

/-- A folder lists what stands directly below it. -/
theorem mem_namesIn_iff {t : FileTree} {place : Place} {name : Name} :
    name ∈ t.namesIn place ↔ place ++ [name] ∈ t.nodes.map (·.1) := by
  rw [namesIn_eq_filterMap, List.mem_filterMap]
  constructor
  · rintro ⟨other, hother, hname⟩
    exact nameBelow?_eq_some_iff.mp hname ▸ hother
  · intro h
    exact ⟨_, h, nameBelow?_eq_some_iff.mpr rfl⟩

/-- The names in a folder after something is put in it: a new name comes last. -/
theorem namesIn_put (t : FileTree) (place : Place) (name : Name) (node : Node) :
    (t.put (place ++ [name]) node).namesIn place =
      if name ∈ t.namesIn place then t.namesIn place else t.namesIn place ++ [name] := by
  have hname : nameBelow? place (place ++ [name]) = some name := nameBelow?_eq_some_iff.mpr rfl
  rw [namesIn_eq_filterMap, put, map_fst_putNode]
  by_cases h : name ∈ t.namesIn place
  · rw [if_pos h, if_pos (mem_namesIn_iff.mp h), namesIn_eq_filterMap]
  · rw [if_neg h, if_neg (mt mem_namesIn_iff.mpr h), List.filterMap_append, namesIn_eq_filterMap]
    simp [hname]

theorem get?_eq_none_iff {t : FileTree} {place : Place} {name : Name} :
    t.get? (place ++ [name]) = none ↔ name ∉ t.namesIn place := by
  have hlookup : t.get? (place ++ [name]) = t.nodes.lookup (place ++ [name]) := by
    rw [get?, if_neg (by simp)]
    cases t.nodes.lookup (place ++ [name]) <;> rfl
  rw [hlookup, List.lookup_eq_none_iff, mem_namesIn_iff, List.mem_map]
  simp only [bne_iff_ne, ne_eq, not_exists, not_and]
  exact ⟨fun h e he heq => h e he heq.symm, fun h e he heq => h e he heq.symm⟩

/-- What is not among the names in a folder is not in the folder. -/
theorem get?_eq_none_of_notMem {t : FileTree} {place : Place} {name : Name}
    (h : name ∉ t.namesIn place) : t.get? (place ++ [name]) = none :=
  get?_eq_none_iff.mpr h

/-! ## A file that is written -/

/-- Something new can be made under a proper name in a folder that is there. -/
theorem newPlace_eq_some_iff {t : FileTree} {names : List Name} {place : Place} :
    t.newPlace names = .ok (some place) ↔ ∃ front name q, names = front ++ [name] ∧
      name ≠ here ∧ name ≠ up ∧ name.length ≤ nameLimit ∧ t.folderAt front = .ok q ∧
        place = q ++ [name] := by
  rw [newPlace]
  rcases List.eq_nil_or_concat names with rfl | ⟨front, name, rfl⟩
  · have hnone : ¬∃ front name q, [] = front ++ [name] ∧ name ≠ here ∧ name ≠ up ∧
        name.length ≤ nameLimit ∧ t.folderAt front = .ok q ∧ place = q ++ [name] := by simp
    refine iff_of_false (fun h => ?_) hnone
    rw [List.dropLast_nil] at h
    cases hfolder : t.folderAt [] <;> rw [hfolder] at h <;> cases h
  · rw [List.concat_eq_append, List.dropLast_concat, List.getLast?_concat]
    constructor
    · intro h
      obtain ⟨q, hfolder, hplace⟩ := bind_eq_ok_iff.mp h
      simp only at hplace
      split at hplace
      · cases hplace
      · next hmoves =>
        split at hplace
        · cases hplace
        · next hlong =>
          obtain ⟨hhere, hup⟩ := not_or.mp hmoves
          obtain rfl := Option.some.inj (Except.ok.inj hplace)
          exact ⟨front, name, q, rfl, hhere, hup, Nat.not_lt.mp hlong, hfolder, rfl⟩
    · rintro ⟨front', name', q, hnames, hhere, hup, hshort, hfolder, rfl⟩
      obtain ⟨rfl, hname⟩ := List.append_inj' hnames rfl
      obtain rfl := List.singleton_inj.mp hname
      refine bind_eq_ok_iff.mpr ⟨q, hfolder, ?_⟩
      simp only [if_neg (not_or.mpr ⟨hhere, hup⟩), if_neg (Nat.not_lt.mpr hshort)]
      rfl

/-- Writing a file is one change at the place that the path leads to: below a folder, where no folder
is. -/
theorem exists_put_of_writeFile {t t' : FileTree} {path : String} {content : Bytes}
    (h : t.writeFile path content = .ok t') :
    (∃ bytes, pathBytes path = .ok bytes) ∧ asksForFolder (Utf8.encode path) = false ∧
      ∃ place, t.newPlace (pathNames (Utf8.encode path)) = .ok (some place) ∧
        (∀ keyspace, t.get? place ≠ some (.folder keyspace)) ∧ t' = t.put place (.file content) := by
  obtain ⟨bytes, hbytes, hwritten⟩ := bind_eq_ok_iff.mp h
  obtain ⟨rfl, -⟩ := pathBytes_eq_ok_iff.mp hbytes
  split at hwritten
  · obtain ⟨q, -, hthrown⟩ := bind_eq_ok_iff.mp hwritten
    cases hthrown
  · next hfile =>
    obtain ⟨place?, hplace, hput⟩ := bind_eq_ok_iff.mp hwritten
    cases place? with
    | none => cases hput
    | some place =>
      refine ⟨⟨_, hbytes⟩, by simpa using hfile, place, hplace, ?_⟩
      simp only at hput
      cases hnode : t.get? place with
      | none =>
        rw [hnode] at hput
        exact ⟨nofun, (Except.ok.inj hput).symm⟩
      | some node =>
        rw [hnode] at hput
        cases node with
        | file old => exact ⟨nofun, (Except.ok.inj hput).symm⟩
        | folder keyspace => cases hput

/-- The path that a file is written at leads to it. -/
theorem exists_placeOf_of_writeFile {t t' : FileTree} {path : String} {content : Bytes}
    (h : t.writeFile path content = .ok t') :
    ∃ place, t' = t.put place (.file content) ∧ t'.placeOf path = .ok place := by
  obtain ⟨⟨bytes, hbytes⟩, hfile, place, hnew, free, rfl⟩ := exists_put_of_writeFile h
  refine ⟨place, rfl, ?_⟩
  obtain ⟨front, name, q, hnames, hhere, hup, hshort, hfolder, rfl⟩ := newPlace_eq_some_iff.mp hnew
  obtain ⟨rfl, -⟩ := pathBytes_eq_ok_iff.mp hbytes
  obtain ⟨hfollow, keyspace, hq⟩ := folderAt_eq_ok_iff.mp (folderAt_put (.file content) free hfolder)
  have hplace : (t.put (q ++ [name]) (.file content)).follow [] (pathNames (Utf8.encode path)) =
      .ok (q ++ [name]) := by
    rw [hnames, follow_append, hfollow]
    show (t.put (q ++ [name]) (.file content)).follow q [name] = _
    rw [follow, hq]
    simp only [if_neg (Nat.not_lt.mpr hshort), follow, enter, if_neg hhere, if_neg hup]
  rw [placeOf, hbytes]
  simp only [bind, Except.bind, hfile, Bool.false_eq_true, if_false, hplace]

/-- A file that was written is found at the same path. -/
theorem open?_of_writeFile {t t' : FileTree} {path : String} {content : Bytes}
    (h : t.writeFile path content = .ok t') : t'.open? path = .ok (.file content) := by
  obtain ⟨place, rfl, hplace⟩ := exists_placeOf_of_writeFile h
  exact open?_eq_ok_iff.mpr ⟨place, hplace, by rw [get?_put, if_pos rfl]⟩

end FileTree

end SignHash
