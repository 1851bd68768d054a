import Mathlib.Data.List.Induction
import Mathlib.Data.List.Nodup
import SignHash.Proofs.Corpus
import SignHash.Proofs.FileTree
import SignHash.Proofs.Frame
import SignHash.Proofs.Hex
import SignHash.Proofs.Wire
import SignHash.Source.Folder

/-!
# Folders as maps

The name of a descriptor's file determines the identifier, and the file the components. So a folder is
a map from identifiers: what is put in is found again, the last under each identifier, and nothing
else changes. The identifiers are listed from the names of the files, all but the empty one, whose
name is nothing but the ending.
-/

namespace SignHash.DescriptorFolder

open FileTree Wire

/-! ## Names of files -/

/-- The text that an identifier's file is named by. -/
def fileName (id : String) : String := Hex.encode (Utf8.encode id) ++ ending

/-- The name of an identifier's file. -/
def nameOf (id : String) : Name := Utf8.encode (fileName id)

theorem nameOf_eq (id : String) :
    nameOf id = Hex.digitBytes (Utf8.encode id) ++ [46, 108, 122, 52] := by
  rw [nameOf, fileName, Utf8.encode_append, Hex.encode_encode]
  rfl

theorem length_nameOf (id : String) : (nameOf id).length = 2 * Utf8.byteCount id + 4 := by
  rw [nameOf_eq, List.length_append, Hex.length_digitBytes, Utf8.length_encode]
  rfl

theorem nameOf_injective {a b : String} (h : nameOf a = nameOf b) : a = b := by
  rw [nameOf_eq, nameOf_eq] at h
  exact Utf8.encode_injective (Hex.digitBytes_injective (List.append_cancel_right h))

/-- A name is made of digits and the ending. -/
theorem notMem_nameOf {id : String} {b : UInt8} (digit : Hex.digitValue? b = none)
    (inside : b ∉ [46, 108, 122, 52]) : b ∉ nameOf id := by
  rw [nameOf_eq, List.mem_append, not_or]
  refine ⟨fun hmem => ?_, inside⟩
  obtain ⟨n, hn⟩ := Hex.exists_digitValue?_of_mem hmem
  rw [digit] at hn
  cases hn

theorem isName_nameOf (id : String) : IsName (nameOf id) := by
  have hlength := length_nameOf id
  constructor
  · exact List.ne_nil_of_length_pos (by omega)
  · exact notMem_nameOf (by decide) (by decide)
  · intro h
    rw [h] at hlength
    simp [here] at hlength
  · intro h
    rw [h] at hlength
    simp [up] at hlength

theorem fileName?_eq_some {id : String} (h : Utf8.byteCount id ≤ idLimit) :
    fileName? id = some (fileName id) := if_pos h

theorem fileName?_eq_none {id : String} (h : idLimit < Utf8.byteCount id) : fileName? id = none :=
  if_neg (Nat.not_le.mpr h)

theorem length_nameOf_le {id : String} (h : Utf8.byteCount id ≤ idLimit) :
    (nameOf id).length ≤ nameLimit := by
  have hlimit : idLimit = 125 := rfl
  rw [length_nameOf, nameLimit]
  omega

/-- The identifier is found in the name of its file, unless it is empty. -/
theorem idOfName?_nameOf (id : String) :
    idOfName? (nameOf id) = if id = "" then none else some id := by
  have hstem : (nameOf id).take ((nameOf id).length - (Utf8.encode ending).length) =
      Hex.digitBytes (Utf8.encode id) := by
    rw [nameOf_eq, List.length_append]
    exact List.take_left' rfl
  have hwhole : nameOf id = Hex.digitBytes (Utf8.encode id) ++ Utf8.encode ending := nameOf_eq id
  rw [idOfName?]
  simp only [hstem]
  by_cases h : id = ""
  · subst h
    rfl
  · have hne : Hex.digitBytes (Utf8.encode id) ≠ [] := by
      intro hnil
      exact h (Utf8.encode_injective (Hex.digitBytes_injective (b := []) hnil))
    rw [if_pos ⟨hwhole, hne⟩, Hex.decode_digitBytes, if_neg h]
    exact Utf8.decode?_encode id

/-! ## Files of descriptors -/

theorem componentsOf?_fileContent {components : List Double} (fits : ListFits components) :
    componentsOf? (fileContent components) = some components := by
  have hread := (decodes_readList decodes_readDouble).read_write (a := components)
    ⟨fits, fun _ _ => trivial⟩ []
  rw [List.append_nil] at hread
  rw [componentsOf?, fileContent, Frame.content_write, hread]
  rfl

/-- The path of an identifier's file is one that the file system takes, if the identifier is not too
long to have a file. -/
def HasRoom (directory id : String) : Prop :=
  Utf8.byteCount id ≤ idLimit →
    (Utf8.encode (join directory (fileName id))).length ≤ pathLimit

theorem open?_fileName {files : FileTree} {directory id : String} {q : Place}
    (folder : files.folderAt (pathNames (Utf8.encode directory)) = .ok q)
    (short : Utf8.byteCount id ≤ idLimit) :
    files.open? (join directory (fileName id)) = pathBytes (join directory (fileName id)) >>= fun _ =>
      match files.get? (q ++ [nameOf id]) with
      | some node => .ok node
      | none => .error .notFound :=
  open?_join folder (isName_nameOf id) (length_nameOf_le short)

/-- The path of an identifier's file in a folder that can be found is one that the file system takes,
unless it is too long. -/
theorem pathBytes_fileName {directory : String} (path : ∃ bytes, pathBytes directory = .ok bytes)
    (id : String) :
    pathBytes (join directory (fileName id)) =
      if (Utf8.encode (join directory (fileName id))).length ≤ pathLimit then
        .ok (Utf8.encode (join directory (fileName id)))
      else .error .invalidFilename := by
  have hname : 0 ∉ Utf8.encode (fileName id) := notMem_nameOf (by decide) (by decide)
  have hne : Utf8.encode (join directory (fileName id)) ≠ [] := by
    intro hnil
    have hnames := pathNames_join directory (isName_nameOf id)
    rw [hnil] at hnames
    exact absurd hnames (by simp [pathNames, pieces])
  obtain ⟨bytes, hbytes⟩ := path
  obtain ⟨-, hpath, -⟩ := pathBytes_eq_ok_iff.mp hbytes
  have hzero := notMem_encode_join hpath hname (by decide)
  split
  · next room => exact pathBytes_eq_ok_iff.mpr ⟨rfl, hzero, hne, room⟩
  · next long => simp [pathBytes, hzero, hne, Nat.not_le.mp long]

/-- Where the path of the folder leaves room for the longest name, there is room for all. -/
theorem hasRoom_of_le {directory : String} (h : Utf8.byteCount directory + 255 ≤ pathLimit)
    (id : String) : HasRoom directory id := by
  intro short
  have hjoin := length_encode_join_le directory (fileName id)
  have hname := length_nameOf id
  have hlimit : idLimit = 125 := rfl
  rw [nameOf] at hname
  rw [Utf8.length_encode directory] at hjoin
  omega

/-- A descriptor that is put in a folder becomes a file in it. -/
theorem insert_eq_ok_iff {files files' : FileTree} {directory : String} {d : Descriptor} :
    insert files directory d = .ok files' ↔ Utf8.byteCount d.id ≤ idLimit ∧
      (∃ bytes, pathBytes (join directory (fileName d.id)) = .ok bytes) ∧
        ∃ q, files.folderAt (pathNames (Utf8.encode directory)) = .ok q ∧
          (∀ keyspace, files.get? (q ++ [nameOf d.id]) ≠ some (.folder keyspace)) ∧
          files' = files.put (q ++ [nameOf d.id]) (.file (fileContent d.components)) := by
  by_cases hid : Utf8.byteCount d.id ≤ idLimit
  · have hwrite : files.writeFile (join directory (fileName d.id)) (fileContent d.components) =
        .ok files' ↔ _ := writeFile_join_eq_ok_iff (isName_nameOf d.id) (length_nameOf_le hid)
    refine Iff.trans ?_ (hwrite.trans (and_iff_right hid).symm)
    rw [insert, fileName?_eq_some hid]
    dsimp only
    split
    · next hok => rw [hok, Except.ok.injEq, Except.ok.injEq]
    · next hissue =>
      rw [hissue]
      exact ⟨fun h => (by cases h), fun h => (by cases h)⟩
  · rw [insert, fileName?_eq_none (Nat.not_le.mp hid)]
    simp [hid]

theorem insert_eq_error {directory : String} {d : Descriptor} (files : FileTree)
    (long : idLimit < Utf8.byteCount d.id) :
    insert files directory d = .error (.validation (.longIdentifier d.id idLimit)) := by
  rw [insert, fileName?_eq_none long]

theorem fetch_eq_error {directory id : String} (files : FileTree)
    (long : idLimit < Utf8.byteCount id) : fetch files directory id = .error (.lookup id) := by
  rw [fetch, fileName?_eq_none long]

theorem fetch_of_open? {files : FileTree} {directory id : String} {components : List Double}
    (short : Utf8.byteCount id ≤ idLimit) (fits : ListFits components)
    (hopen : files.open? (join directory (fileName id)) = .ok (.file (fileContent components))) :
    fetch files directory id = .ok ⟨id, components⟩ := by
  rw [fetch, fileName?_eq_some short]
  simp only [hopen, componentsOf?_fileContent fits]

/-- The identifiers that a folder with these names lists. -/
theorem exists_ids_of_list {files : FileTree} {directory : String} {names : List Name}
    (listing : files.list directory = .ok names) :
    ∃ listed, ids files directory = .ok listed ∧ listed.Perm (names.filterMap idOfName?) ∧
      listed.Pairwise fun a b => (idOrder a b).isLE = true := by
  refine ⟨(names.filterMap idOfName?).mergeSort fun a b => (idOrder a b).isLE, ?_,
    List.mergeSort_perm _ _,
    List.pairwise_mergeSort (fun _ _ _ => Std.TransCmp.isLE_trans) (isLE_total idOrder) _⟩
  rw [ids, listing]

/-- An identifier is missing exactly if the name of its file is not among the names. -/
theorem fetch_eq_lookup_iff {files : FileTree} {directory : String} {names : List Name}
    (listing : files.list directory = .ok names) {id missing : String}
    (short : Utf8.byteCount id ≤ idLimit) :
    fetch files directory id = .error (.lookup missing) ↔
      missing = id ∧ HasRoom directory id ∧ nameOf id ∉ names := by
  obtain ⟨path, q, folder, rfl⟩ := list_eq_ok_iff.mp listing
  rw [fetch, fileName?_eq_some short]
  simp only [open?_fileName folder short, pathBytes_fileName path]
  by_cases room : (Utf8.encode (join directory (fileName id))).length ≤ pathLimit
  · have hroom : HasRoom directory id := fun _ => room
    rw [if_pos room, ← get?_eq_none_iff]
    cases hnode : files.get? (q ++ [nameOf id]) with
    | none => simp [bind, Except.bind, hroom, eq_comm]
    | some node =>
      cases node with
      | file content => cases hread : componentsOf? content <;> simp [bind, Except.bind, hread]
      | folder keyspace => simp [bind, Except.bind]
  · have hroom : ¬HasRoom directory id := fun h => room (h short)
    rw [if_neg room]
    simp [bind, Except.bind, hroom]

/-! ## One insert -/

section Insert

variable {files files' : FileTree} {directory : String} {d : Descriptor}

/-- What is put in a folder is found there. -/
theorem fetch_insert_self (h : insert files directory d = .ok files') (fits : ListFits d.components) :
    fetch files' directory d.id = .ok d := by
  obtain ⟨hid, ⟨bytes, hbytes⟩, q, folder, free, rfl⟩ := insert_eq_ok_iff.mp h
  have hopen : (files.put (q ++ [nameOf d.id]) (.file (fileContent d.components))).open?
      (join directory (fileName d.id)) = .ok (.file (fileContent d.components)) := by
    rw [open?_fileName (folderAt_put _ free folder) hid, hbytes, get?_put, if_pos rfl]
    rfl
  exact fetch_of_open? hid fits hopen

/-- What is put in a folder does not change what is found under other identifiers. -/
theorem fetch_insert_of_ne (h : insert files directory d = .ok files') {id : String}
    (hne : id ≠ d.id) : fetch files' directory id = fetch files directory id := by
  obtain ⟨-, -, q, folder, free, rfl⟩ := insert_eq_ok_iff.mp h
  by_cases hid : Utf8.byteCount id ≤ idLimit
  · have hplace : q ++ [nameOf id] ≠ q ++ [nameOf d.id] := by
      intro heq
      exact hne (nameOf_injective (List.singleton_inj.mp (List.append_cancel_left heq)))
    have hopen : (files.put (q ++ [nameOf d.id]) (.file (fileContent d.components))).open?
        (join directory (fileName id)) = files.open? (join directory (fileName id)) := by
      rw [open?_fileName (folderAt_put _ free folder) hid, open?_fileName folder hid, get?_put,
        if_neg hplace]
    rw [fetch, fetch, fileName?_eq_some hid]
    simp only [hopen]
  · rw [fetch_eq_error _ (Nat.not_le.mp hid), fetch_eq_error _ (Nat.not_le.mp hid)]

end Insert

/-! ## Many inserts -/

/-- The files after descriptors are put in a folder one after the other, those that are refused
included. -/
def insertEach (directory : String) (files : FileTree) (ds : List Descriptor) : FileTree :=
  ds.foldl (fun files d => (insertAll files directory [d]).2) files

theorem insertAll_of_ok {files files' : FileTree} {directory : String} {d : Descriptor}
    (h : insert files directory d = .ok files') :
    insertAll files directory [d] = (.ok (), files') := by
  simp only [insertAll, h]

theorem insertAll_of_error {files : FileTree} {directory : String} {d : Descriptor} {e : Error}
    (h : insert files directory d = .error e) : insertAll files directory [d] = (.error e, files) := by
  simp only [insertAll, h]

theorem insertEach_concat (directory : String) (files : FileTree) (ds : List Descriptor)
    (d : Descriptor) : insertEach directory files (ds ++ [d]) =
      (insertAll (insertEach directory files ds) directory [d]).2 := by
  rw [insertEach, List.foldl_append]
  rfl

/-- A folder at a place that holds files for identifiers, and nothing else. -/
structure Holds (directory : String) (files : FileTree) (q : Place) (ids : List String) : Prop where
  path : ∃ bytes, pathBytes directory = .ok bytes
  folder : files.folderAt (pathNames (Utf8.encode directory)) = .ok q
  free : ∀ name keyspace, files.get? (q ++ [name]) ≠ some (.folder keyspace)
  names : ∃ held : List String,
    files.namesIn q = held.map nameOf ∧ held.Nodup ∧ ∀ id, id ∈ held ↔ id ∈ ids

theorem exists_holds_of_list {directory : String} {files : FileTree}
    (empty : files.list directory = .ok []) : ∃ q, Holds directory files q [] := by
  obtain ⟨path, q, folder, hnames⟩ := list_eq_ok_iff.mp empty
  refine ⟨q, path, folder, fun name keyspace => ?_, [], hnames.symm, List.nodup_nil, by simp⟩
  rw [get?_eq_none_of_notMem (by rw [← hnames]; exact List.not_mem_nil)]
  exact nofun

namespace Holds

variable {directory : String} {files : FileTree} {q : Place} {ids : List String}

theorem exists_pathBytes (h : Holds directory files q ids) {id : String}
    (short : Utf8.byteCount id ≤ idLimit) (room : HasRoom directory id) :
    ∃ bytes, pathBytes (join directory (fileName id)) = .ok bytes :=
  ⟨_, (pathBytes_fileName h.path id).trans (if_pos (room short))⟩

theorem insert (h : Holds directory files q ids) {d : Descriptor}
    (short : Utf8.byteCount d.id ≤ idLimit) (room : HasRoom directory d.id) :
    ∃ files', DescriptorFolder.insert files directory d = .ok files' ∧
      Holds directory files' q (ids ++ [d.id]) := by
  have free := h.free (nameOf d.id)
  refine ⟨_, insert_eq_ok_iff.mpr ⟨short, h.exists_pathBytes short room, q, h.folder, free, rfl⟩,
    h.path, folderAt_put _ free h.folder, fun name keyspace => ?_, ?_⟩
  · rw [get?_put]
    split
    · exact nofun
    · exact h.free name keyspace
  · obtain ⟨held, hheld, hnodup, hmem⟩ := h.names
    have hname : nameOf d.id ∈ files.namesIn q ↔ d.id ∈ held := by
      rw [hheld]
      exact List.mem_map_of_injective fun _ _ => nameOf_injective
    by_cases hd : d.id ∈ held
    · refine ⟨held, ?_, hnodup, fun id => ?_⟩
      · rw [namesIn_put, if_pos (hname.mpr hd), hheld]
      · rw [List.mem_append, List.mem_singleton, ← hmem]
        exact (or_iff_left_of_imp fun heq => heq ▸ hd).symm
    · refine ⟨held ++ [d.id], ?_, ?_, fun id => ?_⟩
      · rw [namesIn_put, if_neg (mt hname.mp hd), hheld, List.map_append]
        rfl
      · exact (List.concat_eq_append ..) ▸ hnodup.concat hd
      · simp [hmem]

theorem insertEach (h : Holds directory files q []) {ds : List Descriptor}
    (room : ∀ d ∈ ds, HasRoom directory d.id) :
    Holds directory (DescriptorFolder.insertEach directory files ds) q
      ((ds.filter fun d => Utf8.byteCount d.id ≤ idLimit).map (·.id)) := by
  induction ds using List.reverseRecOn with
  | nil => exact h
  | append_singleton ds d ih =>
    obtain ⟨hds, hd⟩ := List.forall_mem_append.mp room
    have hroom : HasRoom directory d.id := hd d List.mem_cons_self
    rw [insertEach_concat, List.filter_append, List.map_append]
    by_cases short : Utf8.byteCount d.id ≤ idLimit
    · obtain ⟨files', hinsert, hholds⟩ := (ih hds).insert short hroom
      rw [insertAll_of_ok hinsert, List.filter_cons_of_pos (by simpa using short)]
      exact hholds
    · rw [insertAll_of_error (insert_eq_error _ (Nat.not_le.mp short)),
        List.filter_cons_of_neg (by simpa using short), List.filter_nil, List.map_nil, List.append_nil]
      exact ih hds

theorem fetch_eq_lookup (h : Holds directory files q []) {id : String}
    (room : HasRoom directory id) : fetch files directory id = .error (.lookup id) := by
  by_cases short : Utf8.byteCount id ≤ idLimit
  · obtain ⟨held, hheld, -, hmem⟩ := h.names
    obtain rfl : held = [] := List.eq_nil_iff_forall_not_mem.mpr fun id hid =>
      absurd ((hmem id).mp hid) List.not_mem_nil
    refine (fetch_eq_lookup_iff (list_eq_ok_iff.mpr ⟨h.path, q, h.folder, rfl⟩) short).mpr
      ⟨rfl, room, ?_⟩
    rw [hheld]
    exact List.not_mem_nil
  · exact fetch_eq_error files (Nat.not_le.mp short)

/-- What is found after many inserts is what was last put in under the identifier. -/
theorem fetch_insertEach (h : Holds directory files q []) {ds : List Descriptor}
    (room : ∀ d ∈ ds, HasRoom directory d.id) (fits : ∀ d ∈ ds, ListFits d.components) {id : String}
    (hid : HasRoom directory id) :
    fetch (DescriptorFolder.insertEach directory files ds) directory id =
      match (ds.filter fun d => Utf8.byteCount d.id ≤ idLimit ∧ d.id = id).getLast? with
      | some d => .ok d
      | none => .error (.lookup id) := by
  induction ds using List.reverseRecOn with
  | nil => exact h.fetch_eq_lookup hid
  | append_singleton ds d ih =>
    obtain ⟨roomBefore, hroom⟩ := List.forall_mem_append.mp room
    obtain ⟨fitsBefore, hfits⟩ := List.forall_mem_append.mp fits
    have hbefore := ih roomBefore fitsBefore
    rw [insertEach_concat, List.filter_append]
    by_cases short : Utf8.byteCount d.id ≤ idLimit
    · obtain ⟨files', hinsert, -⟩ :=
        (h.insertEach roomBefore).insert short (hroom d List.mem_cons_self)
      rw [insertAll_of_ok hinsert]
      by_cases heq : d.id = id
      · subst heq
        rw [List.filter_cons_of_pos (by simpa using short), List.filter_nil, List.getLast?_concat]
        exact fetch_insert_self hinsert (hfits d List.mem_cons_self)
      · rw [List.filter_cons_of_neg (by simp [heq]), List.filter_nil, List.append_nil, ← hbefore]
        exact fetch_insert_of_ne hinsert (Ne.symm heq)
    · rw [insertAll_of_error (insert_eq_error _ (Nat.not_le.mp short)),
        List.filter_cons_of_neg (by simp [short]), List.filter_nil, List.append_nil]
      exact hbefore

/-- The identifiers that are listed are those that there are files for, but for the empty one. -/
theorem exists_ids (h : Holds directory files q ids) :
    ∃ listed, DescriptorFolder.ids files directory = .ok listed ∧
      listed.Pairwise (fun a b => idOrder a b = .lt) ∧ ∀ id, id ∈ listed ↔ id ∈ ids ∧ id ≠ "" := by
  obtain ⟨held, hheld, hnodup, hmem⟩ := h.names
  have hlist : files.list directory = .ok (held.map nameOf) :=
    list_eq_ok_iff.mpr ⟨h.path, q, h.folder, hheld.symm⟩
  have hfound : (held.map nameOf).filterMap idOfName? = held.filter (· ≠ "") := by
    rw [List.filterMap_map, ← List.filterMap_eq_filter]
    refine List.filterMap_congr fun id _ => ?_
    rw [Function.comp_apply, idOfName?_nameOf]
    by_cases hid : id = "" <;> simp [Option.guard, hid]
  obtain ⟨listed, hids, hperm, hsorted⟩ := exists_ids_of_list hlist
  rw [hfound] at hperm
  have hdistinct : listed.Pairwise (· ≠ ·) := hperm.nodup_iff.mpr (hnodup.filter _)
  refine ⟨listed, hids, ?_, fun id => ?_⟩
  · refine (hsorted.and hdistinct).imp fun {a b} hab => ?_
    obtain ⟨hle, hne⟩ := hab
    cases hcmp : idOrder a b with
    | lt => rfl
    | eq => exact absurd (Std.LawfulEqCmp.eq_of_compare hcmp) hne
    | gt =>
      rw [hcmp] at hle
      cases hle
  · rw [hperm.mem_iff, List.mem_filter, hmem]
    simp

end Holds

/-! ## Folders that start empty -/

variable {files : FileTree} {directory : String}

/-- A folder that starts empty is a map. Each identifier has what was last put in under it, and one
that is too long changes nothing and is never found. A further insert is found and changes nothing
else. -/
theorem inserts_act_as_map (empty : files.list directory = .ok []) (ds : List Descriptor)
    (room : ∀ d ∈ ds, HasRoom directory d.id) (fits : ∀ d ∈ ds, ListFits d.components) :
    (∀ id, HasRoom directory id → fetch (insertEach directory files ds) directory id =
      match (ds.filter fun d => Utf8.byteCount d.id ≤ 125 ∧ d.id = id).getLast? with
      | some d => .ok d
      | none => .error (.lookup id)) ∧
    (∀ d, Utf8.byteCount d.id ≤ 125 → HasRoom directory d.id → ListFits d.components →
      ∃ files', insertAll (insertEach directory files ds) directory [d] = (.ok (), files') ∧
        fetch files' directory d.id = .ok d ∧
        ∀ id ≠ d.id, fetch files' directory id =
          fetch (insertEach directory files ds) directory id) ∧
    (∀ d, 125 < Utf8.byteCount d.id → insertAll (insertEach directory files ds) directory [d] =
      (.error (.validation (.longIdentifier d.id 125)), insertEach directory files ds)) ∧
    ∀ id, 125 < Utf8.byteCount id →
      fetch (insertEach directory files ds) directory id = .error (.lookup id) := by
  obtain ⟨q, start⟩ := exists_holds_of_list empty
  refine ⟨fun id hid => start.fetch_insertEach room fits hid, fun d short hroom hfits => ?_,
    fun d long => insertAll_of_error (insert_eq_error _ long), fun id long => fetch_eq_error _ long⟩
  obtain ⟨files', hinsert, -⟩ := (start.insertEach room).insert short hroom
  exact ⟨files', insertAll_of_ok hinsert, fetch_insert_self hinsert hfits,
    fun id hne => fetch_insert_of_ne hinsert hne⟩

/-- Of two descriptors under one identifier the last is found, not a number as it was put in, and what
was put in before under another identifier is still there. -/
theorem inserts_act_as_map_of_three :
    let files : FileTree := ⟨[([[100]], .folder none)]⟩
    let ds : List Descriptor := [⟨"a", [0, 1]⟩, ⟨"", [1]⟩, ⟨"a", [⟨0x7ff8000000000001⟩]⟩]
    files.list "d" = .ok [] ∧
      fetch (insertEach "d" files ds) "d" "a" = .ok ⟨"a", [⟨0x7ff8000000000001⟩]⟩ ∧
      fetch (insertEach "d" files ds) "d" "" = .ok ⟨"", [1]⟩ ∧
      fetch (insertEach "d" files ds) "d" "b" = .error (.lookup "b") := by
  intro files ds
  have hempty : files.list "d" = .ok [] := by decide
  have hroom : ∀ id, HasRoom "d" id := hasRoom_of_le (by decide)
  have hmap := (inserts_act_as_map hempty ds (fun d _ => hroom d.id) (by decide)).1
  exact ⟨hempty, hmap "a" (hroom "a"), hmap "" (hroom ""), hmap "b" (hroom "b")⟩

/-- The identifiers that are listed after many inserts are those that were put in, in their order and
each once; but the empty one is not among them. -/
theorem ids_after_inserts (empty : files.list directory = .ok []) (ds : List Descriptor)
    (room : ∀ d ∈ ds, HasRoom directory d.id) :
    ∃ listed, (source (insertEach directory files ds) directory).ids = .ok listed ∧
      listed.Pairwise (fun a b => idOrder a b = .lt) ∧
      (∀ id, id ∈ listed ↔ (∃ d ∈ ds, Utf8.byteCount d.id ≤ 125 ∧ d.id = id) ∧ id ≠ "") ∧
      (source (insertEach directory files ds) directory).count = .ok listed.length := by
  obtain ⟨q, start⟩ := exists_holds_of_list empty
  obtain ⟨listed, hids, hsorted, hmem⟩ := (start.insertEach room).exists_ids
  refine ⟨listed, hids, hsorted, fun id => ?_, ?_⟩
  · rw [hmem, List.mem_map]
    simp only [List.mem_filter, decide_eq_true_eq, and_assoc]
    rfl
  · simp only [source, hids]
    rfl

/-- Identifiers are listed in their order, each once. -/
theorem ids_after_inserts_of_two :
    let files : FileTree := ⟨[([[100]], .folder none)]⟩
    let ds : List Descriptor := [⟨"b", [0]⟩, ⟨"a", [1]⟩, ⟨"b", [1]⟩]
    files.list "d" = .ok [] ∧ ∃ listed, (source (insertEach "d" files ds) "d").ids = .ok listed ∧
      "a" ∈ listed ∧ "b" ∈ listed ∧ "c" ∉ listed := by
  intro files ds
  have hempty : files.list "d" = .ok [] := by decide
  obtain ⟨listed, hids, -, hmem, -⟩ :=
    ids_after_inserts hempty ds fun d _ => hasRoom_of_le (by decide) d.id
  exact ⟨hempty, listed, hids, (hmem "a").mpr (by decide), (hmem "b").mpr (by decide),
    mt (hmem "c").mp (by decide)⟩

/-- A descriptor under the empty identifier is put in and found, but not listed. -/
theorem ids_lack_empty :
    let files : FileTree := ⟨[([[100]], .folder none)]⟩
    let d : Descriptor := ⟨"", [1]⟩
    files.list "d" = .ok [] ∧ ∃ files', insert files "d" d = .ok files' ∧
      fetch files' "d" "" = .ok d ∧ (source files' "d").ids = .ok [] ∧
      (source files' "d").count = .ok 0 := by
  intro files d
  have hempty : files.list "d" = .ok [] := by decide
  have hinsert : insert files "d" d =
      .ok (files.put [[100], [46, 108, 122, 52]] (.file (fileContent d.components))) := by
    decide +kernel
  have hfetch := fetch_insert_self hinsert (by decide)
  exact ⟨hempty, _, hinsert, hfetch, by decide +kernel, by decide +kernel⟩

end SignHash.DescriptorFolder
