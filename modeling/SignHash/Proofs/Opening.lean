import SignHash.Proofs.FileTree
import SignHash.Source.Handle

/-!
# What opening leaves alone

Opening a keyspace is up to its storage, which has files of its own. All others stay as they are, at the
same places, and every path that led somewhere without passing a place of the storage leads there again,
even if opening fails later. Opening a document or a folder changes nothing.
-/

namespace SignHash

namespace FileTree

/-- The places that a path passes from the top, the one at its end with them. -/
def wayTo (path : String) : List Place := (pathNames (Utf8.encode path) ++ [here]).scanl enter []

/-- But for the places that a storage has for its own, a tree has the files of another one and no more,
and its folders and perhaps more. -/
structure KeepsOthers (own : Place → Prop) (t t' : FileTree) : Prop where
  file_iff : ∀ place, ¬own place → ∀ content,
    t'.get? place = some (.file content) ↔ t.get? place = some (.file content)
  folder : ∀ place, ¬own place → ∀ keyspace, t.get? place = some (.folder keyspace) →
    ∃ keyspace', t'.get? place = some (.folder keyspace')

section

variable {t : FileTree} {start q : Place} {names : List Name}

theorem mem_scanl_append_here (h : q ∈ names.scanl enter start) :
    q ∈ (names ++ [here]).scanl enter start := by
  induction names generalizing start with
  | nil =>
    obtain rfl := List.mem_singleton.mp h
    exact List.mem_cons_self
  | cons name names ih =>
    rw [List.scanl_cons, List.mem_cons] at h
    rw [List.cons_append, List.scanl_cons, List.mem_cons]
    exact h.imp_right ih

/-- A way ends at a place that it passes. -/
theorem mem_scanl_of_follow (h : t.follow start names = .ok q) : q ∈ names.scanl enter start := by
  induction names generalizing start with
  | nil =>
    obtain rfl := Except.ok.inj h
    exact List.mem_singleton_self _
  | cons name names ih =>
    rw [List.scanl_cons, List.mem_cons]
    rw [FileTree.follow] at h
    split at h
    · cases h
    · cases h
    · split at h
      · cases h
      · exact .inr (ih h)

theorem mem_wayTo_of_placeOf {path : String} (h : t.placeOf path = .ok q) : q ∈ wayTo path := by
  obtain ⟨bytes, hbytes, hfollowed⟩ := bind_eq_ok_iff.mp h
  obtain ⟨rfl, -⟩ := pathBytes_eq_ok_iff.mp hbytes
  split at hfollowed
  · exact mem_scanl_of_follow hfollowed
  · exact mem_scanl_append_here (mem_scanl_of_follow hfollowed)

end

namespace KeepsOthers

variable {own : Place → Prop} {t t' t'' : FileTree}

theorem refl (t : FileTree) : KeepsOthers own t t :=
  ⟨fun _ _ _ => Iff.rfl, fun _ _ keyspace h => ⟨keyspace, h⟩⟩

theorem trans (h : KeepsOthers own t t') (h' : KeepsOthers own t' t'') : KeepsOthers own t t'' := by
  refine ⟨fun place hplace content =>
    (h'.file_iff place hplace content).trans (h.file_iff place hplace content), ?_⟩
  intro place hplace keyspace hfolder
  obtain ⟨keyspace', hfolder'⟩ := h.folder place hplace keyspace hfolder
  exact h'.folder place hplace keyspace' hfolder'

/-- A folder may be put where no file is. -/
theorem put {place : Place} (free : ∀ content, t.get? place ≠ some (.file content))
    (keyspace : Option Journal) : KeepsOthers own t (t.put place (.folder keyspace)) := by
  constructor
  · intro other _ content
    rw [get?_put]
    by_cases hother : other = place
    · rw [if_pos hother, hother]
      exact iff_of_false nofun (free content)
    · rw [if_neg hother]
  · intro other _ keyspace' hfolder
    rw [get?_put]
    by_cases hother : other = place
    · exact ⟨keyspace, if_pos hother⟩
    · exact ⟨keyspace', (if_neg hother).trans hfolder⟩

/-! ## Paths -/

/-- A way past none of the storage's places leads where it led. -/
theorem follow (h : KeepsOthers own t t') {start q : Place} {names : List Name}
    (clear : ∀ place ∈ names.scanl enter start, ¬own place) (hq : t.follow start names = .ok q) :
    t'.follow start names = .ok q := by
  induction names generalizing start with
  | nil => exact hq
  | cons name names ih =>
    rw [List.scanl_cons] at clear
    rw [FileTree.follow] at hq ⊢
    cases hstart : t.get? start with
    | none => simp [hstart] at hq
    | some node =>
      cases node with
      | file content => simp [hstart] at hq
      | folder keyspace =>
        obtain ⟨keyspace', hfolder⟩ := h.folder start (clear start List.mem_cons_self) keyspace hstart
        simp only [hstart, hfolder] at hq ⊢
        split at hq
        · cases hq
        · next hlong =>
          rw [if_neg hlong]
          exact ih (fun place hplace => clear place (List.mem_cons_of_mem _ hplace)) hq

variable {path : String} (clear : ∀ place ∈ wayTo path, ¬own place)

include clear

theorem placeOf (h : KeepsOthers own t t') {q : Place} (hq : t.placeOf path = .ok q) :
    t'.placeOf path = .ok q := by
  obtain ⟨bytes, hbytes, hfollowed⟩ := bind_eq_ok_iff.mp hq
  refine bind_eq_ok_iff.mpr ⟨bytes, hbytes, ?_⟩
  obtain ⟨rfl, -⟩ := pathBytes_eq_ok_iff.mp hbytes
  split at hfollowed
  · next hfolder =>
    rw [if_pos hfolder]
    exact h.follow clear hfollowed
  · next hfile =>
    rw [if_neg hfile]
    exact h.follow (fun place hplace => clear place (mem_scanl_append_here hplace)) hfollowed

/-- The same files are at the place that a path led to. -/
theorem file_iff_of_placeOf (h : KeepsOthers own t t') {q : Place} (hq : t.placeOf path = .ok q)
    (content : Bytes) : t'.get? q = some (.file content) ↔ t.get? q = some (.file content) :=
  h.file_iff q (clear q (mem_wayTo_of_placeOf hq)) content

/-- A file that was found at a path is found there again. -/
theorem contentAt (h : KeepsOthers own t t') {content : Bytes}
    (hcontent : t.contentAt path = .ok content) : t'.contentAt path = .ok content := by
  rw [contentAt_eq_ok_iff, open?_eq_ok_iff] at hcontent ⊢
  obtain ⟨q, hplace, hfile⟩ := hcontent
  exact ⟨q, h.placeOf clear hplace, (h.file_iff_of_placeOf clear hplace content).mpr hfile⟩

end KeepsOthers

/-! ## Making folders -/

variable {own : Place → Prop}

/-- A folder is only made where nothing is. -/
theorem keepsOthers_of_makeFolder {t t' : FileTree} {names : List Name}
    (h : t.makeFolder names = .ok t') : KeepsOthers own t t' := by
  obtain ⟨place?, -, hmade⟩ := bind_eq_ok_iff.mp h
  cases place? with
  | none =>
    obtain rfl := Except.ok.inj hmade
    exact .refl t
  | some place =>
    simp only at hmade
    cases hnode : t.get? place with
    | none =>
      rw [hnode] at hmade
      obtain rfl := Except.ok.inj hmade
      exact .put (fun content => by rw [hnode]; exact nofun) none
    | some node =>
      rw [hnode] at hmade
      cases node with
      | file content => cases hmade
      | folder keyspace =>
        obtain rfl := Except.ok.inj hmade
        exact .refl t

/-- Also where making folders fails on the way. -/
theorem keepsOthers_makeFoldersAlong (t : FileTree) (ways : List (List Name)) :
    KeepsOthers own t (t.makeFoldersAlong ways).2 := by
  induction ways generalizing t with
  | nil => exact .refl t
  | cons names around ih =>
    rw [makeFoldersAlong]
    split
    · next t' hmade => exact keepsOthers_of_makeFolder hmade
    · -- the folder around is missing
      have haround := ih t
      cases hway : makeFoldersAlong t around with
      | mk ending t' =>
        rw [hway] at haround
        cases ending with
        | error issue => exact haround
        | ok _ =>
          simp only
          split
          · next t'' hmade => exact haround.trans (keepsOthers_of_makeFolder hmade)
          · exact haround
    · exact .refl t

theorem keepsOthers_makeFoldersTo (t : FileTree) (place : Place) :
    KeepsOthers own t (t.makeFoldersTo place).2 := by
  rw [makeFoldersTo]
  split
  · exact .refl t
  · split
    · exact .refl t
    · exact keepsOthers_makeFoldersAlong t _

end FileTree

open FileTree

/-! ## Opening -/

/-- A source is a keyspace. -/
def SourceConfig.IsKeyspace (c : SourceConfig) : Prop := ∃ path partition, c = .keyspace path partition

/-- What a configured source answers once it is open, and the files after that. -/
def openedSource (files : FileTree) (c : SourceConfig) : Except Stop Source × FileTree :=
  let (opened, files) := Handle.ofConfig files c
  (opened.map (·.source files), files)

/-- What opening a configured source may come to. A keyspace is up to its storage, which leaves alone
what is not its own; a document or a folder is opened as it stands. -/
structure MayOpen (own : Place → Prop) (files : FileTree) (c : SourceConfig)
    (opening : Except Stop Source × FileTree) : Prop where
  plain : ¬c.IsKeyspace → opening = openedSource files c
  others : KeepsOthers own files opening.2

variable {own : Place → Prop} {files : FileTree} {c : SourceConfig}
  {opening : Except Stop Source × FileTree}

theorem Partition.keepsOthers_ofPath (files : FileTree) (path name : String) :
    KeepsOthers own files (Partition.ofPath files path name).2 := by
  have hmade : KeepsOthers own files (files.makeFoldersTo (keyspacePlace path)).2 :=
    keepsOthers_makeFoldersTo files _
  rw [ofPath]
  cases hfolders : files.makeFoldersTo (keyspacePlace path) with
  | mk ending made =>
    rw [hfolders] at hmade
    cases ending with
    | error issue => exact hmade
    | ok _ =>
      simp only
      split
      · next known hfolder =>
        exact hmade.trans (.put (fun content => by rw [hfolder]; exact nofun) _)
      · exact hmade

/-- Every source may be opened as it is by `Handle.ofConfig`, whatever places the storage has. -/
theorem mayOpen_openedSource (own : Place → Prop) (files : FileTree) (c : SourceConfig) :
    MayOpen own files c (openedSource files c) := by
  refine ⟨fun _ => rfl, ?_⟩
  cases c with
  | json path => exact .refl files
  | files directory => exact .refl files
  | keyspace path partition => exact Partition.keepsOthers_ofPath files path partition

namespace MayOpen

/-- Only opening a keyspace changes anything. -/
theorem snd_eq (h : MayOpen own files c opening) (plain : ¬c.IsKeyspace) : opening.2 = files := by
  rw [h.plain plain]
  cases c with
  | json path => rfl
  | files directory => rfl
  | keyspace path partition => exact absurd ⟨path, partition, rfl⟩ plain

/-- Only opening a keyspace stops the program. -/
theorem isKeyspace_of_fault (h : MayOpen own files c opening) {f : Fault}
    (stopped : opening.1 = .error (.fault f)) : c.IsKeyspace := by
  have horStop : ∀ result : Except Error Handle,
      (orStop result).map (·.source files) ≠ .error (.fault f) := by
    intro result
    cases result <;> exact nofun
  cases c with
  | json path =>
    rw [h.plain nofun] at stopped
    exact absurd stopped (horStop _)
  | files directory =>
    rw [h.plain nofun] at stopped
    exact absurd stopped (horStop _)
  | keyspace path partition => exact ⟨path, partition, rfl⟩

end MayOpen

end SignHash
