import SignHash.CommandLine.Run
import SignHash.Proofs.Encoder
import SignHash.Proofs.Fallible
import SignHash.Proofs.Folder
import SignHash.Proofs.Identifiers
import SignHash.Proofs.Shares
import SignHash.Proofs.Sources

/-!
# What is written for identifiers

`LinesOf` are the lines of identifiers: each with the identifier, a tab and the digits of its code.
Identifiers are hashed in pieces of a thousand, and a piece is written once all of it is hashed. So what
is written are the lines of all identifiers, or, where one has no code, those of the pieces before it.
-/

namespace SignHash.CommandLine

variable {e : Encoder} {fetch : String → Except Error Descriptor} {ids more : List String}

/-- An identifier has a code: its descriptor is fetched and encoded. -/
def HasCode (e : Encoder) (fetch : String → Except Error Descriptor) (id : String) : Prop :=
  ∃ d code, fetch id = .ok d ∧ e.encode d = .ok code

/-- Bytes are the lines of identifiers with the codes of their descriptors, in the same order. -/
inductive LinesOf (e : Encoder) (fetch : String → Except Error Descriptor) :
    List String → Bytes → Prop where
  /-- There are none. -/
  | none : LinesOf e fetch [] []
  /-- The line of an identifier, and the lines of the others. -/
  | line {id : String} {d : Descriptor} {code : Code} {ids : List String} {output : Bytes}
      (fetched : fetch id = .ok d) (encoded : e.encode d = .ok code) (rest : LinesOf e fetch ids output) :
      LinesOf e fetch (id :: ids) (Utf8.encode id ++ [9] ++ Utf8.encode code.toHex ++ [10] ++ output)

/-! ## Lines -/

theorem LinesOf.append {output output' : Bytes} (h : LinesOf e fetch ids output)
    (h' : LinesOf e fetch more output') : LinesOf e fetch (ids ++ more) (output ++ output') := by
  induction h with
  | none => exact h'
  | line fetched encoded _ ih =>
    rw [List.append_assoc]
    exact .line fetched encoded ih

theorem LinesOf.hasCode {output : Bytes} (h : LinesOf e fetch ids output) :
    ∀ id ∈ ids, HasCode e fetch id := by
  induction h with
  | none => simp
  | line fetched encoded _ ih => exact List.forall_mem_cons.mpr ⟨⟨_, _, fetched, encoded⟩, ih⟩

/-- There are lines for identifiers that all have codes. -/
theorem exists_linesOf (h : ∀ id ∈ ids, HasCode e fetch id) : ∃ output, LinesOf e fetch ids output := by
  induction ids with
  | nil => exact ⟨[], .none⟩
  | cons id ids ih =>
    obtain ⟨⟨d, code, fetched, encoded⟩, hids⟩ := List.forall_mem_cons.mp h
    obtain ⟨output, houtput⟩ := ih hids
    exact ⟨_, .line fetched encoded houtput⟩

/-! ## Pieces -/

/-- All of a piece is fetched before any of it is encoded. -/
theorem hashChunk_eq_ok_iff {output : Bytes} :
    hashChunk e fetch ids = .ok output ↔ ∃ ds codes, ids.mapM fetch = .ok ds ∧
      ds.mapM e.encode = .ok codes ∧ output = hashLines ds codes := by
  simp only [hashChunk, Encoder.encodeAll, bind_eq_ok_iff]
  constructor
  · rintro ⟨ds, hds, codes, hcodes, houtput⟩
    exact ⟨ds, codes, hds, hcodes, (Except.ok.inj houtput).symm⟩
  · rintro ⟨ds, codes, hds, hcodes, rfl⟩
    exact ⟨ds, hds, codes, hcodes, rfl⟩

/-- A piece comes to the lines of its identifiers, if there are any. -/
theorem hashChunk_eq_ok_iff_linesOf (answers : AnswersFor fetch) {output : Bytes} :
    hashChunk e fetch ids = .ok output ↔ LinesOf e fetch ids output := by
  rw [hashChunk_eq_ok_iff]
  constructor
  · rintro ⟨ds, codes, hds, hcodes, rfl⟩
    induction ids generalizing ds codes with
    | nil =>
      obtain rfl : [] = ds := Except.ok.inj hds
      exact .none
    | cons id ids ih =>
      obtain ⟨d, rest, hd, hrest, rfl⟩ := mapM_cons_eq_ok_iff.mp hds
      obtain ⟨code, others, hcode, hothers, rfl⟩ := mapM_cons_eq_ok_iff.mp hcodes
      -- the line shows the descriptor's identifier, which is the one that was asked for
      obtain rfl := (answers id).1 d hd
      exact .line hd hcode (ih rest others hrest hothers)
  · intro h
    induction h with
    | none => exact ⟨[], [], rfl, rfl, rfl⟩
    | line fetched encoded _ ih =>
      obtain ⟨ds, codes, hds, hcodes, rfl⟩ := ih
      refine ⟨_ :: ds, _ :: codes, mapM_cons_eq_ok_iff.mpr ⟨_, _, fetched, hds, rfl⟩,
        mapM_cons_eq_ok_iff.mpr ⟨_, _, encoded, hcodes, rfl⟩, ?_⟩
      rw [← (answers _).1 _ fetched]
      rfl

/-- One identifier without a code is enough for a piece to fail. -/
theorem exists_hashChunk_eq_error (answers : AnswersFor fetch) {id : String} (hid : id ∈ ids)
    (uncoded : ¬HasCode e fetch id) : ∃ cause, hashChunk e fetch ids = .error cause := by
  cases hchunk : hashChunk e fetch ids with
  | error cause => exact ⟨cause, rfl⟩
  | ok output => exact absurd (((hashChunk_eq_ok_iff_linesOf answers).mp hchunk).hasCode id hid) uncoded

/-! ## All pieces -/

/-- Pieces whose identifiers all have codes are written, whatever comes of those behind them. -/
theorem exists_hashChunks_append (answers : AnswersFor fetch) {front : List (List String)}
    (coded : ∀ id ∈ front.flatten, HasCode e fetch id) (later : List (List String)) :
    ∃ output, LinesOf e fetch front.flatten output ∧
      hashChunks e fetch (front ++ later) =
        (output ++ (hashChunks e fetch later).1, (hashChunks e fetch later).2) := by
  induction front with
  | nil => exact ⟨[], .none, rfl⟩
  | cons piece front ih =>
    rw [List.flatten_cons, List.forall_mem_append] at coded
    obtain ⟨lines, hlines⟩ := exists_linesOf coded.1
    obtain ⟨output, houtput, hchunks⟩ := ih coded.2
    refine ⟨lines ++ output, hlines.append houtput, ?_⟩
    rw [List.cons_append, hashChunks, (hashChunk_eq_ok_iff_linesOf answers).mpr hlines, hchunks]
    simp only [List.append_assoc]

/-- If all identifiers have codes, so have the pieces that they are cut into. -/
theorem exists_hashAll (answers : AnswersFor fetch) (coded : ∀ id ∈ ids, HasCode e fetch id) :
    ∃ output, LinesOf e fetch ids output ∧ hashAll e fetch ids = (output, true) := by
  have hflatten : (chunks chunkSize ids.length ids).flatten = ids :=
    flatten_chunks (by decide) (Nat.le_refl _)
  have hcoded : ∀ id ∈ (chunks chunkSize ids.length ids).flatten, HasCode e fetch id := by
    rwa [hflatten]
  obtain ⟨output, houtput, hchunks⟩ := exists_hashChunks_append answers hcoded []
  rw [hflatten] at houtput
  rw [List.append_nil] at hchunks
  refine ⟨output, houtput, hchunks.trans ?_⟩
  rw [hashChunks, List.append_nil]

/-- Nothing is written of the piece with the first identifier that has no code. -/
theorem exists_hashAll_of_uncoded (answers : AnswersFor fetch) {before rest : List String} {id : String}
    (coded : ∀ x ∈ before, HasCode e fetch x) (uncoded : ¬HasCode e fetch id) :
    ∃ output,
      LinesOf e fetch ((before ++ id :: rest).take (chunkSize * (before.length / chunkSize))) output ∧
        hashAll e fetch (before ++ id :: rest) = (output, false) := by
  have hpositive : 0 < chunkSize := by decide
  obtain ⟨front, piece, later, hchunks, hid, hfront⟩ :=
    exists_chunks_eq hpositive (Nat.le_refl (before ++ id :: rest).length)
  have hcoded : ∀ x ∈ front.flatten, HasCode e fetch x := by
    intro x hx
    rw [hfront, List.take_append_of_le_length (Nat.mul_div_le _ _)] at hx
    exact coded x (List.mem_of_mem_take hx)
  obtain ⟨output, houtput, hwritten⟩ := exists_hashChunks_append answers hcoded (piece :: later)
  obtain ⟨cause, hpiece⟩ := exists_hashChunk_eq_error answers hid uncoded
  rw [hfront] at houtput
  refine ⟨output, houtput, ?_⟩
  rw [hashAll, hchunks, hwritten, hashChunks, hpiece]
  simp only [List.append_nil]

/-! ## The command -/

section Command

variable {files after : FileTree} {arguments : List String} {model source : String}
  {list : Option String} {m : Model Double} {config : SourceConfig} {handle : Handle}

/-- Up to here nothing has been written, and opening the source is all that may have changed files. -/
theorem run_hash (asked : parse? arguments = some (.hash model source list))
    (loaded : Model.load files model = .ok m) (configured : loadSourceConfig? files source = some config)
    (opened : Handle.ofConfig files config = (.ok handle, after))
    (resolved : resolveIdentifiers after list (handle.source after) = .ok ids) (input : Bytes)
    (drawn : Nat) :
    run files input drawn arguments =
      ⟨if (hashAll (Encoder.ofModel m) (handle.source after).fetch ids).2 then succeeded else failed,
        (hashAll (Encoder.ofModel m) (handle.source after).fetch ids).1, after⟩ := by
  simp only [run, asked, runHash, loaded, configured, opened, runHashWith, resolved]

/-- Hashing identifiers of an open source with a model. If all of them have codes, the lines of all are
written, and the status is zero. Otherwise the status is one, and the lines are written of those that are
in the pieces of a thousand before the piece with the first identifier without a code. -/
theorem hash_writes_whole_pieces (asked : parse? arguments = some (.hash model source list))
    (loaded : Model.load files model = .ok m) (configured : loadSourceConfig? files source = some config)
    (opened : Handle.ofConfig files config = (.ok handle, after))
    (resolved : resolveIdentifiers after list (handle.source after) = .ok ids) (input : Bytes)
    (drawn : Nat) :
    ((∀ id ∈ ids, HasCode (Encoder.ofModel m) (handle.source after).fetch id) →
      (run files input drawn arguments).status = 0 ∧
        LinesOf (Encoder.ofModel m) (handle.source after).fetch ids
          (run files input drawn arguments).output) ∧
    (∀ before id rest, ids = before ++ id :: rest →
      (∀ x ∈ before, HasCode (Encoder.ofModel m) (handle.source after).fetch x) →
      ¬HasCode (Encoder.ofModel m) (handle.source after).fetch id →
        (run files input drawn arguments).status = 1 ∧
          LinesOf (Encoder.ofModel m) (handle.source after).fetch
            (ids.take (1000 * (before.length / 1000))) (run files input drawn arguments).output) ∧
    (run files input drawn arguments).files = after := by
  rw [run_hash asked loaded configured opened resolved]
  have answers := handle.answersFor_fetch after
  refine ⟨fun coded => ?_, fun before id rest hids coded uncoded => ?_, rfl⟩
  · obtain ⟨output, houtput, hall⟩ := exists_hashAll answers coded
    rw [hall]
    exact ⟨rfl, houtput⟩
  · subst hids
    obtain ⟨output, houtput, hall⟩ := exists_hashAll_of_uncoded answers coded uncoded
    rw [hall]
    exact ⟨rfl, houtput⟩

end Command

/-- A descriptor that is hashed twice, and a list where an identifier without a descriptor comes after it
a thousand and one times: the first thousand lines are written, the one after them is not. -/
theorem hash_writes_whole_pieces_of_thousand :
    let m : Model Double := ⟨1, 1, #v[0], ⟨#v[#v[1]]⟩, ⟨#v[#v[1]]⟩, false⟩
    let broken := List.replicate 1001 "a" ++ ["b"]
    let files : FileTree := ⟨[([[109]], .file m.toBytes),
      ([[115]], .file (Utf8.encode "\x7b\"type\":\"files\",\"directory\":\"d\"\x7d")),
      ([[100]], .folder none),
      ([[100], DescriptorFolder.nameOf "a"], .file (DescriptorFolder.fileContent [Double.half])),
      ([[107]], .file (requestsFor ["a", "a"])), ([[108]], .file (requestsFor broken))]⟩
    let whole := run files [] 0 ["hash", "-m", "m", "-s", "s", "--ids", "k"]
    let cut := run files [] 0 ["hash", "-m", "m", "-s", "s", "--ids", "l"]
    whole.status = 0 ∧
      LinesOf (Encoder.ofModel m) (DescriptorFolder.fetch files "d") ["a", "a"] whole.output ∧
      cut.status = 1 ∧
      LinesOf (Encoder.ofModel m) (DescriptorFolder.fetch files "d") (List.replicate 1000 "a")
        cut.output := by
  intro m broken files whole cut
  have hissue : m.issue? = none := by decide +kernel
  have hcontent : files.contentAt "m" = .ok m.toBytes := rfl
  have hloaded : Model.load files "m" = .ok m := by
    simp only [Model.load, hcontent]
    exact Model.ofBytes_toBytes hissue (by decide)
  have hconfigured : loadSourceConfig? files "s" = some (.files "d") := by decide +kernel
  have hopened : Handle.ofConfig files (.files "d") = (.ok (.folder "d"), files) := rfl
  have hcoded : HasCode (Encoder.ofModel m) (DescriptorFolder.fetch files "d") "a" := by
    have hopen : files.open? (FileTree.join "d" (DescriptorFolder.fileName "a")) =
        .ok (.file (DescriptorFolder.fileContent [Double.half])) := by decide +kernel
    have hfetched : DescriptorFolder.fetch files "d" "a" = .ok ⟨"a", [Double.half]⟩ :=
      DescriptorFolder.fetch_of_open? (by decide) (by decide) hopen
    obtain ⟨code, hcode⟩ := Encoder.exists_encode_iff.mpr
      (show (Encoder.ofModel m).Takes ⟨"a", [Double.half]⟩ from ⟨rfl, by decide⟩)
    exact ⟨_, code, hfetched, hcode⟩
  have huncoded : ¬HasCode (Encoder.ofModel m) (DescriptorFolder.fetch files "d") "b" := by
    rintro ⟨d, code, hfetched, -⟩
    have hopen : files.open? (FileTree.join "d" (DescriptorFolder.fileName "b")) = .error .notFound := by
      decide +kernel
    rw [DescriptorFolder.fetch, DescriptorFolder.fileName?_eq_some (by decide)] at hfetched
    simp only [hopen] at hfetched
    cases hfetched
  have hwhole : parse? ["hash", "-m", "m", "-s", "s", "--ids", "k"] =
      some (.hash "m" "s" (some "k")) := by decide
  have hcut : parse? ["hash", "-m", "m", "-s", "s", "--ids", "l"] =
      some (.hash "m" "s" (some "l")) := by decide
  have hlisted : ∀ path ids, files.contentAt path = .ok (requestsFor ids) →
      (∀ id ∈ ids, id = "a" ∨ id = "b") →
        resolveIdentifiers files (some path) ((Handle.folder "d").source files) = .ok ids := by
    intro path ids hfile hids
    simp only [resolveIdentifiers, loadIdentifiers, hfile]
    refine parseIdentifiers_requestsFor_eq_iff.mpr fun id hid => ?_
    rcases hids id hid with rfl | rfl <;> decide
  have hpair := hlisted "k" ["a", "a"] rfl (by simp)
  have hbroken := hlisted "l" broken rfl fun id hid => (List.mem_append.mp hid).imp
    List.eq_of_mem_replicate List.eq_of_mem_singleton
  have htwo : ∀ id ∈ ["a", "a"], HasCode (Encoder.ofModel m) (DescriptorFolder.fetch files "d") id := by
    simpa using hcoded
  obtain ⟨hstatus, hlines⟩ :=
    (hash_writes_whole_pieces hwhole hloaded hconfigured hopened hpair [] 0).1 htwo
  obtain ⟨hfailed, hwritten⟩ :=
    (hash_writes_whole_pieces hcut hloaded hconfigured hopened hbroken [] 0).2.1
      (List.replicate 1001 "a") "b" [] rfl (fun x hx => List.eq_of_mem_replicate hx ▸ hcoded) huncoded
  have hlength : (List.replicate 1001 "a").length = 1001 := List.length_replicate
  have hpiece : 1000 ≤ (List.replicate 1001 "a").length := by
    rw [hlength]
    decide
  have htaken : broken.take 1000 = List.replicate 1000 "a" := by
    rw [List.take_append_of_le_length hpiece, List.take_replicate, Nat.min_eq_left (by decide)]
  rw [hlength, htaken] at hwritten
  exact ⟨hstatus, hlines, hfailed, hwritten⟩

end SignHash.CommandLine
