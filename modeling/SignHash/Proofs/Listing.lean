import Mathlib.Data.List.Dedup
import Mathlib.Data.List.Pairwise
import SignHash.Proofs.Folder
import SignHash.Proofs.Schedule

/-!
# What a folder lists, and what is found in it

A file stands for an identifier if its name is the identifier's digits with the ending, in digits of
either case. Listing goes by that: each identifier is listed as often as files stand for it. Looking
goes by the one name that an insert would give: a listed identifier is missing exactly if there is no
file of that name. So all that is listed is listed once and found if every file has such a name, but not
in every folder: of a file with capital digits the identifier is listed, but the file is never looked for.
-/

namespace SignHash

theorem Hex.lt_of_digitValue? {b : UInt8} {n : Nat} (h : digitValue? b = some n) : b < 128 := by
  by_contra wide
  rw [digitValue?_of_not_ascii wide] at h
  cases h

/-- Digits are characters, so that a byte string of digits is one of a text. -/
theorem Hex.exists_text_of_digits {text : Bytes} {numbers : List Nat}
    (h : text.map digitValue? = numbers.map some) : ∃ s, text = Utf8.encode s := by
  induction text generalizing numbers with
  | nil => exact ⟨"", rfl⟩
  | cons b text ih =>
    obtain ⟨n, more, rfl, hb, hmore⟩ := List.map_eq_cons_iff.mp h.symm
    obtain ⟨s, rfl⟩ := ih hmore.symm
    have hlt : b.toNat < 128 := lt_of_digitValue? hb.symm
    have hascii : ∀ n : Fin 128, (Char.ofNat n).toNat = n := by decide
    have hchar : (Char.ofNat b.toNat).toNat = b.toNat := hascii ⟨b.toNat, hlt⟩
    refine ⟨String.singleton (Char.ofNat b.toNat) ++ s, ?_⟩
    rw [Utf8.encode_append, Utf8.encode_eq_flatMap (String.singleton _), String.toList_singleton,
      List.flatMap_singleton, utf8EncodeChar_of_ascii (by rw [hchar]; exact hlt), hchar,
      UInt8.ofNat_toNat]
    rfl

namespace DescriptorFolder

open FileTree Wire

/-! ## Names that stand for identifiers -/

/-- A name stands for an identifier: it is the identifier's digits, of either case, and the ending. -/
def StandsFor (name : Name) (id : String) : Prop :=
  id ≠ "" ∧ ∃ digits : String, name = Utf8.encode (digits ++ ".lz4") ∧
    digits.toLower = Hex.encode (Utf8.encode id)

theorem idOfName?_append (stem : Bytes) :
    idOfName? (stem ++ Utf8.encode ending) =
      if stem = [] then none else (Hex.decode stem).toOption.bind Utf8.decode? := by
  have hstem : (stem ++ Utf8.encode ending).take
      ((stem ++ Utf8.encode ending).length - (Utf8.encode ending).length) = stem := by
    rw [List.length_append, Nat.add_sub_cancel]
    exact List.take_left' rfl
  rw [idOfName?]
  simp only [hstem, true_and]
  by_cases hnil : stem = []
  · rw [if_pos hnil, if_neg (not_not_intro hnil)]
  · rw [if_neg hnil, if_pos hnil]
    cases Hex.decode stem <;> rfl

theorem idOfName?_eq_some_iff {name : Name} {id : String} :
    idOfName? name = some id ↔ StandsFor name id := by
  constructor
  · intro h
    obtain ⟨stem, rfl⟩ : ∃ stem, name = stem ++ Utf8.encode ending := by
      rw [idOfName?] at h
      split at h
      · next hname => exact ⟨_, hname.1⟩
      · cases h
    rw [idOfName?_append] at h
    split at h
    · cases h
    · next hne =>
      cases hdecode : Hex.decode stem with
      | error cause =>
        rw [hdecode] at h
        cases h
      | ok bytes =>
        rw [hdecode] at h
        obtain rfl := Utf8.decode?_eq_some_iff.mp h
        have hdigits := Hex.decode_eq_ok_iff.mp hdecode
        obtain ⟨digits, rfl⟩ := Hex.exists_text_of_digits hdigits
        refine ⟨?_, digits, (Utf8.encode_append digits ending).symm,
          (Hex.encode_eq_toLower_iff.mpr (Hex.map_digitValue?_encode.mp hdigits)).symm⟩
        rintro rfl
        exact hne (List.map_eq_nil_iff.mp hdigits)
  · rintro ⟨hid, digits, rfl, hlower⟩
    have hdigits := Hex.map_digitValue?_encode.mpr (Hex.encode_eq_toLower_iff.mp hlower.symm)
    have hne : Utf8.encode digits ≠ [] := by
      intro hnil
      rw [hnil] at hdigits
      have hlength := congrArg List.length hdigits
      rw [List.map_nil, List.length_map, Hex.length_digitNumbers] at hlength
      have hbytes : Utf8.encode id = [] := List.eq_nil_of_length_eq_zero (by
        rw [List.length_nil] at hlength
        omega)
      exact hid (Utf8.encode_injective hbytes)
    rw [Utf8.encode_append]
    refine (idOfName?_append _).trans ?_
    rw [if_neg hne, Hex.decode_eq_ok_iff.mpr hdigits]
    exact Utf8.decode?_encode id

instance (name : Name) (id : String) : Decidable (StandsFor name id) :=
  decidable_of_iff (idOfName? name = some id) idOfName?_eq_some_iff

example : StandsFor (Utf8.encode "4A.lz4") "J" ∧ StandsFor (Utf8.encode "4a.lz4") "J" := by decide

theorem StandsFor.unique {name : Name} {a b : String} (ha : StandsFor name a)
    (hb : StandsFor name b) : a = b :=
  Option.some.inj ((idOfName?_eq_some_iff.mpr ha).symm.trans (idOfName?_eq_some_iff.mpr hb))

/-! ## Listing -/

section Listing

variable {files : FileTree} {directory : String} {names : List Name}

theorem count_filterMap_idOfName? (names : List Name) (id : String) :
    (names.filterMap idOfName?).count id = names.countP (StandsFor · id) := by
  rw [List.count, List.countP_filterMap]
  refine List.countP_congr fun name _ => ?_
  rw [decide_eq_true_eq, ← idOfName?_eq_some_iff]
  cases idOfName? name <;> simp

/-- No identifier is found twice among names exactly if no two of them stand for one. -/
theorem nodup_filterMap_idOfName?_iff (once : names.Nodup) :
    (names.filterMap idOfName?).Nodup ↔
      ∀ a ∈ names, ∀ b ∈ names, ∀ id, StandsFor a id → StandsFor b id → a = b := by
  rw [List.Nodup, List.pairwise_filterMap]
  have happart : ∀ a b : Name, (∀ x, idOfName? a = some x → ∀ y, idOfName? b = some y → x ≠ y) ↔
      ∀ id, StandsFor a id → ¬StandsFor b id := by
    intro a b
    simp only [idOfName?_eq_some_iff]
    exact ⟨fun h id ha hb => h id ha id hb rfl, fun h x ha y hb hxy => h x ha (hxy ▸ hb)⟩
  simp only [happart]
  constructor
  · intro h a ha b hb id hida hidb
    by_contra hne
    have hsymm : Std.Symm fun a b : Name => ∀ id, StandsFor a id → ¬StandsFor b id :=
      ⟨fun a b hab id hb ha => hab id ha hb⟩
    exact h.forall ha hb hne id hida hidb
  · intro h
    exact once.pairwise_of_forall_ne fun a ha b hb hne id hida hidb => hne (h a ha b hb id hida hidb)

end Listing

/-! ## Replies -/

/-- What a file holds is read with its number, so it can be sent. -/
theorem listFits_of_componentsOf? {content : Bytes} {components : List Double}
    (h : componentsOf? content = some components) : ListFits components := by
  obtain ⟨⟨_, rest⟩, hread, rfl⟩ := Option.map_eq_some_iff.mp h
  exact ((decodes_readList decodes_readDouble _ _ _).mp hread).1.1

/-- Whatever a folder holds, the reply for an identifier that may have a file can be sent. -/
theorem fits_replyTo (files : FileTree) (directory : String) {id : String}
    (short : Utf8.byteCount id ≤ idLimit) : (replyTo (fetch files directory) id).Fits := by
  have hlength : (Utf8.encode id).length ≤ 125 := by
    rw [Utf8.length_encode]
    exact short
  have hid : TextFits id := by
    show (Utf8.encode id).length < 256 ^ 8
    omega
  have hundecodable : TextFits (Error.validation (.undecodable id)).message := by
    show (Utf8.encode ("validation error: " ++ ("descriptor '" ++ id ++ _))).length < 256 ^ 8
    have hlead : (Utf8.encode "validation error: ").length = 18 := by decide
    have hbefore : (Utf8.encode "descriptor '").length = 12 := by decide
    have hafter : (Utf8.encode
        "' could not be decoded: not a compressed list of components").length = 59 := by decide
    simp only [Utf8.encode_append, List.length_append, hlead, hbefore, hafter]
    omega
  rw [replyTo, fetch, fileName?_eq_some short]
  dsimp only
  cases files.open? (join directory (fileName id)) with
  | error issue =>
    have hmessage : TextFits (Error.io issue).message := by cases issue <;> decide
    cases issue with
    | notFound => exact hid
    | _ => exact ⟨hid, hmessage⟩
  | ok node =>
    cases node with
    | folder keyspace => exact ⟨hid, hundecodable⟩
    | file content =>
      cases hread : componentsOf? content with
      | none =>
        simp only [hread]
        exact ⟨hid, hundecodable⟩
      | some components =>
        simp only [hread]
        exact ⟨hid, listFits_of_componentsOf? hread⟩

/-! ## What is listed and what is found -/

/-- A folder lists each identifier as often as files stand for it, in the order of identifiers, and
counts what it lists. Nothing is listed twice exactly if no two files stand for one identifier, and of
what is listed exactly that is missing which has no file of the name that is looked for. So if every
file that stands for an identifier has that name, all is listed once, the count is that of the
identifiers, and none of them is missing, neither by itself nor, where names are within their limit,
for a pool that fetches all. -/
theorem canonical_names_are_found {files : FileTree} {directory : String} {names : List Name}
    (listing : files.list directory = .ok names) (once : names.Nodup) :
    ∃ listed, (source files directory).ids = .ok listed ∧
      (source files directory).count = .ok listed.length ∧
      listed.Pairwise (fun a b => (idOrder a b).isLE = true) ∧
      (∀ id, listed.count id = names.countP (StandsFor · id)) ∧
      (listed.Nodup ↔ ∀ a ∈ names, ∀ b ∈ names, ∀ id, StandsFor a id → StandsFor b id → a = b) ∧
      (∀ id ∈ listed, Utf8.byteCount id ≤ 125 → ∀ missing,
        (source files directory).fetch id = .error (.lookup missing) ↔
          missing = id ∧ HasRoom directory id ∧ nameOf id ∉ names) ∧
      ((∀ name ∈ names, ∀ id, StandsFor name id → name = nameOf id) →
        listed.Nodup ∧ (source files directory).count = .ok listed.dedup.length ∧
        (∀ id ∈ listed, Utf8.byteCount id ≤ 125 → ∀ missing,
          (source files directory).fetch id ≠ .error (.lookup missing)) ∧
        ((∀ name ∈ names, name.length ≤ nameLimit) →
          ∀ (pool : Pool) fates result, pool.Delivers (source files directory) listed fates result →
            ∀ missing, result ≠ .error (.lookup missing))) := by
  obtain ⟨listed, hids, hperm, hsorted⟩ := exists_ids_of_list listing
  have hcount : (source files directory).count = .ok listed.length := by
    simp only [source, hids]
    rfl
  have htimes : ∀ id, listed.count id = names.countP (StandsFor · id) := fun id =>
    (hperm.count_eq id).trans (count_filterMap_idOfName? names id)
  have hnodup := hperm.nodup_iff.trans (nodup_filterMap_idOfName?_iff once)
  refine ⟨listed, hids, hcount, hsorted, htimes, hnodup,
    fun id _ short missing => fetch_eq_lookup_iff listing short, fun canonical => ?_⟩
  have hdistinct : listed.Nodup := hnodup.mpr fun a ha b hb id hida hidb =>
    (canonical a ha id hida).trans (canonical b hb id hidb).symm
  have hname : ∀ id ∈ listed, nameOf id ∈ names := by
    intro id hid
    obtain ⟨name, hname, hstands⟩ := List.mem_filterMap.mp (hperm.mem_iff.mp hid)
    exact canonical name hname id (idOfName?_eq_some_iff.mp hstands) ▸ hname
  have hfound : ∀ id ∈ listed, Utf8.byteCount id ≤ 125 → ∀ missing,
      (source files directory).fetch id ≠ .error (.lookup missing) := fun id hid short _ hmissing =>
    ((fetch_eq_lookup_iff listing short).mp hmissing).2.2 (hname id hid)
  refine ⟨hdistinct, by rw [hdistinct.dedup, hcount], hfound, ?_⟩
  rintro bounded pool fates result delivers missing rfl
  have hshort : ∀ id ∈ listed, Utf8.byteCount id ≤ 125 := by
    intro id hid
    have hle := bounded _ (hname id hid)
    rw [length_nameOf, nameLimit] at hle
    omega
  obtain ⟨id, hid, hlookup⟩ :=
    delivers.exists_lookup fun id hid => fits_replyTo files directory (hshort id hid)
  exact hfound id hid (hshort id hid) missing hlookup

theorem canonical_names_are_found_of_one :
    let files : FileTree := ⟨[([[100]], .folder none), ([[100], Utf8.encode "4a.lz4"], .file []),
      ([[100], Utf8.encode "4A.txt"], .file [])]⟩
    files.list "d" = .ok [Utf8.encode "4a.lz4", Utf8.encode "4A.txt"] ∧
      ∃ listed, (source files "d").ids = .ok listed ∧ "J" ∈ listed ∧ listed.Nodup ∧
        (∀ missing, (source files "d").fetch "J" ≠ .error (.lookup missing)) ∧
        ∀ (pool : Pool) fates result, pool.Delivers (source files "d") listed fates result →
          ∀ missing, result ≠ .error (.lookup missing) := by
  intro files
  have hlisting : files.list "d" = .ok [Utf8.encode "4a.lz4", Utf8.encode "4A.txt"] := by decide
  have hnone : ∀ id, ¬StandsFor (Utf8.encode "4A.txt") id := fun id h => by
    have hid := idOfName?_eq_some_iff.mpr h
    cases hid
  have hcanonical : ∀ name ∈ [Utf8.encode "4a.lz4", Utf8.encode "4A.txt"], ∀ id,
      StandsFor name id → name = nameOf id := by
    intro name hname id hid
    rcases List.mem_cons.mp hname with rfl | hname
    · rw [hid.unique (show StandsFor (Utf8.encode "4a.lz4") "J" by decide)]
      decide
    · rw [List.mem_singleton.mp hname] at hid
      exact absurd hid (hnone id)
  obtain ⟨listed, hids, -, -, hcount, -, -, hfound⟩ :=
    canonical_names_are_found hlisting (by decide)
  obtain ⟨hdistinct, -, hthere, hall⟩ := hfound hcanonical
  have hone : listed.count "J" = 1 := (hcount "J").trans (by decide)
  have hmem : "J" ∈ listed := List.count_pos_iff.mp (by omega)
  exact ⟨hlisting, listed, hids, hmem, hdistinct, hthere "J" hmem (by decide), hall (by decide)⟩

/-- Of a file with capital digits the identifier is listed, but it is not found; and together with the
file that an insert would make, the identifier is listed twice. -/
theorem capital_digits_are_listed_but_missing :
    let files : FileTree := ⟨[([[100]], .folder none), ([[100], Utf8.encode "4A.lz4"], .file [])]⟩
    let both := files.put [[100], Utf8.encode "4a.lz4"] (.file [])
    (source files "d").ids = .ok ["J"] ∧ (source files "d").fetch "J" = .error (.lookup "J") ∧
      (source both "d").ids = .ok ["J", "J"] ∧ (source both "d").count = .ok 2 := by
  intro files both
  have hlists : ∀ (tree : FileTree) (names : List Name) (times : Nat), tree.list "d" = .ok names →
      names.filterMap idOfName? = List.replicate times "J" →
        (source tree "d").ids = .ok (List.replicate times "J") := by
    intro tree names times listing hnames
    obtain ⟨listed, hids, hperm, -⟩ := exists_ids_of_list listing
    rw [hnames] at hperm
    exact hids.trans (congrArg Except.ok (List.perm_replicate.mp hperm))
  have hboth := hlists both [Utf8.encode "4A.lz4", Utf8.encode "4a.lz4"] 2 (by decide) (by decide)
  refine ⟨hlists files [Utf8.encode "4A.lz4"] 1 (by decide) (by decide), by decide +kernel, hboth, ?_⟩
  show Except.map List.length (source both "d").ids = _
  rw [hboth]
  rfl

end DescriptorFolder

end SignHash
