import SignHash.Proofs.Document
import SignHash.Proofs.FileTree
import SignHash.Proofs.Table
import SignHash.Source.Handle

/-!
# Documents of descriptors, written and opened

A document holds the last descriptor under each identifier. If these are finite it can be opened, and
is a map to them, bit for bit. A component that is not finite is written as `null`, which no number is
read from, so a document with such a component is written but cannot be opened.
-/

namespace SignHash

namespace Json

theorem itemValues_eq_map (items : List Document) : itemValues items = items.map Document.toValue := by
  induction items with
  | nil => rfl
  | cons item items ih => rw [itemValues, ih, List.map_cons]

theorem entryValues_eq_map (entries : List (String × Document)) :
    entryValues entries = entries.map fun e => (some e.1, e.2.toValue) := by
  induction entries with
  | nil => rfl
  | cons e entries ih => rw [entryValues, ih, List.map_cons]

/-- Where each form is read back if its value passes a test, the forms of a list are if all its values
pass. -/
theorem mapM_map_eq_ite {α β γ : Type} {read : β → Option γ} {write : α → β} {value : α → γ}
    {test : α → Bool} (h : ∀ a, read (write a) = if test a then some (value a) else none)
    (as : List α) :
    (as.map write).mapM read = if as.all test then some (as.map value) else none := by
  induction as with
  | nil => rfl
  | cons a as ih =>
    rw [List.map_cons, List.mapM_cons, h, ih, List.all_cons]
    cases test a with
    | false => rfl
    | true => cases as.all test <;> rfl

/-- A number that is not finite is lost in a document. -/
theorem asDouble?_toValue_eq (x : Double) :
    (Document.double x).toValue.asDouble? = if x.isFinite then some x else none := by
  by_cases finite : x.isFinite = true
  · rw [if_pos finite, asDouble?_toValue finite]
  · rw [if_neg finite, Document.toValue, if_neg finite]
    rfl

end Json

namespace DescriptorDocument

open Json

/-- Every component in a table is finite. -/
def AllFinite (t : Table) : Prop := ∀ d ∈ t.descriptors, d.isFinite = true

instance (t : Table) : Decidable (AllFinite t) :=
  inferInstanceAs (Decidable (∀ d ∈ t.descriptors, d.isFinite = true))

theorem asList?_componentsJson (components : List Double) :
    (Descriptor.componentsJson components).toValue.asList? Value.asDouble? =
      if components.all Double.isFinite then some components else none := by
  have hitems : (Descriptor.componentsJson components).toValue =
      .array (components.map fun x => (Document.double x).toValue) := by
    rw [Descriptor.componentsJson, Document.toValue, itemValues_eq_map, List.map_map]
    rfl
  rw [hitems, Value.asList?, mapM_map_eq_ite asDouble?_toValue_eq, List.map_id']

/-- So a descriptor is read back if all its components are finite, and not at all otherwise. -/
theorem descriptorOfEntry?_toValue (e : String × List Double) :
    descriptorOfEntry? (some e.1, (Descriptor.componentsJson e.2).toValue) =
      if (Descriptor.mk e.1 e.2).isFinite then some ⟨e.1, e.2⟩ else none := by
  rw [ descriptorOfEntry?, asList?_componentsJson, Descriptor.isFinite]
  cases e.2.all Double.isFinite <;> rfl

/-- A document is read back as the table that it was made of, if there are only finite components. -/
theorem toTable?_ofTable {t : Table} (h : Table.Sorted t.entries) :
    toTable? (ofTable t).toValue = if AllFinite t then some t else none := by
  have hentries : (ofTable t).toValue =
      .object (t.entries.map fun e => (some e.1, (Descriptor.componentsJson e.2).toValue)) := by
    rw [ofTable, Document.toValue, entryValues_eq_map, List.map_map]
    rfl
  have hall : t.entries.all (fun e => (Descriptor.mk e.1 e.2).isFinite) = true ↔ AllFinite t := by
    rw [AllFinite, Table.descriptors, List.forall_mem_map, List.all_eq_true]
  rw [hentries, toTable?, mapM_map_eq_ite descriptorOfEntry?_toValue]
  by_cases hfinite : AllFinite t
  · rw [if_pos (hall.mpr hfinite), if_pos hfinite]
    exact congrArg some (Table.ofList_descriptors h)
  · rw [if_neg (mt hall.mp hfinite), if_neg hfinite]
    rfl

theorem ofBytes?_toBytes (t : Table) : ofBytes? (toBytes t) = toTable? (ofTable t).toValue := by
  rw [ofBytes?, toBytes, Utf8.decode?_encode, Option.bind_eq_bind, Option.bind_some,
    Document.ofString?_compact]
  rfl

/-- Only the last descriptor with each identifier has to be finite. -/
theorem allFinite_ofList_iff {ds : List Descriptor} : AllFinite (.ofList ds) ↔
    ∀ id d, (ds.filter fun d => d.id = id).getLast? = some d → d.isFinite = true := by
  rw [AllFinite, Table.descriptors, List.forall_mem_map]
  constructor
  · rintro h id ⟨id', components⟩ hlast
    obtain rfl : id' = id := Table.id_of_getLast?_filter hlast
    exact h _ (Table.mem_entries_ofList.mpr hlast)
  · rintro h ⟨id, components⟩ hmem
    exact h id _ (Table.mem_entries_ofList.mp hmem)

section Written

variable {files files' : FileTree} {path : String} {ds : List Descriptor}

theorem open?_of_write (written : write files path ds = .ok files') :
    files'.open? path = .ok (.file (toBytes (.ofList ds))) := by
  rw [write] at written
  split at written
  · next hfile =>
    obtain rfl := Except.ok.inj written
    exact FileTree.open?_of_writeFile hfile
  · cases written

/-- A document that was written is loaded as the table of what was written, if that is finite. -/
theorem load_of_write (written : write files path ds = .ok files') :
    load files' path =
      if AllFinite (.ofList ds) then .ok (.ofList ds)
      else .error (.configuration (.malformedDescriptors path)) := by
  rw [load, open?_of_write written]
  simp only [ofBytes?_toBytes, toTable?_ofTable (Table.sorted_ofList ds)]
  by_cases hfinite : AllFinite (.ofList ds)
  · simp only [if_pos hfinite]
  · simp only [if_neg hfinite]

/-- A document that was written can be opened exactly if the last descriptor under each identifier is
finite. It then lists each identifier once, in their order, and has the last descriptor under each, bit
for bit, whatever becomes of the file. Otherwise it is refused as malformed. -/
theorem opens_iff_finite (written : write files path ds = .ok files') :
    ((∃ handle, Handle.openDocument files' path = .ok handle) ↔
      ∀ id d, (ds.filter fun d => d.id = id).getLast? = some d → d.isFinite = true) ∧
    (∀ cause, Handle.openDocument files' path = .error cause →
      cause = .configuration (.malformedDescriptors path)) ∧
    ∀ handle later, Handle.openDocument files' path = .ok handle →
      ∃ listed, (handle.source later).ids = .ok listed ∧
        listed.Pairwise (fun a b => idOrder a b = .lt) ∧ (∀ id, id ∈ listed ↔ ∃ d ∈ ds, d.id = id) ∧
        (handle.source later).count = .ok listed.length ∧
        ∀ id, (handle.source later).fetch id =
          match (ds.filter fun d => d.id = id).getLast? with
          | some d => .ok d
          | none => .error (.lookup id) := by
  rw [← allFinite_ofList_iff, Handle.openDocument, load_of_write written]
  by_cases hfinite : AllFinite (.ofList ds)
  · rw [if_pos hfinite]
    refine ⟨iff_of_true ⟨_, rfl⟩ hfinite, nofun, ?_⟩
    rintro handle later ⟨⟩
    exact ⟨(Table.ofList ds).ids, rfl, List.pairwise_map.mpr (Table.sorted_ofList ds),
      fun id => Table.mem_ids_ofList, congrArg Except.ok (List.length_map _).symm,
      Table.fetch_ofList ds⟩
  · rw [if_neg hfinite]
    refine ⟨iff_of_false nofun hfinite, ?_, nofun⟩
    rintro cause ⟨⟩
    rfl

end Written

/-- Of two descriptors under one identifier the last counts. It is found with its minus zero, and that
the first is not finite is no matter. -/
theorem opens_iff_finite_of_three :
    let ds : List Descriptor :=
      [⟨"b\n", [⟨0x7ff0000000000000⟩]⟩, ⟨"a", []⟩, ⟨"b\n", [⟨0x8000000000000000⟩, Double.half]⟩]
    ∃ files', write .empty "d" ds = .ok files' ∧
      ∃ handle listed, Handle.openDocument files' "d" = .ok handle ∧
        (handle.source files').ids = .ok listed ∧ "a" ∈ listed ∧ "b\n" ∈ listed ∧ "b" ∉ listed ∧
        (handle.source files').fetch "b\n" =
          .ok ⟨"b\n", [⟨0x8000000000000000⟩, Double.half]⟩ := by
  intro ds
  have hwritten : write .empty "d" ds = .ok _ := rfl
  obtain ⟨hopens, -, hheld⟩ := opens_iff_finite hwritten
  have hfinite : AllFinite (.ofList ds) := by decide
  obtain ⟨handle, hhandle⟩ := hopens.mpr (allFinite_ofList_iff.mp hfinite)
  obtain ⟨listed, hids, -, hmem, -, hfetch⟩ := hheld handle _ hhandle
  exact ⟨_, hwritten, handle, listed, hhandle, hids, (hmem "a").mpr (by decide),
    (hmem "b\n").mpr (by decide), mt (hmem "b").mp (by decide), hfetch "b\n"⟩

/-- A document with an infinite component is written, but cannot be opened. -/
theorem written_but_not_opened :
    let ds : List Descriptor := [⟨"x", [⟨0x7ff0000000000000⟩]⟩]
    ∃ files', write .empty "d.json" ds = .ok files' ∧
      Handle.openDocument files' "d.json" = .error (.configuration (.malformedDescriptors "d.json")) := by
  intro ds
  exact ⟨_, rfl, by decide +kernel⟩

end DescriptorDocument

end SignHash
