import Mathlib.Data.List.Induction
import SignHash.Proofs.Corpus
import SignHash.Source.Basic

/-!
# Tables as maps

A table holds under each identifier what was last put in under it. Its entries are in the strict order
of their identifiers, so they can be put in again, one after the other, and make the same table.
-/

namespace SignHash.Table

theorem idOrder_self (id : String) : idOrder id id = .eq := Std.ReflCmp.compare_self

/-! ## Entries -/

/-- An insertion changes what is found under its own identifier only. -/
theorem lookup_insertEntry (id : String) (components : List Double)
    (entries : List (String × List Double)) (other : String) :
    (insertEntry id components entries).lookup other =
      if other = id then some components else entries.lookup other := by
  induction entries with
  | nil => grind [insertEntry]
  | cons e entries ih =>
    obtain ⟨key, value⟩ := e
    rw [insertEntry]
    cases hkey : idOrder id key with
    | lt => grind
    | eq =>
      obtain rfl : id = key := Std.LawfulEqCmp.eq_of_compare hkey
      grind
    | gt =>
      have hne : key ≠ id := by
        rintro rfl
        rw [idOrder_self] at hkey
        cases hkey
      grind

theorem mem_ids_insertEntry (id : String) (components : List Double)
    (entries : List (String × List Double)) (other : String) :
    other ∈ (insertEntry id components entries).map (·.1) ↔
      other = id ∨ other ∈ entries.map (·.1) := by
  induction entries with
  | nil => simp [insertEntry]
  | cons e entries ih =>
    obtain ⟨key, value⟩ := e
    rw [insertEntry]
    cases hkey : idOrder id key with
    | lt => simp
    | eq =>
      obtain rfl : id = key := Std.LawfulEqCmp.eq_of_compare hkey
      simp
    | gt =>
      rw [List.map_cons, List.mem_cons, ih, List.map_cons, List.mem_cons]
      exact or_left_comm

/-- The entries are in the order of their identifiers, each of which occurs once. -/
def Sorted (entries : List (String × List Double)) : Prop :=
  entries.Pairwise fun a b => idOrder a.1 b.1 = .lt

/-- Order is kept, and with it that no identifier occurs twice. -/
theorem sorted_insertEntry (id : String) (components : List Double)
    {entries : List (String × List Double)} (h : Sorted entries) :
    Sorted (insertEntry id components entries) := by
  induction entries with
  | nil => exact List.pairwise_singleton ..
  | cons e entries ih =>
    obtain ⟨key, value⟩ := e
    obtain ⟨hfirst, hrest⟩ := List.pairwise_cons.mp h
    rw [insertEntry]
    cases hkey : idOrder id key with
    | lt =>
      refine List.pairwise_cons.mpr ⟨fun other hother => ?_, h⟩
      rcases List.mem_cons.mp hother with rfl | hother
      · exact hkey
      · exact Std.TransCmp.lt_trans hkey (hfirst other hother)
    | eq =>
      obtain rfl : id = key := Std.LawfulEqCmp.eq_of_compare hkey
      exact List.pairwise_cons.mpr ⟨hfirst, hrest⟩
    | gt =>
      refine List.pairwise_cons.mpr ⟨fun other hother => ?_, ih hrest⟩
      rcases (mem_ids_insertEntry id components entries other.1).mp (List.mem_map_of_mem hother) with
        heq | hmem
      · rw [heq]
        exact Std.OrientedCmp.lt_of_gt hkey
      · obtain ⟨same, hsame, heq⟩ := List.mem_map.mp hmem
        rw [← heq]
        exact hfirst same hsame

/-- An identifier after all others goes to the end. -/
theorem insertEntry_of_last {id : String} (components : List Double)
    {entries : List (String × List Double)} (last : ∀ e ∈ entries, idOrder e.1 id = .lt) :
    insertEntry id components entries = entries ++ [(id, components)] := by
  induction entries with
  | nil => rfl
  | cons e entries ih =>
    obtain ⟨key, value⟩ := e
    obtain ⟨hkey, hlast⟩ := List.forall_mem_cons.mp last
    rw [insertEntry, Std.OrientedCmp.gt_of_lt hkey]
    simp only [ih hlast, List.cons_append]

/-- In an ordered table, what is listed is what is found. -/
theorem mem_entries_iff {entries : List (String × List Double)} (h : Sorted entries) {id : String}
    {components : List Double} :
    (id, components) ∈ entries ↔ entries.lookup id = some components := by
  induction entries with
  | nil => simp
  | cons e entries ih =>
    obtain ⟨key, value⟩ := e
    obtain ⟨hfirst, hrest⟩ := List.pairwise_cons.mp h
    rw [List.mem_cons, ih hrest]
    by_cases hid : id = key
    · subst hid
      -- the order is strict, so the identifier does not occur again
      have hnew : entries.lookup id ≠ some components := by
        intro hfound
        have hself := hfirst _ ((ih hrest).mpr hfound)
        rw [idOrder_self] at hself
        cases hself
      grind
    · grind

/-! ## Tables of descriptors -/

theorem get?_insert (t : Table) (d : Descriptor) (id : String) :
    (t.insert d).get? id = if id = d.id then some d.components else t.get? id :=
  lookup_insertEntry d.id d.components t.entries id

theorem ofList_concat (ds : List Descriptor) (d : Descriptor) :
    ofList (ds ++ [d]) = (ofList ds).insert d := by
  rw [ofList, List.foldl_append]
  rfl

theorem sorted_ofList (ds : List Descriptor) : Sorted (ofList ds).entries := by
  induction ds using List.reverseRecOn with
  | nil => exact List.Pairwise.nil
  | append_singleton ds d ih =>
    rw [ofList_concat]
    exact sorted_insertEntry d.id d.components ih

theorem mem_ids_ofList {ds : List Descriptor} {id : String} :
    id ∈ (ofList ds).ids ↔ ∃ d ∈ ds, d.id = id := by
  induction ds using List.reverseRecOn with
  | nil => simp [ofList, empty, ids]
  | append_singleton ds d ih =>
    have hinsert : id ∈ ((ofList ds).insert d).ids ↔ id = d.id ∨ id ∈ (ofList ds).ids :=
      mem_ids_insertEntry d.id d.components (ofList ds).entries id
    rw [ofList_concat, hinsert, ih]
    simp only [List.mem_append, List.mem_singleton, or_and_right, exists_or, exists_eq_left]
    rw [or_comm, eq_comm]

/-- What is held under an identifier are the components of the last descriptor with it. -/
theorem get?_ofList (ds : List Descriptor) (id : String) :
    (ofList ds).get? id = (ds.filter fun d => d.id = id).getLast?.map (·.components) := by
  -- from the end, as the descriptor that is put in last is the one that counts
  induction ds using List.reverseRecOn with
  | nil => rfl
  | append_singleton ds d ih =>
    rw [ofList_concat, get?_insert, List.filter_append]
    by_cases h : id = d.id
    · rw [if_pos h, List.filter_cons_of_pos (by simp [h]), List.filter_nil, List.getLast?_concat]
      rfl
    · rw [if_neg h, List.filter_cons_of_neg (by simp [Ne.symm h]), List.filter_nil, List.append_nil, ih]

theorem id_of_getLast?_filter {ds : List Descriptor} {id : String} {d : Descriptor}
    (h : (ds.filter fun d => d.id = id).getLast? = some d) : d.id = id := by
  simpa using (List.mem_filter.mp (List.mem_of_getLast? h)).2

/-- The last descriptor with an identifier is fetched. -/
theorem fetch_ofList (ds : List Descriptor) (id : String) :
    (ofList ds).fetch id =
      match (ds.filter fun d => d.id = id).getLast? with
      | some d => .ok d
      | none => .error (.lookup id) := by
  rw [fetch, get?_ofList]
  cases hlast : (ds.filter fun d => d.id = id).getLast? with
  | none => rfl
  | some d =>
    rw [← id_of_getLast?_filter hlast]
    rfl

/-- The entries as descriptors. -/
def descriptors (t : Table) : List Descriptor := t.entries.map fun e => ⟨e.1, e.2⟩

/-- The entries of a table make the same table again. -/
theorem ofList_descriptors {t : Table} (h : Sorted t.entries) : ofList t.descriptors = t := by
  obtain ⟨entries⟩ := t
  induction entries using List.reverseRecOn with
  | nil => rfl
  | append_singleton entries e ih =>
    obtain ⟨hentries, -, hlast⟩ := List.pairwise_append.mp h
    have hstep : descriptors ⟨entries ++ [e]⟩ = descriptors ⟨entries⟩ ++ [⟨e.1, e.2⟩] :=
      List.map_append
    rw [hstep, ofList_concat, ih hentries, insert,
      insertEntry_of_last e.2 fun e' he' => hlast e' he' e List.mem_cons_self]

/-- A table made of descriptors lists the last ones with their identifiers. -/
theorem mem_entries_ofList {ds : List Descriptor} {id : String} {components : List Double} :
    (id, components) ∈ (ofList ds).entries ↔
      (ds.filter fun d => d.id = id).getLast? = some ⟨id, components⟩ := by
  rw [mem_entries_iff (sorted_ofList ds), ← get?, get?_ofList]
  constructor
  · intro h
    obtain ⟨⟨id', components'⟩, hlast, rfl⟩ := Option.map_eq_some_iff.mp h
    obtain rfl : id' = id := id_of_getLast?_filter hlast
    exact hlast
  · intro h
    rw [h]
    rfl

end SignHash.Table
