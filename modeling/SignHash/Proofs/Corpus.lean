import SignHash.Corpus
import SignHash.Proofs.Utf8

/-!
# The order of descriptors

Identifiers and descriptors are in linear orders, so a corpus is determined by which descriptors
there are, and how often, but not by the order in which they arrive.
-/

namespace SignHash

/-! ## Orders -/

theorem isLE_total {α : Type} (cmp : α → α → Ordering) [Std.OrientedCmp cmp] (a b : α) :
    ((cmp a b).isLE || (cmp b a).isLE) = true := by
  rw [Bool.or_eq_true]
  by_cases hab : (cmp a b).isLE = true
  · exact .inl hab
  · exact .inr (Ordering.isLE_of_eq_lt (Std.OrientedCmp.lt_of_not_isLE hab))

instance : Std.TransCmp idOrder :=
  inferInstanceAs (Std.TransCmp (compareOn Utf8.encode))

instance : Std.LawfulEqCmp idOrder where
  compare_self := Std.ReflCmp.compare_self
  eq_of_compare h := Utf8.encode_injective (Std.LawfulEqCmp.eq_of_compare h)

namespace Descriptor

/-- The patterns of the components. -/
def patterns (d : Descriptor) : List UInt64 := d.components.map (·.bits)

theorem eq_of_patterns {d d' : Descriptor} (hid : d.id = d'.id) (h : d.patterns = d'.patterns) :
    d = d' := by
  obtain ⟨id, components⟩ := d
  obtain ⟨id', components'⟩ := d'
  obtain rfl : id = id' := hid
  have hbits : ∀ x y : Double, x.bits = y.bits → x = y := by
    rintro ⟨x⟩ ⟨y⟩ hxy
    exact congrArg Double.mk hxy
  exact congrArg (Descriptor.mk id) ((List.map_inj_right hbits).mp h)

instance : Std.TransCmp order :=
  inferInstanceAs (Std.TransCmp
    (compareLex (compareOn fun d : Descriptor => Utf8.encode d.id) (compareOn patterns)))

instance : Std.LawfulEqCmp order where
  compare_self := Std.ReflCmp.compare_self
  eq_of_compare h := by
    obtain ⟨hid, hpatterns⟩ := Ordering.then_eq_eq.mp h
    exact eq_of_patterns (Std.LawfulEqCmp.eq_of_compare hid) (Std.LawfulEqCmp.eq_of_compare hpatterns)

end Descriptor

/-! ## Corpora -/

/-- Descriptors that make a corpus: they share a dimension and are finite. -/
def Uniform (ds : List Descriptor) : Prop :=
  ∃ n, ∀ d ∈ ds, d.dimension = n ∧ d.isFinite = true

theorem Uniform.perm {ds ds' : List Descriptor} (hperm : ds.Perm ds') (h : Uniform ds) :
    Uniform ds' := by
  obtain ⟨n, hn⟩ := h
  exact ⟨n, fun d hd => hn d (hperm.mem_iff.mpr hd)⟩

namespace Corpus

theorem issue?_eq_none_iff {dimension : Nat} {v : Descriptor} :
    issue? dimension v = none ↔ v.dimension = dimension ∧ v.isFinite = true := by
  unfold issue?
  split
  · simp_all
  · split <;> simp_all

theorem issue?_eq_some_iff {dimension : Nat} {v : Descriptor} {issue : ValidationIssue} :
    issue? dimension v = some issue ↔
      v.dimension ≠ dimension ∧ issue = .dimensions v.id v.dimension dimension ∨
        v.dimension = dimension ∧ v.isFinite = false ∧ issue = .nonFinite v.id := by
  rw [issue?]
  by_cases hdimension : v.dimension = dimension
  · rw [if_neg (not_not_intro hdimension)]
    cases v.isFinite with
    | true => simp [hdimension]
    | false => simpa [hdimension] using eq_comm
  · simpa [hdimension] using eq_comm

theorem firstIssue?_eq_none_iff {ds : List Descriptor} :
    firstIssue? (sharedDimension ds) ds = none ↔ Uniform ds := by
  rw [firstIssue?, List.findSome?_eq_none_iff]
  simp only [issue?_eq_none_iff]
  constructor
  · intro h
    exact ⟨sharedDimension ds, h⟩
  · rintro ⟨n, hn⟩ d hd
    refine ⟨?_, (hn d hd).2⟩
    cases ds with
    | nil => cases hd
    | cons first ds => rw [(hn d hd).1, sharedDimension, (hn first List.mem_cons_self).1]

theorem pairwise_sorted (ds : List Descriptor) :
    (sorted ds).Pairwise fun a b => (Descriptor.order a b).isLE = true :=
  List.pairwise_mergeSort (fun _ _ _ => Std.TransCmp.isLE_trans) (isLE_total Descriptor.order) ds

/-- Descriptors that tie are the same, so there is only one way to have them in their order. -/
theorem eq_of_pairwise_order {ds ds' : List Descriptor} (h : ds.Perm ds')
    (hds : ds.Pairwise fun a b => (Descriptor.order a b).isLE = true)
    (hds' : ds'.Pairwise fun a b => (Descriptor.order a b).isLE = true) : ds = ds' := by
  refine h.eq_of_pairwise (fun a b _ _ hab hba => ?_) hds hds'
  exact Std.LawfulEqCmp.eq_of_compare (Std.OrientedCmp.isLE_antisymm hab hba)

/-- Sorting leaves no trace of the order before. -/
theorem sorted_eq_of_perm {ds ds' : List Descriptor} (h : ds.Perm ds') : sorted ds = sorted ds' := by
  have hperm : (sorted ds).Perm (sorted ds') :=
    (List.mergeSort_perm _ _).trans (h.trans (List.mergeSort_perm _ _).symm)
  exact eq_of_pairwise_order hperm (pairwise_sorted ds) (pairwise_sorted ds')

theorem sharedDimension_eq_of_perm {ds ds' : List Descriptor} (h : ds.Perm ds') (hds : Uniform ds) :
    sharedDimension ds = sharedDimension ds' := by
  obtain ⟨n, hn⟩ := hds
  cases ds with
  | nil => rw [h.nil_eq]
  | cons d ds =>
    cases ds' with
    | nil => cases h.eq_nil
    | cons d' ds' =>
      have hd' := (hn d' (h.mem_iff.mpr List.mem_cons_self)).1
      rw [sharedDimension, sharedDimension, (hn d List.mem_cons_self).1, hd']

/-- Descriptors make a corpus exactly if they are uniform, and which one it is. -/
theorem ofList_eq_ok_iff {ds : List Descriptor} {c : Corpus} :
    ofList ds = .ok c ↔
      Uniform ds ∧ c.vectors = sorted ds ∧ c.dimension = sharedDimension ds := by
  obtain ⟨vectors, dimension, uniform⟩ := c
  unfold ofList
  split
  · next issue hissue =>
    have hnot : ¬Uniform ds := by
      rw [← firstIssue?_eq_none_iff, hissue]
      exact nofun
    exact iff_of_false nofun fun h => hnot h.1
  · next hnone =>
    rw [Except.ok.injEq, mk.injEq]
    dsimp only
    constructor
    · rintro ⟨rfl, rfl⟩
      exact ⟨firstIssue?_eq_none_iff.mp hnone, rfl, rfl⟩
    · rintro ⟨-, rfl, rfl⟩
      exact ⟨rfl, rfl⟩

theorem isFinite_of_ofList {ds : List Descriptor} {c : Corpus} (h : ofList ds = .ok c) :
    ∀ v ∈ c.vectors, v.isFinite = true := by
  obtain ⟨⟨n, hn⟩, hvectors, -⟩ := ofList_eq_ok_iff.mp h
  intro v hv
  rw [hvectors] at hv
  exact (hn v ((List.mergeSort_perm _ _).mem_iff.mp hv)).2

/-- Descriptors that are uniform make one corpus, however they arrive. -/
theorem exists_ofList {ds : List Descriptor} (h : Uniform ds) :
    ∃ c, c.vectors.Perm ds ∧ ∀ ds', ds'.Perm ds → ofList ds' = .ok c := by
  have huniform := uniform_sorted (firstIssue?_eq_none_iff.mpr h)
  refine ⟨⟨sorted ds, sharedDimension ds, huniform⟩, List.mergeSort_perm _ _, fun ds' hperm => ?_⟩
  have hds' := h.perm hperm.symm
  exact ofList_eq_ok_iff.mpr
    ⟨hds', (sorted_eq_of_perm hperm).symm, (sharedDimension_eq_of_perm hperm hds').symm⟩

/-- Descriptors that make no corpus are refused for the first one that is not like the ones before. -/
theorem ofList_eq_error_iff {ds : List Descriptor} {cause : Error} :
    ofList ds = .error cause ↔ ∃ before v after issue, ds = before ++ v :: after ∧
      (∀ u ∈ before, u.dimension = sharedDimension ds ∧ u.isFinite = true) ∧
      issue? (sharedDimension ds) v = some issue ∧ cause = .validation issue := by
  have hfirst : ∀ issue, firstIssue? (sharedDimension ds) ds = some issue ↔
      ∃ before v after, ds = before ++ v :: after ∧ issue? (sharedDimension ds) v = some issue ∧
        ∀ u ∈ before, issue? (sharedDimension ds) u = none :=
    fun issue => List.findSome?_eq_some_iff
  simp only [issue?_eq_none_iff] at hfirst
  unfold ofList
  split
  · next issue hissue =>
    obtain ⟨before, v, after, hds, hv, hbefore⟩ := (hfirst issue).mp hissue
    constructor
    · rintro ⟨⟩
      exact ⟨before, v, after, issue, hds, hbefore, hv, rfl⟩
    · rintro ⟨before', v', after', issue', hds', hbefore', hv', rfl⟩
      have hissue' := (hfirst issue').mpr ⟨before', v', after', hds', hv', hbefore'⟩
      rw [hissue] at hissue'
      rw [Option.some.inj hissue']
  · next hnone =>
    refine iff_of_false nofun ?_
    rintro ⟨before, v, after, issue, hds, hbefore, hv, -⟩
    have hissue := (hfirst issue).mpr ⟨before, v, after, hds, hv, hbefore⟩
    rw [hnone] at hissue
    cases hissue

theorem exists_ofList_error {ds : List Descriptor} (h : ¬Uniform ds) :
    ∃ issue, ofList ds = .error (.validation issue) := by
  cases hds : ofList ds with
  | ok c => exact absurd (ofList_eq_ok_iff.mp hds).1 h
  | error cause =>
    obtain ⟨-, -, -, issue, -, -, -, rfl⟩ := ofList_eq_error_iff.mp hds
    exact ⟨issue, rfl⟩

/-- A list is uniform exactly if all are like the first. -/
theorem uniform_iff_like_first {ds : List Descriptor} : Uniform ds ↔
    ∀ first ∈ ds.head?, ∀ d ∈ ds, d.dimension = first.dimension ∧ d.isFinite = true := by
  cases ds with
  | nil => exact iff_of_true ⟨0, by simp⟩ (by simp)
  | cons first ds =>
    constructor
    · rintro ⟨n, hn⟩ _ ⟨⟩ d hd
      rw [(hn first List.mem_cons_self).1]
      exact hn d hd
    · intro h
      exact ⟨first.dimension, h first rfl⟩

/-- A corpus is the canonical form of descriptors. They make one exactly if all are finite and have the
dimension of the first; otherwise the first that is not so is named. The corpus is a permutation of
them, in their order; it is the only one in their order, and every permutation of them makes the same
corpus, as its own vectors do. -/
theorem ofList_is_canonical (ds : List Descriptor) :
    ((∃ c, ofList ds = .ok c) ↔
      ∀ first ∈ ds.head?, ∀ d ∈ ds, d.dimension = first.dimension ∧ d.isFinite = true) ∧
    (∀ cause, ofList ds = .error cause →
      ∃ before v after first, ds = before ++ v :: after ∧ ds.head? = some first ∧
        (∀ u ∈ before, u.dimension = first.dimension ∧ u.isFinite = true) ∧
        (v.dimension ≠ first.dimension ∧
            cause = .validation (.dimensions v.id v.dimension first.dimension) ∨
          v.dimension = first.dimension ∧ v.isFinite = false ∧ cause = .validation (.nonFinite v.id)) ∧
        ∃ rest, cause.message = "validation error: " ++ ("descriptor '" ++ v.id ++ rest)) ∧
    ∀ c, ofList ds = .ok c →
      c.vectors.Perm ds ∧ c.vectors.Pairwise (fun a b => (Descriptor.order a b).isLE = true) ∧
      (∀ vectors, vectors.Perm ds →
        vectors.Pairwise (fun a b => (Descriptor.order a b).isLE = true) → vectors = c.vectors) ∧
      (∀ ds', ds'.Perm ds → ofList ds' = .ok c) ∧ ofList c.vectors = .ok c := by
  refine ⟨?_, fun cause hcause => ?_, fun c hc => ?_⟩
  · rw [← uniform_iff_like_first]
    constructor
    · rintro ⟨c, hc⟩
      exact (ofList_eq_ok_iff.mp hc).1
    · intro h
      obtain ⟨c, -, hc⟩ := exists_ofList h
      exact ⟨c, hc ds (.refl ds)⟩
  · obtain ⟨before, v, after, issue, rfl, hbefore, hv, rfl⟩ := ofList_eq_error_iff.mp hcause
    obtain ⟨first, rest, hds⟩ : ∃ first rest, before ++ v :: after = first :: rest :=
      List.exists_cons_of_ne_nil (by simp)
    have hshared : sharedDimension (before ++ v :: after) = first.dimension := by rw [hds]; rfl
    rw [hshared] at hbefore hv
    refine ⟨before, v, after, first, rfl, by rw [hds]; rfl, hbefore, ?_⟩
    rcases issue?_eq_some_iff.mp hv with ⟨hdimension, rfl⟩ | ⟨hdimension, hinfinite, rfl⟩
    · exact ⟨.inl ⟨hdimension, rfl⟩, _, rfl⟩
    · exact ⟨.inr ⟨hdimension, hinfinite, rfl⟩, _, rfl⟩
  · obtain ⟨huniform, hvectors, -⟩ := ofList_eq_ok_iff.mp hc
    have hperm : c.vectors.Perm ds := hvectors ▸ List.mergeSort_perm _ _
    have hsame : ∀ ds', ds'.Perm ds → ofList ds' = .ok c := by
      obtain ⟨c', -, hc'⟩ := exists_ofList huniform
      obtain rfl := Except.ok.inj ((hc' ds (.refl ds)).symm.trans hc)
      exact hc'
    refine ⟨hperm, hvectors ▸ pairwise_sorted ds, fun vectors hother hsorted => ?_, hsame,
      hsame c.vectors hperm⟩
    rw [hvectors]
    exact eq_of_pairwise_order (hother.trans (List.mergeSort_perm _ _).symm) hsorted
      (pairwise_sorted ds)

/-- Two descriptors under one identifier that differ in the sign of a zero come in the order of their
patterns, however they arrive. With a third of another dimension there is no corpus. -/
theorem ofList_is_canonical_of_zeros :
    let plus : Descriptor := ⟨"b", [0]⟩
    let minus : Descriptor := ⟨"b", [⟨0x8000000000000000⟩]⟩
    (∃ c, ofList [minus, plus] = .ok c ∧ c.vectors = [plus, minus] ∧ ofList [plus, minus] = .ok c) ∧
      ¬∃ c, ofList [minus, plus, ⟨"a", []⟩] = .ok c := by
  intro plus minus
  constructor
  · obtain ⟨hmakes, -, hcanonical⟩ := ofList_is_canonical [minus, plus]
    obtain ⟨c, hc⟩ := hmakes.mpr (by decide)
    obtain ⟨-, -, hunique, hsame, -⟩ := hcanonical c hc
    have hvectors : [plus, minus] = c.vectors := hunique _ (.swap ..) (by decide)
    exact ⟨c, hc, hvectors.symm, hsame _ (.swap ..)⟩
  · intro hmade
    have hlike := (ofList_is_canonical _).1.mp hmade minus rfl ⟨"a", []⟩ (by decide)
    exact absurd hlike.1 (by decide)

end Corpus

end SignHash
