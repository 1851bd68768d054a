import SignHash.Proofs.Document
import SignHash.Training.Config

/-!
# Configurations written and read

A configuration that can be used is read back from its text, field by field: the keys of a record are
distinct, and each kind of field takes what was written for it. What is read fits into the machine
numbers that it is kept in.
-/

namespace SignHash

/-! ## Fields -/

namespace Json

/-- A value that is there is taken for what it is. -/
theorem asOption?_eq_map {α : Type} (content : Value → Option α) {v : Value} (h : v ≠ .null) :
    v.asOption? content = (content v).map some := by
  cases v with
  | null => exact absurd rfl h
  | _ => rfl

/-- What is taken for a word has at most 64 bits. -/
theorem lt_of_asWord? {v : Value} {n : Nat} (h : v.asWord? = some n) : n < 2 ^ 64 := by
  cases v with
  | number m =>
    simp only [Value.asWord?, Value.asNat?, Option.ite_none_right_eq_some, Bool.and_eq_true,
      decide_eq_true_eq, Option.some.injEq] at h
    omega
  | _ => cases h

theorem lt_of_optional {absent n : Nat} {field : Option Value} (habsent : absent < 2 ^ 64)
    (h : Value.optional absent Value.asWord? field = some n) : n < 2 ^ 64 := by
  cases field with
  | none =>
    obtain rfl := Option.some.inj h
    exact habsent
  | some v => exact lt_of_asWord? h

theorem lt_of_optional_asOption? {n : Nat} {field : Option Value}
    (h : Value.optional none (·.asOption? Value.asWord?) field = some (some n)) : n < 2 ^ 64 := by
  cases field with
  | none => cases h
  | some v =>
    by_cases hnull : v = .null
    · subst hnull
      cases h
    · rw [Value.optional, asOption?_eq_map _ hnull, Option.map_eq_some_iff] at h
      obtain ⟨m, hm, hn⟩ := h
      obtain rfl := Option.some.inj hn
      exact lt_of_asWord? hm

theorem valuesAt_cons (key name : String) (v : Value) (entries : List (Literal × Value)) :
    Value.valuesAt key ((some name, v) :: entries) =
      if name = key then v :: Value.valuesAt key entries else Value.valuesAt key entries := by
  by_cases h : name = key
  · simp [Value.valuesAt, h]
  · simp [Value.valuesAt, h]

theorem valuesAt_entryValues_eq_nil {entries : List (String × Document)} {key : String}
    (absent : key ∉ entries.map (·.1)) : Value.valuesAt key (entryValues entries) = [] := by
  induction entries with
  | nil => rfl
  | cons e entries ih =>
    simp only [List.map_cons, List.mem_cons, not_or] at absent
    rw [entryValues, valuesAt_cons, if_neg (Ne.symm absent.1), ih absent.2]

/-- Under a name that occurs once, its value is found. -/
theorem valuesAt_entryValues {entries : List (String × Document)} {key : String} {d : Document}
    (distinct : (entries.map (·.1)).Nodup) (hmem : (key, d) ∈ entries) :
    Value.valuesAt key (entryValues entries) = [d.toValue] := by
  induction entries with
  | nil => cases hmem
  | cons e entries ih =>
    obtain ⟨hnew, hdistinct⟩ := List.nodup_cons.mp distinct
    rw [entryValues, valuesAt_cons]
    rcases List.mem_cons.mp hmem with rfl | hmem
    · rw [if_pos rfl, valuesAt_entryValues_eq_nil hnew]
    · have hother : e.1 ≠ key := by
        rintro rfl
        exact hnew (List.mem_map.mpr ⟨_, hmem, rfl⟩)
      rw [if_neg hother, ih hdistinct hmem]

theorem all_isSome_entryValues (entries : List (String × Document)) :
    (entryValues entries).all (fun e => e.1.isSome) = true := by
  induction entries with
  | nil => rfl
  | cons e entries ih => rw [entryValues, List.all_cons, ih, Option.isSome_some, Bool.and_true]

/-- Each key of a record with distinct keys has the value that was written for it. -/
theorem asFields?_toValue {entries : List (String × Document)} {names : List String}
    (hnames : entries.map (·.1) = names) (distinct : names.Nodup) :
    (Document.object entries).toValue.asFields? names = some (entries.map fun e => some e.2.toValue) := by
  subst hnames
  have hfields : ∀ part : List (String × Document), part ⊆ entries →
      (part.map (·.1)).mapM (Value.fieldOfObject? (entryValues entries)) =
        some (part.map fun e => some e.2.toValue) := by
    intro part hpart
    induction part with
    | nil => rfl
    | cons e part ih =>
      obtain ⟨he, hpart⟩ := List.cons_subset.mp hpart
      rw [List.map_cons, List.mapM_cons, Value.fieldOfObject?, valuesAt_entryValues distinct he, ih hpart]
      rfl
  rw [Document.toValue, Value.asFields?, if_pos (all_isSome_entryValues entries)]
  exact hfields entries (List.Subset.refl _)

end Json

open Json

namespace FitParams

/-- Parameters are kept in machine numbers. -/
structure Fits (p : FitParams) : Prop where
  bitLength : p.bitLength < 2 ^ 64
  maxIterations : p.maxIterations < 2 ^ 64
  seed : ∀ seed ∈ p.seed, seed < 2 ^ 64

theorem isFinite_of_validate {p : FitParams} (h : p.validate = .ok ()) : p.tolerance.isFinite = true := by
  rw [validate, issue?] at h
  split_ifs at h with hbits hiterations htolerance
  · exact htolerance.1

theorem ofJson?_toJson {p : FitParams} (fits : p.Fits) (finite : p.tolerance.isFinite = true) :
    ofJson? p.toJson.toValue = some p := by
  obtain ⟨hbits, hiterations, hseed⟩ := fits
  have hfields : p.toJson.toValue.asFields?
      ["bit_length", "max_iterations", "random_seed", "normalize", "convergence_tolerance"] = some _ :=
    asFields?_toValue rfl (by decide)
  rw [ofJson?, hfields]
  simp only [List.map_cons, List.map_nil, Option.bind_eq_bind, Option.bind_some, Value.required,
    Value.optional, asWord?_toValue hbits, asWord?_toValue hiterations, asBool?_toValue,
    asDouble?_toValue finite]
  obtain ⟨bits, iterations, seed, normalize, tolerance⟩ := p
  cases seed with
  | none => rfl
  | some seed =>
    rw [asOption?_eq_map _ (by simp [Document.toValue]), asWord?_toValue (hseed seed rfl)]
    rfl

theorem fits_of_ofJson? {v : Value} {p : FitParams} (h : ofJson? v = some p) : p.Fits := by
  simp only [ofJson?, Option.bind_eq_bind, Option.bind_eq_some_iff] at h
  obtain ⟨fields, -, h⟩ := h
  split at h
  · simp only [Option.bind_eq_some_iff] at h
    obtain ⟨bits, hbits, iterations, hiterations, seed, hseed, normalize, -, tolerance, -, h⟩ := h
    obtain rfl := Option.some.inj h
    obtain ⟨v, -, hv⟩ := Option.bind_eq_some_iff.mp hbits
    refine ⟨lt_of_asWord? hv, lt_of_optional (by decide) hiterations, ?_⟩
    rintro n rfl
    exact lt_of_optional_asOption? hseed
  · cases h

end FitParams

namespace SourceConfig

/-- Texts are sound at any depth. -/
theorem areSoundEntries_texts (depth : Nat) {settings : List (String × Document)}
    (texts : ∀ e ∈ settings, ∃ s, e.2 = .string s) :
    areSoundEntries depth (entryValues settings) = true := by
  induction settings with
  | nil => rfl
  | cons e settings ih =>
    obtain ⟨⟨s, hs⟩, hsettings⟩ := List.forall_mem_cons.mp texts
    rw [entryValues, areSoundEntries, ih hsettings, hs]
    simp [Document.toValue, isSound]

/-- Without a tag among the settings, nothing is taken away with the tag. -/
theorem filter_entryValues {key : String} {settings : List (String × Document)}
    (absent : key ∉ settings.map (·.1)) :
    (entryValues settings).filter (fun e => e.1 != some key) = entryValues settings := by
  induction settings with
  | nil => rfl
  | cons e settings ih =>
    simp only [List.map_cons, List.mem_cons, not_or] at absent
    rw [entryValues, List.filter_cons_of_pos (by simpa using Ne.symm absent.1), ih absent.2]

/-- A record under its kind is read as the settings of this kind. -/
theorem ofJson?_tagged {outer : Nat} (room : outer < depthLimit) (kind : String)
    {settings : List (String × Document)} (untagged : "type" ∉ settings.map (·.1))
    (texts : ∀ e ∈ settings, ∃ s, e.2 = .string s) :
    ofJson? outer (Document.object (("type", .string kind) :: settings)).toValue =
      ofKind? kind (Document.object settings).toValue := by
  obtain ⟨inner, hinner⟩ : ∃ inner, depthLimit - outer = inner + 1 :=
    ⟨depthLimit - outer - 1, by omega⟩
  have hvalue : (Document.object (("type", .string kind) :: settings)).toValue =
      .object ((some "type", .string (some kind)) :: entryValues settings) := rfl
  have hsound : isSound (inner + 1)
      (.object ((some "type", .string (some kind)) :: entryValues settings)) = true :=
    areSoundEntries_texts inner texts
  rw [hvalue, ofJson?, hinner, if_pos hsound]
  simp only [valuesAt_cons, valuesAt_entryValues_eq_nil untagged, if_pos, List.filter_cons,
    filter_entryValues untagged]
  rfl

/-- The configuration of a source is read back from any depth that leaves room for an object. -/
theorem ofJson?_toJson {outer : Nat} (room : outer < depthLimit) (c : SourceConfig) :
    ofJson? outer c.toJson.toValue = some c := by
  cases c with
  | json path =>
    have hfields : (Document.object [("path", .string path)]).toValue.asFields? ["path"] = some _ :=
      asFields?_toValue rfl (by decide)
    rw [toJson, ofJson?_tagged room _ (by simp) (by simp)]
    simp [kind, ofKind?, hfields, Value.required, asText?_toValue]
  | files directory =>
    have hfields : (Document.object [("directory", .string directory)]).toValue.asFields? ["directory"] =
        some _ := asFields?_toValue rfl (by decide)
    rw [toJson, ofJson?_tagged room _ (by simp) (by simp)]
    simp [kind, ofKind?, hfields, Value.required, asText?_toValue]
  | keyspace path partition =>
    have hfields : (Document.object
        [("path", .string path), ("partition", .string partition)]).toValue.asFields?
          ["path", "partition"] = some _ := asFields?_toValue rfl (by decide)
    rw [toJson, ofJson?_tagged room _ (by simp) (by simp)]
    simp [kind, ofKind?, hfields, Value.required, Value.optional, asText?_toValue]

end SourceConfig

/-- The options of extraction come back as they were written. -/
theorem ExtractionOptions.ofJson?_toJson {o : ExtractionOptions} (fits : o.workers < 2 ^ 64) :
    ofJson? o.toJson.toValue = some o := by
  have hfields : o.toJson.toValue.asFields? ["worker_count", "use_process_workers"] = some _ :=
    asFields?_toValue rfl (by decide)
  rw [ofJson?, hfields]
  simp only [List.map_cons, List.map_nil, Option.bind_eq_bind, Option.bind_some, Value.optional,
    asWord?_toValue fits, asBool?_toValue]
  rfl

theorem ExtractionOptions.fits_of_ofJson? {v : Value} {o : ExtractionOptions} (h : ofJson? v = some o) :
    o.workers < 2 ^ 64 := by
  simp only [ofJson?, Option.bind_eq_bind, Option.bind_eq_some_iff] at h
  obtain ⟨fields, -, h⟩ := h
  split at h
  · simp only [Option.bind_eq_some_iff] at h
    obtain ⟨workers, hworkers, useProcesses, -, h⟩ := h
    obtain rfl := Option.some.inj h
    exact lt_of_optional (by decide) hworkers
  · cases h

namespace TrainConfig

/-- A configuration is kept in machine numbers. -/
structure Fits (c : TrainConfig) : Prop where
  params : c.params.Fits
  workers : c.extraction.workers < 2 ^ 64

theorem isFinite_of_validate {c : TrainConfig} (h : c.validate = .ok ()) :
    c.params.tolerance.isFinite = true := by
  cases hissue : c.params.issue? with
  | none => exact FitParams.isFinite_of_validate (by rw [FitParams.validate, hissue])
  | some issue =>
    rw [validate, issue?, hissue] at h
    cases h

theorem ofJson?_toJson {c : TrainConfig} (usable : c.validate = .ok ()) (fits : c.Fits) :
    ofJson? c.toJson.toValue = some c := by
  have hfields : c.toJson.toValue.asFields?
      ["itq", "identifier_list_path", "descriptor_source", "parallel", "model_path"] = some _ :=
    asFields?_toValue rfl (by decide)
  have inside : 1 < SourceConfig.depthLimit := by decide
  rw [ofJson?, hfields]
  simp only [List.map_cons, List.map_nil, Option.bind_eq_bind, Option.bind_some, Value.required,
    Value.optional, FitParams.ofJson?_toJson fits.params (isFinite_of_validate usable),
    SourceConfig.ofJson?_toJson inside, ExtractionOptions.ofJson?_toJson fits.workers, asText?_toValue]
  obtain ⟨params, listPath, source, extraction, modelPath⟩ := c
  cases listPath with
  | none => rfl
  | some path =>
    rw [asOption?_eq_map _ (by simp [Document.toValue]), asText?_toValue]
    rfl

theorem fits_of_ofJson? {v : Value} {c : TrainConfig} (h : ofJson? v = some c) : c.Fits := by
  simp only [ofJson?, Option.bind_eq_bind, Option.bind_eq_some_iff] at h
  obtain ⟨fields, -, h⟩ := h
  split at h
  · next paramsField _ _ extractionField _ =>
    simp only [Option.bind_eq_some_iff] at h
    obtain ⟨params, hparams, listPath, -, source, -, extraction, hextraction, modelPath, -, h⟩ := h
    obtain rfl := Option.some.inj h
    obtain ⟨v, -, hv⟩ := Option.bind_eq_some_iff.mp hparams
    refine ⟨FitParams.fits_of_ofJson? hv, ?_⟩
    cases extractionField with
    | none =>
      have hworkers : ExtractionOptions.default.workers < 2 ^ 64 := by decide
      exact Option.some.inj hextraction ▸ hworkers
    | some v => exact ExtractionOptions.fits_of_ofJson? hextraction
  · cases h

/-- A text is accepted if it says a configuration and that one can be used. -/
theorem parse_eq_ok_iff {text : String} {c : TrainConfig} :
    parse text = .ok c ↔ (Value.ofString? text).bind ofJson? = some c ∧ c.validate = .ok () := by
  rw [parse]
  cases h : (Value.ofString? text).bind ofJson? with
  | none => simp
  | some c' =>
    dsimp only
    cases hvalidate : c'.validate with
    | error e =>
      simp only [Except.map, Option.some.injEq, reduceCtorEq, false_iff, not_and]
      rintro rfl
      simp [hvalidate]
    | ok _ =>
      simp only [Except.map, Except.ok.injEq, Option.some.injEq, iff_self_and]
      rintro rfl
      exact hvalidate

/-- A configuration that can be used is what its text describes, down to the last bit of its numbers
and the last character of its paths; any text that is accepted describes such a configuration; and the
configuration of a source is what its text describes, as worker processes get it. -/
theorem parse_pretty {c : TrainConfig} (usable : c.validate = .ok ()) (fits : c.Fits) :
    parse c.pretty = .ok c ∧
    (∀ text accepted, parse text = .ok accepted → accepted.validate = .ok () ∧ accepted.Fits) ∧
    ∀ source : SourceConfig,
      (Value.ofString? source.toJson.compact).bind (SourceConfig.ofJson? 0) = some source := by
  refine ⟨?_, fun text accepted haccepted => ?_, fun source => ?_⟩
  · rw [parse_eq_ok_iff, pretty, Document.ofString?_pretty, Option.bind_some]
    exact ⟨ofJson?_toJson usable fits, usable⟩
  · obtain ⟨hread, hvalidate⟩ := parse_eq_ok_iff.mp haccepted
    obtain ⟨v, -, hv⟩ := Option.bind_eq_some_iff.mp hread
    exact ⟨hvalidate, fits_of_ofJson? hv⟩
  · rw [Document.ofString?_compact, Option.bind_some]
    exact SourceConfig.ofJson?_toJson (by decide) source

/-- The largest seed, the tolerance minus zero, and a path that has to be escaped come back. -/
theorem parse_pretty_of_extremes :
    let params : FitParams := ⟨1, 2, some (2 ^ 64 - 1), true, ⟨0x8000000000000000⟩⟩
    let c : TrainConfig :=
      ⟨params, some "a\"b\\\n\x01", .keyspace "" "ü", ⟨3, false⟩, "m"⟩
    c.validate = .ok () ∧ c.Fits ∧ parse c.pretty = .ok c := by
  intro params c
  have usable : c.validate = .ok () := by decide +kernel
  have fits : c.Fits := ⟨⟨by decide, by decide, by rintro _ ⟨⟩; decide⟩, by decide⟩
  exact ⟨usable, fits, (parse_pretty usable fits).1⟩

end TrainConfig

end SignHash
