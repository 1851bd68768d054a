import SignHash.Proofs.Corpus
import SignHash.Proofs.Schedule
import SignHash.Training.Run

/-!
# Training

What training comes to does not depend on how descriptors are fetched. If all of them can be
extracted, the fitter gets one and the same corpus, whatever the kind and number of workers, the
order of the identifiers, and the order in which descriptors arrive; otherwise it is not asked.
-/

namespace SignHash

universe u v

variable {source : Source} {ids : List String}

/-! ## Corpora of identifiers -/

/-- The descriptors of identifiers can be extracted: every fetch succeeds, and what it gives is
finite and of one dimension. -/
def Source.Extractable (source : Source) (ids : List String) : Prop :=
  ∃ n, ∀ id ∈ ids, ∃ d, source.fetch id = .ok d ∧ d.dimension = n ∧ d.isFinite = true

/-- Whether identifiers make a corpus does not depend on the order that their descriptors come in. -/
theorem extractable_iff_uniform {ds : List Descriptor}
    (hperm : (ds.map .ok).Perm (ids.map source.fetch)) :
    source.Extractable ids ↔ Uniform ds := by
  constructor
  · rintro ⟨n, hn⟩
    refine ⟨n, fun d hd => ?_⟩
    obtain ⟨id, hid, hfetch⟩ := List.mem_map.mp (hperm.mem_iff.mp (List.mem_map_of_mem hd))
    obtain ⟨d', hd', hdimension, hfinite⟩ := hn id hid
    rw [hfetch] at hd'
    cases hd'
    exact ⟨hdimension, hfinite⟩
  · rintro ⟨n, hn⟩
    refine ⟨n, fun id hid => ?_⟩
    obtain ⟨d, hd, hfetch⟩ := List.mem_map.mp (hperm.mem_iff.mpr (List.mem_map_of_mem hid))
    exact ⟨d, hfetch.symm, hn d hd⟩

theorem perm_of_map_ok {ds ds' : List Descriptor}
    (h : (ds.map (Except.ok (ε := Error))).Perm (ds'.map .ok)) : ds.Perm ds' := by
  have hfilter := h.filterMap Except.toOption
  simpa [List.filterMap_map, Function.comp_def, Except.toOption] using hfilter

theorem exists_fetched (fetched : ∀ id ∈ ids, ∃ d, source.fetch id = .ok d) :
    ∃ ds : List Descriptor, ds.map .ok = ids.map source.fetch := by
  induction ids with
  | nil => exact ⟨[], rfl⟩
  | cons id ids ih =>
    obtain ⟨⟨d, hd⟩, hids⟩ := List.forall_mem_cons.mp fetched
    obtain ⟨ds, hds⟩ := ih hids
    exact ⟨d :: ds, by rw [List.map_cons, List.map_cons, hds, hd]⟩

/-- There is one corpus of identifiers that can be extracted, with a vector for each time that one of
them occurs. -/
theorem Source.Extractable.exists_corpus (h : source.Extractable ids) :
    ∃ corpus : Corpus, (corpus.vectors.map .ok).Perm (ids.map source.fetch) ∧
      ∀ ds : List Descriptor, (ds.map .ok).Perm (ids.map source.fetch) →
        Corpus.ofList ds = .ok corpus := by
  have hfetched : ∀ id ∈ ids, ∃ d, source.fetch id = .ok d := by
    obtain ⟨n, hn⟩ := h
    intro id hid
    obtain ⟨d, hd, -⟩ := hn id hid
    exact ⟨d, hd⟩
  obtain ⟨ds, hds⟩ := exists_fetched hfetched
  obtain ⟨corpus, hvectors, hcorpus⟩ :=
    Corpus.exists_ofList ((extractable_iff_uniform (by rw [hds])).mp h)
  rw [← hds]
  exact ⟨corpus, hvectors.map _, fun ds' hperm => hcorpus ds' (perm_of_map_ok hperm)⟩

/-! ## Runs -/

/-- With a worker at least, there is a pool of the kind that is asked for. -/
theorem Pool.exists_ofOptions {o : ExtractionOptions} (positive : 0 < o.workers) :
    ∃ pool, Pool.ofOptions o = .ok pool ∧ pool.useProcesses = o.useProcesses := by
  rw [Pool.ofOptions, dif_pos positive]
  by_cases hkind : o.useProcesses = true
  · rw [if_pos hkind, hkind]
    exact ⟨_, rfl, rfl⟩
  · rw [if_neg hkind]
    exact ⟨_, rfl, by simpa using (Bool.eq_false_iff.mpr hkind).symm⟩

/-- A run of extraction on identifiers of a source, in some order: where they are listed, how they
are fetched, what the pool comes to deliver, and how far its processes are then. -/
structure ExtractionRun (source : Source) (ids : List String) where
  files : FileTree
  listPath : Option String
  options : ExtractionOptions
  deliver : Delivery
  fates : List ProcessState
  listed : List String
  resolved : resolveIdentifiers files listPath source = .ok listed
  same : listed.Perm ids
  positive : 0 < options.workers
  delivered : ∀ pool, Pool.ofOptions options = .ok pool →
    pool.Delivers source listed fates (deliver pool listed)

namespace ExtractionRun

/-- Processes, if there are any, can open the source and end with success. -/
def Undisturbed (run : ExtractionRun source ids) : Prop :=
  (run.options.useProcesses = true → source.shareable ≠ none) ∧ ∀ p ∈ run.fates, p = .ended true

/-- The corpus to train on, or why there is none. -/
def corpus (run : ExtractionRun source ids) : Except Error Corpus :=
  trainingCorpus run.deliver run.files run.listPath source run.options

/-- What training comes to with a fitter. -/
def train {m : Type u → Type v} [Monad m] {α : Type u} (run : ExtractionRun source ids)
    (fitter : Corpus → m (Except Stop α)) : m (Except TrainingStop α) :=
  trainBy run.deliver run.files run.listPath source run.options fitter

/-- All that training does is asking the fitter once, about this corpus. -/
def Asks (run : ExtractionRun source ids) (corpus : Corpus) : Prop :=
  ∀ {m : Type u → Type v} [Monad m] {α : Type u} (fitter : Corpus → m (Except Stop α)),
    run.train fitter = inStage .fitting <$> fitter corpus

/-- Training fails to extract the descriptors, and does not ask the fitter. -/
def FailsToExtract (run : ExtractionRun source ids) : Prop :=
  ∃ e, ∀ {m : Type u → Type v} [Monad m] {α : Type u} (fitter : Corpus → m (Except Stop α)),
    run.train fitter = pure (.error (.failure .extraction e))

variable (run : ExtractionRun source ids)

theorem asks_of_corpus {c : Corpus} (h : run.corpus = .ok c) : Asks.{u, v} run c := by
  intro m _ α fitter
  rw [train, trainBy, ← corpus, h]

theorem failsToExtract_of_corpus {e : Error} (h : run.corpus = .error e) :
    FailsToExtract.{u, v} run := by
  refine ⟨e, fun fitter => ?_⟩
  rw [train, trainBy, ← corpus, h]

/-- A run delivers as one of the schedules of its pool has it. -/
theorem exists_delivered :
    ∃ pool : Pool, pool.useProcesses = run.options.useProcesses ∧
      pool.Delivers source run.listed run.fates (run.deliver pool run.listed) ∧
      run.corpus = run.deliver pool run.listed >>= Corpus.ofList := by
  obtain ⟨pool, hpool, hkind⟩ := Pool.exists_ofOptions run.positive
  refine ⟨pool, hkind, run.delivered pool hpool, ?_⟩
  rw [corpus, trainingCorpus, run.resolved]
  show extractBy run.deliver run.options run.listed = _
  rw [extractBy, hpool]
  rfl

theorem plain (h : ∀ id ∈ ids, breaksLines id = false) :
    ∀ id ∈ run.listed, breaksLines id = false :=
  fun id hid => h id (run.same.mem_iff.mp hid)

theorem fits (h : ∀ id ∈ ids, (replyTo source.fetch id).Fits) :
    ∀ id ∈ run.listed, (replyTo source.fetch id).Fits :=
  fun id hid => h id (run.same.mem_iff.mp hid)

/-- What is delivered are all descriptors, if it is no failure. -/
theorem corpus_cases (hfits : ∀ id ∈ ids, (replyTo source.fetch id).Fits) :
    (∃ ds : List Descriptor, (ds.map .ok).Perm (ids.map source.fetch) ∧
      run.corpus = Corpus.ofList ds) ∨ ∃ e, run.corpus = .error e := by
  obtain ⟨pool, -, hdelivers, hcorpus⟩ := run.exists_delivered
  cases hresult : run.deliver pool run.listed with
  | error e => exact .inr ⟨e, by rw [hcorpus, hresult]; rfl⟩
  | ok ds =>
    rw [hresult] at hdelivers
    have hperm := (hdelivers.perm (run.fits hfits)).trans (run.same.map source.fetch)
    exact .inl ⟨ds, hperm, by rw [hcorpus, hresult]; rfl⟩

/-- An undisturbed run delivers all descriptors if every fetch succeeds. -/
theorem exists_corpus_eq (hplain : ∀ id ∈ ids, breaksLines id = false)
    (hfits : ∀ id ∈ ids, (replyTo source.fetch id).Fits) (undisturbed : run.Undisturbed)
    (fetched : ∀ id ∈ ids, ∃ d, source.fetch id = .ok d) :
    ∃ ds : List Descriptor, (ds.map .ok).Perm (ids.map source.fetch) ∧
      run.corpus = Corpus.ofList ds := by
  obtain ⟨pool, hkind, hdelivers, hcorpus⟩ := run.exists_delivered
  obtain ⟨ds, hds⟩ := hdelivers.exists_ok (run.fits hfits) (run.plain hplain)
    (fun hprocesses => undisturbed.1 (hkind.symm.trans hprocesses)) undisturbed.2
    (fun id hid => fetched id (run.same.mem_iff.mp hid))
  rw [hds] at hcorpus hdelivers
  exact ⟨ds, (hdelivers.perm (run.fits hfits)).trans (run.same.map source.fetch), hcorpus⟩

end ExtractionRun

/-- Training with the pool as it is, where launched programs serve the source, is such a run. -/
theorem exists_run_train {files : FileTree} {listPath : Option String} {o : ExtractionOptions}
    {program : Program} {success : List String → Bool}
    (resolved : resolveIdentifiers files listPath source = .ok ids) (positive : 0 < o.workers)
    (serves : ∀ config, source.shareable = some config → program.Serves config source.fetch success)
    (fits : ∀ id ∈ ids, (replyTo source.fetch id).Fits) :
    ∃ run : ExtractionRun source ids, ∀ {α : Type} (fitter : Corpus → Except Stop α),
      train files listPath source o program fitter =
        Id.run (run.train fun corpus => pure (fitter corpus)) := by
  obtain ⟨pool, hpool, -⟩ := Pool.exists_ofOptions positive
  obtain ⟨fates, hdelivers⟩ := pool.exists_delivers_fetchAll serves fits
  refine ⟨⟨files, listPath, o, fun pool => pool.fetchAll program source, fates, ids, resolved, .refl ids,
    positive, fun pool' hpool' => ?_⟩, fun fitter => rfl⟩
  rw [hpool] at hpool'
  cases hpool'
  exact hdelivers

/-- Training does not depend on how extraction ran. If the descriptors can be extracted, there is one
corpus, with a vector for each time that an identifier occurs, such that every run either asks the
fitter about this corpus or fails to extract, and it asks if nothing disturbs it. Otherwise every run
fails to extract. -/
theorem train_independent_of_extraction (source : Source) (ids : List String)
    (plain : ∀ id ∈ ids, breaksLines id = false)
    (fits : ∀ id ∈ ids, (replyTo source.fetch id).Fits) :
    (source.Extractable ids → ∃ corpus : Corpus,
      (corpus.vectors.map .ok).Perm (ids.map source.fetch) ∧
      ∀ run : ExtractionRun source ids, (run.Undisturbed → run.Asks.{u, v} corpus) ∧
        (run.Asks.{u, v} corpus ∨ run.FailsToExtract.{u, v})) ∧
    (¬source.Extractable ids → ∀ run : ExtractionRun source ids, run.FailsToExtract.{u, v}) := by
  constructor
  · intro hextractable
    obtain ⟨corpus, hvectors, hcorpus⟩ := hextractable.exists_corpus
    have hfetched : ∀ id ∈ ids, ∃ d, source.fetch id = .ok d :=
      Exchange.exists_ok_of_perm hvectors
    refine ⟨corpus, hvectors, fun run => ⟨fun undisturbed => ?_, ?_⟩⟩
    · obtain ⟨ds, hperm, hrun⟩ := run.exists_corpus_eq plain fits undisturbed hfetched
      exact run.asks_of_corpus (hrun.trans (hcorpus ds hperm))
    · rcases run.corpus_cases fits with ⟨ds, hperm, hrun⟩ | ⟨e, hrun⟩
      · exact .inl (run.asks_of_corpus (hrun.trans (hcorpus ds hperm)))
      · exact .inr (run.failsToExtract_of_corpus hrun)
  · intro hnot run
    rcases run.corpus_cases fits with ⟨ds, hperm, hrun⟩ | ⟨e, hrun⟩
    · have huniform : ¬Uniform ds := fun h => hnot ((extractable_iff_uniform hperm).mpr h)
      obtain ⟨issue, hissue⟩ := Corpus.exists_ofList_error huniform
      exact run.failsToExtract_of_corpus (hrun.trans hissue)
    · exact run.failsToExtract_of_corpus hrun

/-- Two descriptors that threads deliver in the other order. -/
theorem train_independent_of_extraction_pair :
    ∃ (corpus : Corpus) (run : ExtractionRun (.ofTable ⟨[("a", [1]), ("b", [0])]⟩ none) ["b", "a"]),
      run.deliver ⟨2, false, by decide⟩ ["a", "b"] = .ok [⟨"b", [0]⟩, ⟨"a", [1]⟩] ∧
        run.Asks.{0, 0} corpus := by
  have hfetch : ∀ id ∈ ["b", "a"], ∃ x : Double,
      (Source.ofTable ⟨[("a", [1]), ("b", [0])]⟩ none).fetch id = .ok ⟨id, [x]⟩ ∧ x.isFinite = true := by
    intro id hid
    simp only [List.mem_cons, List.not_mem_nil, or_false] at hid
    rcases hid with rfl | rfl
    · exact ⟨0, rfl, by decide⟩
    · exact ⟨1, rfl, by decide⟩
  have hextractable : Source.Extractable (.ofTable ⟨[("a", [1]), ("b", [0])]⟩ none) ["b", "a"] := by
    refine ⟨1, fun id hid => ?_⟩
    obtain ⟨x, hx, hfinite⟩ := hfetch id hid
    exact ⟨_, hx, rfl, by simpa [Descriptor.isFinite] using hfinite⟩
  have hfits : ∀ id ∈ ["b", "a"],
      (replyTo (Source.ofTable ⟨[("a", [1]), ("b", [0])]⟩ none).fetch id).Fits := by
    intro id hid
    simp only [List.mem_cons, List.not_mem_nil, or_false] at hid
    rcases hid with rfl | rfl
    · show Wire.TextFits "b" ∧ Wire.ListFits [(0 : Double)]
      decide
    · show Wire.TextFits "a" ∧ Wire.ListFits [(1 : Double)]
      decide
  let run : ExtractionRun (.ofTable ⟨[("a", [1]), ("b", [0])]⟩ none) ["b", "a"] :=
    { files := .empty
      listPath := none
      options := ⟨2, false⟩
      deliver := fun _ _ => .ok [⟨"b", [0]⟩, ⟨"a", [1]⟩]
      fates := []
      listed := ["a", "b"]
      resolved := rfl
      same := .swap "b" "a" []
      positive := by decide
      delivered := fun pool hpool => .threads (by cases hpool; rfl)
        (.next ["a"] [] rfl (.next [] [] rfl .done)) }
  obtain ⟨corpus, -, hasks⟩ := (train_independent_of_extraction.{0, 0} _ ["b", "a"] (by decide)
    hfits).1 hextractable
  have hundisturbed : run.Undisturbed := ⟨fun h => (by cases h), fun p hp => (by cases hp)⟩
  exact ⟨corpus, run, rfl, (hasks run).1 hundisturbed⟩

end SignHash
