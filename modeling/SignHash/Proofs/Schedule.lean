import SignHash.Extraction.Schedule
import SignHash.Proofs.Processes

/-!
# What pools deliver

However its workers are scheduled, a pool delivers the descriptors of all identifiers or a failure,
and it delivers them if every fetch succeeds and every process ends with success. What `fetchAll`
says is what one of the schedules comes to.
-/

namespace SignHash

variable {fetch : String → Except Error Descriptor} {ids : List String}

/-! ## Threads -/

/-- Whatever is gathered is what the source says of the identifiers, in some order. -/
theorem Gathers.perm {ds : List Descriptor} (h : Gathers fetch ids (.ok ds)) :
    (ds.map .ok).Perm (ids.map fetch) := by
  generalize hresult : Except.ok ds = result at h
  induction h generalizing ds with
  | done =>
    cases hresult
    exact .refl _
  | @next before after id d result fetched rest ih =>
    cases result with
    | error e => cases hresult
    | ok ds' =>
      cases hresult
      have hmiddle : (before ++ id :: after).Perm (id :: (before ++ after)) := List.perm_middle
      refine .trans ?_ (hmiddle.map fetch).symm
      rw [List.map_cons, List.map_cons, fetched]
      exact (ih rfl).cons _
  | fail => cases hresult

/-- A failure that ends the gathering is that of one of the identifiers. -/
theorem Gathers.exists_failed {e : Error} (h : Gathers fetch ids (.error e)) :
    ∃ id ∈ ids, fetch id = .error e := by
  generalize hresult : Except.error e = result at h
  induction h with
  | done => cases hresult
  | @next before after id d result fetched rest ih =>
    cases result with
    | ok ds => cases hresult
    | error e' =>
      cases hresult
      obtain ⟨id', hid', hfailed⟩ := ih rfl
      exact ⟨id', List.perm_middle.mem_iff.mpr (List.mem_cons_of_mem _ hid'), hfailed⟩
  | fail before after failed =>
    cases hresult
    exact ⟨_, by simp, failed⟩

/-- Fetching one after the other is one of the ways. -/
theorem gathers_mapM (ids : List String) : Gathers fetch ids (ids.mapM fetch) := by
  induction ids with
  | nil => exact .done
  | cons id ids ih =>
    rw [List.mapM_cons]
    cases hid : fetch id with
    | error e => exact .fail [] ids hid
    | ok d =>
      have hnext := Gathers.next [] ids hid ih
      cases hids : ids.mapM fetch with
      | error e => rw [hids] at hnext; exact hnext
      | ok ds => rw [hids] at hnext; exact hnext

/-! ## Pools -/

namespace Pool

variable {pool : Pool} {source : Source} {fates : List ProcessState}

/-- A pool of either kind delivers what the source says of the identifiers, in some order. -/
theorem Delivers.perm {ds : List Descriptor} (h : pool.Delivers source ids fates (.ok ds))
    (fits : ∀ id ∈ ids, (replyTo source.fetch id).Fits) :
    (ds.map .ok).Perm (ids.map source.fetch) := by
  cases h with
  | threads _ run => exact run.perm
  | @processes _ last _ _ _ plain run =>
    have hplain : ∀ id ∈ ids, breaksLines id = false := find?_breaksLines_eq_none_iff.mp plain
    rcases run.cases pool.positive hplain fits with ⟨ds', hds, hperm, -⟩ | ⟨e, he, -⟩ | ⟨he, -⟩
    · cases hds
      exact hperm
    · cases he
    · cases he

theorem Delivers.exists_ok {result : Except Error (List Descriptor)}
    (h : pool.Delivers source ids fates result) (fits : ∀ id ∈ ids, (replyTo source.fetch id).Fits)
    (plain : ∀ id ∈ ids, breaksLines id = false)
    (shared : pool.useProcesses = true → source.shareable ≠ none)
    (ended : ∀ p ∈ fates, p = .ended true) (fetched : ∀ id ∈ ids, ∃ d, source.fetch id = .ok d) :
    ∃ ds, result = .ok ds := by
  cases h with
  | threads _ run =>
    cases result with
    | ok ds => exact ⟨ds, rfl⟩
    | error e =>
      obtain ⟨id, hid, hfailed⟩ := run.exists_failed
      obtain ⟨d, hd⟩ := fetched id hid
      rw [hfailed] at hd
      cases hd
  | notShareable kind alone => exact absurd alone (shared kind)
  | @lineBreak config id kind _ broken =>
    have hbroken := List.find?_some broken
    rw [plain id (List.mem_of_find?_eq_some broken)] at hbroken
    cases hbroken
  | @processes _ last _ _ _ _ run =>
    have hended : ∀ l ∈ last.lanes, l.process = .ended true :=
      fun l hl => ended _ (List.mem_map_of_mem hl)
    obtain ⟨ds, hds, -⟩ := run.exists_ok pool.positive plain fits fetched hended
    exact ⟨ds, hds⟩

/-- A pool only comes to report an identifier as missing if the source does. -/
theorem Delivers.exists_lookup {missing : String}
    (h : pool.Delivers source ids fates (.error (.lookup missing)))
    (fits : ∀ id ∈ ids, (replyTo source.fetch id).Fits) :
    ∃ id ∈ ids, source.fetch id = .error (.lookup missing) := by
  cases h with
  | threads _ run => exact run.exists_failed
  | @processes _ last _ _ _ plain run =>
    have hplain : ∀ id ∈ ids, breaksLines id = false := find?_breaksLines_eq_none_iff.mp plain
    rcases run.cases pool.positive hplain fits with ⟨ds, hds, -⟩ |
      ⟨e, he, ⟨share, hshare, hfirst⟩ | ⟨rfl, -⟩⟩ | ⟨he, -⟩
    · cases hds
    · obtain rfl := Except.error.inj he
      obtain ⟨before, id, after, cause, rfl, -, hid, hcause⟩ := hfirst
      refine ⟨id, mem_of_mem_shares pool.positive hshare (by simp), ?_⟩
      -- other failures are reported as those of a worker
      cases cause with
      | lookup other => rw [hid, hcause, reported]
      | _ => cases hcause
    · cases he
    · cases he

/-- What a pool fetches is one of the things that it may deliver. -/
theorem exists_delivers_fetchAll (pool : Pool) {program : Program} {success : List String → Bool}
    (serves : ∀ config, source.shareable = some config → program.Serves config source.fetch success)
    (fits : ∀ id ∈ ids, (replyTo source.fetch id).Fits) :
    ∃ fates, pool.Delivers source ids fates (pool.fetchAll program source ids) := by
  unfold fetchAll
  by_cases hkind : pool.useProcesses = true
  · rw [if_pos hkind]
    cases hshared : source.shareable with
    | none => exact ⟨[], .notShareable hkind hshared⟩
    | some config =>
      cases hfind : ids.find? breaksLines with
      | some id =>
        simp only [fetchInProcesses, hfind]
        exact ⟨[], .lineBreak hkind hshared hfind⟩
      | none =>
        have hplain : ∀ id ∈ ids, breaksLines id = false := find?_breaksLines_eq_none_iff.mp hfind
        obtain ⟨last, -, hyields⟩ := exists_yields_fetchInProcesses (serves config hshared)
          pool.positive hplain fits
        exact ⟨_, .processes hkind hshared hfind hyields⟩
  · rw [if_neg hkind]
    exact ⟨[], .threads (by simpa using hkind) (gathers_mapM ids)⟩

end Pool

end SignHash
