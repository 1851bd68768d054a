import Mathlib.Algebra.Order.Floor.Div
import SignHash.Extraction.Exchange
import SignHash.Proofs.Fallible
import SignHash.Proofs.Word

/-!
# Shares

How a list is cut into pieces, and the shares of the workers as such a cut: one after the other they are
the list of identifiers, they are as even as their size allows, and there are no more of them than
workers.
-/

namespace SignHash

variable {α : Type} {size fuel : Nat}

/-! ## Pieces -/

/-- A list is cut into pieces that are all of one size, the last one perhaps shorter, and not empty. -/
structure CutEvenly (size : Nat) (items : List α) (pieces : List (List α)) : Prop where
  /-- The pieces follow each other in the list, and nothing is left out. -/
  joined : pieces.flatten = items
  /-- No piece is empty. -/
  nonempty : ∀ piece ∈ pieces, piece ≠ []
  /-- No piece is larger than the size. -/
  bounded : ∀ piece ∈ pieces, piece.length ≤ size
  /-- Every piece but the last has the size. -/
  full : ∀ piece ∈ pieces.dropLast, piece.length = size

namespace CutEvenly

theorem nil : CutEvenly size ([] : List α) [] where
  joined := rfl
  nonempty := List.forall_mem_nil _
  bounded := List.forall_mem_nil _
  full := List.forall_mem_nil _

/-- A piece is put before others. It has the size unless there are none. -/
theorem cons {piece items : List α} {pieces : List (List α)} (nonempty : piece ≠ [])
    (bounded : piece.length ≤ size) (full : pieces ≠ [] → piece.length = size)
    (h : CutEvenly size items pieces) : CutEvenly size (piece ++ items) (piece :: pieces) where
  joined := by rw [List.flatten_cons, h.joined]
  nonempty := List.forall_mem_cons.mpr ⟨nonempty, h.nonempty⟩
  bounded := List.forall_mem_cons.mpr ⟨bounded, h.bounded⟩
  full := by
    cases pieces with
    | nil => exact List.forall_mem_nil _
    | cons next pieces =>
      rw [List.dropLast_cons_cons]
      exact List.forall_mem_cons.mpr ⟨full (List.cons_ne_nil _ _), h.full⟩

theorem sum_length {items : List α} {pieces : List (List α)} (h : CutEvenly size items pieces) :
    (pieces.map List.length).sum = items.length := by
  rw [← List.length_flatten, h.joined]

end CutEvenly

theorem chunks_nil : chunks size fuel ([] : List α) = [] := by
  cases fuel <;> rfl

theorem cutEvenly_chunks (positive : 0 < size) {items : List α} (enough : items.length ≤ fuel) :
    CutEvenly size items (chunks size fuel items) := by
  induction fuel generalizing items with
  | zero =>
    rw [List.eq_nil_of_length_eq_zero (Nat.le_zero.mp enough)]
    exact .nil
  | succ fuel ih =>
    cases items with
    | nil => exact .nil
    | cons a items =>
      have hdrop : ((a :: items).drop size).length ≤ fuel := by
        rw [List.length_drop]
        omega
      have hnonempty : (a :: items).take size ≠ [] := by
        rw [Ne, List.take_eq_nil_iff]
        exact not_or.mpr ⟨Nat.ne_of_gt positive, List.cons_ne_nil a items⟩
      -- a piece after this one is what is left beyond the size
      have hfull : chunks size fuel ((a :: items).drop size) ≠ [] →
          ((a :: items).take size).length = size := by
        intro hmore
        refine List.length_take_of_le (Nat.le_of_not_le fun hle => hmore ?_)
        rw [List.drop_eq_nil_of_le hle, chunks_nil]
      have hcons := (ih hdrop).cons hnonempty (List.length_take_le _ _) hfull
      rw [List.take_append_drop] at hcons
      rw [chunks]
      · exact hcons
      · exact List.cons_ne_nil a items

theorem flatten_chunks (positive : 0 < size) {items : List α} (enough : items.length ≤ fuel) :
    (chunks size fuel items).flatten = items :=
  (cutEvenly_chunks positive enough).joined

/-- A list has no more pieces than have room for it. -/
theorem length_chunks_le {count : Nat} {items : List α} (room : items.length ≤ size * count) :
    (chunks size fuel items).length ≤ count := by
  induction fuel generalizing items count with
  | zero => exact Nat.zero_le count
  | succ fuel ih =>
    cases items with
    | nil => exact Nat.zero_le count
    | cons a items =>
      cases count with
      | zero => exact absurd room (Nat.not_succ_le_zero _)
      | succ count =>
        have hdrop : ((a :: items).drop size).length ≤ size * count := by
          rw [List.length_drop, Nat.sub_le_iff_le_add, ← Nat.mul_succ]
          exact room
        rw [chunks]
        · exact Nat.succ_le_succ (ih hdrop)
        · exact List.cons_ne_nil a items

/-- An item is in one of the pieces, and the pieces before that have the items up to the last multiple
of the size. -/
theorem exists_chunks_eq (positive : 0 < size) {before rest : List α} {a : α}
    (enough : (before ++ a :: rest).length ≤ fuel) :
    ∃ front piece later, chunks size fuel (before ++ a :: rest) = front ++ piece :: later ∧
      a ∈ piece ∧ front.flatten = (before ++ a :: rest).take (size * (before.length / size)) := by
  induction fuel generalizing before with
  | zero => simp at enough
  | succ fuel ih =>
    have hne : before ++ a :: rest ≠ [] := by simp
    rw [chunks]
    · by_cases hbefore : before.length < size
      · refine ⟨[], _, _, rfl, ?_, ?_⟩
        · obtain ⟨k, hk⟩ : ∃ k, size - before.length = k + 1 := ⟨size - before.length - 1, by omega⟩
          rw [List.take_append, hk]
          exact List.mem_append_right _ List.mem_cons_self
        · rw [Nat.div_eq_of_lt hbefore, Nat.mul_zero]
          rfl
      · have hle : size ≤ before.length := Nat.not_lt.mp hbefore
        have hdrop : (before ++ a :: rest).drop size = before.drop size ++ a :: rest :=
          List.drop_append_of_le_length hle
        have hlength : (before.drop size ++ a :: rest).length ≤ fuel := by
          rw [← hdrop, List.length_drop]
          omega
        obtain ⟨front, piece, later, hchunks, ha, hfront⟩ := ih hlength
        refine ⟨(before ++ a :: rest).take size :: front, piece, later, ?_, ha, ?_⟩
        · rw [hdrop, hchunks]
          rfl
        · have hturn : before.length / size = (before.length - size) / size + 1 :=
            Nat.div_eq_sub_div positive hle
          rw [List.flatten_cons, hfront, List.length_drop, hturn, Nat.mul_add_one, Nat.add_comm,
            List.take_add, hdrop]
    · exact hne

/-! ## Shares -/

variable {count workers : Nat} {ids : List String}

theorem shareSize_pos (hcount : 0 < count) (hworkers : 0 < workers) : 0 < shareSize count workers :=
  Nat.div_pos (by omega) hworkers

/-- The size of a share is the least with which the workers have room for everything. -/
theorem shareSize_le_iff (positive : 0 < workers) :
    shareSize count workers ≤ size ↔ count ≤ workers * size :=
  ceilDiv_le_iff_le_mul positive

theorem cutEvenly_shares (positive : 0 < workers) (ids : List String) :
    CutEvenly (shareSize ids.length workers) ids (shares workers ids) := by
  cases ids with
  | nil => exact .nil
  | cons id ids => exact cutEvenly_chunks (shareSize_pos (Nat.succ_pos _) positive) (Nat.le_refl _)

/-- The size is chosen so that the workers have room for everything, and a cut into pieces of that size
has no more of them than have room for it. -/
theorem length_shares_le (positive : 0 < workers) : (shares workers ids).length ≤ workers := by
  have hroom : ids.length ≤ workers * shareSize ids.length workers :=
    (shareSize_le_iff positive).mp (Nat.le_refl _)
  rw [Nat.mul_comm] at hroom
  exact length_chunks_le hroom

theorem flatten_shares (positive : 0 < workers) (ids : List String) :
    (shares workers ids).flatten = ids :=
  (cutEvenly_shares positive ids).joined

theorem mem_of_mem_shares (positive : 0 < workers) {ids share : List String}
    (hshare : share ∈ shares workers ids) {id : String} (hid : id ∈ share) : id ∈ ids := by
  rw [← flatten_shares positive ids]
  exact List.mem_flatten_of_mem hshare hid

/-! ## What is awaited -/

variable {program : Program} {config : SourceConfig}

/-- Every share is what one process is launched for. -/
theorem map_fst_launchAll {shares : List (List String)} {outcomes : List (List String × Outcome)}
    (h : launchAll program config shares = .ok outcomes) : outcomes.map Prod.fst = shares := by
  rw [← List.map_id shares]
  refine map_eq_map_of_mapM (fun share o ho => ?_) h
  cases hlaunch : program config (requestsFor share) with
  | error issue =>
    rw [hlaunch] at ho
    cases ho
  | ok outcome =>
    rw [hlaunch] at ho
    cases ho
    rfl

/-- Replies are read until there are as many descriptors as are expected, or not at all. -/
theorem length_of_readReplies {expected : Nat} {bytes : Bytes} {ds : List Descriptor}
    (h : readReplies expected bytes = .ok ds) : ds.length = expected := by
  induction expected generalizing bytes ds with
  | zero =>
    cases h
    rfl
  | succ expected ih =>
    rw [readReplies] at h
    cases hread : Reply.read bytes with
    | none =>
      rw [hread] at h
      cases h
    | some found =>
      rw [hread] at h
      obtain ⟨d, -, hrest⟩ := bind_eq_ok_iff.mp h
      obtain ⟨more, hmore, hds⟩ := bind_eq_ok_iff.mp hrest
      cases hds
      rw [List.length_cons, ih hmore]

/-- Whatever the processes write, they do not come to more or fewer descriptors than there are
identifiers. -/
theorem length_of_fetchInProcesses (positive : 0 < workers) {ds : List Descriptor}
    (h : fetchInProcesses program workers config ids = .ok ds) : ds.length = ids.length := by
  rw [fetchInProcesses] at h
  cases hfind : ids.find? breaksLines with
  | some id =>
    rw [hfind] at h
    cases h
  | none =>
    rw [hfind] at h
    obtain ⟨outcomes, hlaunch, hrest⟩ := bind_eq_ok_iff.mp h
    obtain ⟨fetched, hfetched, hend⟩ := bind_eq_ok_iff.mp hrest
    have hcounts : fetched.map List.length = (outcomes.map Prod.fst).map List.length := by
      rw [List.map_map]
      exact map_eq_map_of_mapM (fun o ds hds => length_of_readReplies hds) hfetched
    rw [map_fst_launchAll hlaunch] at hcounts
    split at hend
    · cases hend
      rw [List.length_flatten, hcounts]
      exact (cutEvenly_shares positive ids).sum_length
    · cases hend

/-- The lanes of an exchange await a reply for each identifier of their shares. -/
theorem map_awaited_start (shares : List (List String)) :
    (Exchange.start shares).lanes.map Lane.awaited = shares.map List.length := by
  rw [Exchange.start, List.map_map]
  rfl

/-- Identifiers are shared out evenly. The size of the shares is the least with which the workers have
room for all identifiers, and words of 64 bits suffice to compute it, however many workers there are.
The shares cut the list into pieces of that size, and there are no more of them than workers. So no more
processes are launched than there are workers, and what is awaited from them adds up to one reply for
each identifier, whatever they write. -/
theorem shares_split_evenly (positive : 0 < workers) (nonempty : ids ≠ []) :
    0 < shareSize ids.length workers ∧
    (∀ size, shareSize ids.length workers ≤ size ↔ ids.length ≤ workers * size) ∧
    (∀ n w : UInt64, n.toNat = ids.length → w.toNat = workers →
      ∃ size, Word.ceilDiv? n w = some size ∧ size.toNat = shareSize ids.length workers) ∧
    CutEvenly (shareSize ids.length workers) ids (shares workers ids) ∧
    (shares workers ids).length ≤ workers ∧
    (∀ program config outcomes, launchAll program config (shares workers ids) = .ok outcomes →
      outcomes.length ≤ workers ∧ (outcomes.map fun o => o.1.length).sum = ids.length) ∧
    (∀ program config ds, fetchInProcesses program workers config ids = .ok ds →
      ds.length = ids.length) ∧
    ((Exchange.start (shares workers ids)).lanes.map Lane.awaited).sum = ids.length := by
  have hcut := cutEvenly_shares positive ids
  have hfew : (shares workers ids).length ≤ workers := length_shares_le positive
  refine ⟨shareSize_pos (List.length_pos_of_ne_nil nonempty) positive, fun _ =>
    shareSize_le_iff positive, fun n w hn hw => ?_, hcut, hfew, fun program config outcomes h => ?_,
    fun _ _ _ => length_of_fetchInProcesses positive, ?_⟩
  · have hpos : 0 < w.toNat := hw ▸ positive
    obtain ⟨size, hsize, hvalue⟩ := Word.exists_ceilDiv? (x := n) hpos
    rw [hn, hw] at hvalue
    exact ⟨size, hsize, hvalue⟩
  · have hshares := map_fst_launchAll h
    have hlength : outcomes.length = (shares workers ids).length := by
      rw [← hshares, List.length_map]
    have hcounts : (outcomes.map fun o => o.1.length) = (shares workers ids).map List.length := by
      rw [← hshares, List.map_map]
      rfl
    exact ⟨hlength.trans_le hfew, hcounts ▸ hcut.sum_length⟩
  · rw [map_awaited_start]
    exact hcut.sum_length

/-- Five identifiers for four workers, of whom three get a share: whatever they are sent they write two
replies, of which one too many is not read. Then as many workers as a word can count. -/
theorem shares_split_evenly_of_five :
    CutEvenly 2 ["a", "b", "c", "d", "e"] [["a", "b"], ["c", "d"], ["e"]] ∧
    (∃ size, Word.ceilDiv? 5 4 = some size ∧ size.toNat = 2) ∧
    (∃ ds, fetchInProcesses (fun _ _ => .ok ⟨(Reply.fetched ⟨"x", []⟩).write ++
        (Reply.fetched ⟨"x", []⟩).write, true⟩) 4 (.json "d") ["a", "b", "c", "d", "e"] = .ok ds ∧
      ds.length = 5) ∧
    (∃ size, Word.ceilDiv? 5 0xffffffffffffffff = some size ∧ size.toNat = 1) ∧
    (shares 0xffffffffffffffff ["a", "b", "c", "d", "e"]).length ≤ 0xffffffffffffffff := by
  have hids : ["a", "b", "c", "d", "e"] ≠ [] := List.cons_ne_nil _ _
  obtain ⟨-, -, hsize, hcut, -, -, hcount, -⟩ := shares_split_evenly (by decide : 0 < 4) hids
  obtain ⟨-, -, hone, -, hfew, -⟩ := shares_split_evenly (by decide : 0 < 0xffffffffffffffff) hids
  have hfetched : fetchInProcesses (fun _ _ => .ok ⟨(Reply.fetched ⟨"x", []⟩).write ++
      (Reply.fetched ⟨"x", []⟩).write, true⟩) 4 (.json "d") ["a", "b", "c", "d", "e"] =
      .ok (List.replicate 5 ⟨"x", []⟩) := rfl
  exact ⟨hcut, hsize 5 4 rfl rfl, ⟨_, hfetched, hcount _ _ _ hfetched⟩,
    hone 5 0xffffffffffffffff rfl rfl, hfew⟩

end SignHash
