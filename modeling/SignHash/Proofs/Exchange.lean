import Mathlib.Algebra.Ring.Nat
import SignHash.Proofs.Lane
import SignHash.Proofs.Shares

/-!
# Exchanges

The invariant of an exchange: what the pool has taken, its verdict and what waits in the queue are,
in some order, what the lanes have put there. It holds of every exchange that steps lead to, so that
whatever a pool comes to is settled by its lanes. Every step does some of the work that is left, and
an exchange that cannot take a step has come to an end.
-/

namespace SignHash

open Lane (Inv)

variable {fetch : String → Except Error Descriptor} {shares : List (List String)}
  {lanes lanes' : List Lane} {all new : List (Except Error Descriptor)}

/-! ## Lanes of shares -/

/-- Every lane is in the invariant of its share, and all have put so much into the queue, lane after
lane. -/
inductive LanesInv (fetch : String → Except Error Descriptor) :
    List (List String) → List Lane → List (Except Error Descriptor) → Prop where
  /-- There are no lanes. -/
  | nil : LanesInv fetch [] [] []
  /-- A lane is in the invariant, and all others are. -/
  | cons {share : List String} {shares : List (List String)} {lane : Lane} {lanes : List Lane}
      {put puts : List (Except Error Descriptor)} (h : Inv fetch share lane put)
      (t : LanesInv fetch shares lanes puts) :
      LanesInv fetch (share :: shares) (lane :: lanes) (put ++ puts)

namespace LanesInv

theorem start (plain : ∀ share ∈ shares, ∀ id ∈ share, breaksLines id = false) :
    LanesInv fetch shares (shares.map Lane.start) [] := by
  induction shares with
  | nil => exact .nil
  | cons share shares ih =>
    obtain ⟨hshare, hshares⟩ := List.forall_mem_cons.mp plain
    exact .cons (Lane.inv_start hshare) (ih hshares)

theorem step (fits : ∀ share ∈ shares, ∀ r ∈ answers fetch share, r.Fits)
    (hstep : LanesStep fetch lanes lanes' new) (h : LanesInv fetch shares lanes all) :
    ∃ all', LanesInv fetch shares lanes' all' ∧ all'.Perm (all ++ new) := by
  induction hstep generalizing shares all with
  | head hlane =>
    cases h with
    | @cons _ _ _ _ put puts hinv hinvs =>
      refine ⟨_, .cons (hinv.step (fits _ List.mem_cons_self) hlane) hinvs, ?_⟩
      rw [List.append_assoc, List.append_assoc]
      exact List.perm_append_comm.append_left put
  | tail _ ih =>
    cases h with
    | @cons _ _ _ _ put puts hinv hinvs =>
      obtain ⟨puts', hinvs', hperm⟩ := ih (fun s hs => fits s (List.mem_cons_of_mem _ hs)) hinvs
      refine ⟨_, .cons hinv hinvs', ?_⟩
      rw [List.append_assoc]
      exact hperm.append_left put

theorem kill (hkill : LanesKill lanes lanes') (h : LanesInv fetch shares lanes all) :
    LanesInv fetch shares lanes' all := by
  induction hkill generalizing shares all with
  | nil => exact h
  | cons hlane _ ih =>
    cases h with
    | cons hinv hinvs => exact .cons (hinv.kill hlane) (ih hinvs)

/-- Lanes without failures that await nothing have put everything into the queue. -/
theorem put_eq (h : LanesInv fetch shares lanes all) (done : ∀ l ∈ lanes, l.awaited = 0)
    (fetched : ∀ r ∈ all, ∃ d, r = .ok d) : all = shares.flatten.map fetch := by
  induction h with
  | nil => rfl
  | cons hinv _ ih =>
    obtain ⟨hlane, hlanes⟩ := List.forall_mem_cons.mp done
    obtain ⟨hput, hputs⟩ := List.forall_mem_append.mp fetched
    rw [List.flatten_cons, List.map_append, ← hinv.put_eq hlane hput, ← ih hlanes hputs]

/-- A failure in the queue is that of the first fetch of a share that fails, or a process is gone. -/
theorem of_error (h : LanesInv fetch shares lanes all) {e : Error} (he : .error e ∈ all) :
    (∃ share ∈ shares, FirstFailure fetch share e) ∨
      e = .worker .stoppedReplying ∧ ∃ l ∈ lanes, l.process = .died ∨ l.process = .killed := by
  induction h with
  | nil => cases he
  | cons hinv _ ih =>
    rcases List.mem_append.mp he with he | he
    · rcases hinv.of_error he with hfirst | ⟨rfl, hgone⟩
      · exact .inl ⟨_, List.mem_cons_self, hfirst⟩
      · exact .inr ⟨rfl, _, List.mem_cons_self, hgone⟩
    · rcases ih he with ⟨share, hshare, hfirst⟩ | ⟨rfl, l, hl, hgone⟩
      · exact .inl ⟨share, List.mem_cons_of_mem _ hshare, hfirst⟩
      · exact .inr ⟨rfl, l, List.mem_cons_of_mem _ hl, hgone⟩

/-- Lanes of which none can take a step are quiet, and their processes are gone. -/
theorem quiet_or_step (h : LanesInv fetch shares lanes all) :
    (∀ l ∈ lanes, l.IsQuiet ∧ l.process ≠ .serving) ∨ ∃ lanes' new, LanesStep fetch lanes lanes' new := by
  induction h with
  | nil => exact .inl (fun l hl => by cases hl)
  | cons hinv _ ih =>
    rcases hinv.quiet_or_step with hquiet | ⟨lane', new, hstep⟩
    · rcases ih with hquiets | ⟨lanes', new, hstep⟩
      · exact .inl (List.forall_mem_cons.mpr ⟨hquiet, hquiets⟩)
      · exact .inr ⟨_, new, .tail hstep⟩
    · exact .inr ⟨_, new, .head hstep⟩

end LanesInv

/-! ## Processes through steps -/

theorem Lane.not_hasFailed {l : Lane} (ended : l.process = .ended true) : ¬l.HasFailed := by
  rintro (hfailed | hfailed)
  · rw [ended] at hfailed
    cases hfailed
  · rw [ended] at hfailed
    cases hfailed

/-- A step kills no process, and leaves one that died as it is. -/
theorem Lane.Step.process {l l' : Lane} (hstep : Lane.Step fetch l l' new) :
    (l.process ≠ .killed → l'.process ≠ .killed) ∧ (l.process = .died → l'.process = .died) := by
  cases hstep with
  | serve =>
    constructor
    · intro _
      simp only [Lane.afterReply]
      split <;> simp
    · intro h
      cases h
  | _ => simp

theorem LanesStep.alive (hstep : LanesStep fetch lanes lanes' new)
    (h : ∀ l ∈ lanes, l.process ≠ .killed) : ∀ l ∈ lanes', l.process ≠ .killed := by
  induction hstep with
  | head hlane =>
    obtain ⟨hl, hls⟩ := List.forall_mem_cons.mp h
    exact List.forall_mem_cons.mpr ⟨hlane.process.1 hl, hls⟩
  | tail _ ih =>
    obtain ⟨hl, hls⟩ := List.forall_mem_cons.mp h
    exact List.forall_mem_cons.mpr ⟨hl, ih hls⟩

theorem LanesStep.died (hstep : LanesStep fetch lanes lanes' new)
    (h : ∃ l ∈ lanes, l.process = .died) : ∃ l ∈ lanes', l.process = .died := by
  induction hstep with
  | head hlane =>
    obtain ⟨l, hl, hdied⟩ := h
    rcases List.mem_cons.mp hl with rfl | hl
    · exact ⟨_, List.mem_cons_self, hlane.process.2 hdied⟩
    · exact ⟨l, List.mem_cons_of_mem _ hl, hdied⟩
  | tail _ ih =>
    obtain ⟨l, hl, hdied⟩ := h
    rcases List.mem_cons.mp hl with rfl | hl
    · exact ⟨l, List.mem_cons_self, hdied⟩
    · obtain ⟨l', hl', hdied'⟩ := ih ⟨l, hl, hdied⟩
      exact ⟨l', List.mem_cons_of_mem _ hl', hdied'⟩

/-- A process that died before it is killed is left as it is. -/
theorem LanesKill.died (hkill : LanesKill lanes lanes') (h : ∃ l ∈ lanes, l.process = .died) :
    ∃ l ∈ lanes', l.process = .died := by
  induction hkill with
  | nil => exact h
  | cons hlane _ ih =>
    obtain ⟨l, hl, hdied⟩ := h
    rcases List.mem_cons.mp hl with rfl | hl
    · cases hlane with
      | serving => cases hdied
      | gone => exact ⟨_, List.mem_cons_self, hdied⟩
    · obtain ⟨l', hl', hdied'⟩ := ih ⟨l, hl, hdied⟩
      exact ⟨l', List.mem_cons_of_mem _ hl', hdied'⟩

/-- Processes that are gone stay as they are. -/
theorem LanesKill.of_gone (gone : ∀ l ∈ lanes, l.process ≠ .serving) : LanesKill lanes lanes := by
  induction lanes with
  | nil => exact .nil
  | cons lane lanes ih =>
    obtain ⟨hlane, hlanes⟩ := List.forall_mem_cons.mp gone
    exact .cons (.gone lane hlane) (ih hlanes)

/-- All processes can be killed, whatever they do. -/
theorem LanesKill.exists (lanes : List Lane) : ∃ lanes', LanesKill lanes lanes' := by
  induction lanes with
  | nil => exact ⟨[], .nil⟩
  | cons lane lanes ih =>
    obtain ⟨lanes', hlanes⟩ := ih
    by_cases hserving : lane.process = .serving
    · obtain ⟨unwritten, requests, process, replies, awaited⟩ := lane
      obtain rfl : process = .serving := hserving
      exact ⟨_, .cons (.serving unwritten requests [] replies awaited) hlanes⟩
    · exact ⟨_, .cons (.gone lane hserving) hlanes⟩

namespace Exchange

/-! ## The invariant -/

/-- What is read: what the pool has taken, its verdict and what waits in the queue. -/
def read (x : Exchange) : List (Except Error Descriptor) :=
  x.taken.map .ok ++ (x.verdict.toList.map .error ++ x.queue)

/-- The invariant of an exchange for shares of identifiers. -/
structure Inv (fetch : String → Except Error Descriptor) (shares : List (List String))
    (x : Exchange) : Prop where
  /-- What is read is what the lanes have put into the queue. -/
  put : ∃ all, LanesInv fetch shares x.lanes all ∧ x.read.Perm all
  /-- No process is killed before there is a verdict. -/
  alive : x.verdict = none → ∀ l ∈ x.lanes, l.process ≠ .killed
  /-- A verdict is the first failure of a share, or a process has died. -/
  judged : ∀ e, x.verdict = some e → (∃ share ∈ shares, FirstFailure fetch share e) ∨
    e = .worker .stoppedReplying ∧ ∃ l ∈ x.lanes, l.process = .died

variable {x y : Exchange} {result : Except Error (List Descriptor)}

theorem inv_start (plain : ∀ share ∈ shares, ∀ id ∈ share, breaksLines id = false) :
    Inv fetch shares (start shares) where
  put := ⟨[], .start plain, .refl _⟩
  alive := by
    intro _ l hl
    obtain ⟨share, -, rfl⟩ := List.mem_map.mp hl
    simp [Lane.start]
  judged := by
    intro e he
    cases he

theorem Inv.step (fits : ∀ share ∈ shares, ∀ r ∈ answers fetch share, r.Fits)
    (hstep : Step fetch x y) (h : Inv fetch shares x) : Inv fetch shares y := by
  obtain ⟨⟨all, hlanes, hperm⟩, halive, hjudged⟩ := h
  cases hstep with
  | lane hlane queue taken verdict =>
    obtain ⟨all', hlanes', hperm'⟩ := hlanes.step fits hlane
    refine ⟨⟨all', hlanes', .trans ?_ hperm'.symm⟩, fun hnone => hlane.alive (halive hnone), ?_⟩
    · simp only [read, ← List.append_assoc] at hperm ⊢
      exact hperm.append_right _
    · intro e he
      rcases hjudged e he with hfirst | ⟨rfl, hdied⟩
      · exact .inl hfirst
      · exact .inr ⟨rfl, hlane.died hdied⟩
  | take lanes d queue taken =>
    refine ⟨⟨all, hlanes, ?_⟩, halive, hjudged⟩
    simpa [read] using hperm
  | abort hkill e queue taken =>
    refine ⟨⟨all, hlanes.kill hkill, hperm⟩, fun hnone => (by cases hnone), ?_⟩
    intro e' he'
    obtain rfl := Option.some.inj he'
    -- the failure was in the queue, and until now no process has been killed
    have hmem : .error e ∈ all := hperm.mem_iff.mp (by simp [read])
    rcases hlanes.of_error hmem with hfirst | ⟨rfl, l, hl, hgone⟩
    · exact .inl hfirst
    · exact .inr ⟨rfl, hkill.died ⟨l, hl, hgone.resolve_right (halive rfl l hl)⟩⟩

theorem Inv.reaches (fits : ∀ share ∈ shares, ∀ r ∈ answers fetch share, r.Fits)
    (hrun : Reaches fetch x y) (h : Inv fetch shares x) : Inv fetch shares y := by
  induction hrun with
  | refl => exact h
  | snoc _ hstep ih => exact ih.step fits hstep

theorem Reaches.head {z : Exchange} (hstep : Step fetch x y) (hrun : Reaches fetch y z) :
    Reaches fetch x z := by
  induction hrun with
  | refl => exact .snoc (.refl x) hstep
  | snoc _ hlast ih => exact .snoc ih hlast

/-- If everything is taken without a verdict, what is taken are the descriptors of all identifiers,
and every fetch has succeeded. -/
theorem Inv.taken_perm (h : Inv fetch shares x) (queue : x.queue = []) (verdict : x.verdict = none)
    (quiet : ∀ l ∈ x.lanes, l.IsQuiet) :
    (x.taken.map .ok).Perm (shares.flatten.map fetch) := by
  obtain ⟨⟨all, hlanes, hperm⟩, -, -⟩ := h
  simp only [read, queue, verdict, Option.toList_none, List.map_nil, List.append_nil] at hperm
  have hfetched : ∀ r ∈ all, ∃ d, r = .ok d := by
    intro r hr
    obtain ⟨d, -, rfl⟩ := List.mem_map.mp (hperm.mem_iff.mpr hr)
    exact ⟨d, rfl⟩
  rw [hlanes.put_eq (fun l hl => (quiet l hl).2) hfetched] at hperm
  exact hperm

theorem exists_ok_of_perm {ds : List Descriptor} {ids : List String}
    (h : (ds.map .ok).Perm (ids.map fetch)) : ∀ id ∈ ids, ∃ d, fetch id = .ok d := by
  intro id hid
  obtain ⟨d, -, hd⟩ := List.mem_map.mp (h.mem_iff.mpr (List.mem_map_of_mem hid))
  exact ⟨d, hd.symm⟩

/-- What a pool comes to: all descriptors in some order if there is no failure; the first failure of
a share or that of a process that died; or, with all fetches done, that of a process that has not
ended with success. -/
theorem Inv.ends (h : Inv fetch shares x) (hends : x.Ends result) :
    (∃ ds, result = .ok ds ∧ (ds.map .ok).Perm (shares.flatten.map fetch) ∧
      ∀ l ∈ x.lanes, l.process = .ended true) ∨
    (∃ e, result = .error e ∧ ((∃ share ∈ shares, FirstFailure fetch share e) ∨
      e = .worker .stoppedReplying ∧ ∃ l ∈ x.lanes, l.process = .died)) ∨
    (result = .error (.worker .badExit) ∧ (∃ l ∈ x.lanes, l.HasFailed) ∧
      ∀ id ∈ shares.flatten, ∃ d, fetch id = .ok d) := by
  cases hends with
  | failed lanes e queue taken quiet => exact .inr (.inl ⟨e, rfl, h.judged e rfl⟩)
  | complete lanes taken quiet ended =>
    exact .inl ⟨taken, rfl, h.taken_perm rfl rfl quiet, ended⟩
  | badExit before after l taken quiet ended bad =>
    exact .inr (.inr ⟨rfl, ⟨l, by simp, bad⟩, exists_ok_of_perm (h.taken_perm rfl rfl quiet)⟩)

theorem Inv.yields {last : Exchange}
    (plain : ∀ share ∈ shares, ∀ id ∈ share, breaksLines id = false)
    (fits : ∀ share ∈ shares, ∀ r ∈ answers fetch share, r.Fits)
    (h : Yields fetch shares last result) : Inv fetch shares last ∧ last.Ends result :=
  ⟨(inv_start plain).reaches fits h.1, h.2⟩

/-! ## Progress -/

/-- What is left to do in an exchange, in steps at most. -/
def work (x : Exchange) : Nat := (x.lanes.map Lane.work).sum + x.queue.length

theorem sum_work_lt (hstep : LanesStep fetch lanes lanes' new) :
    (lanes'.map Lane.work).sum + new.length < (lanes.map Lane.work).sum := by
  induction hstep with
  | head hlane =>
    have hwork := Lane.work_lt hlane
    simp only [List.map_cons, List.sum_cons]
    omega
  | tail _ ih =>
    simp only [List.map_cons, List.sum_cons]
    omega

theorem sum_work_le_of_kill (hkill : LanesKill lanes lanes') :
    (lanes'.map Lane.work).sum ≤ (lanes.map Lane.work).sum := by
  induction hkill with
  | nil => exact Nat.le_refl _
  | cons hlane _ ih =>
    have hwork := Lane.work_le_of_kill hlane
    simp only [List.map_cons, List.sum_cons]
    omega

/-- Every step does some of the work, so no exchange goes on forever. -/
theorem work_lt (hstep : Step fetch x y) : y.work < x.work := by
  cases hstep with
  | lane hlane =>
    have hwork := sum_work_lt hlane
    simp only [work, List.length_append]
    omega
  | take =>
    simp only [work, List.length_cons]
    omega
  | abort hkill =>
    have hwork := sum_work_le_of_kill hkill
    simp only [work, List.length_cons]
    omega

/-- The lanes before one at which something fails, that lane, and those after it. -/
theorem forall_or_exists_first {p : Lane → Prop} [DecidablePred p] (lanes : List Lane) :
    (∀ l ∈ lanes, p l) ∨
      ∃ before l after, lanes = before ++ l :: after ∧ (∀ l' ∈ before, p l') ∧ ¬p l := by
  induction lanes with
  | nil => exact .inl (fun l hl => by cases hl)
  | cons lane lanes ih =>
    by_cases hlane : p lane
    · rcases ih with hall | ⟨before, l, after, rfl, hbefore, hl⟩
      · exact .inl (List.forall_mem_cons.mpr ⟨hlane, hall⟩)
      · exact .inr ⟨lane :: before, l, after, rfl, List.forall_mem_cons.mpr ⟨hlane, hbefore⟩, hl⟩
    · exact .inr ⟨[], lane, lanes, rfl, fun l' hl' => (by cases hl'), hlane⟩

/-- Nothing is ever stuck: an exchange has come to an end, or a step can be taken. -/
theorem Inv.ends_or_step (h : Inv fetch shares x) :
    (∃ result, x.Ends result) ∨ ∃ y, Step fetch x y := by
  obtain ⟨⟨all, hlanes, -⟩, halive, -⟩ := h
  obtain ⟨lanes, queue, taken, verdict⟩ := x
  rcases hlanes.quiet_or_step with hquiet | ⟨lanes', new, hstep⟩
  · have hquiet' : ∀ l ∈ lanes, l.IsQuiet := fun l hl => (hquiet l hl).1
    cases verdict with
    | some e => exact .inl ⟨_, .failed lanes e queue taken hquiet'⟩
    | none =>
      cases queue with
      | nil =>
        rcases forall_or_exists_first (p := fun l => l.process = .ended true) lanes with
          hended | ⟨before, l, after, rfl, hended, hl⟩
        · exact .inl ⟨_, .complete lanes taken hquiet' hended⟩
        · have hmem : l ∈ before ++ l :: after := by simp
          have hbad : l.HasFailed := by
            have hserving := (hquiet l hmem).2
            have hkilled := halive rfl l hmem
            unfold Lane.HasFailed
            cases hprocess : l.process with
            | serving => exact absurd hprocess hserving
            | ended success =>
              cases success with
              | false => exact .inl rfl
              | true => exact absurd hprocess hl
            | died => exact .inr rfl
            | killed => exact absurd hprocess hkilled
          exact .inl ⟨_, .badExit before after l taken hquiet' hended hbad⟩
      | cons r queue =>
        cases r with
        | ok d => exact .inr ⟨_, .take lanes d queue taken⟩
        | error e =>
          obtain ⟨lanes', hkill⟩ := LanesKill.exists lanes
          exact .inr ⟨_, .abort hkill e queue taken⟩
  · exact .inr ⟨_, .lane hstep queue taken verdict⟩

/-- Whatever has happened, a pool can come to a result. -/
theorem Inv.exists_end (fits : ∀ share ∈ shares, ∀ r ∈ answers fetch share, r.Fits)
    (h : Inv fetch shares x) : ∃ last result, Reaches fetch x last ∧ last.Ends result := by
  induction hwork : x.work using Nat.strongRecOn generalizing x with
  | _ n ih =>
    rcases h.ends_or_step with ⟨result, hends⟩ | ⟨y, hstep⟩
    · exact ⟨x, result, .refl x, hends⟩
    · obtain ⟨last, result, hrun, hends⟩ :=
        ih y.work (hwork ▸ work_lt hstep) (h.step fits hstep) rfl
      exact ⟨last, result, .head hstep hrun, hends⟩

end Exchange

end SignHash
