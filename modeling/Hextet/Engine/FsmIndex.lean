/-
# Indexing in the punching state machine

`crates/engine/src/fsm.rs`, with the panics.  `set_candidates`, `retry_from_impl` and `tick`
index the list of candidates directly, and `tick` takes a remainder by its length; everything
else goes through `get`, `first` and `position`.  The functions are written once more here with
these as `Outcome`s (`tryApply`), and never panic: they end as the functions of
`Hextet.Engine.Fsm` do (`tryApply_eq`).

Along a run the index of a probing machine stays in the list (`Indexed`), what the machine
holds is normalized (`Plain`), and from the first `set_candidates` on no candidate occurs twice
(`fsm_stays_in_range`).
-/

import Hextet.Engine.Rendezvous
import Hextet.Lib.Checked

namespace Hextet

open Lib

namespace PeerFsm

variable {ε : Type} {fsm : PeerFsm}

/-! ### The functions with their panics -/

/-- `PeerFsm::set_candidates`. -/
def trySetCandidates (fsm : PeerFsm) (candidates : List SocketAddrV6) (now : SystemTime) :
    Outcome ε (PeerFsm × List Action) :=
  let next := dedupNormalized candidates
  let old := fsm.candidates
  if old = next then .ok (fsm, [])
  else
    match fsm.state with
    | .connected _ => .ok ({ fsm with candidates := next }, [])
    | .probing i rounds =>
        if next.isEmpty then .ok ({ fsm with candidates := next, state := .probing 0 0 }, [])
        else do
          let previous := old[i]?
          let index := repoint old next i
          let pointed ← elemAt next index
          if some pointed = previous then
            .ok ({ fsm with candidates := next, state := .probing index rounds }, [])
          else .ok (⟨next, .probing index rounds, now, now⟩, [.setEndpoint pointed, .nudge])

/-- `PeerFsm::retry_from_impl`. -/
def tryRetryFromImpl (fsm : PeerFsm) (avoid : Option SocketAddrV6) (now : SystemTime)
    (flush : Bool) : Outcome ε (PeerFsm × List Action) :=
  match fsm.state with
  | .probing .. => .ok (fsm, [])
  | .connected _ =>
      let avoid := avoid.map normalize
      match fsm.candidates.findIdx? (fun c => some c ≠ avoid) with
      | none => .ok (fsm, [])
      | some index => do
          let target ← elemAt fsm.candidates index
          .ok ({ fsm with state := .probing index 0, lastTransition := now, lastRotate := now },
            [if flush then .rehandshake target else .setEndpoint target, .nudge])

/-- `PeerFsm::tick` while probing.  The index is that of a vector, so one more is a `usize`. -/
def tryTickProbing (fsm : PeerFsm) (now : SystemTime) (obs : Observation) (i rounds : ℕ) :
    Outcome ε (PeerFsm × List Action) :=
  if handshakeIsFresh obs.lastHandshake now ∧
      (obs.lastHandshake.any (fun t => fsm.lastTransition ≤ t) ∨ fsm.candidates.length = 1) then
    match (obs.kernelEndpoint.map normalize).or fsm.candidates[i]? with
    | none => .ok (fsm, [])
    | some endpoint =>
        .ok ({ fsm with state := .connected endpoint, lastTransition := now },
          [.markGood endpoint])
  else if fsm.candidates.isEmpty then .ok (fsm, [])
  else if now - fsm.lastRotate < rotateInterval then .ok (fsm, [])
  else do
    let next ← remBy (i + 1) fsm.candidates.length
    let rounds := if next = 0 then saturatingSucc rounds else rounds
    if next ≠ i then do
      let ep ← elemAt fsm.candidates next
      .ok (⟨fsm.candidates, .probing next rounds, now, now⟩, [.setEndpoint ep, .nudge])
    else .ok ({ fsm with state := .probing next rounds, lastRotate := now }, [.nudge])

/-- `PeerFsm::tick`. -/
def tryTick (fsm : PeerFsm) (now : SystemTime) (obs : Observation) :
    Outcome ε (PeerFsm × List Action) :=
  match fsm.state with
  | .probing i rounds => fsm.tryTickProbing now obs i rounds
  | .connected endpoint => .ok (fsm.tickConnected now obs endpoint)

/-- One operation; `kick` reads the list through `get`. -/
def tryApply (fsm : PeerFsm) : Op → Outcome ε (PeerFsm × List Action)
  | .call .kick now => .ok (fsm.kick now)
  | .call (.setCandidates candidates) now => fsm.trySetCandidates candidates now
  | .call (.retryFrom avoid) now => fsm.tryRetryFromImpl avoid now false
  | .call (.retryFromFlush avoid) now => fsm.tryRetryFromImpl avoid now true
  | .tick obs now => fsm.tryTick now obs

/-! ### None of them panics -/

theorem trySetCandidates_eq (fsm : PeerFsm) (candidates : List SocketAddrV6) (now : SystemTime) :
    fsm.trySetCandidates candidates now =
      (.ok (fsm.setCandidates candidates now) : Outcome ε _) := by
  by_cases hsame : fsm.candidates = dedupNormalized candidates
  · rw [trySetCandidates, setCandidates, if_pos hsame, if_pos hsame]
  · simp only [trySetCandidates, setCandidates, if_neg hsame]
    cases hstate : fsm.state with
    | connected e => rfl
    | probing i rounds =>
        by_cases hempty : (dedupNormalized candidates).isEmpty = true
        · simp only [hempty, if_true]
        · have hne : dedupNormalized candidates ≠ [] := fun h => hempty (List.isEmpty_iff.2 h)
          have hget := List.getElem?_eq_getElem (repoint_lt fsm.candidates i hne)
          simp only [if_neg hempty, elemAt_of_getElem? hget, Outcome.ok_bind, hget,
            point_of_getElem? hget]
          split_ifs <;> rfl

theorem tryRetryFromImpl_eq (fsm : PeerFsm) (avoid : Option SocketAddrV6) (now : SystemTime)
    (flush : Bool) :
    fsm.tryRetryFromImpl avoid now flush =
      (.ok (fsm.retryFromImpl avoid now flush) : Outcome ε _) := by
  cases hstate : fsm.state with
  | probing i rounds => simp only [tryRetryFromImpl, retryFromImpl, hstate]
  | connected e =>
      simp only [tryRetryFromImpl, retryFromImpl, hstate]
      cases hfind : fsm.candidates.findIdx? fun c => some c ≠ avoid.map normalize with
      | none => rfl
      | some index =>
          have hget := List.getElem?_eq_getElem (List.findIdx?_eq_some_iff_getElem.1 hfind).1
          simp only [elemAt_of_getElem? hget, Outcome.ok_bind, hget]

theorem tryTickProbing_eq (fsm : PeerFsm) (now : SystemTime) (obs : Observation) (i rounds : ℕ) :
    fsm.tryTickProbing now obs i rounds =
      (.ok (fsm.tickProbing now obs i rounds) : Outcome ε _) := by
  unfold tryTickProbing tickProbing
  split_ifs with haccept hempty hwait
  · cases (obs.kernelEndpoint.map normalize).or fsm.candidates[i]? <;> rfl
  · rfl
  · rfl
  · have hpos : 0 < fsm.candidates.length :=
      List.length_pos_iff.2 fun hnil => hempty (List.isEmpty_iff.2 hnil)
    have hget := List.getElem?_eq_getElem (Nat.mod_lt (i + 1) hpos)
    rw [remBy_of_ne_zero hpos.ne', Outcome.ok_bind]
    simp only [elemAt_of_getElem? hget, Outcome.ok_bind, point_of_getElem? hget]
    split_ifs <;> rfl

/-- **No operation panics**, in any state. -/
theorem tryApply_eq (fsm : PeerFsm) (o : Op) :
    fsm.tryApply o = (.ok (fsm.apply o) : Outcome ε _) := by
  cases o with
  | call c now =>
      cases c with
      | kick => rfl
      | setCandidates candidates => exact fsm.trySetCandidates_eq candidates now
      | retryFrom avoid => exact fsm.tryRetryFromImpl_eq avoid now false
      | retryFromFlush avoid => exact fsm.tryRetryFromImpl_eq avoid now true
  | tick obs now =>
      rw [tryApply, apply, tryTick, tick]
      cases fsm.state with
      | probing i rounds => exact fsm.tryTickProbing_eq now obs i rounds
      | connected endpoint => rfl

/-! ### What every operation keeps -/

/-- While probing, the index points into the list, or is zero in the empty list. -/
def Indexed (fsm : PeerFsm) : Prop :=
  ∀ i rounds, fsm.state = .probing i rounds →
    i < fsm.candidates.length ∨ fsm.candidates = [] ∧ i = 0

theorem indexed_of_probing {i rounds : ℕ} (hstate : fsm.state = .probing i rounds)
    (h : i < fsm.candidates.length ∨ fsm.candidates = [] ∧ i = 0) : fsm.Indexed := by
  intro j rounds' hj
  obtain ⟨rfl, rfl⟩ := PunchState.probing.inj (hstate.symm.trans hj)
  exact h

theorem indexed_of_connected {e : SocketAddrV6} (hstate : fsm.state = .connected e) :
    fsm.Indexed := by
  intro i rounds hi
  rw [hstate] at hi
  cases hi

/-- The first index is an index, or the list is empty. -/
theorem zero_indexed (l : List SocketAddrV6) : 0 < l.length ∨ l = [] ∧ 0 = 0 := by
  cases l with
  | nil => exact Or.inr ⟨rfl, rfl⟩
  | cons e l => exact Or.inl (Nat.succ_pos _)

theorem indexed_new (candidates : List SocketAddrV6) (now : SystemTime) :
    (new candidates now).Indexed :=
  indexed_of_probing rfl (zero_indexed _)

theorem Indexed.setCandidates (h : fsm.Indexed) (candidates : List SocketAddrV6)
    (now : SystemTime) : (fsm.setCandidates candidates now).1.Indexed := by
  cases hstate : fsm.state with
  | connected e =>
      rw [setCandidates_connected hstate]
      exact indexed_of_connected hstate
  | probing i rounds =>
      by_cases hsame : fsm.candidates = dedupNormalized candidates
      · rw [PeerFsm.setCandidates, if_pos hsame]
        exact h
      rw [setCandidates_probing hstate rfl hsame]
      split_ifs with hempty hkeep
      · exact indexed_of_probing rfl (Or.inr ⟨List.isEmpty_iff.1 hempty, rfl⟩)
      all_goals
        have hne : dedupNormalized candidates ≠ [] := fun h => hempty (List.isEmpty_iff.2 h)
        exact indexed_of_probing rfl (Or.inl (repoint_lt fsm.candidates i hne))

theorem Indexed.retryFromImpl (h : fsm.Indexed) (avoid : Option SocketAddrV6)
    (now : SystemTime) (flush : Bool) : (fsm.retryFromImpl avoid now flush).1.Indexed := by
  unfold PeerFsm.retryFromImpl
  split
  · exact h
  · simp only
    split
    · exact h
    · rename_i index hfind
      exact indexed_of_probing rfl (Or.inl (List.findIdx?_eq_some_iff_getElem.1 hfind).1)

theorem Indexed.tick (h : fsm.Indexed) (now : SystemTime) (obs : Observation) :
    (fsm.tick now obs).1.Indexed := by
  cases hstate : fsm.state with
  | probing i rounds =>
      simp only [PeerFsm.tick, hstate, tickProbing]
      split_ifs with _ hempty _ hnext
      · split
        · exact h
        · exact indexed_of_connected rfl
      · exact h
      · exact h
      all_goals
        have hpos : 0 < fsm.candidates.length :=
          List.length_pos_iff.2 fun hnil => hempty (List.isEmpty_iff.2 hnil)
        exact indexed_of_probing rfl (Or.inl (Nat.mod_lt _ hpos))
  | connected e =>
      simp only [PeerFsm.tick, hstate, tickConnected]
      split_ifs
      · split
        · split_ifs
          · exact indexed_of_connected rfl
          · exact h
        · exact h
      · exact indexed_of_probing rfl (zero_indexed _)

theorem Indexed.apply (h : fsm.Indexed) (o : Op) : (fsm.apply o).1.Indexed := by
  cases o with
  | call c now =>
      cases c with
      | kick => exact h
      | setCandidates candidates => exact h.setCandidates candidates now
      | retryFrom avoid => exact h.retryFromImpl avoid now false
      | retryFromFlush avoid => exact h.retryFromImpl avoid now true
  | tick obs now => exact h.tick now obs

theorem Plain.apply (h : fsm.Plain) (o : Op) : (fsm.apply o).1.Plain := by
  cases o with
  | call c now =>
      cases c with
      | kick => exact ⟨h.candidates, h.connected⟩
      | setCandidates candidates => exact h.setCandidates candidates now
      | retryFrom avoid => exact h.retryFromImpl avoid now false
      | retryFromFlush avoid => exact h.retryFromImpl avoid now true
  | tick obs now => exact h.tick now obs

/-- `set_candidates` stores its argument, normalized and without repetitions. -/
theorem candidates_setCandidates (fsm : PeerFsm) (candidates : List SocketAddrV6)
    (now : SystemTime) :
    (fsm.setCandidates candidates now).1.candidates = dedupNormalized candidates := by
  unfold PeerFsm.setCandidates
  simp only
  split
  · assumption
  · split
    · rfl
    · split_ifs <;> rfl

/-- Nothing but `set_candidates` changes the list. -/
theorem nodup_apply (h : fsm.candidates.Nodup) (o : Op) :
    (fsm.apply o).1.candidates.Nodup := by
  cases o with
  | call c now =>
      cases c with
      | kick => exact h
      | setCandidates candidates =>
          exact (fsm.candidates_setCandidates candidates now).symm ▸ nodup_dedupNormalized _
      | retryFrom avoid => exact (fsm.candidates_retryFromImpl avoid now false).symm ▸ h
      | retryFromFlush avoid => exact (fsm.candidates_retryFromImpl avoid now true).symm ▸ h
  | tick obs now => exact (fsm.candidates_tick now obs).symm ▸ h

/-! ### Runs -/

/-- One operation, with the actions so far. -/
def logged (x : PeerFsm × List Action) (o : Op) : PeerFsm × List Action :=
  ((x.1.apply o).1, x.2 ++ (x.1.apply o).2)

/-- One operation that may panic, with the actions so far. -/
def tryLogged (x : PeerFsm × List Action) (o : Op) : Outcome ε (PeerFsm × List Action) := do
  let r ← x.1.tryApply o
  .ok (r.1, x.2 ++ r.2)

theorem tryLogged_eq (x : PeerFsm × List Action) (o : Op) :
    tryLogged x o = (.ok (logged x o) : Outcome ε _) := by
  rw [tryLogged, tryApply_eq, Outcome.ok_bind]
  rfl

/-- A machine that is created and driven. -/
def tryDriven (candidates : List SocketAddrV6) (start : SystemTime) (ops : List Op) :
    Outcome ε (PeerFsm × List Action) :=
  tryRun tryLogged (.new candidates start, []) ops

/-- From the first `set_candidates` on no candidate occurs twice. -/
theorem nodup_run {x : PeerFsm × List Action} {ops : List Op}
    (h : x.1.candidates.Nodup ∨ ∃ candidates now, .call (.setCandidates candidates) now ∈ ops) :
    (run logged x ops).1.candidates.Nodup := by
  induction ops generalizing x with
  | nil =>
      rcases h with h | ⟨candidates, now, h⟩
      · exact h
      · cases h
  | cons o ops ih =>
      refine ih ?_
      rcases h with h | ⟨candidates, now, h⟩
      · exact Or.inl (nodup_apply h o)
      · rcases List.mem_cons.1 h with rfl | h
        · refine Or.inl ?_
          exact (x.1.candidates_setCandidates candidates now).symm ▸ nodup_dedupNormalized _
        · exact Or.inr ⟨candidates, now, h⟩

/-- **A machine stays in the range of its list.**  Whatever the lists, the times and the
observations, a machine that is created and driven by any operations does not panic.  Then its
index points into the list, or is zero in the empty list; its candidates and the endpoint it is
connected at are normalized; and if `set_candidates` was called, with an effect or without, no
candidate occurs twice. -/
theorem fsm_stays_in_range (candidates : List SocketAddrV6) (start : SystemTime)
    (ops : List Op) :
    ∃ fsm actions, (tryDriven candidates start ops : Outcome ε _) = .ok (fsm, actions) ∧
      (∀ i rounds, fsm.state = .probing i rounds →
        i < fsm.candidates.length ∨ fsm.candidates = [] ∧ i = 0) ∧
      (∀ ep ∈ fsm.candidates, normalize ep = ep) ∧
      (∀ ep, fsm.state = .connected ep → normalize ep = ep) ∧
      ((∃ cs now, .call (.setCandidates cs) now ∈ ops) → fsm.candidates.Nodup) := by
  have hkeep : ∀ (x : PeerFsm × List Action) o, x.1.Indexed ∧ x.1.Plain →
      (logged x o).1.Indexed ∧ (logged x o).1.Plain :=
    fun x o h => ⟨h.1.apply o, h.2.apply o⟩
  obtain ⟨hindexed, hplain⟩ := run_invariant (P := fun x => x.1.Indexed ∧ x.1.Plain) hkeep
    (s := (new candidates start, [])) ⟨indexed_new candidates start, plain_new candidates start⟩
    ops
  exact ⟨_, _, tryRun_eq_ok tryLogged_eq _ ops, hindexed, hplain.candidates, hplain.connected,
    fun h => nodup_run (Or.inr h)⟩

end PeerFsm

end Hextet
