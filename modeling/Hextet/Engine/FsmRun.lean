/-
# Runs of the punching state machine

`crates/engine/src/fsm.rs`.  A machine is created and then driven by `kick`,
`set_candidates`, `retry_from`, `retry_from_flush` and `tick` in any order.  What
one operation can do is said once, per function: it is quiet (`Quiet`), it points
the kernel at a candidate (`Points`), it connects, or it falls back with an empty
list and has nothing to point at.

The clock `last_transition` decides to which candidate a handshake is attributed.
Beside a run stand two `Marks`: when the machine last pointed the kernel somewhere
new, and when it fell back without doing so.  While it probes, `last_transition`
is the later of them (`Dated`), so a handshake is accepted exactly when it belongs
to the current candidate (`handshake_attribution`).
-/

import Hextet.Engine.Fsm
import Hextet.Lib.Run

namespace Hextet

open Lib

/-- The operations of `PeerFsm` that observe nothing. -/
inductive Call where
  | kick
  | setCandidates (candidates : List SocketAddrV6)
  | retryFrom (avoid : Option SocketAddrV6)
  | retryFromFlush (avoid : Option SocketAddrV6)
  deriving DecidableEq

/-- An operation of `PeerFsm` with its time. -/
inductive Op where
  | call (c : Call) (now : SystemTime)
  | tick (obs : Observation) (now : SystemTime)
  deriving DecidableEq

/-- The time argument. -/
def Op.time : Op → SystemTime
  | .call _ now => now
  | .tick _ now => now

/-- The operation is a `kick`. -/
def Op.isKick : Op → Bool
  | .call .kick _ => true
  | _ => false

/-- The endpoint that `SetEndpoint` or `Rehandshake` command. -/
def Action.target? : Action → Option SocketAddrV6
  | .setEndpoint ep => some ep
  | .rehandshake ep => some ep
  | _ => none

/-- The action records an endpoint in the cache. -/
def Action.isMark : Action → Bool
  | .markGood _ => true
  | _ => false

/-- Being probed. -/
def PunchState.isProbing : PunchState → Bool
  | .probing .. => true
  | .connected _ => false

/-- `[::1]:port`. -/
def localEndpoint (port : UInt16) : SocketAddrV6 :=
  ⟨⟨⟨List.replicate 15 0 ++ [1], rfl⟩⟩, port, 0, 0⟩

namespace PeerFsm

/-- The operation of a call. -/
def call (fsm : PeerFsm) (now : SystemTime) : Call → PeerFsm × List Action
  | .kick => fsm.kick now
  | .setCandidates candidates => fsm.setCandidates candidates now
  | .retryFrom avoid => fsm.retryFrom avoid now
  | .retryFromFlush avoid => fsm.retryFromFlush avoid now

/-- One operation. -/
def apply (fsm : PeerFsm) : Op → PeerFsm × List Action
  | .call c now => fsm.call now c
  | .tick obs now => fsm.tick now obs

/-! ### What one operation can do -/

/-- Nothing is switched: a connection stands, or the same candidate is probed, or
none is left. -/
structure Quiet (fsm fsm' : PeerFsm) (actions : List Action) : Prop where
  actions : ∀ a ∈ actions, a = .nudge
  time : fsm'.lastTransition = fsm.lastTransition
  state : (fsm'.state = fsm.state ∧ fsm.state.isProbing = false) ∨
    (fsm.state.isProbing = true ∧ fsm'.state.isProbing = true ∧
      (fsm'.candidates ≠ [] →
        fsm.candidates ≠ [] ∧ fsm'.currentCandidate = fsm.currentCandidate))

/-- The kernel is pointed at a candidate, which is probed from now on. -/
structure Points (fsm' : PeerFsm) (now : SystemTime) (flush : Bool) (actions : List Action) :
    Prop where
  time : fsm'.lastTransition = now
  state : fsm'.state.isProbing = true
  target : ∃ ep, fsm'.currentCandidate = some ep ∧
    actions = [if flush then .rehandshake ep else .setEndpoint ep, .nudge]

theorem quiet_refl (fsm : PeerFsm) : Quiet fsm fsm [] := by
  refine ⟨by simp, rfl, ?_⟩
  cases h : fsm.state.isProbing with
  | false => exact Or.inl ⟨rfl, rfl⟩
  | true => exact Or.inr ⟨rfl, rfl, fun hne => ⟨hne, rfl⟩⟩

/-- The commands for a candidate that exists. -/
theorem point_of_getElem? {candidates : List SocketAddrV6} {i : ℕ} {ep : SocketAddrV6}
    (h : candidates[i]? = some ep) : point candidates i = [.setEndpoint ep, .nudge] := by
  rw [point, h]

/-- `set_candidates` points into a list that is not empty. -/
theorem repoint_lt (old : List SocketAddrV6) {next : List SocketAddrV6} (i : ℕ) (h : next ≠ []) :
    repoint old next i < next.length := by
  have hpos : 0 < next.length := List.length_pos_iff.2 h
  unfold repoint
  split
  · rename_i hfresh
    exact (List.findIdx?_eq_some_iff_getElem.1 hfresh).1
  · cases hold : old[i]? with
    | none => exact hpos
    | some ep =>
        rw [Option.bind_some]
        cases hfind : next.findIdx? fun c => c = ep with
        | none => exact hpos
        | some j => exact (List.findIdx?_eq_some_iff_getElem.1 hfind).1

/-- A connection is not disturbed by new candidates. -/
theorem setCandidates_connected {fsm : PeerFsm} {ep : SocketAddrV6}
    (h : fsm.state = .connected ep) (candidates : List SocketAddrV6) (now : SystemTime) :
    fsm.setCandidates candidates now =
      ({ fsm with candidates := dedupNormalized candidates }, []) := by
  by_cases hsame : fsm.candidates = dedupNormalized candidates
  · rw [setCandidates, if_pos hsame, ← hsame]
  · simp [setCandidates, hsame, h]

/-- **What `set_candidates` can do.** -/
theorem setCandidates_cases (fsm : PeerFsm) (candidates : List SocketAddrV6) (now : SystemTime) :
    Quiet fsm (fsm.setCandidates candidates now).1 (fsm.setCandidates candidates now).2 ∨
      (fsm.state.isProbing = true ∧
        Points (fsm.setCandidates candidates now).1 now false
          (fsm.setCandidates candidates now).2) := by
  cases hstate : fsm.state with
  | connected e =>
      rw [setCandidates_connected hstate]
      exact Or.inl ⟨by simp, rfl, Or.inl ⟨rfl, by rw [hstate]; rfl⟩⟩
  | probing i rounds =>
      have hprobing : fsm.state.isProbing = true := by rw [hstate]; rfl
      by_cases hsame : fsm.candidates = dedupNormalized candidates
      · rw [setCandidates, if_pos hsame]
        exact Or.inl (quiet_refl fsm)
      rw [setCandidates, if_neg hsame]
      simp only [hstate]
      split_ifs with hempty hkeep
      · exact Or.inl ⟨by simp, rfl, Or.inr ⟨hprobing, rfl,
          fun hne => absurd (List.isEmpty_iff.1 hempty) hne⟩⟩
      all_goals
        have hne : dedupNormalized candidates ≠ [] := fun h => hempty (List.isEmpty_iff.2 h)
        have hget := List.getElem?_eq_getElem (repoint_lt fsm.candidates i hne)
      · refine Or.inl ⟨by simp, rfl, Or.inr ⟨hprobing, rfl, fun _ => ⟨fun hnil => ?_, ?_⟩⟩⟩
        · rw [hget, hnil] at hkeep
          cases hkeep
        · rw [currentCandidate, currentCandidate, hstate]
          exact hkeep
      · exact Or.inr ⟨rfl, rfl, rfl, _, hget, point_of_getElem? hget⟩

/-- **What `retry_from` and `retry_from_flush` can do.** -/
theorem retryFromImpl_cases (fsm : PeerFsm) (avoid : Option SocketAddrV6) (now : SystemTime)
    (flush : Bool) :
    Quiet fsm (fsm.retryFromImpl avoid now flush).1 (fsm.retryFromImpl avoid now flush).2 ∨
      (fsm.state.isProbing = false ∧
        Points (fsm.retryFromImpl avoid now flush).1 now flush
          (fsm.retryFromImpl avoid now flush).2) := by
  unfold retryFromImpl
  split
  · exact Or.inl (quiet_refl fsm)
  · rename_i e hstate
    simp only
    split
    · exact Or.inl (quiet_refl fsm)
    · rename_i index hfind
      have hlt := (List.findIdx?_eq_some_iff_getElem.1 hfind).1
      have hget := List.getElem?_eq_getElem hlt
      refine Or.inr ⟨by rw [hstate]; rfl, rfl, rfl, _, hget, ?_⟩
      rw [hget]

/-- Without an acceptable handshake a tick waits, nudges the only candidate or tries
the next one. -/
theorem tickProbing_of_not_accepted {fsm : PeerFsm} {i rounds : ℕ}
    (h : fsm.state = .probing i rounds) {now : SystemTime} {obs : Observation}
    (hno : ¬(handshakeIsFresh obs.lastHandshake now = true ∧
      (obs.lastHandshake.any (fun t => fsm.lastTransition ≤ t) = true ∨
        fsm.candidates.length = 1))) :
    Quiet fsm (fsm.tickProbing now obs i rounds).1 (fsm.tickProbing now obs i rounds).2 ∨
      Points (fsm.tickProbing now obs i rounds).1 now false
        (fsm.tickProbing now obs i rounds).2 := by
  rw [tickProbing, if_neg hno]
  by_cases hempty : fsm.candidates.isEmpty = true
  · rw [if_pos hempty]
    exact Or.inl (quiet_refl fsm)
  rw [if_neg hempty]
  by_cases hrotate : now - fsm.lastRotate < rotateInterval
  · rw [if_pos hrotate]
    exact Or.inl (quiet_refl fsm)
  rw [if_neg hrotate]
  have hpos : 0 < fsm.candidates.length :=
    List.length_pos_iff.2 fun hnil => hempty (List.isEmpty_iff.2 hnil)
  have hget := List.getElem?_eq_getElem (Nat.mod_lt (i + 1) hpos)
  by_cases hnext : (i + 1) % fsm.candidates.length ≠ i
  · simp only [if_pos hnext]
    exact Or.inr ⟨rfl, rfl, _, hget, point_of_getElem? hget⟩
  · simp only [if_neg hnext]
    refine Or.inl ⟨by simp, rfl, Or.inr ⟨by rw [h]; rfl, rfl, fun hne => ⟨hne, ?_⟩⟩⟩
    rw [currentCandidate, currentCandidate, h, not_not.1 hnext]

/-- **What `tick` can do while probing**: a fresh handshake that is late enough, or
the only one there can be, connects; otherwise nothing is switched or the next
candidate is tried. -/
theorem tickProbing_cases {fsm : PeerFsm} {i rounds : ℕ} (h : fsm.state = .probing i rounds)
    (now : SystemTime) (obs : Observation) :
    (∃ t ep, obs.lastHandshake = some t ∧ handshakeIsFresh (some t) now = true ∧
      (fsm.lastTransition ≤ t ∨ fsm.candidates.length = 1) ∧
      (obs.kernelEndpoint.map normalize).or fsm.currentCandidate = some ep ∧
      fsm.tick now obs =
        ({ fsm with state := .connected ep, lastTransition := now }, [.markGood ep])) ∨
    (((obs.kernelEndpoint.map normalize).or fsm.currentCandidate = none ∧
        fsm.tick now obs = (fsm, [])) ∨
      ((∀ t, obs.lastHandshake = some t → handshakeIsFresh (some t) now = true →
          t < fsm.lastTransition ∧ fsm.candidates.length ≠ 1) ∧
        (Quiet fsm (fsm.tick now obs).1 (fsm.tick now obs).2 ∨
          Points (fsm.tick now obs).1 now false (fsm.tick now obs).2))) := by
  have hcur : fsm.currentCandidate = fsm.candidates[i]? := by rw [currentCandidate, h]
  have htick : fsm.tick now obs = fsm.tickProbing now obs i rounds := by rw [tick, h]
  rw [htick, hcur]
  by_cases hyes : handshakeIsFresh obs.lastHandshake now = true ∧
      (obs.lastHandshake.any (fun t => fsm.lastTransition ≤ t) = true ∨
        fsm.candidates.length = 1)
  · rw [tickProbing, if_pos hyes]
    cases hep : (obs.kernelEndpoint.map normalize).or fsm.candidates[i]? with
    | none => exact Or.inr (Or.inl ⟨rfl, rfl⟩)
    | some ep =>
        cases hhs : obs.lastHandshake with
        | none => rw [hhs] at hyes; cases hyes.1
        | some t =>
            rw [hhs] at hyes
            exact Or.inl ⟨t, ep, rfl, hyes.1, by simpa using hyes.2, rfl, rfl⟩
  · refine Or.inr (Or.inr ⟨fun t ht hf => ?_, tickProbing_of_not_accepted h hyes⟩)
    rw [ht] at hyes
    simpa [hf] using hyes

/-- **What `tick` can do while connected**: follow the kernel, fall back, or
nothing. -/
theorem tickConnected_cases {fsm : PeerFsm} {endpoint : SocketAddrV6}
    (h : fsm.state = .connected endpoint) (now : SystemTime) (obs : Observation) :
    (handshakeIsFresh obs.lastHandshake now = true ∧
      ∃ ke, obs.kernelEndpoint.map normalize = some ke ∧ ke ≠ endpoint ∧ fsm.tick now obs =
        ({ fsm with state := .connected ke, lastTransition := now }, [.markGood ke])) ∨
    (handshakeIsFresh obs.lastHandshake now = true ∧ fsm.tick now obs = (fsm, [])) ∨
    (handshakeIsFresh obs.lastHandshake now = false ∧
      (Points (fsm.tick now obs).1 now false (fsm.tick now obs).2 ∨
        (fsm.candidates = [] ∧ fsm.tick now obs = (⟨[], .probing 0 0, now, now⟩, [])))) := by
  simp only [tick, h, tickConnected]
  by_cases hfresh : handshakeIsFresh obs.lastHandshake now = true
  · rw [if_pos hfresh]
    cases hke : obs.kernelEndpoint.map normalize with
    | none => exact Or.inr (Or.inl ⟨hfresh, rfl⟩)
    | some ke =>
        by_cases hne : ke ≠ endpoint
        · exact Or.inl ⟨hfresh, ke, rfl, hne, if_pos hne⟩
        · exact Or.inr (Or.inl ⟨hfresh, if_neg hne⟩)
  · rw [if_neg hfresh]
    refine Or.inr (Or.inr ⟨by simpa using hfresh, ?_⟩)
    cases hc : fsm.candidates with
    | nil => exact Or.inr ⟨rfl, rfl⟩
    | cons ep rest => exact Or.inl ⟨rfl, rfl, ep, rfl, rfl⟩

/-- **What `kick` can do**: nothing is switched, or the current candidate is pointed
at again; `last_transition` stays. -/
theorem kick_cases (fsm : PeerFsm) (now : SystemTime) :
    Quiet fsm (fsm.kick now).1 (fsm.kick now).2 ∨
      (fsm.state.isProbing = true ∧ ∃ ep, (fsm.kick now).1.currentCandidate = some ep ∧
        (fsm.kick now).2 = [.setEndpoint ep, .nudge]) := by
  cases hstate : fsm.state with
  | connected e =>
      refine Or.inl ⟨?_, rfl, Or.inl ⟨rfl, by rw [hstate]; rfl⟩⟩
      simp [kick, hstate]
  | probing i rounds =>
      have hactions : (fsm.kick now).2 = point fsm.candidates i := by rw [kick, hstate]
      have hcur : (fsm.kick now).1.currentCandidate = fsm.candidates[i]? := by
        rw [kick, currentCandidate, hstate]
      cases hget : fsm.candidates[i]? with
      | none =>
          have hprobing : fsm.state.isProbing = true := by rw [hstate]; rfl
          refine Or.inl ⟨?_, rfl, Or.inr ⟨hprobing, hprobing, fun hne => ⟨hne, rfl⟩⟩⟩
          rw [hactions, point, hget]
          simp
      | some ep => exact Or.inr ⟨rfl, ep, hcur.trans hget, hactions.trans (point_of_getElem? hget)⟩

/-! ### The machine marks only in a tick -/

section

variable {fsm fsm' : PeerFsm} {now : SystemTime} {flush : Bool} {actions : List Action}

theorem Quiet.unmarked (h : Quiet fsm fsm' actions) : ∀ a ∈ actions, a.isMark = false := by
  intro a ha
  rw [h.actions a ha]
  rfl

theorem Points.unmarked (h : Points fsm' now flush actions) :
    ∀ a ∈ actions, a.isMark = false := by
  obtain ⟨ep, -, rfl⟩ := h.target
  cases flush <;> simp [Action.isMark]

theorem unmarked_setCandidates (fsm : PeerFsm) (candidates : List SocketAddrV6)
    (now : SystemTime) : ∀ a ∈ (fsm.setCandidates candidates now).2, a.isMark = false := by
  rcases setCandidates_cases fsm candidates now with h | ⟨-, h⟩
  · exact h.unmarked
  · exact h.unmarked

theorem unmarked_retryFromImpl (fsm : PeerFsm) (avoid : Option SocketAddrV6) (now : SystemTime)
    (flush : Bool) : ∀ a ∈ (fsm.retryFromImpl avoid now flush).2, a.isMark = false := by
  rcases retryFromImpl_cases fsm avoid now flush with h | ⟨-, h⟩
  · exact h.unmarked
  · exact h.unmarked

theorem unmarked_kick (fsm : PeerFsm) (now : SystemTime) :
    ∀ a ∈ (fsm.kick now).2, a.isMark = false := by
  rcases kick_cases fsm now with h | ⟨-, ep, -, h⟩
  · exact h.unmarked
  · rw [h]
    simp [Action.isMark]

/-- No operation but a tick marks anything. -/
theorem unmarked_call (fsm : PeerFsm) (c : Call) (now : SystemTime) :
    ∀ a ∈ (fsm.call now c).2, a.isMark = false := by
  cases c with
  | kick => exact unmarked_kick fsm now
  | setCandidates candidates => exact unmarked_setCandidates fsm candidates now
  | retryFrom avoid => exact unmarked_retryFromImpl fsm avoid now false
  | retryFromFlush avoid => exact unmarked_retryFromImpl fsm avoid now true

/-- **A tick marks the endpoint that the kernel reports**, or the current candidate
if it reports none, and only with a fresh handshake. -/
theorem markGood_of_tick {obs : Observation} {ep : SocketAddrV6}
    (h : .markGood ep ∈ (fsm.tick now obs).2) :
    handshakeIsFresh obs.lastHandshake now = true ∧
      (obs.kernelEndpoint.map normalize).or fsm.currentCandidate = some ep := by
  have hunmarked : ∀ {l : List Action}, (∀ a ∈ l, a.isMark = false) → .markGood ep ∉ l :=
    fun hl hmem => by cases hl _ hmem
  cases hstate : fsm.state with
  | probing i rounds =>
      rcases tickProbing_cases hstate now obs with
        ⟨t, ep', ht, hfresh, -, hep, heq⟩ | ⟨-, heq⟩ | ⟨-, hq | hp⟩
      · rw [heq, List.mem_singleton, Action.markGood.injEq] at h
        rw [h, hep, ht]
        exact ⟨hfresh, rfl⟩
      · rw [heq] at h
        cases h
      · exact absurd h (hunmarked hq.unmarked)
      · exact absurd h (hunmarked hp.unmarked)
  | connected endpoint =>
      rcases tickConnected_cases hstate now obs with
        ⟨hfresh, ke, hke, -, heq⟩ | ⟨-, heq⟩ | ⟨-, hp | ⟨-, heq⟩⟩
      · rw [heq, List.mem_singleton, Action.markGood.injEq] at h
        rw [hke, h]
        exact ⟨hfresh, rfl⟩
      · rw [heq] at h
        cases h
      · exact absurd h (hunmarked hp.unmarked)
      · rw [heq] at h
        cases h

end

/-! ### Two marks beside a run -/

/-- When the kernel was last pointed somewhere, and when the machine fell back
without pointing it anywhere since. -/
structure Marks where
  /-- The last operation, `kick` apart, that created the machine or emitted
  `SetEndpoint` or `Rehandshake`. -/
  pointed : SystemTime
  /-- The last fall back from connected, if no such operation came since. -/
  fallen : Option SystemTime

/-- The marks after an operation. -/
def mark (fsm : PeerFsm) (m : Marks) (o : Op) : Marks :=
  if o.isKick = false ∧ ∃ a ∈ (fsm.apply o).2, a.target?.isSome = true then ⟨o.time, none⟩
  else if fsm.state.isProbing = false ∧ (fsm.apply o).1.state.isProbing = true then
    { m with fallen := some o.time }
  else m

/-- One operation with its marks. -/
def markedStep (x : PeerFsm × Marks) (o : Op) : PeerFsm × Marks :=
  ((x.1.apply o).1, mark x.1 x.2 o)

/-- A machine after some operations, with its marks. -/
def marked (candidates : List SocketAddrV6) (start : SystemTime) (ops : List Op) :
    PeerFsm × Marks :=
  run markedStep (.new candidates start, ⟨start, none⟩) ops

/-- `last_transition` is not before the last pointing, and while probing it is the
later of the two marks. -/
structure Dated (x : PeerFsm × Marks) : Prop where
  pointed : x.2.pointed ≤ x.1.lastTransition
  probing : x.1.state.isProbing = true → x.1.lastTransition = x.2.fallen.getD x.2.pointed

theorem dated_of_points {x : PeerFsm × Marks} {o : Op} {flush : Bool} (hkick : o.isKick = false)
    (h : Points (x.1.apply o).1 o.time flush (x.1.apply o).2) : Dated (markedStep x o) := by
  have hmark : mark x.1 x.2 o = ⟨o.time, none⟩ := by
    obtain ⟨ep, -, hactions⟩ := h.target
    refine if_pos ⟨hkick, _, hactions ▸ List.mem_cons_self, ?_⟩
    cases flush <;> rfl
  refine ⟨?_, fun _ => ?_⟩
  · rw [markedStep, hmark]
    exact h.time.ge
  · rw [markedStep, hmark]
    exact h.time

/-- An operation that commands no endpoint leaves the mark of the last pointing. -/
theorem mark_of_silent {fsm : PeerFsm} {m : Marks} {o : Op}
    (h : o.isKick = true ∨ ∀ a ∈ (fsm.apply o).2, a.target? = none) :
    mark fsm m o = if fsm.state.isProbing = false ∧ (fsm.apply o).1.state.isProbing = true then
      { m with fallen := some o.time } else m := by
  refine if_neg ?_
  rintro ⟨hkick, a, ha, hsome⟩
  rcases h with h | h
  · rw [h] at hkick
    cases hkick
  · rw [h a ha] at hsome
    cases hsome

theorem dated_of_quiet {x : PeerFsm × Marks} {o : Op} (hx : Dated x)
    (h : Quiet x.1 (x.1.apply o).1 (x.1.apply o).2) : Dated (markedStep x o) := by
  have hprobing : (x.1.apply o).1.state.isProbing = x.1.state.isProbing := by
    rcases h.state with ⟨hstate, -⟩ | ⟨hp, hp', -⟩
    · rw [hstate]
    · rw [hp, hp']
  have hmark : mark x.1 x.2 o = x.2 := by
    rw [mark_of_silent (Or.inr fun a ha => by rw [h.actions a ha]; rfl), hprobing]
    refine if_neg ?_
    rintro ⟨hf, ht⟩
    rw [hf] at ht
    cases ht
  rw [markedStep, hmark]
  exact ⟨h.time.ge.trans' hx.pointed, fun hp => h.time.trans (hx.probing (hprobing ▸ hp))⟩

/-- A machine that connects is dated by the time it does. -/
theorem dated_of_connected {x : PeerFsm × Marks} {o : Op} {ep : SocketAddrV6} (hx : Dated x)
    (htime : x.1.lastTransition ≤ o.time)
    (h : x.1.apply o = ({ x.1 with state := .connected ep, lastTransition := o.time },
      [.markGood ep])) : Dated (markedStep x o) := by
  have hmark : mark x.1 x.2 o = x.2 := by
    rw [mark_of_silent (Or.inr fun a ha => by
      rw [h] at ha
      rw [List.mem_singleton.1 ha]
      rfl), h]
    exact if_neg fun hc => by cases hc.2
  rw [markedStep, hmark, h]
  exact ⟨hx.pointed.trans htime, fun hc => by cases hc⟩

/-- **Every operation keeps the dates**, when the clock does not go back. -/
theorem Dated.step {x : PeerFsm × Marks} (hx : Dated x) (o : Op)
    (htime : x.1.lastTransition ≤ o.time) : Dated (markedStep x o) := by
  cases o with
  | call c now =>
      cases c with
      | kick =>
          have hmark : mark x.1 x.2 (.call .kick now) = x.2 := by
            rw [mark_of_silent (Or.inl rfl)]
            refine if_neg ?_
            rintro ⟨hf, ht⟩
            exact Bool.false_ne_true (hf.symm.trans ht)
          rw [markedStep, hmark]
          exact ⟨hx.pointed, hx.probing⟩
      | setCandidates candidates =>
          rcases setCandidates_cases x.1 candidates now with h | ⟨-, h⟩
          · exact dated_of_quiet hx h
          · exact dated_of_points rfl h
      | retryFrom avoid =>
          rcases retryFromImpl_cases x.1 avoid now false with h | ⟨-, h⟩
          · exact dated_of_quiet hx h
          · exact dated_of_points rfl h
      | retryFromFlush avoid =>
          rcases retryFromImpl_cases x.1 avoid now true with h | ⟨-, h⟩
          · exact dated_of_quiet hx h
          · exact dated_of_points rfl h
  | tick obs now =>
      cases hstate : x.1.state with
      | probing i rounds =>
          rcases tickProbing_cases hstate now obs with
            ⟨t, ep, -, -, -, -, h⟩ | ⟨-, h⟩ | ⟨-, h | h⟩
          · exact dated_of_connected hx htime h
          · refine dated_of_quiet hx ?_
            rw [show x.1.apply (.tick obs now) = _ from h]
            exact quiet_refl x.1
          · exact dated_of_quiet hx h
          · exact dated_of_points rfl h
      | connected endpoint =>
          rcases tickConnected_cases hstate now obs with
            ⟨-, ke, -, -, h⟩ | ⟨-, h⟩ | ⟨-, h | ⟨-, h⟩⟩
          · exact dated_of_connected hx htime h
          · refine dated_of_quiet hx ?_
            rw [show x.1.apply (.tick obs now) = _ from h]
            exact quiet_refl x.1
          · exact dated_of_points rfl h
          · -- nothing to point at: only the second mark moves
            have happly : x.1.apply (.tick obs now) = _ := h
            have hmark : mark x.1 x.2 (.tick obs now) = { x.2 with fallen := some now } := by
              rw [mark_of_silent (Or.inr fun a ha => by rw [happly] at ha; cases ha), happly,
                hstate]
              exact if_pos ⟨rfl, rfl⟩
            rw [markedStep, hmark, happly]
            exact ⟨hx.pointed.trans htime, fun _ => rfl⟩

/-- `last_transition` stays or is the time of the operation. -/
theorem lastTransition_apply (fsm : PeerFsm) (o : Op) :
    (fsm.apply o).1.lastTransition = fsm.lastTransition ∨
      (fsm.apply o).1.lastTransition = o.time := by
  cases o with
  | call c now =>
      cases c with
      | kick => exact Or.inl rfl
      | setCandidates candidates =>
          exact (setCandidates_cases fsm candidates now).imp (·.time) (·.2.time)
      | retryFrom avoid =>
          exact (retryFromImpl_cases fsm avoid now false).imp (·.time) (·.2.time)
      | retryFromFlush avoid =>
          exact (retryFromImpl_cases fsm avoid now true).imp (·.time) (·.2.time)
  | tick obs now =>
      cases hstate : fsm.state with
      | probing i rounds =>
          rcases tickProbing_cases hstate now obs with
            ⟨t, ep, -, -, -, -, h⟩ | ⟨-, h⟩ | ⟨-, h | h⟩
          · exact Or.inr (by rw [apply, h]; rfl)
          · exact Or.inl (by rw [apply, h])
          · exact Or.inl h.time
          · exact Or.inr h.time
      | connected endpoint =>
          rcases tickConnected_cases hstate now obs with
            ⟨-, ke, -, -, h⟩ | ⟨-, h⟩ | ⟨-, h | ⟨-, h⟩⟩
          · exact Or.inr (by rw [apply, h]; rfl)
          · exact Or.inl (by rw [apply, h])
          · exact Or.inr h.time
          · exact Or.inr (by rw [apply, h]; rfl)

/-- **The dates hold along every run** with a clock that does not go back. -/
theorem dated_run {x : PeerFsm × Marks} (hx : Dated x) {ops : List Op}
    (htimes : (x.1.lastTransition :: ops.map Op.time).Pairwise (· ≤ ·)) :
    Dated (run markedStep x ops) := by
  induction ops generalizing x with
  | nil => exact hx
  | cons o ops ih =>
      rw [List.map_cons, List.pairwise_cons, List.pairwise_cons] at htimes
      obtain ⟨hfirst, hnext, hrest⟩ := htimes
      refine ih (hx.step o (hfirst _ List.mem_cons_self)) (List.pairwise_cons.2 ⟨?_, hrest⟩)
      intro t ht
      rcases lastTransition_apply x.1 o with h | h
      · rw [markedStep, h]
        exact hfirst t (List.mem_cons_of_mem _ ht)
      · rw [markedStep, h]
        exact hnext t ht

/-- A handshake that is late enough connects at the next tick, if an endpoint is
known. -/
theorem connects_of_lastTransition_le {fsm : PeerFsm} (hp : fsm.state.isProbing = true)
    {now : SystemTime} {obs : Observation} {t : SystemTime} (ht : obs.lastHandshake = some t)
    (hfresh : handshakeIsFresh obs.lastHandshake now = true) (hle : fsm.lastTransition ≤ t)
    (hep : obs.kernelEndpoint.isSome = true ∨ fsm.currentCandidate.isSome = true) :
    (fsm.tick now obs).1.state.isProbing = false := by
  cases hstate : fsm.state with
  | connected endpoint => rw [hstate] at hp; cases hp
  | probing i rounds =>
      rcases tickProbing_cases hstate now obs with ⟨_, ep, -, -, -, -, h⟩ | ⟨hnone, -⟩ | ⟨hno, -⟩
      · rw [h]
        rfl
      · rw [Option.or_eq_none_iff, Option.map_eq_none_iff] at hnone
        rw [hnone.1, hnone.2] at hep
        simp at hep
      · exact absurd hle (hno t ht (ht ▸ hfresh)).1.not_ge

/-- **A handshake is attributed to the candidate it was made with.**  Whatever the
operations before, if the clock does not go back: a tick that connects a machine
with other than one candidate saw a fresh handshake not older than the last
pointing; and a fresh handshake not older than the last pointing, or than the last
fall back if nothing was pointed at since, connects at the next tick as soon as an
endpoint is known, however many kicks and nudges came between. -/
theorem handshake_attribution (candidates : List SocketAddrV6) (start : SystemTime)
    (ops : List Op) (now : SystemTime) (obs : Observation)
    (htimes : (start :: (ops ++ [Op.tick obs now]).map Op.time).Pairwise (· ≤ ·)) :
    let fsm := (marked candidates start ops).1
    let marks := (marked candidates start ops).2
    fsm.state.isProbing = true →
      ((fsm.tick now obs).1.state.isProbing = false → fsm.candidates.length ≠ 1 →
        handshakeIsFresh obs.lastHandshake now = true ∧
          ∃ t, obs.lastHandshake = some t ∧ marks.pointed ≤ t) ∧
      (∀ t, obs.lastHandshake = some t → handshakeIsFresh obs.lastHandshake now = true →
        marks.fallen.getD marks.pointed ≤ t →
          obs.kernelEndpoint.isSome = true ∨ fsm.currentCandidate.isSome = true →
            (fsm.tick now obs).1.state.isProbing = false) := by
  intro fsm marks hp
  have hdated : Dated (fsm, marks) := by
    refine dated_run ⟨le_rfl, fun _ => rfl⟩ (htimes.sublist ?_)
    rw [List.map_append]
    exact (List.sublist_append_left ..).cons_cons _
  refine ⟨fun hconnects hlen => ?_, fun t ht hfresh hle hep => ?_⟩
  · cases hstate : fsm.state with
    | connected endpoint => rw [hstate] at hp; cases hp
    | probing i rounds =>
        rcases tickProbing_cases hstate now obs with
          ⟨t, ep, ht, hfresh, hlate, -, -⟩ | ⟨-, h⟩ | ⟨-, h | h⟩
        · exact ⟨ht ▸ hfresh, t, ht, hdated.pointed.trans (hlate.resolve_right hlen)⟩
        · rw [h, hp] at hconnects
          cases hconnects
        · rcases h.state with ⟨-, hc⟩ | ⟨-, hc, -⟩
          · rw [hp] at hc
            cases hc
          · rw [hc] at hconnects
            cases hconnects
        · rw [h.state] at hconnects
          cases hconnects
  · exact connects_of_lastTransition_le hp ht hfresh ((hdated.probing hp).trans_le hle) hep

/-- Two candidates, a rotation, a handshake and then a kick: the handshake still
counts. -/
theorem handshake_attribution_kicked :
    let fsm := (marked [localEndpoint 1, localEndpoint 2] 0
      [.tick ⟨none, none⟩ 3000000000, .call .kick 4000000000]).1
    fsm.state = .probing 1 0 ∧
      (fsm.tick 5000000000 ⟨some 3500000000, none⟩).1.state.isProbing = false :=
  ⟨by decide,
    (handshake_attribution [localEndpoint 1, localEndpoint 2] 0
      [.tick ⟨none, none⟩ 3000000000, .call .kick 4000000000] 5000000000
      ⟨some 3500000000, none⟩ (by decide) (by decide)).2 3500000000 rfl (by decide) (by decide)
      (Or.inr (by decide))⟩

end PeerFsm

end Hextet
