/-
# The punching state machine of a peer

`crates/engine/src/fsm.rs`.  A peer is being probed, with an index into its
candidate list, or connected at an endpoint.  The machine asks for effects by
`Action`s and never performs them.

Times are nanoseconds.  `last_transition` is the last change of endpoint and
decides whether a handshake belongs to the current candidate; `last_rotate`
paces the rotation.
-/

import Hextet.Engine.Candidates

namespace Hextet

/-- `SystemTime`, nanoseconds from the Unix epoch. -/
abbrev SystemTime := ℤ

/-- `ROTATE_INTERVAL`: 2.5 s. -/
def rotateInterval : ℤ := 2500000000

/-- `HANDSHAKE_FRESH`: 180 s. -/
def handshakeFresh : ℤ := 180000000000

/-- `PunchState`. -/
inductive PunchState where
  | probing (candidateIndex rounds : ℕ)
  | connected (endpoint : SocketAddrV6)
  deriving DecidableEq

/-- `Observation`: what the kernel reports at a tick. -/
structure Observation where
  lastHandshake : Option SystemTime
  kernelEndpoint : Option SocketAddrV6
  deriving DecidableEq

/-- `Action`. -/
inductive Action where
  | setEndpoint (ep : SocketAddrV6)
  | rehandshake (ep : SocketAddrV6)
  | nudge
  | markGood (ep : SocketAddrV6)
  deriving DecidableEq

/-- `PeerFsm`. -/
structure PeerFsm where
  candidates : List SocketAddrV6
  state : PunchState
  lastTransition : SystemTime
  lastRotate : SystemTime
  deriving DecidableEq

/-- `handshake_is_fresh`; a handshake in the future counts as fresh. -/
def handshakeIsFresh (lastHandshake : Option SystemTime) (now : SystemTime) : Bool :=
  match lastHandshake with
  | some t => if t ≤ now then decide (now - t < handshakeFresh) else true
  | none => false

/-- `u32::saturating_add(1)`. -/
def saturatingSucc (rounds : ℕ) : ℕ := min (rounds + 1) (2 ^ 32 - 1)

/-- First occurrences only, in order. -/
def dedupNormalized (candidates : List SocketAddrV6) : List SocketAddrV6 :=
  (candidates.map normalize).foldl (fun next ep => if ep ∈ next then next else next ++ [ep]) []

namespace PeerFsm

/-- `PeerFsm::new`. -/
def new (candidates : List SocketAddrV6) (now : SystemTime) : PeerFsm :=
  ⟨candidates.map normalize, .probing 0 0, now, now⟩

/-- `PeerFsm::current_candidate`. -/
def currentCandidate (fsm : PeerFsm) : Option SocketAddrV6 :=
  match fsm.state with
  | .connected endpoint => some endpoint
  | .probing i _ => fsm.candidates[i]?

/-- `[SetEndpoint(ep), Nudge]` for the candidate at an index. -/
def point (candidates : List SocketAddrV6) (i : ℕ) : List Action :=
  match candidates[i]? with
  | some ep => [.setEndpoint ep, .nudge]
  | none => []

/-- `PeerFsm::kick`. -/
def kick (fsm : PeerFsm) (now : SystemTime) : PeerFsm × List Action :=
  ({ fsm with lastRotate := now },
    match fsm.state with
    | .connected _ => [.nudge]
    | .probing i _ => point fsm.candidates i)

/-- The index `set_candidates` points to: the first candidate that is new, else
the previous one where it is now, else the first. -/
def repoint (old next : List SocketAddrV6) (i : ℕ) : ℕ :=
  match next.findIdx? (fun ep => ep ∉ old) with
  | some fresh => fresh
  | none => ((old[i]?).bind fun ep => next.findIdx? (fun c => c = ep)).getD 0

/-- `PeerFsm::set_candidates`. -/
def setCandidates (fsm : PeerFsm) (candidates : List SocketAddrV6) (now : SystemTime) :
    PeerFsm × List Action :=
  let next := dedupNormalized candidates
  let old := fsm.candidates
  if old = next then (fsm, [])
  else
    match fsm.state with
    | .connected _ => ({ fsm with candidates := next }, [])
    | .probing i rounds =>
        if next.isEmpty then ({ fsm with candidates := next, state := .probing 0 0 }, [])
        else
          let index := repoint old next i
          if next[index]? = old[i]? then
            ({ fsm with candidates := next, state := .probing index rounds }, [])
          else
            (⟨next, .probing index rounds, now, now⟩, point next index)

/-- `PeerFsm::retry_from_impl`. -/
def retryFromImpl (fsm : PeerFsm) (avoid : Option SocketAddrV6) (now : SystemTime)
    (flush : Bool) : PeerFsm × List Action :=
  match fsm.state with
  | .probing .. => (fsm, [])
  | .connected _ =>
      let avoid := avoid.map normalize
      match fsm.candidates.findIdx? (fun c => some c ≠ avoid) with
      | none => (fsm, [])
      | some index =>
          ({ fsm with state := .probing index 0, lastTransition := now, lastRotate := now },
            match fsm.candidates[index]? with
            | some target => [if flush then .rehandshake target else .setEndpoint target, .nudge]
            | none => [])

/-- `PeerFsm::retry_from`. -/
def retryFrom (fsm : PeerFsm) (avoid : Option SocketAddrV6) (now : SystemTime) :
    PeerFsm × List Action :=
  fsm.retryFromImpl avoid now false

/-- `PeerFsm::retry_from_flush`. -/
def retryFromFlush (fsm : PeerFsm) (avoid : Option SocketAddrV6) (now : SystemTime) :
    PeerFsm × List Action :=
  fsm.retryFromImpl avoid now true

/-- `PeerFsm::tick` while probing. -/
def tickProbing (fsm : PeerFsm) (now : SystemTime) (obs : Observation) (i rounds : ℕ) :
    PeerFsm × List Action :=
  if handshakeIsFresh obs.lastHandshake now ∧
      (obs.lastHandshake.any (fun t => fsm.lastTransition ≤ t) ∨ fsm.candidates.length = 1) then
    match (obs.kernelEndpoint.map normalize).or fsm.candidates[i]? with
    | none => (fsm, [])
    | some endpoint =>
        ({ fsm with state := .connected endpoint, lastTransition := now }, [.markGood endpoint])
  else if fsm.candidates.isEmpty then (fsm, [])
  else if now - fsm.lastRotate < rotateInterval then (fsm, [])
  else
    let next := (i + 1) % fsm.candidates.length
    let rounds := if next = 0 then saturatingSucc rounds else rounds
    if next ≠ i then
      (⟨fsm.candidates, .probing next rounds, now, now⟩, point fsm.candidates next)
    else ({ fsm with state := .probing next rounds, lastRotate := now }, [.nudge])

/-- `PeerFsm::tick` while connected. -/
def tickConnected (fsm : PeerFsm) (now : SystemTime) (obs : Observation)
    (endpoint : SocketAddrV6) : PeerFsm × List Action :=
  if handshakeIsFresh obs.lastHandshake now then
    match obs.kernelEndpoint.map normalize with
    | some ke =>
        if ke ≠ endpoint then
          ({ fsm with state := .connected ke, lastTransition := now }, [.markGood ke])
        else (fsm, [])
    | none => (fsm, [])
  else (⟨fsm.candidates, .probing 0 0, now, now⟩, point fsm.candidates 0)

/-- `PeerFsm::tick`. -/
def tick (fsm : PeerFsm) (now : SystemTime) (obs : Observation) : PeerFsm × List Action :=
  match fsm.state with
  | .probing i rounds => fsm.tickProbing now obs i rounds
  | .connected endpoint => fsm.tickConnected now obs endpoint

end PeerFsm

end Hextet
