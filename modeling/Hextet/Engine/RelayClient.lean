/-
# The relay client

`crates/engine/src/relay_client.rs`.  `register_with_timeout` sends a Register to every
control address of the relay, waits for one datagram, and does so again until a datagram is
the acknowledgement it asked for or its time is over.

A call is a state machine here: it is at the head of its loop, or it waits, or it is done.
What it returns is what the acknowledgement says that it accepts (`acknowledged_spec`): the
port is the frame's, the host is where the datagram came from.
-/

import Hextet.Engine.RelayForward

namespace Hextet

open Lib

variable {C : Crypto}

/-- `REGISTER_TIMEOUT`. -/
def registerTimeout : ℕ := 5000000000

/-- The length of the buffer of a registering socket. -/
def registerBuf : ℕ := 256

/-- Where a call of `register_with_timeout` is: at the head of its loop, in `recv_from`, or
at its end. -/
inductive RegisterPhase where
  | looping
  | waiting
  | done (session : Option RelaySession)
  deriving DecidableEq

/-- The arguments of `register_with_timeout`, without the relay key and the timeout. -/
structure RelayRequest (C : Crypto) where
  controlAddrs : List SocketAddrV6
  selfKey : NodePublicKey C
  peerKey : NodePublicKey C
  wgListenPort : UInt16

namespace RelayRequest

/-- The pair that is registered. -/
def key (q : RelayRequest C) : SessionKey := sessionKeyOf q.selfKey.bytes q.peerKey.bytes

/-- A frame about the pair. -/
def frame (q : RelayRequest C) (kind : RelayKind) (nowUnix : ℕ) : RelayFrame C :=
  ⟨kind, q.wgListenPort, UInt64.ofNat nowUnix, q.selfKey, q.peerKey⟩

/-- The two parties of a pair register it under one key. -/
theorem key_comm {q q' : RelayRequest C} (hself : q'.selfKey = q.peerKey)
    (hpeer : q'.peerKey = q.selfKey) : q'.key = q.key := by
  rw [key, key, hself, hpeer, sessionKeyOf_comm]

end RelayRequest

/-- A frame with the parties of a request is about its pair. -/
theorem RelayFrame.sessionKey_eq {frame : RelayFrame C} {q : RelayRequest C}
    (hself : frame.selfKey = q.selfKey) (hpeer : frame.peerKey = q.peerKey) :
    frame.sessionKey = q.key := by
  rw [sessionKey, RelayRequest.key, hself, hpeer]

/-- A call of `register_with_timeout`: its arguments, `deadline`, and where it is. -/
structure RelayClient (C : Crypto) extends RelayRequest C where
  deadline : Instant
  phase : RegisterPhase

namespace RelayClient

/-- The call up to its loop; `bound` is whether it gets a socket. -/
def start (q : RelayRequest C) (timeout : ℕ) (bound : Bool) (now : Instant) : RelayClient C :=
  { q with
    deadline := now + timeout
    phase :=
      if q.controlAddrs.isEmpty || q.wgListenPort == 0 then .done none
      else if bound then .looping
      else .done none }

/-- What the call returned, if it found a session. -/
def session? (c : RelayClient C) : Option RelaySession :=
  match c.phase with
  | .done session => session
  | _ => none

/-- The call comes to `recv_from`. -/
def waits (c : RelayClient C) : RelayClient C := { c with phase := .waiting }

/-- The head of the loop: the control addresses that get a frame, and the call. -/
def round (c : RelayClient C) (now : Instant) : List SocketAddrV6 × RelayClient C :=
  match c.phase with
  | .looping =>
      if now < c.deadline then (c.controlAddrs, c.waits)
      else ([], { c with phase := .done none })
  | _ => ([], c)

/-- The session that a datagram acknowledges, if it is the acknowledgement asked for. -/
def acknowledged (c : RelayClient C) (hmac : Hmac) (relayKey : Bytes 32) (datagram : List UInt8)
    (src : SocketAddr) : Option RelaySession :=
  match src with
  | .v4 => none
  | .v6 src =>
      match RelayFrame.decode C hmac relayKey (datagram.take registerBuf) with
      | .ok ack =>
          if ack.kind ≠ .registerAck ∨ ack.selfKey ≠ c.selfKey ∨ ack.peerKey ≠ c.peerKey ∨
              ack.port = 0 then none
          else some ⟨⟨src.ip, ack.port, 0, 0⟩, normalize src⟩
      | _ => none

/-- A datagram comes while the call waits. -/
def received (c : RelayClient C) (hmac : Hmac) (relayKey : Bytes 32) (datagram : List UInt8)
    (src : SocketAddr) : RelayClient C :=
  match c.phase with
  | .waiting =>
      match c.acknowledged hmac relayKey datagram src with
      | some session => { c with phase := .done (some session) }
      | none => { c with phase := .looping }
  | _ => c

/-- `RETRY_INTERVAL` passes without a datagram, or the socket cannot be read. -/
def silence (c : RelayClient C) : RelayClient C :=
  match c.phase with
  | .waiting => { c with phase := .looping }
  | _ => c

/-! ### What a call keeps and what it returns -/

variable (c : RelayClient C) (hmac : Hmac) (relayKey : Bytes 32) (datagram : List UInt8)
  (src : SocketAddr)

@[simp] theorem request_round (now : Instant) :
    (c.round now).2.toRelayRequest = c.toRelayRequest := by
  unfold round
  split
  · split_ifs <;> rfl
  · rfl

@[simp] theorem request_received :
    (c.received hmac relayKey datagram src).toRelayRequest = c.toRelayRequest := by
  unfold received
  split
  · split <;> rfl
  · rfl

@[simp] theorem request_silence : c.silence.toRelayRequest = c.toRelayRequest := by
  unfold silence
  split <;> rfl

/-- A call that has just begun has returned no session. -/
@[simp] theorem session?_start (q : RelayRequest C) (timeout : ℕ) (bound : Bool) (now : Instant) :
    (start q timeout bound now).session? = none := by
  unfold start session?
  split_ifs <;> rfl

@[simp] theorem session?_round (now : Instant) : (c.round now).2.session? = c.session? := by
  unfold round
  split
  next hphase => split_ifs <;> simp [session?, waits, hphase]
  next => rfl

@[simp] theorem session?_silence : c.silence.session? = c.session? := by
  unfold silence
  split
  next hphase => simp [session?, hphase]
  next => rfl

variable {c hmac relayKey datagram src}

/-- **A call gets its session from a datagram that acknowledges it.** -/
theorem session?_received {x : RelaySession}
    (h : (c.received hmac relayKey datagram src).session? = some x) :
    c.session? = some x ∨ c.acknowledged hmac relayKey datagram src = some x := by
  unfold received at h
  split at h
  · split at h
    next session hack =>
      refine Or.inr (hack.trans ?_)
      simpa [session?] using h
    next => simp [session?] at h
  · exact Or.inl h

/-- **What acknowledges a call**: an authentic RegisterAck for its pair and direction, with a
port; the host of the session is where it came from. -/
theorem acknowledged_spec {x : RelaySession}
    (h : c.acknowledged hmac relayKey datagram src = some x) :
    ∃ src' ack, src = .v6 src' ∧
      RelayFrame.decode C hmac relayKey (datagram.take registerBuf) = .ok ack ∧
      ack.kind = .registerAck ∧ ack.selfKey = c.selfKey ∧ ack.peerKey = c.peerKey ∧
      ack.port ≠ 0 ∧ x = ⟨⟨src'.ip, ack.port, 0, 0⟩, normalize src'⟩ := by
  unfold acknowledged at h
  cases src with
  | v4 => cases h
  | v6 src' =>
      simp only at h
      split at h
      next ack hdecode =>
        split_ifs at h with hbad
        cases h
        push Not at hbad
        exact ⟨src', ack, rfl, hdecode, hbad.1, hbad.2.1, hbad.2.2.1, hbad.2.2.2, rfl⟩
      next => cases h

/-- A call that waits ends with the session that is acknowledged. -/
theorem session?_received_of_waiting (hphase : c.phase = .waiting) {x : RelaySession}
    (hack : c.acknowledged hmac relayKey datagram src = some x) :
    (c.received hmac relayKey datagram src).session? = some x := by
  simp [received, hphase, hack, session?]

/-- The acknowledgement of a call, as it was encoded, is accepted. -/
theorem acknowledged_encode {ack : RelayFrame C} (hkind : ack.kind = .registerAck)
    (hself : ack.selfKey = c.selfKey) (hpeer : ack.peerKey = c.peerKey) (hport : ack.port ≠ 0)
    (hpair : c.selfKey.bytes ≠ c.peerKey.bytes) (src' : SocketAddrV6) :
    c.acknowledged hmac relayKey (ack.encode hmac relayKey) (.v6 src') =
      some ⟨⟨src'.ip, ack.port, 0, 0⟩, normalize src'⟩ := by
  have hdecode : RelayFrame.decode C hmac relayKey
      ((ack.encode hmac relayKey).take registerBuf) = .ok ack := by
    rw [RelayFrame.decode_eq_ok_iff, hself, hpeer]
    refine ⟨hpair, ?_⟩
    rw [List.take_of_length_le]
    rw [RelayFrame.length_encode]
    decide
  simp [acknowledged, hdecode, hkind, hself, hpeer, hport]

end RelayClient

end Hextet
