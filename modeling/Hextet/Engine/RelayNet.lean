/-
# Registrations with the relay

The calls of `register_with_timeout` that the nodes of a network make, beside the relay they
call, and the control frames in between.  The network may lose, repeat, delay and reorder
whatever was sent, and deliver what nobody sent; what it is trusted with is a condition on
its deliveries.

Here it is trusted not to forge the MAC (`Genuine`), which is what the relay promises against
those outside the network.  Then every port that a call returns is one that the relay gave its
pair, and the pair has it as long as its session is not removed (`registrations_agree`).
-/

import Hextet.Engine.RelayClient

namespace Hextet

open Lib

variable {C : Crypto}

/-- A control frame on its way, as its encoding. -/
structure ControlPacket (C : Crypto) where
  frame : RelayFrame C
  src : SocketAddrV6
  dst : SocketAddrV6
  deriving DecidableEq

/-- A call beside the address of its socket and what had happened at the relay when it was
made. -/
structure RelayCall (C : Crypto) extends RelayClient C where
  addr : SocketAddrV6
  since : List RelayInput

/-- Where the WireGuard socket of the caller is, as the relay sees it. -/
def RelayCall.dataAddr (call : RelayCall C) : SocketAddrV6 :=
  ⟨call.addr.ip, call.wgListenPort, 0, 0⟩

/-- The relay, what happened there, the calls that were made, and the frames that were sent,
the latest first. -/
structure RelayNet (C : Crypto) where
  relay : RelayRun C
  history : List RelayInput
  calls : List (RelayCall C)
  sent : List (ControlPacket C)

/-- What happens next. -/
inductive RelayNetInput (C : Crypto) where
  /-- An event at the relay. -/
  | relay (input : RelayInput)
  /-- A node calls `register_with_timeout`; `addr` is the address its socket gets. -/
  | call (q : RelayRequest C) (timeout : ℕ) (bound : Bool) (now : Instant) (addr : SocketAddrV6)
  /-- A call is at the head of its loop. -/
  | round (i : ℕ) (now : Instant) (nowUnix : ℕ)
  /-- A datagram comes to the socket of a call. -/
  | received (i : ℕ) (datagram : List UInt8) (src : SocketAddr)
  /-- No datagram comes. -/
  | silence (i : ℕ)
  /-- A node calls `unregister` about a pair, and its socket gets `addr`. -/
  | unregister (dst : SocketAddrV6) (q : RelayRequest C) (nowUnix : ℕ) (addr : SocketAddrV6)

namespace RelayOutput

/-- The acknowledgement that an output is, from a control socket. -/
def packet? (control : SocketAddrV6) : RelayOutput C → Option (ControlPacket C)
  | .ack frame dst => some ⟨frame, control, dst⟩
  | .forwarded .. => none

end RelayOutput

namespace RelayNet

/-- Nothing has happened. -/
def init : RelayNet C := ⟨.init, [], [], []⟩

/-- A call goes on. -/
def onCall (w : RelayNet C) (i : ℕ) (g : RelayClient C → RelayClient C) : RelayNet C :=
  { w with calls := w.calls.modify i fun call =>
      { call with toRelayClient := g call.toRelayClient } }

/-- What a call sends at the head of its loop. -/
def roundPackets (w : RelayNet C) (i : ℕ) (now : Instant) (nowUnix : ℕ) : List (ControlPacket C) :=
  w.calls[i]?.toList.flatMap fun call =>
    (call.round now).1.map fun control => ⟨call.frame .register nowUnix, call.addr, control⟩

/-- One event, with the control socket of the relay at an address. -/
def step (cfg : RelayConfig C) (control : SocketAddrV6) (w : RelayNet C) :
    RelayNetInput C → RelayNet C
  | .relay input =>
      { w with
        relay := w.relay.step cfg input
        history := w.history ++ [input]
        sent := (w.relay.server.handle cfg input).2.filterMap (RelayOutput.packet? control) ++
          w.sent }
  | .call q timeout bound now addr =>
      { w with calls := w.calls ++ [⟨.start q timeout bound now, addr, w.history⟩] }
  | .round i now nowUnix =>
      { w.onCall i fun c => (c.round now).2 with sent := w.roundPackets i now nowUnix ++ w.sent }
  | .received i datagram src =>
      w.onCall i fun c => c.received cfg.hmac cfg.relayKey datagram src
  | .silence i => w.onCall i .silence
  | .unregister dst q nowUnix addr =>
      { w with sent := ⟨q.frame .unregister nowUnix, addr, dst⟩ :: w.sent }

end RelayNet

/-! ### What the relay answers -/

namespace RelayServer

variable {cfg : RelayConfig C} {s : RelayServer} {input : RelayInput}

/-- An accepted Register is the frame of a control datagram, and announces the host that the
datagram came from with the port in the frame. -/
theorem accepted_spec {r : Registration C} (h : s.accepted cfg input = some r) :
    ∃ datagram src nowUnix now bind, input = .control datagram (.v6 src) nowUnix now bind ∧
      RelayFrame.decode C cfg.hmac cfg.relayKey (datagram.take controlBuf) = .ok r.frame ∧
      r.frame.kind = .register ∧ r.addr = dataAddr src r.frame := by
  cases input with
  | prune | update | socketError | data => cases h
  | control datagram src nowUnix now bind =>
      simp only [accepted] at h
      split at h
      · cases h
      next frame src' hopen =>
        split_ifs at h with haccept
        cases h
        unfold opened at hopen
        cases src with
        | v4 => cases hopen
        | v6 src =>
            simp only at hopen
            split at hopen
            next frame' hdecode =>
              split_ifs at hopen
              cases hopen
              exact ⟨datagram, src', nowUnix, now, bind, rfl, hdecode, haccept.1, rfl⟩
            next => cases hopen

/-- An acknowledgement goes to where the control datagram came from. -/
theorem ack_dst {frame : RelayFrame C} {dst : SocketAddrV6}
    (h : .ack frame dst ∈ (s.handle cfg input).2) :
    ∃ datagram nowUnix now bind, input = .control datagram (.v6 dst) nowUnix now bind := by
  cases input with
  | prune | update | socketError => cases h
  | data i datagram src now =>
      obtain ⟨x, -, hx⟩ := List.mem_map.1 h
      cases hx
  | control datagram src nowUnix now bind =>
      simp only [handle, onControl] at h
      split at h
      · cases h
      next frame' src' hopen =>
        have hsrc : src = .v6 src' := by
          unfold opened at hopen
          cases src with
          | v4 => cases hopen
          | v6 src =>
              simp only at hopen
              split at hopen
              · split_ifs at hopen
                cases hopen
                rfl
              · cases hopen
        cases hkind : frame'.kind with
        | unregister => simp [hkind] at h
        | registerAck => simp [hkind] at h
        | register =>
            simp only [hkind, onRegister] at h
            split_ifs at h with hport
            · cases h
            · split at h
              · cases h
              · cases List.mem_singleton.1 h
                exact ⟨datagram, nowUnix, now, bind, by rw [hsrc]⟩

/-- The port that an acknowledgement names is the port that the pair then has. -/
theorem port_of_ack {frame : RelayFrame C} {dst : SocketAddrV6}
    (h : .ack frame dst ∈ (s.handle cfg input).2) :
    (s.handle cfg input).1.table.port frame.sessionKey = some frame.port := by
  obtain ⟨r, hr, rfl⟩ := s.ack_spec h
  obtain ⟨x, hx, -⟩ := session_of_accepted (move_of_accepted hr)
  have hport := port_eq hx
  have hnamed : ((s.handle cfg input).1.ackOf r).port = (x.touch r.side r.addr r.nowUnix).port :=
    congrArg (Option.getD · 0) hport
  rw [hnamed]
  exact hport

end RelayServer

/-! ### What a session keeps -/

/-- What a session keeps while it is not removed: its port, and that it knows a side. -/
structure Session.Later (x x' : Session) : Prop where
  port : x'.port = x.port
  known : ∀ side, (x.addrs side).isSome = true → (x'.addrs side).isSome = true

theorem Session.Later.refl (x : Session) : x.Later x := ⟨rfl, fun _ h => h⟩

theorem Session.Later.trans {x x' x'' : Session} (h : x.Later x') (h' : x'.Later x'') :
    x.Later x'' :=
  ⟨h'.port.trans h.port, fun side hside => h'.known side (h.known side hside)⟩

theorem Session.later_touch (x : Session) (side : Fin 2) (addr : SocketAddrV6) (nowUnix : ℕ) :
    x.Later (x.touch side addr nowUnix) := by
  refine ⟨rfl, fun side' h => ?_⟩
  by_cases hside : side' = side
  · simp [touch, hside]
  · simpa [touch, hside] using h

theorem RelayServer.later_of_move {cfg : RelayConfig C} {s s' : RelayServer} {input : RelayInput}
    {r : Option (Registration C)} (hmove : RelayServer.Move cfg s input s' r) {k : SessionKey}
    {x x' : Session} (hx : s.session k = some x) (hx' : s'.session k = some x') :
    x.Later x' := by
  by_cases hk : ∃ y ∈ r, y.key = k
  · obtain ⟨y, rfl, rfl⟩ := hk
    obtain ⟨x₀, hafter, hbefore | ⟨hbefore, -⟩⟩ := RelayServer.session_of_accepted hmove
    · rw [hx] at hbefore
      rw [hx'] at hafter
      cases hbefore
      cases hafter
      exact x.later_touch ..
    · rw [hx] at hbefore
      cases hbefore
  · have hsame := RelayServer.session_of_move hmove (fun y hy hyk => hk ⟨y, hy, hyk⟩) hx'
    rw [hx] at hsame
    cases hsame
    exact .refl x

/-! ### Calls and frames, step by step -/

/-- Two states of one call. -/
def RelayCall.Like (call call' : RelayCall C) : Prop :=
  call'.toRelayRequest = call.toRelayRequest ∧ call'.addr = call.addr ∧ call'.since = call.since

namespace RelayNet

variable {cfg : RelayConfig C} {control : SocketAddrV6} {w : RelayNet C}

theorem onCall_getElem? {i : ℕ} {call : RelayCall C} (h : w.calls[i]? = some call)
    (g : RelayClient C → RelayClient C) : (w.onCall i g).calls[i]? =
      some { call with toRelayClient := g call.toRelayClient } := by
  rw [onCall, List.getElem?_modify, h]
  simp

theorem mem_calls_onCall {i : ℕ} {g : RelayClient C → RelayClient C} {call' : RelayCall C}
    (h : call' ∈ (w.onCall i g).calls) :
    call' ∈ w.calls ∨ ∃ call, w.calls[i]? = some call ∧
      call' = { call with toRelayClient := g call.toRelayClient } := by
  obtain ⟨j, hj⟩ := List.getElem?_of_mem h
  rw [onCall, List.getElem?_modify] at hj
  obtain ⟨call, hcall, heq⟩ := Option.map_eq_some_iff.1 hj
  split_ifs at heq with hij
  · exact Or.inr ⟨call, hij ▸ hcall, heq.symm⟩
  · exact Or.inl (heq ▸ List.mem_of_getElem? hcall)

/-- **What a step does to the calls**: a call is new, or it got a session from a datagram that
acknowledges it, or it has the session it had. -/
theorem mem_calls_step {input : RelayNetInput C} {call' : RelayCall C}
    (h : call' ∈ (w.step cfg control input).calls) :
    (call'.since = w.history ∧ call'.session? = none ∧
      ∃ q timeout bound now, input = .call q timeout bound now call'.addr) ∨
    ∃ call ∈ w.calls, call.Like call' ∧ ∀ x, call'.session? = some x → call.session? = some x ∨
      ∃ i datagram src, input = .received i datagram src ∧ w.calls[i]? = some call ∧
        call.acknowledged cfg.hmac cfg.relayKey datagram src = some x := by
  have hsame : ∀ call ∈ w.calls, ∃ call₀ ∈ w.calls, call₀.Like call ∧ ∀ x,
      call.session? = some x → call₀.session? = some x ∨ ∃ i datagram src,
        input = .received i datagram src ∧ w.calls[i]? = some call₀ ∧
          call₀.acknowledged cfg.hmac cfg.relayKey datagram src = some x :=
    fun call hcall => ⟨call, hcall, ⟨rfl, rfl, rfl⟩, fun x hx => Or.inl hx⟩
  cases input with
  | relay input => exact Or.inr (hsame call' h)
  | unregister dst q nowUnix addr => exact Or.inr (hsame call' h)
  | call q timeout bound now addr =>
      rcases List.mem_append.1 h with h | h
      · exact Or.inr (hsame call' h)
      · rw [List.mem_singleton.1 h]
        exact Or.inl ⟨rfl, RelayClient.session?_start .., q, timeout, bound, now, rfl⟩
  | round i now nowUnix =>
      change call' ∈ (w.onCall i fun c => (c.round now).2).calls at h
      obtain h | ⟨call, hcall, rfl⟩ := mem_calls_onCall h
      · exact Or.inr (hsame call' h)
      · refine Or.inr ⟨call, List.mem_of_getElem? hcall, ⟨call.request_round now, rfl, rfl⟩, ?_⟩
        intro x hx
        exact Or.inl ((call.session?_round now).symm.trans hx)
  | silence i =>
      obtain h | ⟨call, hcall, rfl⟩ := mem_calls_onCall h
      · exact Or.inr (hsame call' h)
      · refine Or.inr ⟨call, List.mem_of_getElem? hcall, ⟨call.request_silence, rfl, rfl⟩, ?_⟩
        intro x hx
        exact Or.inl (call.session?_silence.symm.trans hx)
  | received i datagram src =>
      obtain h | ⟨call, hcall, rfl⟩ := mem_calls_onCall h
      · exact Or.inr (hsame call' h)
      · refine Or.inr ⟨call, List.mem_of_getElem? hcall, ⟨call.request_received .., rfl, rfl⟩, ?_⟩
        intro x hx
        rcases RelayClient.session?_received hx with hx | hx
        · exact Or.inl hx
        · exact Or.inr ⟨i, datagram, src, rfl, hcall, hx⟩

/-- **What a step puts on the wire**: the acknowledgements of the relay, the Registers of a
call, and an Unregister. -/
theorem mem_sent_step {input : RelayNetInput C} {p : ControlPacket C}
    (h : p ∈ (w.step cfg control input).sent) :
    p ∈ w.sent ∨
    (∃ event, input = .relay event ∧ p.src = control ∧
      .ack p.frame p.dst ∈ (w.relay.server.handle cfg event).2) ∨
    (∃ call ∈ w.calls, ∃ nowUnix, p.frame = call.frame .register nowUnix ∧ p.src = call.addr) ∨
    p.frame.kind = .unregister := by
  cases input with
  | call | silence | received => exact Or.inl h
  | unregister dst q nowUnix addr =>
      rcases List.mem_cons.1 h with rfl | h
      · exact Or.inr (Or.inr (Or.inr rfl))
      · exact Or.inl h
  | relay event =>
      rcases List.mem_append.1 h with h | h
      · obtain ⟨output, houtput, hp⟩ := List.mem_filterMap.1 h
        cases output with
        | forwarded => cases hp
        | ack frame dst =>
            cases hp
            exact Or.inr (Or.inl ⟨event, rfl, rfl, houtput⟩)
      · exact Or.inl h
  | round i now nowUnix =>
      rcases List.mem_append.1 h with h | h
      · obtain ⟨call, hcall, hp⟩ := List.mem_flatMap.1 h
        obtain ⟨dst, -, rfl⟩ := List.mem_map.1 hp
        exact Or.inr (Or.inr (Or.inl
          ⟨call, List.mem_of_getElem? (Option.mem_toList.1 hcall), nowUnix, rfl, rfl⟩))
      · exact Or.inl h

theorem history_step (input : RelayNetInput C) :
    w.history <+: (w.step cfg control input).history := by
  cases input with
  | relay event => exact List.prefix_append ..
  | call | round | received | silence | unregister => exact List.prefix_rfl

/-- The relay is where its history takes it. -/
def Steady (cfg : RelayConfig C) (w : RelayNet C) : Prop := w.relay = .after cfg w.history

theorem steady_step (h : w.Steady cfg) (input : RelayNetInput C) :
    (w.step cfg control input).Steady cfg := by
  cases input with
  | relay event =>
      change w.relay.step cfg event = .after cfg (w.history ++ [event])
      rw [show w.relay = .after cfg w.history from h, RelayRun.after, RelayRun.after, run_append]
      rfl
  | call | round | received | silence | unregister => exact h

/-! ### A network that does not forge -/

/-- The frame that a datagram is read as, in a buffer of some length. -/
def heard (cfg : RelayConfig C) (buf : ℕ) (datagram : List UInt8) : Option (RelayFrame C) :=
  match RelayFrame.decode C cfg.hmac cfg.relayKey (datagram.take buf) with
  | .ok frame => some frame
  | _ => none

theorem heard_of_decode {buf : ℕ} {datagram : List UInt8} {frame : RelayFrame C}
    (h : RelayFrame.decode C cfg.hmac cfg.relayKey (datagram.take buf) = .ok frame) :
    heard cfg buf datagram = some frame := by
  rw [heard, h]

/-- What a call receives as a frame was sent before, by whomever and to whomever. -/
def Genuine (cfg : RelayConfig C) (w : RelayNet C) : RelayNetInput C → Prop
  | .received _ datagram _ => ∀ f ∈ heard cfg registerBuf datagram, ∃ p ∈ w.sent, p.frame = f
  | _ => True

instance (w : RelayNet C) : (input : RelayNetInput C) → Decidable (Genuine cfg w input)
  | .received .. => inferInstanceAs (Decidable (∀ _ ∈ _, _))
  | .relay _ => .isTrue trivial
  | .call .. => .isTrue trivial
  | .round .. => .isTrue trivial
  | .silence _ => .isTrue trivial
  | .unregister .. => .isTrue trivial

/-- The pair had the port at some moment of the history. -/
def HadPort (cfg : RelayConfig C) (history : List RelayInput) (k : SessionKey) (port : UInt16) :
    Prop :=
  ∃ past, past <+: history ∧ (RelayRun.after cfg past).server.table.port k = some port

theorem HadPort.mono {history history' : List RelayInput} (h : history <+: history')
    {k : SessionKey} {port : UInt16} (hport : HadPort cfg history k port) :
    HadPort cfg history' k port := by
  obtain ⟨past, hpast, hport⟩ := hport
  exact ⟨past, hpast.trans h, hport⟩

/-- Whatever port an acknowledgement or a call names, the pair had it. -/
structure Ported (cfg : RelayConfig C) (w : RelayNet C) : Prop where
  steady : w.Steady cfg
  acks : ∀ p ∈ w.sent, p.frame.kind = .registerAck →
    HadPort cfg w.history p.frame.sessionKey p.frame.port
  calls : ∀ call ∈ w.calls, ∀ x, call.session? = some x →
    HadPort cfg w.history call.key x.endpoint.port

/-- The state of the relay after an event. -/
theorem after_event (h : w.Steady cfg) (event : RelayInput) :
    (RelayRun.after cfg (w.history ++ [event])).server = (w.relay.server.handle cfg event).1 := by
  rw [show w.relay = .after cfg w.history from h, RelayRun.after, run_append]
  rfl

/-- **Every genuine step keeps the ports true.** -/
theorem Ported.step (h : w.Ported cfg) {input : RelayNetInput C} (hgenuine : Genuine cfg w input) :
    (w.step cfg control input).Ported cfg where
  steady := steady_step h.steady input
  acks p hp hkind := by
    rcases mem_sent_step hp with hp | ⟨event, rfl, -, hack⟩ | ⟨call, -, nowUnix, hframe, -⟩ | hun
    · exact (h.acks p hp hkind).mono (history_step input)
    · refine ⟨w.history ++ [event], List.prefix_rfl, ?_⟩
      rw [after_event h.steady]
      exact RelayServer.port_of_ack hack
    · rw [hframe] at hkind
      cases hkind
    · rw [hun] at hkind
      cases hkind
  calls call' hcall' x hx := by
    rcases mem_calls_step hcall' with ⟨-, hnone, -⟩ | ⟨call, hcall, ⟨hreq, -, -⟩, hsession⟩
    · rw [hx] at hnone
      cases hnone
    · have hkey : call'.key = call.key := congrArg RelayRequest.key hreq
      rw [hkey]
      rcases hsession x hx with hx | ⟨i, datagram, src, rfl, -, hack⟩
      · exact (h.calls call hcall x hx).mono (history_step input)
      · obtain ⟨src', ack, -, hdecode, hkind, hself, hpeer, -, rfl⟩ :=
          RelayClient.acknowledged_spec hack
        obtain ⟨p, hp, rfl⟩ := hgenuine ack (heard_of_decode hdecode)
        have hpair : p.frame.sessionKey = call.key := RelayFrame.sessionKey_eq hself hpeer
        exact hpair ▸ h.acks p hp hkind

theorem ported_init : (init : RelayNet C).Ported cfg where
  steady := rfl
  acks p hp := by cases hp
  calls call hcall := by cases hcall

/-- The event does not remove the session of the pair. -/
def Spares (cfg : RelayConfig C) (k : SessionKey) (w : RelayRun C) (event : RelayInput) : Prop :=
  w.server.table.contains k = true → (w.step cfg event).server.table.contains k = true

instance (k : SessionKey) (w : RelayRun C) (event : RelayInput) :
    Decidable (Spares cfg k w event) := inferInstanceAs (Decidable (_ → _))

/-- The pair got the port at some moment of the history, and its session was not removed
since. -/
def KeptPort (cfg : RelayConfig C) (history : List RelayInput) (k : SessionKey) (port : UInt16) :
    Prop :=
  ∃ past rest, history = past ++ rest ∧
    (RelayRun.after cfg past).server.table.port k = some port ∧
    Along (RelayRun.step cfg) (Spares cfg k) (.after cfg past) rest

/-- **A session that is not removed** keeps its port, and the sides it knows. -/
theorem later_of_spared {v : RelayRun C} {rest : List RelayInput} {k : SessionKey} {x : Session}
    (hspared : Along (RelayRun.step cfg) (Spares cfg k) v rest)
    (hx : v.server.session k = some x) :
    ∃ x', (run (RelayRun.step cfg) v rest).server.session k = some x' ∧ x.Later x' := by
  refine hspared.invariant
    (P := fun w : RelayRun C => ∃ x', w.server.session k = some x' ∧ x.Later x')
    (fun w event hw hspares => ?_) ⟨x, hx, .refl x⟩
  obtain ⟨x₁, hx₁, hlater⟩ := hw
  obtain ⟨x₂, hx₂⟩ := Option.isSome_iff_exists.1 (hspares (congrArg Option.isSome hx₁))
  exact ⟨x₂, hx₂, hlater.trans (RelayServer.later_of_move (w.server.move cfg event) hx₁ hx₂)⟩

/-- The port that a pair kept is the one that it has. -/
theorem KeptPort.port_eq {history : List RelayInput} {k : SessionKey} {port : UInt16}
    (h : KeptPort cfg history k port) :
    (RelayRun.after cfg history).server.table.port k = some port := by
  obtain ⟨past, rest, rfl, hport, hspared⟩ := h
  obtain ⟨x, hx, rfl⟩ := Option.map_eq_some_iff.1 hport
  obtain ⟨x', hx', hlater⟩ := later_of_spared hspared hx
  have hafter : RelayRun.after cfg (past ++ rest) =
      run (RelayRun.step cfg) (.after cfg past) rest := run_append ..
  rw [hafter, RelayServer.port_eq hx', hlater.port]

/-- **Registrations of one pair agree**, whatever the network loses, repeats, delays, redirects
or claims to come from elsewhere, if it does not forge: the port that a call returns is one
that its pair had at the relay, and as long as the session of the pair was not removed since,
it is the port that the pair has, the same for every call of either party. -/
theorem registrations_agree (cfg : RelayConfig C) (control : SocketAddrV6)
    (inputs : List (RelayNetInput C))
    (hgenuine : Along (step cfg control) (Genuine cfg) init inputs) :
    let w := run (step cfg control) init inputs
    (∀ call ∈ w.calls, ∀ x, call.session? = some x →
      HadPort cfg w.history call.key x.endpoint.port) ∧
    ∀ call ∈ w.calls, ∀ x, call.session? = some x →
      KeptPort cfg w.history call.key x.endpoint.port →
        w.relay.server.table.port call.key = some x.endpoint.port ∧
        ∀ call' ∈ w.calls, call'.key = call.key → ∀ x', call'.session? = some x' →
          KeptPort cfg w.history call.key x'.endpoint.port →
            x'.endpoint.port = x.endpoint.port := by
  intro w
  have h : w.Ported cfg := hgenuine.invariant (fun w i h hi => h.step hi) ported_init
  have hport : ∀ {k port}, KeptPort cfg w.history k port →
      w.relay.server.table.port k = some port := by
    intro k port hkept
    rw [show w.relay = .after cfg w.history from h.steady]
    exact hkept.port_eq
  refine ⟨h.calls, fun call hcall x hx hkept => ⟨hport hkept, ?_⟩⟩
  intro call' hcall' hkey x' hx' hkept'
  exact Option.some.inj ((hport hkept').symm.trans (hport hkept))

/-- The control socket of the relay at work. -/
def plainRelayControl : SocketAddrV6 := relayClient 9 4196

/-- Node `self` registers its pair with `peer` from the host `n`: call number `i`, whose first
Register is answered at once, by a datagram that seems to come from `src`. -/
def plainRegistration (i self peer : ℕ) (n : UInt8) (nowUnix : ℕ) (src : SocketAddrV6) :
    List (RelayNetInput Crypto.plain) :=
  [.call ⟨[plainRelayControl], plainKey self 0, plainKey peer 0, 4193⟩ registerTimeout true 0
      (relayClient n 40000),
    .round i 1 nowUnix, .relay (plainControl .register self peer n nowUnix),
    .received i (RelayFrame.encode plainRelay.hmac plainRelay.relayKey
      ⟨.registerAck, 50000, UInt64.ofNat nowUnix, plainKey self 0, plainKey peer 0⟩) (.v6 src)]

/-- Nodes 1 and 2 register their pair. -/
def plainRegistrations : List (RelayNetInput Crypto.plain) :=
  plainRegistration 0 1 2 1 100 plainRelayControl ++ plainRegistration 1 2 1 2 101 plainRelayControl

/-- Both get port 50000, and the pair kept it while the second registered. -/
theorem registrations_agree_plain :
    let w := run (step plainRelay plainRelayControl) init plainRegistrations
    w.calls.map (fun call => call.session?.map fun x => x.endpoint.port) =
      [some 50000, some 50000] ∧
    ∃ call ∈ w.calls, ∃ x, call.session? = some x ∧
      HadPort plainRelay w.history call.key x.endpoint.port ∧
      w.relay.server.table.port call.key = some x.endpoint.port := by
  intro w
  have hkept : KeptPort plainRelay w.history
      (sessionKeyOf (plainKey 1 0).bytes (plainKey 2 0).bytes) 50000 :=
    ⟨[plainControl .register 1 2 1 100], [plainControl .register 2 1 2 101], rfl,
      by decide +kernel, by decide +kernel⟩
  have hcall : ∃ call ∈ w.calls,
      call.session? = some ⟨relayClient 9 50000, plainRelayControl⟩ ∧
      call.key = sessionKeyOf (plainKey 1 0).bytes (plainKey 2 0).bytes := by
    decide +kernel
  obtain ⟨call, hcall, hx, hkey⟩ := hcall
  obtain ⟨hhad, hagree⟩ := registrations_agree plainRelay plainRelayControl plainRegistrations
    (by decide +kernel)
  exact ⟨by decide +kernel, call, hcall, _, hx, hhad call hcall _ hx,
    (hagree call hcall _ hx (hkey ▸ hkept)).1⟩

end RelayNet

end Hextet
