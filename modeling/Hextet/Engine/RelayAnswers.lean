/-
# A registration is an answer to its call

An acknowledgement carries nothing of the Register it answers but the two keys, so what ties
it to a call is the socket it comes to.  In a network that delivers what was sent, where it
was sent (`Delivered`), to calls of which no two have one socket address (`NewSocket`), the
session that a call returns is an answer of the relay to a Register of this call
(`registered_by_this_call`).  A call that is still at it needs one round trip to get there
(`round_trip_registers`).
-/

import Hextet.Engine.RelayNet

namespace Hextet

open Lib

variable {C : Crypto}

namespace RelayNet

variable {cfg : RelayConfig C} {control : SocketAddrV6} {w : RelayNet C}

/-! ### A network that delivers what was sent, where it was sent -/

/-- A frame comes from the socket that sent it, and to the socket it was sent to. -/
def Delivered (cfg : RelayConfig C) (w : RelayNet C) : RelayNetInput C → Prop
  | .relay (.control datagram src _ _ _) =>
      ∀ f ∈ heard cfg controlBuf datagram, ∃ p ∈ w.sent, p.frame = f ∧ src = .v6 p.src
  | .received i datagram src =>
      ∀ call ∈ w.calls[i]?, ∀ f ∈ heard cfg registerBuf datagram,
        ∃ p ∈ w.sent, p.frame = f ∧ src = .v6 p.src ∧ p.dst = call.addr
  | _ => True

instance (w : RelayNet C) : (input : RelayNetInput C) → Decidable (Delivered cfg w input)
  | .relay (.control ..) => inferInstanceAs (Decidable (∀ _ ∈ _, _))
  | .relay (.prune _) => .isTrue trivial
  | .relay (.update _) => .isTrue trivial
  | .relay (.socketError _) => .isTrue trivial
  | .relay (.data ..) => .isTrue trivial
  | .received .. => inferInstanceAs (Decidable (∀ _ ∈ _, ∀ _ ∈ _, _))
  | .call .. => .isTrue trivial
  | .round .. => .isTrue trivial
  | .silence _ => .isTrue trivial
  | .unregister .. => .isTrue trivial

/-- The socket of a call has an address that no call before had. -/
def NewSocket (w : RelayNet C) : RelayNetInput C → Prop
  | .call _ _ _ _ addr => ∀ call ∈ w.calls, call.addr ≠ addr
  | _ => True

instance (w : RelayNet C) : (input : RelayNetInput C) → Decidable (NewSocket w input)
  | .call .. => inferInstanceAs (Decidable (∀ _ ∈ _, _))
  | .relay _ => .isTrue trivial
  | .round .. => .isTrue trivial
  | .received .. => .isTrue trivial
  | .silence _ => .isTrue trivial
  | .unregister .. => .isTrue trivial

/-- What acknowledges comes from the control socket, and the sessions are there. -/
structure AtControl (control : SocketAddrV6) (w : RelayNet C) : Prop where
  acks : ∀ p ∈ w.sent, p.frame.kind = .registerAck → p.src = control
  calls : ∀ call ∈ w.calls, ∀ x, call.session? = some x → x.control = normalize control ∧
    x.endpoint = ⟨control.ip, x.endpoint.port, 0, 0⟩

theorem AtControl.step (h : w.AtControl control) {input : RelayNetInput C}
    (hdelivered : Delivered cfg w input) : (w.step cfg control input).AtControl control where
  acks p hp hkind := by
    rcases mem_sent_step hp with hp | ⟨event, rfl, hsrc, -⟩ | ⟨call, -, nowUnix, hf, -⟩ | hun
    · exact h.acks p hp hkind
    · exact hsrc
    · rw [hf] at hkind
      cases hkind
    · rw [hun] at hkind
      cases hkind
  calls call' hcall' x hx := by
    rcases mem_calls_step hcall' with ⟨-, hnone, -⟩ | ⟨call, hcall, -, hsession⟩
    · rw [hx] at hnone
      cases hnone
    · rcases hsession x hx with hx | ⟨i, datagram, src, rfl, hi, hack⟩
      · exact h.calls call hcall x hx
      · obtain ⟨src', ack, hsrc, hdecode, hkind, -, -, -, rfl⟩ :=
          RelayClient.acknowledged_spec hack
        obtain ⟨p, hp, rfl, hfrom, -⟩ := hdelivered call hi ack (heard_of_decode hdecode)
        rw [hsrc] at hfrom
        cases hfrom
        rw [← h.acks p hp hkind]
        exact ⟨rfl, rfl⟩

theorem atControl_init : (init : RelayNet C).AtControl control where
  acks p hp := by cases hp
  calls call hcall := by cases hcall

/-- Since the call was made, the relay accepted a Register of the party of the call that announced
the host of the call with the WireGuard port, and its pair then had the port. -/
def Answered (cfg : RelayConfig C) (history : List RelayInput) (call : RelayCall C)
    (port : UInt16) : Prop :=
  ∃ past event r, call.since <+: past ∧ past ++ [event] <+: history ∧
    (RelayRun.after cfg past).server.accepted cfg event = some r ∧
    r.frame.selfKey = call.selfKey ∧ r.frame.peerKey = call.peerKey ∧
    r.addr = call.dataAddr ∧
    (RelayRun.after cfg (past ++ [event])).server.table.port call.key = some port

theorem Answered.mono {history history' : List RelayInput} {call call' : RelayCall C}
    {port : UInt16} (h : Answered cfg history call port) (hhistory : history <+: history')
    (hlike : call.Like call') : Answered cfg history' call' port := by
  obtain ⟨past, event, r, hsince, hpast, hr, hself, hpeer, haddr, hport⟩ := h
  obtain ⟨hreq, hsame, hmade⟩ := hlike
  refine ⟨past, event, r, hmade ▸ hsince, hpast.trans hhistory, hr, ?_, ?_, ?_, ?_⟩
  · rw [hself, hreq]
  · rw [hpeer, hreq]
  · rw [haddr, RelayCall.dataAddr, RelayCall.dataAddr, hreq, hsame]
  · rw [show call'.key = call.key from congrArg RelayRequest.key hreq, hport]

/-- What is on the wire, and what the calls returned, belongs to the calls. -/
structure Fresh (cfg : RelayConfig C) (w : RelayNet C) : Prop where
  steady : w.Steady cfg
  since : ∀ call ∈ w.calls, call.since <+: w.history
  distinct : (w.calls.map RelayCall.addr).Nodup
  registers : ∀ p ∈ w.sent, p.frame.kind = .register →
    ∃ call ∈ w.calls, p.src = call.addr ∧ ∃ nowUnix, p.frame = call.frame .register nowUnix
  acks : ∀ p ∈ w.sent, p.frame.kind = .registerAck →
    ∃ call ∈ w.calls, p.dst = call.addr ∧ Answered cfg w.history call p.frame.port
  calls : ∀ call ∈ w.calls, ∀ x, call.session? = some x →
    Answered cfg w.history call x.endpoint.port

/-- Every call goes on. -/
theorem exists_like_step (cfg : RelayConfig C) (control : SocketAddrV6) (input : RelayNetInput C)
    {call : RelayCall C} (h : call ∈ w.calls) :
    ∃ call' ∈ (w.step cfg control input).calls, call.Like call' := by
  have hsame : ∃ call' ∈ w.calls, call.Like call' := ⟨call, h, rfl, rfl, rfl⟩
  have honCall : ∀ (i : ℕ) (g : RelayClient C → RelayClient C),
      (∀ c, (g c).toRelayRequest = c.toRelayRequest) →
        ∃ call' ∈ (w.onCall i g).calls, call.Like call' := by
    intro i g hg
    obtain ⟨j, hj⟩ := List.getElem?_of_mem h
    have hj' : (w.onCall i g).calls[j]? = _ := List.getElem?_modify ..
    rw [hj, Option.map_eq_map, Option.map_some] at hj'
    refine ⟨_, List.mem_of_getElem? hj', ?_⟩
    split_ifs
    · exact ⟨hg _, rfl, rfl⟩
    · exact ⟨rfl, rfl, rfl⟩
  cases input with
  | relay event => exact hsame
  | unregister dst q nowUnix addr => exact hsame
  | call q timeout bound now addr => exact ⟨call, List.mem_append_left _ h, rfl, rfl, rfl⟩
  | round i now nowUnix => exact honCall i _ fun c => c.request_round now
  | silence i => exact honCall i _ fun c => c.request_silence
  | received i datagram src => exact honCall i _ fun c => c.request_received ..

theorem addrs_onCall (w : RelayNet C) (i : ℕ) (g : RelayClient C → RelayClient C) :
    (w.onCall i g).calls.map RelayCall.addr = w.calls.map RelayCall.addr := by
  refine List.ext_getElem? fun j => ?_
  rw [List.getElem?_map, List.getElem?_map, onCall, List.getElem?_modify, Option.map_eq_map,
    Option.map_map]
  congr 1
  funext call
  simp only [Function.comp_apply]
  split_ifs <;> rfl

theorem distinct_step {input : RelayNetInput C} (h : (w.calls.map RelayCall.addr).Nodup)
    (hnew : NewSocket w input) :
    ((w.step cfg control input).calls.map RelayCall.addr).Nodup := by
  cases input with
  | relay event => exact h
  | unregister dst q nowUnix addr => exact h
  | round i now nowUnix =>
      exact (congrArg List.Nodup (w.addrs_onCall i fun c => (c.round now).2)).mpr h
  | silence i => exact (congrArg List.Nodup (w.addrs_onCall i _)).mpr h
  | received i datagram src => exact (congrArg List.Nodup (w.addrs_onCall i _)).mpr h
  | call q timeout bound now addr =>
      rw [step, List.map_append]
      refine List.Nodup.append h (List.nodup_singleton _) (List.disjoint_singleton.2 fun hin => ?_)
      obtain ⟨call, hcall, heq⟩ := List.mem_map.1 hin
      exact hnew call hcall heq

/-- **An accepted Register is that of a call**, and its acknowledgement goes to the socket of the
call, if the relay heard what was sent. -/
theorem call_of_accepted (h : w.Fresh cfg) {event : RelayInput}
    (hdelivered : Delivered cfg w (.relay event)) {r : Registration C}
    (hr : w.relay.server.accepted cfg event = some r) :
    ∃ call ∈ w.calls, r.frame.selfKey = call.selfKey ∧ r.frame.peerKey = call.peerKey ∧
      r.addr = call.dataAddr ∧
      ∀ frame dst, .ack frame dst ∈ (w.relay.server.handle cfg event).2 → dst = call.addr := by
  obtain ⟨datagram, src, nowUnix, now, bind, rfl, hdecode, hkind, haddr⟩ :=
    RelayServer.accepted_spec hr
  obtain ⟨p, hp, hframe, hsrc⟩ := hdelivered r.frame (heard_of_decode hdecode)
  cases hsrc
  obtain ⟨call, hcall, hsrc, sentUnix, hsent⟩ := h.registers p hp (hframe ▸ hkind)
  rw [hframe] at hsent
  refine ⟨call, hcall, ?_, ?_, ?_, fun frame dst hack => ?_⟩
  · rw [hsent]
    rfl
  · rw [hsent]
    rfl
  · rw [haddr, hsent, hsrc]
    rfl
  · obtain ⟨_, _, _, _, heq⟩ := RelayServer.ack_dst hack
    cases heq
    exact hsrc

/-- **An acknowledgement answers the call it goes to**, if the relay heard what was sent. -/
theorem answered_of_ack (h : w.Fresh cfg) {event : RelayInput}
    (hdelivered : Delivered cfg w (.relay event)) {frame : RelayFrame C} {dst : SocketAddrV6}
    (hack : .ack frame dst ∈ (w.relay.server.handle cfg event).2) :
    ∃ call ∈ w.calls, dst = call.addr ∧ Answered cfg (w.history ++ [event]) call frame.port := by
  have hport := RelayServer.port_of_ack hack
  obtain ⟨r, hr, rfl⟩ := w.relay.server.ack_spec hack
  obtain ⟨call, hcall, hself, hpeer, haddr, hdst⟩ := call_of_accepted h hdelivered hr
  refine ⟨call, hcall, hdst _ _ hack, w.history, event, r, h.since call hcall, List.prefix_rfl, ?_,
    hself, hpeer, haddr, ?_⟩
  · rw [← show w.relay = .after cfg w.history from h.steady]
    exact hr
  · rw [after_event h.steady]
    have hpair : ((w.relay.server.handle cfg event).1.ackOf r).sessionKey = call.key :=
      RelayFrame.sessionKey_eq hself hpeer
    exact hpair ▸ hport

/-- **Every step of such a network keeps it so.** -/
theorem Fresh.step (h : w.Fresh cfg) {input : RelayNetInput C}
    (hdelivered : Delivered cfg w input) (hnew : NewSocket w input) :
    (w.step cfg control input).Fresh cfg where
  steady := steady_step h.steady input
  since call' hcall' := by
    rcases mem_calls_step hcall' with ⟨hsince, -⟩ | ⟨call, hcall, ⟨-, -, hsince⟩, -⟩
    · rw [hsince]
      exact history_step input
    · rw [hsince]
      exact (h.since call hcall).trans (history_step input)
  distinct := distinct_step h.distinct hnew
  registers p hp hkind := by
    have hfrom : ∃ call ∈ w.calls, p.src = call.addr ∧
        ∃ nowUnix, p.frame = call.frame .register nowUnix := by
      rcases mem_sent_step hp with hp | ⟨event, rfl, -, hack⟩ | ⟨call, hcall, nowUnix, hf, hs⟩ | hun
      · exact h.registers p hp hkind
      · obtain ⟨r, -, hframe⟩ := w.relay.server.ack_spec hack
        rw [hframe] at hkind
        cases hkind
      · exact ⟨call, hcall, hs, nowUnix, hf⟩
      · rw [hun] at hkind
        cases hkind
    obtain ⟨call, hcall, hsrc, nowUnix, hframe⟩ := hfrom
    obtain ⟨call', hcall', hreq, haddr, -⟩ := exists_like_step cfg control input hcall
    exact ⟨call', hcall', hsrc.trans haddr.symm, nowUnix, by rw [hframe, hreq]⟩
  acks p hp hkind := by
    have hfrom : ∃ call ∈ w.calls, p.dst = call.addr ∧
        Answered cfg (w.step cfg control input).history call p.frame.port := by
      rcases mem_sent_step hp with hp | ⟨event, rfl, -, hack⟩ | ⟨call, -, nowUnix, hf, -⟩ | hun
      · obtain ⟨call, hcall, hdst, hanswered⟩ := h.acks p hp hkind
        exact ⟨call, hcall, hdst, hanswered.mono (history_step input) ⟨rfl, rfl, rfl⟩⟩
      · exact answered_of_ack h hdelivered hack
      · rw [hf] at hkind
        cases hkind
      · rw [hun] at hkind
        cases hkind
    obtain ⟨call, hcall, hdst, hanswered⟩ := hfrom
    obtain ⟨call', hcall', hlike⟩ := exists_like_step cfg control input hcall
    exact ⟨call', hcall', hdst.trans hlike.2.1.symm, hanswered.mono List.prefix_rfl hlike⟩
  calls call' hcall' x hx := by
    rcases mem_calls_step hcall' with ⟨-, hnone, -⟩ | ⟨call, hcall, hlike, hsession⟩
    · rw [hx] at hnone
      cases hnone
    · rcases hsession x hx with hx | ⟨i, datagram, src, rfl, hi, hack⟩
      · exact (h.calls call hcall x hx).mono (history_step input) hlike
      · obtain ⟨src', ack, -, hdecode, hkind, -, -, -, rfl⟩ := RelayClient.acknowledged_spec hack
        obtain ⟨p, hp, rfl, -, hdst⟩ := hdelivered call hi ack (heard_of_decode hdecode)
        obtain ⟨call₀, hcall₀, hdst₀, hanswered⟩ := h.acks p hp hkind
        -- the acknowledgement answers the call at the socket it came to
        obtain rfl : call₀ = call :=
          List.inj_on_of_nodup_map h.distinct hcall₀ hcall (hdst₀.symm.trans hdst)
        exact hanswered.mono List.prefix_rfl hlike

theorem fresh_init : (init : RelayNet C).Fresh cfg where
  steady := rfl
  since call hcall := by cases hcall
  distinct := List.nodup_nil
  registers p hp := by cases hp
  acks p hp := by cases hp
  calls call hcall := by cases hcall

/-- A Register of a party that may use the relay, of about now, is accepted if its pair has a
session or there is room and a socket for one. -/
theorem accepted_register {s : RelayServer} {frame : RelayFrame C} (hkind : frame.kind = .register)
    (hport : frame.port ≠ 0) (hpair : frame.selfKey.bytes ≠ frame.peerKey.bytes)
    (hallowed : cfg.policy.allows frame.selfKey.bytes = true) {nowUnix : ℕ}
    (hskew : absDiff frame.seq.toNat nowUnix ≤ relaySeqSkewToleranceSecs) (src : SocketAddrV6)
    (now : Instant) (bind : Option UInt16)
    (hserved : s.table.contains frame.sessionKey = true ∨
      (s.pruned nowUnix).table.len < maxSessions ∧ bind.isSome = true) :
    s.accepted cfg (.control (frame.encode cfg.hmac cfg.relayKey) (.v6 src) nowUnix now bind) =
      some ⟨frame, RelayServer.dataAddr src frame, nowUnix⟩ := by
  have hdecode : RelayFrame.decode C cfg.hmac cfg.relayKey
      ((frame.encode cfg.hmac cfg.relayKey).take controlBuf) = .ok frame := by
    rw [RelayFrame.decode_eq_ok_iff]
    refine ⟨hpair, ?_⟩
    rw [List.take_of_length_le]
    rw [RelayFrame.length_encode]
    decide
  have hopen : RelayServer.opened cfg (frame.encode cfg.hmac cfg.relayKey) (.v6 src) nowUnix =
      some (frame, src) := by
    simp [RelayServer.opened, hdecode, not_lt.2 hskew, hallowed]
  have hensured : (s.ensured frame.sessionKey nowUnix now bind).2 = true := by
    rcases s.ensured_cases frame.sessionKey nowUnix now bind with
      ⟨-, heq⟩ | ⟨hout, heq⟩ | ⟨-, -, port, -, heq⟩
    · rw [heq]
    · -- there was no session, so there is room and a socket
      rcases hserved with hin | ⟨hroom, hbind⟩
      · rw [hin] at hout
        cases hout
      · obtain ⟨port, rfl⟩ := Option.isSome_iff_exists.1 hbind
        have hout' : ¬s.table.contains frame.sessionKey = true := by simp [hout]
        simp only [RelayServer.ensured, if_neg hout', if_neg (not_le.2 hroom),
          RelayServer.spawned_of_room _ _ _ hroom]
    · rw [heq]
  simp [RelayServer.accepted, hopen, hkind, hport, hensured]

/-- An accepted Register is acknowledged to where it came from. -/
theorem acknowledged_of_accepted {s : RelayServer} {datagram : List UInt8} {src : SocketAddrV6}
    {nowUnix : ℕ} {now : Instant} {bind : Option UInt16} {r : Registration C}
    (h : s.accepted cfg (.control datagram (.v6 src) nowUnix now bind) = some r) :
    (s.handle cfg (.control datagram (.v6 src) nowUnix now bind)).2 =
      [.ack ((s.handle cfg (.control datagram (.v6 src) nowUnix now bind)).1.ackOf r) src] := by
  obtain ⟨dst, houts⟩ := s.onControl_snd nowUnix cfg datagram (.v6 src) now bind
  rw [h] at houts
  have hack : .ack ((s.handle cfg (.control datagram (.v6 src) nowUnix now bind)).1.ackOf r)
      (dst r) ∈ (s.handle cfg (.control datagram (.v6 src) nowUnix now bind)).2 := by
    rw [RelayServer.handle, houts]
    exact List.mem_singleton.2 rfl
  obtain ⟨_, _, _, _, heq⟩ := RelayServer.ack_dst hack
  cases heq
  exact houts

/-- **One round trip is enough.**  From any state: a call is at the head of its loop before its
deadline, its party may use the relay, the clocks agree within the tolerance, and the pair has a
session or there is room and a socket for one.  If the Register of this round reaches the relay
and the answer to it comes back, the call returns the session, with the port that the pair now
has at the relay. -/
theorem round_trip_registers (cfg : RelayConfig C) (control : SocketAddrV6) (w : RelayNet C)
    {i : ℕ} {call : RelayCall C} (hi : w.calls[i]? = some call) (hphase : call.phase = .looping)
    {now : Instant} (hnow : now < call.deadline) (hport : call.wgListenPort ≠ 0)
    (hpair : call.selfKey.bytes ≠ call.peerKey.bytes)
    (hallowed : cfg.policy.allows call.selfKey.bytes = true) {nowUnix relayUnix : ℕ}
    (hskew : absDiff (UInt64.ofNat nowUnix).toNat relayUnix ≤ relaySeqSkewToleranceSecs)
    (relayNow : Instant) (bind : Option UInt16)
    (hserved : w.relay.server.table.contains call.key = true ∨
      (w.relay.server.pruned relayUnix).table.len < maxSessions ∧ bind.isSome = true) :
    let sent := w.step cfg control (.round i now nowUnix)
    let heard := sent.step cfg control (.relay (.control
      ((call.frame .register nowUnix).encode cfg.hmac cfg.relayKey) (.v6 call.addr) relayUnix
      relayNow bind))
    (∀ dst ∈ call.controlAddrs, ⟨call.frame .register nowUnix, call.addr, dst⟩ ∈ sent.sent) ∧
    ∃ port, heard.relay.server.table.port call.key = some port ∧
      ∃ ack : RelayFrame C, ⟨ack, control, call.addr⟩ ∈ heard.sent ∧
        (port ≠ 0 → ∃ call',
          (heard.step cfg control (.received i (ack.encode cfg.hmac cfg.relayKey)
            (.v6 control))).calls[i]? = some call' ∧
          call'.session? = some ⟨⟨control.ip, port, 0, 0⟩, normalize control⟩) := by
  intro sent heard
  have hround : call.round now = (call.controlAddrs, call.waits) := by
    simp [RelayClient.round, hphase, hnow]
  have hsent : ∀ dst ∈ call.controlAddrs,
      ⟨call.frame .register nowUnix, call.addr, dst⟩ ∈ sent.sent := by
    intro dst hdst
    refine List.mem_append_left _ (List.mem_flatMap.2 ⟨call, Option.mem_toList.2 hi, ?_⟩)
    rw [hround]
    exact List.mem_map.2 ⟨dst, hdst, rfl⟩
  have hwaits : heard.calls[i]? =
      some { call with toRelayClient := call.waits } := by
    change (w.onCall i fun c => (c.round now).2).calls[i]? = _
    rw [onCall_getElem? hi, hround]
  -- the relay accepts the Register and answers
  obtain ⟨r, haccepted, hframe⟩ : ∃ r, w.relay.server.accepted cfg (.control
      ((call.frame .register nowUnix).encode cfg.hmac cfg.relayKey) (.v6 call.addr) relayUnix
      relayNow bind) = some r ∧ r.frame = call.frame .register nowUnix :=
    ⟨_, accepted_register rfl hport hpair hallowed hskew call.addr relayNow bind hserved, rfl⟩
  have houts := acknowledged_of_accepted haccepted
  obtain ⟨x, hx, -⟩ := RelayServer.session_of_accepted (RelayServer.move_of_accepted haccepted)
  have hserver : heard.relay.server = (w.relay.server.handle cfg (.control
      ((call.frame .register nowUnix).encode cfg.hmac cfg.relayKey) (.v6 call.addr) relayUnix
      relayNow bind)).1 := rfl
  rw [← hserver] at houts hx
  have hkey : r.key = call.key := by
    rw [Registration.key, hframe]
    rfl
  have hnamed : heard.relay.server.table.port call.key = some x.port := by
    rw [← hkey, RelayServer.port_eq hx]
    rfl
  refine ⟨hsent, x.port, hnamed, heard.relay.server.ackOf r, ?_, fun hnonzero => ?_⟩
  · refine List.mem_append_left _ (List.mem_filterMap.2 ⟨.ack _ call.addr, ?_, rfl⟩)
    exact houts ▸ List.mem_singleton_self _
  -- the answer comes back
  · have hackPort : (heard.relay.server.ackOf r).port = x.port := by
      rw [RelayServer.ackOf, hkey, hnamed]
      rfl
    have hself : (heard.relay.server.ackOf r).selfKey = call.selfKey := by
      rw [RelayServer.ackOf, hframe]
      rfl
    have hpeer : (heard.relay.server.ackOf r).peerKey = call.peerKey := by
      rw [RelayServer.ackOf, hframe]
      rfl
    have hack : call.waits.acknowledged cfg.hmac cfg.relayKey
        ((heard.relay.server.ackOf r).encode cfg.hmac cfg.relayKey) (.v6 control) =
          some ⟨⟨control.ip, x.port, 0, 0⟩, normalize control⟩ := by
      have hnonzero : (heard.relay.server.ackOf r).port ≠ 0 := hackPort ▸ hnonzero
      rw [RelayClient.acknowledged_encode (c := call.waits) rfl hself hpeer hnonzero hpair,
        hackPort]
    exact ⟨_, onCall_getElem? hwaits _, RelayClient.session?_received_of_waiting rfl hack⟩

/-- The first round of node 1, if it gets through. -/
theorem round_trip_registers_plain :
    let w := run (step plainRelay plainRelayControl) init
      [.call ⟨[plainRelayControl], plainKey 1 0, plainKey 2 0, 4193⟩ registerTimeout true 0
          (relayClient 1 40000)]
    let heard := run (step plainRelay plainRelayControl) w
      [.round 0 1 100, .relay (plainControl .register 1 2 1 100)]
    ∃ ack : RelayFrame Crypto.plain, ∃ call',
      (heard.step plainRelay plainRelayControl (.received 0
        (ack.encode plainRelay.hmac plainRelay.relayKey) (.v6 plainRelayControl))).calls[0]? =
          some call' ∧
      call'.session? = some ⟨relayClient 9 50000, plainRelayControl⟩ := by
  intro w heard
  have hcall : ∃ call ∈ w.calls[0]?, call.toRelayRequest.frame .register 100 =
        ⟨.register, 4193, 100, plainKey 1 0, plainKey 2 0⟩ ∧ call.addr = relayClient 1 40000 ∧
      call.phase = .looping ∧ 1 < call.deadline ∧ call.wgListenPort ≠ 0 ∧
      call.selfKey.bytes ≠ call.peerKey.bytes ∧
      (w.relay.server.pruned 100).table.len < maxSessions := by
    decide +kernel
  obtain ⟨call, hi, hframe, haddr, hphase, hnow, hport, hpair, hroom⟩ := hcall
  obtain ⟨-, port, hnamed, ack, -, hback⟩ := round_trip_registers plainRelay plainRelayControl w hi
    hphase hnow hport hpair rfl
    (by decide : absDiff (UInt64.ofNat 100).toNat 100 ≤ relaySeqSkewToleranceSecs) 0 (some 50000)
    (Or.inr ⟨hroom, rfl⟩)
  rw [hframe, haddr] at hnamed hback
  have hkey : call.key = sessionKeyOf (plainKey 1 0).bytes (plainKey 2 0).bytes :=
    congrArg RelayFrame.sessionKey hframe
  have hgiven : heard.relay.server.table.port
      (sessionKeyOf (plainKey 1 0).bytes (plainKey 2 0).bytes) = some 50000 := by
    decide +kernel
  have hsame : port = 50000 := by
    rw [hkey] at hnamed
    exact Option.some.inj (hnamed.symm.trans hgiven)
  subst hsame
  exact ⟨ack, hback (by decide)⟩

end RelayNet

end Hextet
