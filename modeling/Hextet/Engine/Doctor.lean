/-
# Who can reach this node

`hextet doctor` (`crates/core/src/doctor.rs`, `crates/engine/src/doctor_client.rs`) asks another
node for two packets back: an answer, and one that comes unasked from another port.
`probe_responder::serve` sends them.  The hosts of both nodes stand behind walls that look at
what was sent and what comes; the network may lose, repeat, delay and reorder what was sent and
deliver what nobody sent.

What a step does is said once for each side (`client_step`, `mem_fromClient_step`,
`atServer_cases`, `woken_cases`); what a client has seen it keeps (`later_run`).
-/

import Hextet.Engine.ProbeResponder
import Hextet.Lib.Run

namespace Hextet

open Lib

/-! ### `doctor.rs` -/

/-- `Reachability`. -/
inductive Reachability where
  | noIpv6
  | «open»
  | stateful
  | blocked
  deriving DecidableEq, Repr

/-- `Reachability::as_str`. -/
def Reachability.asStr : Reachability → String
  | .noIpv6 => "no-ipv6"
  | .open => "open"
  | .stateful => "stateful"
  | .blocked => "blocked"

/-- `ProbeEvidence`. -/
structure ProbeEvidence where
  hasGlobalIpv6 : Bool
  solicitedOk : Bool
  unsolicitedOk : Bool
  deriving DecidableEq

/-- `classify`. -/
def classifyEvidence (e : ProbeEvidence) : Reachability :=
  if !e.hasGlobalIpv6 then .noIpv6
  else if e.unsolicitedOk then .open
  else if e.solicitedOk then .stateful
  else .blocked

/-! ### The responder -/

/-- `UNSOLICITED_DELAY`: 300 ms. -/
def unsolicitedDelay : ℕ := 300000000

/-- The length of the buffers of both sides. -/
def probeBuf : ℕ := 128

/-- A task that sleeps before it sends the packet that was not asked for. -/
structure UnsolicitedTask where
  due : Instant
  target : SocketAddrV6
  nonce : UInt64
  deriving DecidableEq

/-- `probe_responder::serve`: the limiter and the tasks it has spawned. -/
structure ProbeServer where
  limiter : RateLimiter
  tasks : List UnsolicitedTask

namespace ProbeServer

/-- The request in a datagram. -/
def request? (hmac : Hmac) (probeKey : Bytes 32) (datagram : List UInt8) : Option ProbePacket :=
  match ProbePacket.decode hmac probeKey (datagram.take probeBuf) with
  | .ok p => if p.kind = .request then some p else none
  | _ => none

/-- The task for a request, if it names a port. -/
def task? (src : SocketAddrV6) (p : ProbePacket) (now : Instant) : Option UnsolicitedTask :=
  if p.replyPort ≠ 0 then
    some ⟨now + unsolicitedDelay, ⟨src.ip, p.replyPort, 0, src.scopeId⟩, p.nonce⟩
  else none

/-- One datagram: the response, if there is one, and the responder. -/
def receive (hmac : Hmac) (probeKey : Bytes 32) (s : ProbeServer) (datagram : List UInt8)
    (src : SocketAddr) (now : Instant) : Option (List UInt8) × ProbeServer :=
  match src, request? hmac probeKey datagram with
  | .v6 src, some p =>
      let (allowed, limiter) := s.limiter.allow src.ip now
      if allowed then
        (some (ProbePacket.encode hmac probeKey ⟨.response, p.nonce, 0⟩),
          ⟨limiter, s.tasks ++ (task? src p now).toList⟩)
      else (none, ⟨limiter, s.tasks⟩)
  | _, _ => (none, s)

end ProbeServer

/-! ### The client -/

/-- `probe_peer` in its loop: its two ports, its nonce, what it has seen, and whether its time
is over. -/
structure ProbeClient where
  target : SocketAddrV6
  globalAddresses : List Ipv6Addr
  port₁ : UInt16
  port₂ : UInt16
  nonce : UInt64
  solicitedOk : Bool
  unsolicitedOk : Bool
  timedOut : Bool

namespace ProbeClient

/-- `probe_peer` up to its loop. -/
def start (target : SocketAddrV6) (globalAddresses : List Ipv6Addr) (port₁ port₂ : UInt16)
    (nonce : UInt64) : ProbeClient :=
  ⟨target, globalAddresses, port₁, port₂, nonce, false, false, false⟩

/-- The loop goes on. -/
def running (c : ProbeClient) : Bool := !c.timedOut && !(c.solicitedOk && c.unsolicitedOk)

/-- The request. -/
def request (c : ProbeClient) : ProbePacket := ⟨.request, c.nonce, c.port₂⟩

/-- The packet has the kind and the nonce. -/
def expects (c : ProbeClient) (hmac : Hmac) (probeKey : Bytes 32) (kind : ProbeKind)
    (datagram : List UInt8) : Bool :=
  match ProbePacket.decode hmac probeKey (datagram.take probeBuf) with
  | .ok p => p.kind = kind && p.nonce = c.nonce
  | _ => false

/-- A datagram at the first socket. -/
def receive₁ (c : ProbeClient) (hmac : Hmac) (probeKey : Bytes 32) (datagram : List UInt8) :
    ProbeClient :=
  if c.running && c.expects hmac probeKey .response datagram then { c with solicitedOk := true }
  else c

/-- A datagram at the second socket. -/
def receive₂ (c : ProbeClient) (hmac : Hmac) (probeKey : Bytes 32) (datagram : List UInt8) :
    ProbeClient :=
  if c.running && c.expects hmac probeKey .unsolicited datagram then
    { c with unsolicitedOk := true }
  else c

/-- What `probe_peer` returns. -/
def evidence (c : ProbeClient) : ProbeEvidence :=
  ⟨!c.globalAddresses.isEmpty, c.solicitedOk, c.unsolicitedOk⟩

/-- The conclusion. -/
def verdict (c : ProbeClient) : Reachability := classifyEvidence c.evidence

end ProbeClient

/-! ### The network -/

/-- A datagram on its way. -/
structure UdpPacket where
  src : SocketAddrV6
  dst : SocketAddrV6
  bytes : List UInt8
  deriving DecidableEq

/-- A wall looks at what was sent from its host and at a packet that comes. -/
abbrev Wall := List UdpPacket → UdpPacket → Bool

/-- The keys, the port of the responder and the two walls. -/
structure ProbeConfig where
  hmac : Hmac
  probeKey : Bytes 32
  probePort : UInt16
  clientWall : Wall
  serverWall : Wall

/-- A probe: the two sides, what was sent from their hosts, and the requests that were
answered. -/
structure ProbeNet where
  client : ProbeClient
  server : ProbeServer
  fromClient : List UdpPacket
  fromServer : List UdpPacket
  answered : List UdpPacket

/-- What happens next. -/
inductive ProbeInput where
  /-- The timer of the client ticks; its packets leave from an address. -/
  | tick (ip : Ipv6Addr)
  /-- The time of the client is over. -/
  | deadline
  /-- A packet comes to the host of the client. -/
  | toClient (p : UdpPacket)
  /-- A packet comes to the host of the responder. -/
  | toServer (p : UdpPacket) (now : Instant)
  /-- A task of the responder wakes, and binds a new socket if it can. -/
  | wake (i : ℕ) (src : Option SocketAddrV6) (now : Instant)
  /-- Another program on the host of the client sends. -/
  | clientHost (p : UdpPacket)
  /-- Another program on the host of the responder sends. -/
  | serverHost (p : UdpPacket)

namespace ProbeNet

/-- A probe begins. -/
def start (client : ProbeClient) (limiter : RateLimiter) : ProbeNet :=
  ⟨client, ⟨limiter, []⟩, [], [], []⟩

/-- A packet gets through the wall to a socket of the client. -/
def atClient (cfg : ProbeConfig) (w : ProbeNet) (p : UdpPacket) : ProbeNet :=
  if cfg.clientWall w.fromClient p then
    if p.dst.port = w.client.port₁ then
      { w with client := w.client.receive₁ cfg.hmac cfg.probeKey p.bytes }
    else if p.dst.port = w.client.port₂ then
      { w with client := w.client.receive₂ cfg.hmac cfg.probeKey p.bytes }
    else w
  else w

/-- A packet gets through the wall to the socket of the responder. -/
def atServer (cfg : ProbeConfig) (w : ProbeNet) (p : UdpPacket) (now : Instant) : ProbeNet :=
  if cfg.serverWall w.fromServer p ∧ p.dst.port = cfg.probePort then
    match w.server.receive cfg.hmac cfg.probeKey p.bytes (.v6 p.src) now with
    | (some response, server) =>
        { w with
          server
          fromServer := ⟨p.dst, p.src, response⟩ :: w.fromServer
          answered := p :: w.answered }
    | (none, server) => { w with server }
  else w

/-- A task sends. -/
def woken (cfg : ProbeConfig) (w : ProbeNet) (i : ℕ) (src : Option SocketAddrV6) (now : Instant) :
    ProbeNet :=
  match w.server.tasks[i]? with
  | none => w
  | some t =>
      if t.due ≤ now then
        let server := { w.server with tasks := w.server.tasks.eraseIdx i }
        match src with
        | some src =>
            { w with
              server
              fromServer := ⟨src, t.target,
                ProbePacket.encode cfg.hmac cfg.probeKey ⟨.unsolicited, t.nonce, 0⟩⟩ ::
                  w.fromServer }
        | none => { w with server }
      else w

/-- One event. -/
def step (cfg : ProbeConfig) (w : ProbeNet) : ProbeInput → ProbeNet
  | .tick ip =>
      if w.client.running && !w.client.solicitedOk then
        { w with
          fromClient := ⟨⟨ip, w.client.port₁, 0, 0⟩, w.client.target,
            w.client.request.encode cfg.hmac cfg.probeKey⟩ :: w.fromClient }
      else w
  | .deadline => { w with client := { w.client with timedOut := true } }
  | .toClient p => w.atClient cfg p
  | .toServer p now => w.atServer cfg p now
  | .wake i src now => w.woken cfg i src now
  | .clientHost p => { w with fromClient := p :: w.fromClient }
  | .serverHost p => { w with fromServer := p :: w.fromServer }

end ProbeNet

/-! ### What a step does -/

/-- The packet carries a probe of the nonce. -/
def ProbeConfig.Carries (cfg : ProbeConfig) (nonce : UInt64) (p : UdpPacket) (q : ProbePacket) :
    Prop :=
  ProbePacket.decode cfg.hmac cfg.probeKey (p.bytes.take probeBuf) = .ok q ∧ q.nonce = nonce

/-- A probe that is encoded is read. -/
theorem ProbePacket.decode_take_encode (hmac : Hmac) (probeKey : Bytes 32) (p : ProbePacket) :
    ProbePacket.decode hmac probeKey ((p.encode hmac probeKey).take probeBuf) = .ok p := by
  rw [List.take_of_length_le (by rw [ProbePacket.length_encode]; decide)]
  exact ProbePacket.decode_eq_ok_iff.2 List.prefix_rfl

/-- An encoding carries what was encoded, and nothing else. -/
theorem ProbeConfig.carries_encode {cfg : ProbeConfig} {nonce : UInt64} {src dst : SocketAddrV6}
    {p q : ProbePacket} :
    cfg.Carries nonce ⟨src, dst, p.encode cfg.hmac cfg.probeKey⟩ q ↔ q = p ∧ p.nonce = nonce := by
  rw [ProbeConfig.Carries, ProbePacket.decode_take_encode]
  constructor
  · rintro ⟨heq, hnonce⟩
    cases heq
    exact ⟨rfl, hnonce⟩
  · rintro ⟨rfl, hnonce⟩
    exact ⟨rfl, hnonce⟩

theorem ProbeClient.expects_iff {c : ProbeClient} {hmac : Hmac} {probeKey : Bytes 32}
    {kind : ProbeKind} {datagram : List UInt8} :
    c.expects hmac probeKey kind datagram = true ↔
      ∃ q, ProbePacket.decode hmac probeKey (datagram.take probeBuf) = .ok q ∧ q.kind = kind ∧
        q.nonce = c.nonce := by
  unfold expects
  split
  next p hp => simp [hp]
  next hno =>
    refine iff_of_false (by simp) ?_
    rintro ⟨q, hq, -⟩
    exact hno q hq

namespace ProbeNet

variable {cfg : ProbeConfig} {w : ProbeNet}

/-- The packet gets through to a socket of the client, and is what that waits for. -/
def Expected (cfg : ProbeConfig) (w : ProbeNet) (port : UInt16) (kind : ProbeKind)
    (input : ProbeInput) : Prop :=
  ∃ p q, input = .toClient p ∧ cfg.clientWall w.fromClient p = true ∧ p.dst.port = port ∧
    cfg.Carries w.client.nonce p q ∧ q.kind = kind

/-- **What a step does to the client.** -/
theorem client_step (cfg : ProbeConfig) (w : ProbeNet) (input : ProbeInput) :
    (w.step cfg input).client = w.client ∨
      (w.step cfg input).client = { w.client with timedOut := true } ∨
      ((w.step cfg input).client = { w.client with solicitedOk := true } ∧
        w.Expected cfg w.client.port₁ .response input) ∨
      ((w.step cfg input).client = { w.client with unsolicitedOk := true } ∧
        w.Expected cfg w.client.port₂ .unsolicited input) := by
  cases input with
  | deadline => exact Or.inr (Or.inl rfl)
  | clientHost | serverHost => exact Or.inl rfl
  | tick ip =>
      simp only [step]
      split_ifs
      · exact Or.inl rfl
      · exact Or.inl rfl
  | toServer p now =>
      simp only [step, atServer]
      split_ifs
      · split
        · exact Or.inl rfl
        · exact Or.inl rfl
      · exact Or.inl rfl
  | wake i src now =>
      simp only [step, woken]
      split
      · exact Or.inl rfl
      · split_ifs
        · split
          · exact Or.inl rfl
          · exact Or.inl rfl
        · exact Or.inl rfl
  | toClient p =>
      simp only [step, atClient]
      split_ifs with hwall hport₁ hport₂
      · simp only [ProbeClient.receive₁]
        split_ifs with hexpects
        · rw [Bool.and_eq_true] at hexpects
          obtain ⟨q, hq, hkind, hnonce⟩ := ProbeClient.expects_iff.1 hexpects.2
          exact Or.inr (Or.inr (Or.inl ⟨rfl, p, q, rfl, hwall, hport₁, ⟨hq, hnonce⟩, hkind⟩))
        · exact Or.inl rfl
      · simp only [ProbeClient.receive₂]
        split_ifs with hexpects
        · rw [Bool.and_eq_true] at hexpects
          obtain ⟨q, hq, hkind, hnonce⟩ := ProbeClient.expects_iff.1 hexpects.2
          exact Or.inr (Or.inr (Or.inr ⟨rfl, p, q, rfl, hwall, hport₂, ⟨hq, hnonce⟩, hkind⟩))
        · exact Or.inl rfl
      · exact Or.inl rfl
      · exact Or.inl rfl

/-- What a client keeps: its ports, nonce and addresses, and what it has seen. -/
structure Later (c c' : ProbeClient) : Prop where
  port₁ : c'.port₁ = c.port₁
  port₂ : c'.port₂ = c.port₂
  nonce : c'.nonce = c.nonce
  addresses : c'.globalAddresses = c.globalAddresses
  solicited : c.solicitedOk = true → c'.solicitedOk = true
  unsolicited : c.unsolicitedOk = true → c'.unsolicitedOk = true

theorem Later.refl (c : ProbeClient) : Later c c := ⟨rfl, rfl, rfl, rfl, id, id⟩

theorem Later.trans {c c' c'' : ProbeClient} (h : Later c c') (h' : Later c' c'') : Later c c'' where
  port₁ := h'.port₁.trans h.port₁
  port₂ := h'.port₂.trans h.port₂
  nonce := h'.nonce.trans h.nonce
  addresses := h'.addresses.trans h.addresses
  solicited hok := h'.solicited (h.solicited hok)
  unsolicited hok := h'.unsolicited (h.unsolicited hok)

theorem later_step (cfg : ProbeConfig) (w : ProbeNet) (input : ProbeInput) :
    Later w.client (w.step cfg input).client := by
  obtain h | h | ⟨h, -⟩ | ⟨h, -⟩ := client_step cfg w input
  · rw [h]
    exact .refl w.client
  · rw [h]
    exact ⟨rfl, rfl, rfl, rfl, id, id⟩
  · rw [h]
    exact ⟨rfl, rfl, rfl, rfl, fun _ => rfl, id⟩
  · rw [h]
    exact ⟨rfl, rfl, rfl, rfl, id, fun _ => rfl⟩

theorem later_run (cfg : ProbeConfig) (w : ProbeNet) (inputs : List ProbeInput) :
    Later w.client (run (step cfg) w inputs).client :=
  run_invariant (P := fun v : ProbeNet => Later w.client v.client)
    (fun v input h => h.trans (later_step cfg v input)) (.refl w.client) inputs

/-- What is sent from the host of the client. -/
theorem mem_fromClient_step {input : ProbeInput} {o : UdpPacket}
    (h : o ∈ (w.step cfg input).fromClient) :
    o ∈ w.fromClient ∨ input = .clientHost o ∨
      ∃ ip, o = ⟨⟨ip, w.client.port₁, 0, 0⟩, w.client.target,
        w.client.request.encode cfg.hmac cfg.probeKey⟩ := by
  cases input with
  | deadline | serverHost => exact Or.inl h
  | clientHost p =>
      rcases List.mem_cons.1 h with rfl | h
      · exact Or.inr (Or.inl rfl)
      · exact Or.inl h
  | tick ip =>
      simp only [step] at h
      split_ifs at h
      · rcases List.mem_cons.1 h with rfl | h
        · exact Or.inr (Or.inr ⟨ip, rfl⟩)
        · exact Or.inl h
      · exact Or.inl h
  | toServer p now =>
      simp only [step, atServer] at h
      split_ifs at h
      · split at h
        · exact Or.inl h
        · exact Or.inl h
      · exact Or.inl h
  | wake i src now =>
      simp only [step, woken] at h
      split at h
      · exact Or.inl h
      · split_ifs at h
        · split at h
          · exact Or.inl h
          · exact Or.inl h
        · exact Or.inl h
  | toClient p =>
      simp only [step, atClient] at h
      split_ifs at h
      · exact Or.inl h
      · exact Or.inl h
      · exact Or.inl h
      · exact Or.inl h

/-- What was sent from the host of the client stays sent. -/
theorem fromClient_step (cfg : ProbeConfig) (w : ProbeNet) (input : ProbeInput) :
    w.fromClient ⊆ (w.step cfg input).fromClient := by
  cases input with
  | deadline | serverHost => exact List.Subset.refl _
  | clientHost p => exact List.subset_cons_self ..
  | tick ip =>
      simp only [step]
      split_ifs
      · exact List.subset_cons_self ..
      · exact List.Subset.refl _
  | toServer p now =>
      simp only [step, atServer]
      split_ifs
      · split <;> exact List.Subset.refl _
      · exact List.Subset.refl _
  | wake i src now =>
      simp only [step, woken]
      split
      · exact List.Subset.refl _
      · split_ifs
        · split <;> exact List.Subset.refl _
        · exact List.Subset.refl _
  | toClient p =>
      simp only [step, atClient]
      split_ifs <;> exact List.Subset.refl _

/-- The responder gets a request. -/
def Asked (cfg : ProbeConfig) (w : ProbeNet) (p : UdpPacket) (q : ProbePacket) : Prop :=
  cfg.serverWall w.fromServer p = true ∧ p.dst.port = cfg.probePort ∧
    ProbeServer.request? cfg.hmac cfg.probeKey p.bytes = some q

/-- **A packet at the host of the responder** is answered as a request, or leaves no more than
an entry in the limiter. -/
theorem atServer_cases (cfg : ProbeConfig) (w : ProbeNet) (p : UdpPacket) (now : Instant) :
    (∃ limiter, w.atServer cfg p now = { w with server := ⟨limiter, w.server.tasks⟩ }) ∨
      ∃ q limiter, w.Asked cfg p q ∧
        w.atServer cfg p now =
          { w with
            server := ⟨limiter, w.server.tasks ++ (ProbeServer.task? p.src q now).toList⟩
            fromServer := ⟨p.dst, p.src,
              ProbePacket.encode cfg.hmac cfg.probeKey ⟨.response, q.nonce, 0⟩⟩ :: w.fromServer
            answered := p :: w.answered } := by
  by_cases hwall : cfg.serverWall w.fromServer p = true ∧ p.dst.port = cfg.probePort
  · rw [atServer, if_pos hwall]
    cases hrequest : ProbeServer.request? cfg.hmac cfg.probeKey p.bytes with
    | none =>
        simp only [ProbeServer.receive, hrequest]
        exact Or.inl ⟨w.server.limiter, rfl⟩
    | some q =>
        cases hallow : w.server.limiter.allow p.src.ip now with
        | mk allowed limiter =>
            cases allowed with
            | false =>
                simp only [ProbeServer.receive, hrequest, hallow]
                exact Or.inl ⟨limiter, rfl⟩
            | true =>
                simp only [ProbeServer.receive, hrequest, hallow, if_true]
                exact Or.inr ⟨q, limiter, ⟨hwall.1, hwall.2, hrequest⟩, rfl⟩
  · rw [atServer, if_neg hwall]
    exact Or.inl ⟨w.server.limiter, rfl⟩

/-- **A request that the limiter lets pass** is answered, and leaves its task. -/
theorem atServer_of_asked {p : UdpPacket} {q : ProbePacket} {now : Instant} (h : w.Asked cfg p q)
    (hallow : (w.server.limiter.allow p.src.ip now).1 = true) :
    w.atServer cfg p now =
      { w with
        server := ⟨(w.server.limiter.allow p.src.ip now).2,
          w.server.tasks ++ (ProbeServer.task? p.src q now).toList⟩
        fromServer := ⟨p.dst, p.src,
          ProbePacket.encode cfg.hmac cfg.probeKey ⟨.response, q.nonce, 0⟩⟩ :: w.fromServer
        answered := p :: w.answered } := by
  obtain ⟨hwall, hport, hrequest⟩ := h
  rw [atServer, if_pos ⟨hwall, hport⟩]
  simp only [ProbeServer.receive, hrequest, hallow, if_true]

/-- **A task that wakes in time** and gets a socket sends its packet. -/
theorem woken_of_due {i : ℕ} {t : UnsolicitedTask} (ht : w.server.tasks[i]? = some t)
    {now : Instant} (hdue : t.due ≤ now) (src : SocketAddrV6) :
    (w.woken cfg i (some src) now).fromServer =
      ⟨src, t.target, ProbePacket.encode cfg.hmac cfg.probeKey ⟨.unsolicited, t.nonce, 0⟩⟩ ::
        w.fromServer := by
  simp only [woken, ht, if_pos hdue]

/-- **A task that wakes** sends its packet, or nothing. -/
theorem woken_cases (cfg : ProbeConfig) (w : ProbeNet) (i : ℕ) (src : Option SocketAddrV6)
    (now : Instant) :
    ∃ tasks ⊆ w.server.tasks,
      w.woken cfg i src now = { w with server := ⟨w.server.limiter, tasks⟩ } ∨
        ∃ src' t, src = some src' ∧ t ∈ w.server.tasks ∧ t.due ≤ now ∧
          w.woken cfg i src now =
            { w with
              server := ⟨w.server.limiter, tasks⟩
              fromServer := ⟨src', t.target,
                ProbePacket.encode cfg.hmac cfg.probeKey ⟨.unsolicited, t.nonce, 0⟩⟩ ::
                  w.fromServer } := by
  unfold woken
  split
  · exact ⟨w.server.tasks, List.Subset.refl _, Or.inl rfl⟩
  next t ht =>
    split_ifs with hdue
    · refine ⟨w.server.tasks.eraseIdx i, List.eraseIdx_subset, ?_⟩
      split
      next src' => exact Or.inr ⟨src', t, rfl, List.mem_of_getElem? ht, hdue, rfl⟩
      · exact Or.inl rfl
    · exact ⟨w.server.tasks, List.Subset.refl _, Or.inl rfl⟩

end ProbeNet

end Hextet
