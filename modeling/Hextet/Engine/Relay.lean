/-
# Relay sessions

`drive_relay`, `on_relay_registered` and the `MarkGood` branch of `apply_actions`
in `crates/engine/src/daemon.rs`.  Two promises about the relay are compared with
what the handlers do.

A session that the server has dropped is registered again while the peer is
probed.  `drive_relay` does so unless an upgrade is open: then it takes the relay
to be alive, whatever the age of the registration (`session_renewed_iff`,
`session_not_renewed`).

The endpoint of a session is never remembered as a good one, because its port dies
with the session.  `MarkGood` is compared with the session of the moment, so a
packet that arrives late from the port of an earlier session gets that port into
the cache (`session_cached`); as long as no tick books a handshake on the endpoint
of an earlier session, the cache stays clean (`session_never_cached`).
-/

import Hextet.Engine.Handlers
import Hextet.Engine.Revocation

namespace Hextet

open Lib

variable {C : Crypto}

/-- `SESSION_TTL`: 180 s. -/
def sessionTtl : ℕ := 180000000000

/-- The effect starts a registration. -/
def Effect.isRegister : Effect C → Bool
  | .register .. => true
  | _ => false

/-! ### Renewal -/

namespace PeerRuntime

/-- **When `drive_relay` renews a session while probing**: nothing is pending, no
cooldown runs, the registration is due, and no upgrade is open. -/
theorem driveProbing_registers_iff (p : PeerRuntime C) {link : RelayLink C}
    (hsession : link.session.isSome = true) (rounds : ℕ) (now : Instant) :
    (∃ e ∈ (p.driveProbing link rounds now).2.2, e.isRegister = true) ↔
      link.upgradePending = false ∧ link.pending = false ∧ link.cooling now = false ∧
        link.due now = true := by
  unfold driveProbing
  simp only [hsession, if_true]
  cases hup : link.upgradePending <;> cases hpending : link.pending <;>
    cases hcooling : link.cooling now <;> cases hdue : link.due now <;>
      simp [Effect.isRegister, RelayLink.register]

end PeerRuntime

/-- A registration that is a session lifetime old is due. -/
theorem RelayLink.due_of_le {link : RelayLink C} {last : Instant}
    (h : link.lastRegister = some last) {now : Instant} (hold : last + sessionTtl ≤ now) :
    link.due now = true := by
  have hinterval : registerInterval ≤ sessionTtl := by decide
  simp only [RelayLink.due, h, decide_eq_true_eq]
  exact Nat.le_sub_of_add_le' ((Nat.add_le_add_left hinterval last).trans hold)

/-- **A dead session is renewed exactly when no upgrade is open.**  In every state
of a run: a peer that is probed, with a session whose registration is a session
lifetime old, nothing pending and no cooldown, is registered again by `drive_relay`
if and only if `upgrade_pending` is not set. -/
theorem session_renewed_iff (cfg : Config C) (u : System.Startup) (is : List Input) :
    ∀ p ∈ (System.after cfg (System.boot cfg u) is).daemon.peers, ∀ link ∈ p.relay,
      ∀ session ∈ link.session, ∀ last ∈ link.lastRegister, ∀ cache now clock,
        link.control ≠ [] → p.fsm.state.isProbing = true → link.pending = false →
          link.cooling now = false → last + sessionTtl ≤ now →
            ((∃ e ∈ (p.driveRelay cache now clock).2.2, e.isRegister = true) ↔
              link.upgradePending = false) := by
  intro p _ link hlink session hsession last hlast cache now clock hcontrol hp hpending hcooling
    hold
  have hempty : link.control.isEmpty = false := by simpa using hcontrol
  cases hstate : p.fsm.state with
  | connected e => rw [hstate] at hp; cases hp
  | probing i rounds =>
      have heq : p.driveRelay cache now clock = p.driveProbing link rounds now := by
        rw [PeerRuntime.driveRelay, show p.relay = some link from hlink]
        simp [hempty, hstate]
      have hsome : link.session.isSome = true := by
        rw [show link.session = some session from hsession]
        rfl
      rw [heq, p.driveProbing_registers_iff hsome]
      simp [hpending, hcooling, RelayLink.due_of_le hlast hold]

/-! ### A network with a relay -/

/-- `[2001:db8::1]:port`. -/
def plainSocket (port : UInt16) : SocketAddrV6 := ⟨plainAddr, port, 0, 0⟩

/-- Node 2, a relay. -/
def plainRelayPeer : Peer Crypto.plain :=
  { plainPeer with
    name := "r"
    publicKey := plainKey 2 0
    endpoints := [plainSocket 20]
    addr := plainNodeAddr 2 0
    relay := true }

theorem valid_plainRelay : Config.Valid plainConfig.pre plainConfig.own plainConfig.ownAddr
    [plainPeer, plainRelayPeer] where
  own_addr := deriveNodeAddr_plainKey plainPrefix (by omega) (by omega) 0
  addr := by
    intro p hp
    rcases List.mem_pair.1 hp with rfl | rfl
    · exact deriveNodeAddr_plainKey plainPrefix (by omega) (by omega) 0
    · exact deriveNodeAddr_plainKey plainPrefix (by omega) (by omega) 0
  keys := by
    have hne : plainKey 1 0 ≠ plainKey 2 0 := plainKey_ne (by omega) (by omega) (by omega) 0 0
    simpa [plainPeer, plainRelayPeer] using hne
  subnets := by decide
  clear := by simp [plainPeer, plainRelayPeer]
  apart := by simp [plainPeer, plainRelayPeer]

/-- Node 600 with node 1, which has no endpoint, and node 2, a relay. -/
def plainRelayConfig : Config Crypto.plain :=
  { plainConfig with
    peers := [plainPeer, plainRelayPeer]
    valid := valid_plainRelay }

namespace System

/-- Seconds in nanoseconds. -/
def secs (n : ℕ) : ℕ := n * 1000000000

/-- Node 1 as the kernel reports it: its endpoint, and the second of its last
handshake. -/
def plainStatus (port : UInt16) (handshake : ℕ) : PeerStatus :=
  ⟨(plainKey 1 0).wgPublicBytes, some (.v6 (plainSocket port)), some (secs handshake)⟩

/-- A tick at a second. -/
def tickAt (n : ℕ) (statuses : List PeerStatus) : Input :=
  .tick (some statuses) (secs n) fun _ => ⟨secs n, fun _ => secs n, fun _ => true⟩

/-- A layer tells about node 1. -/
def heardAt (n : ℕ) (source : Source) (ports : List UInt16) : Input :=
  .discovered ⟨source, (plainKey 1 0).toBase64, ports.map plainSocket⟩ fun _ => secs n

/-- The relay has given node 1 a port. -/
def registeredAt (n : ℕ) (port : UInt16) : Input :=
  .relay ⟨(plainKey 1 0).toBase64, some ⟨plainSocket port, plainSocket 4196⟩⟩ (secs n)
    fun _ => secs n

/-- The state after some inputs to the network with a relay. -/
def relayed (is : List Input) : System Crypto.plain :=
  after plainRelayConfig (boot plainRelayConfig plainStartup) is

/-- Node 1 is told about by the DHT, tried for two rounds, registered at the relay
as port 100 and reached there. -/
def ontoRelay : List Input :=
  [heardAt 1 .dht [7], tickAt 4 [], tickAt 7 [], registeredAt 8 100, tickAt 9 [plainStatus 100 9]]

/-- A registration that no handshake followed is renewed. -/
theorem session_renewed_unanswered :
    ∃ p ∈ (relayed (ontoRelay.take 4)).daemon.peers, ∃ link ∈ p.relay,
      link.session.isSome = true ∧
        ∃ e ∈ (p.driveRelay .new (secs 200) fun _ => 0).2.2, e.isRegister = true := by
  have hreached : ∃ p ∈ (relayed (ontoRelay.take 4)).daemon.peers, ∃ link ∈ p.relay,
      ∃ session ∈ link.session, ∃ last ∈ link.lastRegister, link.control ≠ [] ∧
        p.fsm.state.isProbing = true ∧ link.pending = false ∧
          link.cooling (secs 200) = false ∧ last + sessionTtl ≤ secs 200 ∧
            link.upgradePending = false := by
    decide +kernel
  obtain ⟨p, hp, link, hlink, session, hsession, last, hlast, hcontrol, hprobing, hpending,
    hcooling, hold, hupgrade⟩ := hreached
  refine ⟨p, hp, link, hlink, by rw [show link.session = some session from hsession]; rfl, ?_⟩
  exact (session_renewed_iff plainRelayConfig plainStartup (ontoRelay.take 4) p hp link hlink
    session hsession last hlast .new (secs 200) (fun _ => 0) hcontrol hprobing hpending hcooling
    hold).2 hupgrade

/-- **A dead session that is not renewed**: node 1 is reached through the relay,
the DHT repeats its address, so an upgrade is tried; neither path answers any more,
and a session lifetime later `drive_relay` still starts nothing. -/
theorem session_not_renewed :
    ∃ p ∈ (relayed (ontoRelay ++ [heardAt 10 .dht [7], tickAt 13 [], tickAt 200 []])).daemon.peers,
      ∃ link ∈ p.relay, ∃ session ∈ link.session, ∃ last ∈ link.lastRegister,
        link.control ≠ [] ∧ p.fsm.state.isProbing = true ∧ link.pending = false ∧
          link.cooling (secs 201) = false ∧ last + sessionTtl ≤ secs 201 ∧
            ¬∃ e ∈ (p.driveRelay .new (secs 201) fun _ => 0).2.2, e.isRegister = true := by
  decide +kernel

/-! ### Session endpoints and the cache -/

/-- The session endpoints that registrations gave out so far, by peer. -/
abbrev Sessions := List (String × SocketAddrV6)

/-- The session endpoints after an input. -/
def noted (past : Sessions) : Input → Sessions
  | .relay done _ _ => (done.session.map fun s => (done.peerKey, s.endpoint)).toList ++ past
  | _ => past

/-- A system with the session endpoints of its past, one input. -/
def notedStep (cfg : Config C) (x : System C × Sessions) (i : Input) : System C × Sessions :=
  (x.1.step cfg i, noted x.2 i)

/-- The input mixes no session endpoint with a direct one: a registration gives out
no endpoint that the cache holds, and a tick books no fresh handshake on the endpoint
of an earlier session. -/
def Unmixed (x : System C × Sessions) : Input → Prop
  | .relay done _ _ => ∀ s ∈ done.session, ¬x.1.daemon.cache.Holds done.peerKey s.endpoint
  | .tick statuses now _ => ∀ st ∈ statuses, ∀ p ∈ x.1.daemon.peers,
      handshakeIsFresh (observe st p.wgPublic).lastHandshake now = true →
        ∀ ep ∈ p.booked (observe st p.wgPublic), (p.keyB64, normalize ep) ∈ x.2 →
          p.sessionEndpoint = some ep
  | _ => True

instance (x : System C × Sessions) : (i : Input) → Decidable (Unmixed x i)
  | .datagram _ => .isTrue trivial
  | .gossip _ _ => .isTrue trivial
  | .discovered _ _ => .isTrue trivial
  | .relay _ _ _ => inferInstanceAs (Decidable (∀ s ∈ _, _))
  | .tick _ _ _ => inferInstanceAs (Decidable (∀ st ∈ _, ∀ p ∈ _, _ → ∀ ep ∈ _, _ → _))
  | .kick _ _ => .isTrue trivial

/-- The cache holds no session endpoint. -/
def Clean (x : System C × Sessions) : Prop :=
  ∀ y ∈ x.2, ¬x.1.daemon.cache.Holds y.1 y.2

section

variable {d : Daemon C} {k : String} {e : SocketAddrV6}

theorem holds_withPeer {key : String}
    {f : PeerRuntime C → EndpointCache → PeerRuntime C × EndpointCache × List (Effect C)}
    (hf : ∀ p, (f p d.cache).2.1.Holds k e → d.cache.Holds k e)
    (h : (d.withPeer key f).1.cache.Holds k e) : d.cache.Holds k e := by
  unfold Daemon.withPeer at h
  split at h
  · exact h
  · exact hf _ h

theorem cache_kickPeers (cache : EndpointCache) (now : SystemTime) (clocks : ℕ → Clock)
    (ps : List (PeerRuntime C)) : (Daemon.kickPeers cache now clocks ps).2.1 = cache := by
  induction ps generalizing cache clocks with
  | nil => rfl
  | cons p ps ih =>
      rw [Daemon.kickPeers]
      simp only [ih]
      exact p.cache_kick cache now (clocks 0)

/-- What the loop of `tick_once` adds to the cache, it books for a peer. -/
theorem holds_tickPeers (statuses : List PeerStatus) (now : SystemTime) {cache : EndpointCache}
    {mgr : RouteManager} {ts : ℕ → PeerTick} {ps : List (PeerRuntime C)}
    (h : (Daemon.tickPeers statuses now cache mgr ts ps).2.1.Holds k e) :
    cache.Holds k e ∨ ∃ p ∈ ps, k = p.keyB64 ∧
      handshakeIsFresh (observe statuses p.wgPublic).lastHandshake now = true ∧
      ∃ ep, p.booked (observe statuses p.wgPublic) = some ep ∧ e = normalize ep ∧
        p.sessionEndpoint ≠ some ep := by
  induction ps generalizing cache mgr ts with
  | nil => exact Or.inl h
  | cons p ps ih =>
      rw [Daemon.tickPeers] at h
      rcases ih h with h | ⟨q, hq, hbooked⟩
      · rcases PeerRuntime.holds_tick h with h | hbooked
        · exact Or.inl h
        · exact Or.inr ⟨p, List.mem_cons_self, hbooked⟩
      · exact Or.inr ⟨q, List.mem_cons_of_mem _ hq, hbooked⟩

theorem cache_onGossip (ctx : Ctx) (clock : Clock) {event : GossipEvent C}
    (h : (d.onGossip ctx clock event).1.cache.Holds k e) : d.cache.Holds k e := by
  cases event with
  | discovered update =>
      exact holds_withPeer (fun p => PeerRuntime.holds_discover _ _ _) h
  | memberAdmitted node name address =>
      simp only [Daemon.onGossip, Daemon.onMemberAdmitted] at h
      split_ifs at h
      · exact h
      · exact h
  | revoked node => exact h

end

/-- **What an input adds to the cache, a tick books.** -/
theorem holds_step (cfg : Config C) {s : System C} {i : Input} {k : String} {e : SocketAddrV6}
    (h : (s.step cfg i).daemon.cache.Holds k e) :
    s.daemon.cache.Holds k e ∨ ∃ st now ts, i = .tick (some st) now ts ∧
      ∃ p ∈ s.daemon.peers, k = p.keyB64 ∧
        handshakeIsFresh (observe st p.wgPublic).lastHandshake now = true ∧
        ∃ ep, p.booked (observe st p.wgPublic) = some ep ∧ e = normalize ep ∧
          p.sessionEndpoint ≠ some ep := by
  cases i with
  | datagram d => exact Or.inl h
  | gossip clock saved =>
      cases hq : s.queue with
      | nil =>
          rw [step, hq] at h
          exact Or.inl h
      | cons event rest =>
          rw [step, hq] at h
          exact Or.inl (cache_onGossip cfg.ctx clock h)
  | discovered update clock =>
      exact Or.inl (holds_withPeer (fun p => PeerRuntime.holds_discover _ _ _) h)
  | relay done now clock =>
      refine Or.inl (holds_withPeer (fun p hp => ?_) h)
      rwa [p.cache_relayRegistered] at hp
  | tick statuses now ts =>
      cases statuses with
      | none => exact Or.inl h
      | some st =>
          rcases holds_tickPeers st now h with h | hbooked
          · exact Or.inl h
          · exact Or.inr ⟨st, now, ts, rfl, hbooked⟩
  | kick now clocks =>
      exact Or.inl (cache_kickPeers s.daemon.cache now clocks s.daemon.peers ▸ h)

/-- **An input that mixes nothing keeps the cache clean.** -/
theorem Clean.step {cfg : Config C} {x : System C × Sessions} (hx : Clean x) {i : Input}
    (hi : Unmixed x i) : Clean (notedStep cfg x i) := by
  intro y hy hheld
  rcases holds_step cfg hheld with hbefore | ⟨st, now, ts, rfl, p, hp, hk, hfresh, ep, hep, he, hne⟩
  · cases i with
    | relay done now clock =>
        rcases List.mem_append.1 hy with hy | hy
        · obtain ⟨s, hs, rfl⟩ := Option.map_eq_some_iff.1 (Option.mem_toList.1 hy)
          exact hi s hs hbefore
        · exact hx y hy hbefore
    | datagram => exact hx y hy hbefore
    | gossip => exact hx y hy hbefore
    | discovered => exact hx y hy hbefore
    | tick => exact hx y hy hbefore
    | kick => exact hx y hy hbefore
  · refine hne (hi st rfl p hp hfresh ep hep ?_)
    rw [← hk, ← he]
    exact hy

/-- **A session endpoint never enters the cache**, along every run in which no
registration gives out an endpoint that the cache holds and no tick books a
handshake on the endpoint of an earlier session. -/
theorem session_never_cached (cfg : Config C) (u : Startup) (is : List Input)
    (his : Along (notedStep cfg) Unmixed (boot cfg u, []) is) :
    Clean (run (notedStep cfg) (boot cfg u, []) is) :=
  Along.invariant (P := Clean) (fun _ _ hx hi => hx.step hi) (fun _ hy => by cases hy) his

/-- Reached through the relay, and the kernel reports the session's endpoint. -/
theorem session_never_cached_relayed :
    let x := run (notedStep plainRelayConfig) (boot plainRelayConfig plainStartup, []) ontoRelay
    x.2 = [((plainKey 1 0).toBase64, plainSocket 100)] ∧ Clean x :=
  ⟨by decide +kernel,
    session_never_cached plainRelayConfig plainStartup ontoRelay (by decide +kernel)⟩

/-- **A session endpoint in the cache**: the relay gives node 1 a new port, and a
packet from the old one arrives before the next tick. -/
theorem session_cached :
    let x := run (notedStep plainRelayConfig) (boot plainRelayConfig plainStartup, [])
      (ontoRelay ++ [registeredAt 10 101, tickAt 11 [plainStatus 100 9]])
    ((plainKey 1 0).toBase64, plainSocket 100) ∈ x.2 ∧
      x.1.daemon.cache.Holds (plainKey 1 0).toBase64 (plainSocket 100) := by
  decide +kernel

end System

end Hextet
