/-
# What the handlers do to a relay link

`crates/engine/src/daemon.rs` changes a `RelayLink` in four handlers, and
`drive_relay` alone has seven ways through it.  `LinkMove` lists what one call can
make of a link, together with how many registrations and how many `Rehandshake`s
the call asks for; `linkMove_next` says that nothing else happens.  What a link
keeps over a whole run is then a case analysis over the moves.
-/

import Hextet.Engine.Chronicle
import Hextet.Engine.Relay

namespace Hextet

open Lib

variable {C : Crypto}

/-- The action flushes the session of the kernel. -/
def Action.isRehandshake : Action → Bool
  | .rehandshake _ => true
  | _ => false

/-- The effect adds the peer again: the second half of a `Rehandshake`. -/
def Effect.isReadd : Effect C → Bool
  | .addPeer _ => true
  | _ => false

/-- The registrations that some effects start. -/
def registrations (es : List (Effect C)) : ℕ := es.countP Effect.isRegister

/-- The `Rehandshake`s among some effects for a peer. -/
def rehandshakes (es : List (Effect C)) : ℕ := es.countP Effect.isReadd

@[simp] theorem registrations_nil : registrations ([] : List (Effect C)) = 0 := rfl

@[simp] theorem registrations_append (es es' : List (Effect C)) :
    registrations (es ++ es') = registrations es + registrations es' := List.countP_append ..

@[simp] theorem rehandshakes_append (es es' : List (Effect C)) :
    rehandshakes (es ++ es') = rehandshakes es + rehandshakes es' := List.countP_append ..

@[simp] theorem registrations_register (link : RelayLink C) (b : Bool) :
    registrations (if b then [link.register] else []) = b.toNat := by cases b <;> rfl

@[simp] theorem rehandshakes_register (link : RelayLink C) (b : Bool) :
    rehandshakes (if b then [link.register] else []) = 0 := by cases b <;> rfl

@[simp] theorem registrations_routes (calls : List RouteCall) :
    registrations (calls.map .route : List (Effect C)) = 0 := by
  simp [registrations, List.countP_eq_zero, Effect.isRegister]

@[simp] theorem rehandshakes_routes (calls : List RouteCall) :
    rehandshakes (calls.map .route : List (Effect C)) = 0 := by
  simp [rehandshakes, List.countP_eq_zero, Effect.isReadd]

/-! ### Actions -/

namespace PeerFsm

variable {fsm fsm' : PeerFsm} {now : SystemTime} {flush : Bool} {actions : List Action}

theorem Quiet.countP_rehandshake (h : Quiet fsm fsm' actions) :
    actions.countP Action.isRehandshake = 0 := by
  refine List.countP_eq_zero.2 fun a ha => ?_
  rw [h.actions a ha]
  exact Bool.false_ne_true

theorem Points.countP_rehandshake (h : Points fsm' now flush actions) :
    actions.countP Action.isRehandshake = flush.toNat := by
  obtain ⟨ep, -, rfl⟩ := h.target
  cases flush <;> rfl

@[simp] theorem countP_rehandshake_setCandidates (fsm : PeerFsm) (candidates : List SocketAddrV6)
    (now : SystemTime) :
    (fsm.setCandidates candidates now).2.countP Action.isRehandshake = 0 := by
  rcases setCandidates_cases fsm candidates now with h | ⟨-, h⟩
  · exact h.countP_rehandshake
  · exact h.countP_rehandshake

/-- Only a retry that flushes asks for a `Rehandshake`, and for one. -/
theorem countP_rehandshake_retryFromImpl (fsm : PeerFsm) (avoid : Option SocketAddrV6)
    (now : SystemTime) (flush : Bool) :
    (fsm.retryFromImpl avoid now flush).2.countP Action.isRehandshake ≤ flush.toNat := by
  rcases retryFromImpl_cases fsm avoid now flush with h | ⟨-, h⟩
  · rw [h.countP_rehandshake]
    exact Nat.zero_le _
  · exact h.countP_rehandshake.le

@[simp] theorem countP_rehandshake_retryFrom (fsm : PeerFsm) (avoid : Option SocketAddrV6)
    (now : SystemTime) : (fsm.retryFrom avoid now).2.countP Action.isRehandshake = 0 :=
  Nat.le_zero.1 (fsm.countP_rehandshake_retryFromImpl avoid now false)

@[simp] theorem countP_rehandshake_tick (fsm : PeerFsm) (now : SystemTime) (obs : Observation) :
    (fsm.tick now obs).2.countP Action.isRehandshake = 0 := by
  cases hstate : fsm.state with
  | probing i rounds =>
      rcases tickProbing_cases hstate now obs with
        ⟨t, ep, -, -, -, -, heq⟩ | ⟨-, heq⟩ | ⟨-, hq | hp⟩
      · rw [heq]
        rfl
      · rw [heq]
        rfl
      · exact hq.countP_rehandshake
      · exact hp.countP_rehandshake
  | connected endpoint =>
      rcases tickConnected_cases hstate now obs with
        ⟨-, ke, -, -, heq⟩ | ⟨-, heq⟩ | ⟨-, hp | ⟨-, heq⟩⟩
      · rw [heq]
        rfl
      · rw [heq]
        rfl
      · exact hp.countP_rehandshake
      · rw [heq]
        rfl

@[simp] theorem countP_rehandshake_kick (fsm : PeerFsm) (now : SystemTime) :
    (fsm.kick now).2.countP Action.isRehandshake = 0 := by
  rcases kick_cases fsm now with h | ⟨-, ep, -, h⟩
  · exact h.countP_rehandshake
  · rw [h]
    rfl

end PeerFsm

namespace PeerRuntime

/-- No action starts a registration. -/
@[simp] theorem registrations_applyActions (p : PeerRuntime C) (clock : Clock)
    (cache : EndpointCache) (as : List Action) :
    registrations (p.applyActions clock cache as).2 = 0 := by
  induction as generalizing clock cache with
  | nil => rfl
  | cons a as ih =>
      have hone : registrations (p.applyAction (clock 0) cache a).2 = 0 := by
        cases a with
        | setEndpoint => rfl
        | rehandshake => rfl
        | nudge => rw [applyAction]; split_ifs <;> rfl
        | markGood => rw [applyAction]; split_ifs <;> rfl
      rw [applyActions]
      simp only [registrations_append, hone, ih]

/-- A peer is added again once for each `Rehandshake`. -/
@[simp] theorem rehandshakes_applyActions (p : PeerRuntime C) (clock : Clock)
    (cache : EndpointCache) (as : List Action) :
    rehandshakes (p.applyActions clock cache as).2 = as.countP Action.isRehandshake := by
  induction as generalizing clock cache with
  | nil => rfl
  | cons a as ih =>
      have hone : rehandshakes (p.applyAction (clock 0) cache a).2 = a.isRehandshake.toNat := by
        cases a with
        | setEndpoint => rfl
        | rehandshake => rfl
        | nudge => rw [applyAction]; split_ifs <;> rfl
        | markGood => rw [applyAction]; split_ifs <;> rfl
      rw [applyActions, List.countP_cons]
      simp only [rehandshakes_append, hone, ih]
      cases a.isRehandshake <;> simp [Nat.add_comm]

end PeerRuntime

/-! ### The moves of a link -/

/-- The link after a direct connection worked: no session, no cooldown, no upgrade. -/
def RelayLink.released (link : RelayLink C) : RelayLink C :=
  { link with
    session := none, upgradePending := false, upgradeRetries := 0
    lastRegister := none, retryAfter := none }

namespace PeerRuntime

/-- The peer after the state machine saw a tick, before `drive_relay`. -/
def ticked (p : PeerRuntime C) (now : SystemTime) (obs : Observation) : PeerRuntime C :=
  { p with fsm := (p.fsm.tick now obs).1 }

/-- `drive_relay` sees the peer connected on an endpoint other than that of its
session. -/
def SeesDirect (p : PeerRuntime C) : PeerEvent → Prop
  | .tick _ _ obs now _ => ∃ session, p.sessionEndpoint = some session ∧
      ∃ ep, (p.ticked now obs).fsm.state = .connected ep ∧ ep ≠ session
  | _ => False

end PeerRuntime

/-- The call brings the result of a registration. -/
def PeerEvent.isRelay : PeerEvent → Bool
  | .relay .. => true
  | _ => false

/-- What a call makes of a link, with the registrations it starts and the
`Rehandshake`s it asks for. -/
inductive LinkMove (p : PeerRuntime C) (link : RelayLink C) :
    PeerEvent → RelayLink C → ℕ → ℕ → Prop
  | keep {e} : e.isRelay = false → LinkMove p link e link 0 0
  /-- `on_discovered` for a peer reached through the relay. -/
  | upgrade {cache source endpoints clock n} : link.session ≠ none → n ≤ 1 →
      LinkMove p link (.discover cache source endpoints clock)
        { link with upgradePending := true, upgradeRetries := 0 } 0 n
  | failed {cache now clock} :
      LinkMove p link (.relay cache none now clock)
        { link with pending := false, retryAfter := some (now + relayRetryCooldown) } 0 0
  | answered {cache session now clock} :
      LinkMove p link (.relay cache (some session) now clock)
        { link with
          session := some session, pending := false
          lastRegister := some now, retryAfter := none } 0 0
  | register {cache mgr obs now t} : link.pending = false → link.cooling t.instant = false →
      LinkMove p link (.tick cache mgr obs now t) { link with pending := true } 1 0
  | release {cache mgr obs now t} : p.SeesDirect (.tick cache mgr obs now t) →
      LinkMove p link (.tick cache mgr obs now t) link.released 0 0
  /-- Back on the relay with an upgrade open and a retry left. -/
  | retry {cache mgr obs now t n} (renew : Bool) : link.upgradePending = true →
      link.upgradeRetries < upgradeMaxRetries →
      (renew = true → link.pending = false ∧ link.cooling t.instant = false) → n ≤ 1 →
      LinkMove p link (.tick cache mgr obs now t)
        { link with upgradeRetries := link.upgradeRetries + 1, pending := link.pending || renew }
        renew.toNat n
  | giveUp {cache mgr obs now t} (renew : Bool) :
      (renew = true → link.pending = false ∧ link.cooling t.instant = false) →
      LinkMove p link (.tick cache mgr obs now t)
        { link with
          upgradePending := false, upgradeRetries := 0, pending := link.pending || renew }
        renew.toNat 0

namespace PeerRuntime

variable {p : PeerRuntime C} {link : RelayLink C}

/-! ### The handlers, one by one -/

/-- The result of a handler: the link, no registration, and at most so many
`Rehandshake`s. -/
structure Mild (relay : Option (RelayLink C)) (n : ℕ)
    (r : PeerRuntime C × EndpointCache × List (Effect C)) : Prop where
  relay : r.1.relay = relay
  registrations : registrations r.2.2 = 0
  rehandshakes : rehandshakes r.2.2 ≤ n

theorem mild_kick (p : PeerRuntime C) (cache : EndpointCache) (now : SystemTime) (clock : Clock) :
    Mild p.relay 0 (p.kick cache now clock) :=
  ⟨rfl, by simp [kick], by simp [kick]⟩

theorem mild_refresh (p : PeerRuntime C) (cache : EndpointCache) (clock : Clock) :
    Mild p.relay 0 (p.refresh cache clock) :=
  ⟨rfl, by simp [refresh], by simp [refresh, refreshed]⟩

theorem mild_leave (p : PeerRuntime C) (cache : EndpointCache) (avoid : SocketAddrV6)
    (flush : Bool) (clock : Clock) :
    Mild p.relay flush.toNat (p.leave cache avoid flush clock) := by
  refine ⟨rfl, by simp [leave], ?_⟩
  simpa [leave, refreshed] using PeerFsm.countP_rehandshake_retryFromImpl _ _ _ flush

theorem mild_settle (p : PeerRuntime C) (cache : EndpointCache) (endpoint : SocketAddrV6)
    (clock : Clock) : Mild p.relay 0 (p.settle cache endpoint clock) := by
  unfold settle
  split_ifs
  · exact mild_leave p cache endpoint false clock
  · exact mild_refresh p cache clock

/-- `on_discovered` for a peer that is not reached through the relay leaves the link. -/
theorem mild_discover (cache : EndpointCache) (source : Source) (endpoints : List SocketAddrV6)
    (clock : Clock) (h : ¬∃ link session, p.relay = some link ∧ link.session = some session ∧
      p.fsm.state = .connected session.endpoint) :
    Mild p.relay 0 (p.discover cache source endpoints clock) := by
  rcases discover_cases p with hrelayed | ⟨e, hstate, hdirect⟩ | ⟨i, rounds, hstate⟩
  · exact absurd hrelayed h
  · rw [discover_connected source endpoints clock hstate hdirect]
    have hsettle := (p.merged source endpoints).mild_settle
      ((p.merged source endpoints).evicted cache e) e clock
    refine ⟨hsettle.relay, ?_, ?_⟩
    · rw [registrations_append, hsettle.registrations]
      split_ifs <;> rfl
    · rw [rehandshakes_append, Nat.le_zero.1 hsettle.rehandshakes]
      split_ifs <;> exact le_rfl
  · rw [discover_probing source endpoints clock hstate]
    exact mild_refresh (p.merged source endpoints) cache clock

/-- `on_discovered` for a peer reached through the relay opens an upgrade. -/
theorem mild_discover_relayed {session : RelaySession} (hlink : p.relay = some link)
    (hsession : link.session = some session) (hstate : p.fsm.state = .connected session.endpoint)
    (cache : EndpointCache) (source : Source) (endpoints : List SocketAddrV6) (clock : Clock) :
    Mild (some { link with upgradePending := true, upgradeRetries := 0 }) 1
      (p.discover cache source endpoints clock) := by
  rw [discover_relayed source endpoints clock hlink hsession hstate]
  exact mild_leave ((p.merged source endpoints).upgrading link) cache session.endpoint true clock

/-- `on_relay_registered` after a failure. -/
theorem mild_relayRegistered_none (hlink : p.relay = some link) (cache : EndpointCache)
    (now : Instant) (clock : Clock) :
    Mild (some { link with pending := false, retryAfter := some (now + relayRetryCooldown) }) 0
      (p.relayRegistered cache none now clock) := by
  simp only [relayRegistered, hlink]
  exact ⟨rfl, rfl, le_rfl⟩

/-- `on_relay_registered` with a session. -/
theorem mild_relayRegistered_some (hlink : p.relay = some link) (cache : EndpointCache)
    (session : RelaySession) (now : Instant) (clock : Clock) :
    Mild (some { link with
        session := some session, pending := false, lastRegister := some now, retryAfter := none }) 0
      (p.relayRegistered cache (some session) now clock) := by
  simp only [relayRegistered, hlink]
  split
  · rename_i hsame
    refine ⟨?_, rfl, le_rfl⟩
    simp only [hsame]
  · split
    · split
      · exact ⟨rfl, by simp, by simp [refreshed]⟩
      · exact ⟨rfl, by simp, by simp [refreshed]⟩
    · exact ⟨rfl, by simp, by simp [refreshed]⟩

/-! ### `drive_relay` -/

/-- `drive_relay` without a relay does nothing. -/
theorem driveRelay_none (h : p.relay = none) (cache : EndpointCache) (now : Instant)
    (clock : Clock) : p.driveRelay cache now clock = (p, [], []) := by
  simp only [driveRelay, h]

/-- **What `drive_relay` can do**: nothing; register while probing; let the relay go;
or look after a connection through the relay. -/
theorem driveRelay_cases (hlink : p.relay = some link) (cache : EndpointCache) (now : Instant)
    (clock : Clock) :
    p.driveRelay cache now clock = (p, [], []) ∨
    (∃ i rounds, p.fsm.state = .probing i rounds ∧ link.upgradePending = false ∧
      link.pending = false ∧ link.cooling now = false ∧
      (link.session = none → relayAfterRounds ≤ rounds) ∧
      p.driveRelay cache now clock =
        ({ p with relay := some { link with pending := true } }, [], [link.register])) ∨
    (∃ ep session, p.fsm.state = .connected ep ∧ link.session = some session ∧
      ep ≠ session.endpoint ∧
      p.driveRelay cache now clock =
        ({ p with
            relay := some link.released
            fsm := ({ p with relay := some link.released }.refreshed cache (clock 0)).1 }, [],
          [.unregister session link.peerPublic])) ∨
    (∃ session, p.fsm.state = .connected session.endpoint ∧ link.session = some session ∧
      p.driveRelay cache now clock = p.driveRelayed link session cache now clock) := by
  simp only [driveRelay, hlink]
  split_ifs with hempty
  · exact Or.inl rfl
  cases hstate : p.fsm.state with
  | probing i rounds =>
      simp only [driveProbing]
      split_ifs with hbusy hsession hdue hrounds
      · exact Or.inl rfl
      · obtain ⟨⟨hup, hpending⟩, hcooling⟩ := by simpa only [Bool.not_eq_true, Bool.or_eq_false_iff]
          using hbusy
        refine Or.inr (Or.inl ⟨i, rounds, rfl, hup, hpending, hcooling, fun hnone => ?_, rfl⟩)
        rw [hnone] at hsession
        cases hsession
      · exact Or.inl rfl
      · exact Or.inl rfl
      · obtain ⟨⟨hup, hpending⟩, hcooling⟩ := by simpa only [Bool.not_eq_true, Bool.or_eq_false_iff]
          using hbusy
        exact Or.inr (Or.inl ⟨i, rounds, rfl, hup, hpending, hcooling,
          fun _ => Nat.le_of_not_lt hrounds, rfl⟩)
  | connected ep =>
      cases hsession : link.session with
      | none => exact Or.inl rfl
      | some session =>
          by_cases hep : ep = session.endpoint
          · subst hep
            exact Or.inr (Or.inr (Or.inr ⟨session, rfl, rfl, by simp⟩))
          · refine Or.inr (Or.inr (Or.inl ⟨ep, session, rfl, rfl, hep, ?_⟩))
            simp only [ne_eq, hep, not_false_eq_true, if_true]
            rfl

/-- **What `drive_relay` does to a link on the relay**: it tries a direct path once more,
gives up or leaves the upgrade alone, and renews the session when that is due. -/
theorem driveRelayed_cases (p : PeerRuntime C) (link : RelayLink C) (session : RelaySession)
    (cache : EndpointCache) (now : Instant) (clock : Clock) :
    ∃ renew : Bool, (renew = true → link.pending = false ∧ link.cooling now = false) ∧
      registrations (p.driveRelayed link session cache now clock).2.2 = renew.toNat ∧
      rehandshakes (p.driveRelayed link session cache now clock).2.2 = 0 ∧
      ((link.upgradePending = true ∧ link.upgradeRetries < upgradeMaxRetries ∧
          (p.driveRelayed link session cache now clock).1.relay = some { link with
            upgradeRetries := link.upgradeRetries + 1, pending := link.pending || renew } ∧
          (p.driveRelayed link session cache now clock).2.1.countP Action.isRehandshake ≤ 1) ∨
        ((p.driveRelayed link session cache now clock).2.1 = [] ∧
          ((p.driveRelayed link session cache now clock).1.relay = some { link with
              upgradePending := false, upgradeRetries := 0, pending := link.pending || renew } ∨
            (p.driveRelayed link session cache now clock).1.relay =
              some { link with pending := link.pending || renew }))) := by
  refine ⟨link.due now && !link.pending && !link.cooling now, fun h => ?_, ?_⟩
  · simp only [Bool.and_eq_true, Bool.not_eq_true'] at h
    exact ⟨h.1.2, h.2⟩
  unfold driveRelayed
  cases hup : link.upgradePending with
  | false =>
      simp only [Bool.false_and, Bool.false_eq_true, if_false]
      refine ⟨?_, ?_, Or.inr ⟨trivial, Or.inr (by rw [hup])⟩⟩
      · exact registrations_register link _
      · exact rehandshakes_register link _
  | true =>
      by_cases hretries : link.upgradeRetries < upgradeMaxRetries
      · simp only [hretries, decide_true, Bool.true_and, if_true]
        refine ⟨?_, ?_, Or.inl ⟨trivial, trivial, rfl, ?_⟩⟩
        · exact registrations_register _ _
        · exact rehandshakes_register _ _
        · exact PeerFsm.countP_rehandshake_retryFromImpl _ _ _ true
      · simp only [hretries, decide_false, Bool.not_false, Bool.true_and, Bool.and_false,
          Bool.false_eq_true, if_false, if_true]
        refine ⟨?_, ?_, Or.inr ⟨trivial, Or.inl rfl⟩⟩
        · exact registrations_register _ _
        · exact rehandshakes_register _ _

/-- A tick is the tick of the state machine and then `drive_relay`, which alone registers
and flushes. -/
theorem next_tick (p : PeerRuntime C) (cache : EndpointCache) (mgr : RouteManager)
    (obs : Observation) (now : SystemTime) (t : PeerTick) :
    ∃ cache' clock', p.next (.tick cache mgr obs now t) =
        ((p.ticked now obs).driveRelay cache' t.instant clock').1 ∧
      registrations (p.asks (.tick cache mgr obs now t)) =
        registrations ((p.ticked now obs).driveRelay cache' t.instant clock').2.2 ∧
      rehandshakes (p.asks (.tick cache mgr obs now t)) =
        rehandshakes ((p.ticked now obs).driveRelay cache' t.instant clock').2.2 +
          ((p.ticked now obs).driveRelay cache' t.instant clock').2.1.countP
            Action.isRehandshake := by
  refine ⟨((p.ticked now obs).applyActions t.clock cache (p.fsm.tick now obs).2).1,
    t.clock.after (p.fsm.tick now obs).2.length, rfl, ?_, ?_⟩
  · simp [asks, tick, ticked]
  · simp [asks, tick, ticked]

/-- A tick moves a link as `driveRelay` does. -/
theorem linkMove_tick (hlink : p.relay = some link) (cache : EndpointCache) (mgr : RouteManager)
    (obs : Observation) (now : SystemTime) (t : PeerTick) :
    ∃ link', (p.next (.tick cache mgr obs now t)).relay = some link' ∧
      LinkMove p link (.tick cache mgr obs now t) link'
        (registrations (p.asks (.tick cache mgr obs now t)))
        (rehandshakes (p.asks (.tick cache mgr obs now t))) := by
  obtain ⟨cache', clock', hnext, hreg, hre⟩ := p.next_tick cache mgr obs now t
  have hticked : (p.ticked now obs).relay = some link := hlink
  rw [hnext, hreg, hre]
  rcases driveRelay_cases hticked cache' t.instant clock' with
    heq | ⟨i, rounds, -, -, hpending, hcooling, -, heq⟩ |
    ⟨ep, session, hstate, hsession, hne, heq⟩ | ⟨session, hstate, hsession, heq⟩
  · rw [heq]
    exact ⟨link, hticked, .keep rfl⟩
  · rw [heq]
    exact ⟨_, rfl, .register hpending hcooling⟩
  · rw [heq]
    refine ⟨_, rfl, .release ⟨session.endpoint, ?_, ep, hstate, hne⟩⟩
    simp [sessionEndpoint, hlink, hsession]
  · rw [heq]
    obtain ⟨renew, hrenew, hreg, hre, hmove⟩ :=
      (p.ticked now obs).driveRelayed_cases link session cache' t.instant clock'
    rw [hreg, hre, Nat.zero_add]
    rcases hmove with ⟨hup, hretries, hrelay, hcount⟩ | ⟨hactions, hrelay | hrelay⟩
    · exact ⟨_, hrelay, .retry renew hup hretries hrenew hcount⟩
    · rw [hactions]
      exact ⟨_, hrelay, .giveUp renew hrenew⟩
    · rw [hactions]
      refine ⟨_, hrelay, ?_⟩
      cases renew with
      | false =>
          rw [Bool.or_false]
          exact .keep rfl
      | true =>
          rw [Bool.or_true]
          exact .register (hrenew rfl).1 (hrenew rfl).2

/-- **Every call moves a link as listed.** -/
theorem linkMove_next (hlink : p.relay = some link) (e : PeerEvent) :
    ∃ link', (p.next e).relay = some link' ∧
      LinkMove p link e link' (registrations (p.asks e)) (rehandshakes (p.asks e)) := by
  cases e with
  | kick cache now clock =>
      obtain ⟨hrelay, hreg, hre⟩ := p.mild_kick cache now clock
      refine ⟨link, hrelay.trans hlink, ?_⟩
      rw [asks, hreg, Nat.le_zero.1 hre]
      exact .keep rfl
  | discover cache source endpoints clock =>
      by_cases h : ∃ link session, p.relay = some link ∧ link.session = some session ∧
          p.fsm.state = .connected session.endpoint
      · obtain ⟨l, session, hl, hsession, hstate⟩ := h
        obtain rfl := Option.some.inj (hl.symm.trans hlink)
        obtain ⟨hrelay, hreg, hre⟩ :=
          mild_discover_relayed hlink hsession hstate cache source endpoints clock
        refine ⟨_, hrelay, ?_⟩
        rw [asks, hreg]
        exact .upgrade (by simp [hsession]) hre
      · obtain ⟨hrelay, hreg, hre⟩ := mild_discover cache source endpoints clock h
        refine ⟨link, hrelay.trans hlink, ?_⟩
        rw [asks, hreg, Nat.le_zero.1 hre]
        exact .keep rfl
  | relay cache session? now clock =>
      cases session? with
      | none =>
          obtain ⟨hrelay, hreg, hre⟩ := mild_relayRegistered_none hlink cache now clock
          refine ⟨_, hrelay, ?_⟩
          rw [asks, hreg, Nat.le_zero.1 hre]
          exact .failed
      | some session =>
          obtain ⟨hrelay, hreg, hre⟩ := mild_relayRegistered_some hlink cache session now clock
          refine ⟨_, hrelay, ?_⟩
          rw [asks, hreg, Nat.le_zero.1 hre]
          exact .answered
  | tick cache mgr obs now t => exact linkMove_tick hlink cache mgr obs now t

/-- A peer without a link stays without one, and nothing is registered or flushed for
it. -/
theorem next_of_relay_eq_none (h : p.relay = none) (e : PeerEvent) :
    (p.next e).relay = none ∧ registrations (p.asks e) = 0 ∧ rehandshakes (p.asks e) = 0 := by
  cases e with
  | kick cache now clock =>
      obtain ⟨hrelay, hreg, hre⟩ := p.mild_kick cache now clock
      exact ⟨hrelay.trans h, hreg, Nat.le_zero.1 hre⟩
  | discover cache source endpoints clock =>
      have hdirect : ¬∃ link session, p.relay = some link ∧ link.session = some session ∧
          p.fsm.state = .connected session.endpoint := by simp [h]
      obtain ⟨hrelay, hreg, hre⟩ := mild_discover cache source endpoints clock hdirect
      exact ⟨hrelay.trans h, hreg, Nat.le_zero.1 hre⟩
  | relay cache session? now clock =>
      simp only [next, asks, relayRegistered, h]
      exact ⟨trivial, rfl, rfl⟩
  | tick cache mgr obs now t =>
      obtain ⟨cache', clock', hnext, hreg, hre⟩ := p.next_tick cache mgr obs now t
      have hticked : (p.ticked now obs).relay = none := h
      rw [hnext, hreg, hre, driveRelay_none hticked]
      exact ⟨hticked, rfl, rfl⟩

/-- **A link in the table after a call has moved as listed.** -/
theorem linkMove_of_next {e : PeerEvent} {link' : RelayLink C}
    (hlink' : (p.next e).relay = some link') :
    ∃ link m n, p.relay = some link ∧ registrations (p.asks e) = m ∧
      rehandshakes (p.asks e) = n ∧ LinkMove p link e link' m n := by
  cases hlink : p.relay with
  | none =>
      rw [(next_of_relay_eq_none hlink e).1] at hlink'
      cases hlink'
  | some link =>
      obtain ⟨l, hl, hmove⟩ := linkMove_next hlink e
      obtain rfl := Option.some.inj (hl.symm.trans hlink')
      exact ⟨link, _, _, rfl, rfl, rfl, hmove⟩

end PeerRuntime

end Hextet
