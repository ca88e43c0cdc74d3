/-
# What the handlers of a peer do

`crates/engine/src/daemon.rs`, handler by handler.  `on_discovered` has three
branches: a peer reached through the relay tries a direct path, a peer connected
elsewhere leaves an address that nobody trusted reports any more, and a peer that
is probed gets the new list (`discover_relayed`, `discover_connected`,
`discover_probing`).  The endpoint cache is written in two places only, the
eviction of `on_discovered` and the `MarkGood` of a tick (`holds_discover`,
`holds_tick`).
-/

import Hextet.Engine.Cache
import Hextet.Engine.FsmRun
import Hextet.Engine.Daemon

namespace Hextet

open Lib

variable {C : Crypto}

namespace PeerRuntime

variable {p : PeerRuntime C} {cache : EndpointCache} {k : String} {e : SocketAddrV6}

/-! ### The branches of `on_discovered` -/

/-- An endpoint of the configuration. -/
def isConfigured (p : PeerRuntime C) (endpoint : SocketAddrV6) : Bool :=
  p.configured.any fun c => normalize c = endpoint

/-- The endpoint is evicted: neither configured nor reported by a reliable
layer. -/
def isDead (p : PeerRuntime C) (endpoint : SocketAddrV6) : Bool :=
  !p.isConfigured endpoint && !reportedReliably p.discovered endpoint

/-- The endpoint is left: neither configured nor reported by an authoritative
layer. -/
def isLeft (p : PeerRuntime C) (endpoint : SocketAddrV6) : Bool :=
  !p.isConfigured endpoint && !stillReported p.discovered endpoint

/-- The peer after an update was merged. -/
def merged (p : PeerRuntime C) (source : Source) (endpoints : List SocketAddrV6) :
    PeerRuntime C :=
  { p with discovered := mergeDiscovered p.discovered source endpoints }

/-- The peer with an upgrade from the relay open. -/
def upgrading (p : PeerRuntime C) (link : RelayLink C) : PeerRuntime C :=
  { p with relay := some { link with upgradePending := true, upgradeRetries := 0 } }

/-- The cache after an endpoint was found dead. -/
def evicted (p : PeerRuntime C) (cache : EndpointCache) (endpoint : SocketAddrV6) :
    EndpointCache :=
  if p.isDead endpoint then cache.evict p.keyB64 endpoint else cache

/-- The peer leaves an endpoint or keeps it, with the new list. -/
def settle (p : PeerRuntime C) (cache : EndpointCache) (endpoint : SocketAddrV6) (clock : Clock) :
    PeerRuntime C × EndpointCache × List (Effect C) :=
  if p.isLeft endpoint then p.leave cache endpoint false clock else p.refresh cache clock

variable (source : Source) (endpoints : List SocketAddrV6) (clock : Clock)

/-- `on_discovered` in these terms. -/
theorem discover_eq (p : PeerRuntime C) (cache : EndpointCache) :
    p.discover cache source endpoints clock =
      let q := p.merged source endpoints
      match q.relayedViaEndpoint, q.relay with
      | some relayEp, some link => (q.upgrading link).leave cache relayEp true clock
      | _, _ =>
          match q.fsm.state with
          | .connected e =>
              let r := q.settle (q.evicted cache e) e clock
              (r.1, r.2.1, (if q.isDead e then [.saveCache (q.evicted cache e)] else []) ++ r.2.2)
          | .probing .. => q.refresh cache clock := by
  rfl

theorem relayedViaEndpoint_eq_none {ep : SocketAddrV6} (hstate : p.fsm.state = .connected ep)
    (hdirect : p.sessionEndpoint ≠ some ep) : p.relayedViaEndpoint = none := by
  unfold relayedViaEndpoint
  rw [hstate]
  cases hs : p.sessionEndpoint with
  | none => rfl
  | some ep' =>
      have hne : ¬ep = ep' := fun h => hdirect (hs.trans (congrArg some h.symm))
      simp [hne]

/-- Reached through the relay: try the direct candidates. -/
theorem discover_relayed {link : RelayLink C} {session : RelaySession}
    (hlink : p.relay = some link) (hsession : link.session = some session)
    (hstate : p.fsm.state = .connected session.endpoint) :
    p.discover cache source endpoints clock =
      ((p.merged source endpoints).upgrading link).leave cache session.endpoint true clock := by
  have hvia : (p.merged source endpoints).relayedViaEndpoint = some session.endpoint := by
    simp [relayedViaEndpoint, sessionEndpoint, merged, hlink, hsession, hstate]
  have hrelay : (p.merged source endpoints).relay = some link := hlink
  rw [discover_eq]
  simp only [hvia, hrelay]

/-- Connected elsewhere: evict, then leave or keep. -/
theorem discover_connected (hstate : p.fsm.state = .connected e)
    (hdirect : p.sessionEndpoint ≠ some e) :
    let q := p.merged source endpoints
    let r := q.settle (q.evicted cache e) e clock
    p.discover cache source endpoints clock =
      (r.1, r.2.1, (if q.isDead e then [.saveCache (q.evicted cache e)] else []) ++ r.2.2) := by
  have hfsm : (p.merged source endpoints).fsm.state = .connected e := hstate
  have hvia : (p.merged source endpoints).relayedViaEndpoint = none :=
    relayedViaEndpoint_eq_none hfsm hdirect
  rw [discover_eq]
  simp only [hvia, hfsm]

/-- Probed: the new list. -/
theorem discover_probing {i rounds : ℕ} (hstate : p.fsm.state = .probing i rounds) :
    p.discover cache source endpoints clock =
      (p.merged source endpoints).refresh cache clock := by
  have hfsm : (p.merged source endpoints).fsm.state = .probing i rounds := hstate
  have hvia : (p.merged source endpoints).relayedViaEndpoint = none := by
    unfold relayedViaEndpoint
    rw [hfsm]
    cases (p.merged source endpoints).sessionEndpoint <;> rfl
  rw [discover_eq]
  simp only [hvia, hfsm]

/-- **The three branches**: through the relay, connected elsewhere, probed. -/
theorem discover_cases (p : PeerRuntime C) :
    (∃ link session, p.relay = some link ∧ link.session = some session ∧
      p.fsm.state = .connected session.endpoint) ∨
    (∃ e, p.fsm.state = .connected e ∧ p.sessionEndpoint ≠ some e) ∨
    (∃ i rounds, p.fsm.state = .probing i rounds) := by
  cases hstate : p.fsm.state with
  | probing i rounds => exact Or.inr (Or.inr ⟨i, rounds, rfl⟩)
  | connected e =>
      by_cases hs : p.sessionEndpoint = some e
      · rw [sessionEndpoint, Option.map_eq_some_iff] at hs
        obtain ⟨session, hs, rfl⟩ := hs
        obtain ⟨link, hlink, hsession⟩ := Option.bind_eq_some_iff.1 hs
        exact Or.inl ⟨link, session, hlink, hsession, rfl⟩
      · exact Or.inr (Or.inl ⟨e, rfl, hs⟩)

/-! ### The cache -/

/-- Actions that mark nothing leave the cache. -/
theorem cache_applyActions (p : PeerRuntime C) (clock : Clock) (cache : EndpointCache)
    {as : List Action} (h : ∀ a ∈ as, a.isMark = false) :
    (p.applyActions clock cache as).1 = cache := by
  induction as generalizing clock with
  | nil => rfl
  | cons a as ih =>
      have hone : (p.applyAction (clock 0) cache a).1 = cache := by
        have ha := h a List.mem_cons_self
        cases a with
        | setEndpoint => rfl
        | rehandshake => rfl
        | nudge => rfl
        | markGood => cases ha
      rw [applyActions]
      simp only [hone]
      exact ih (clock.after 1) fun b hb => h b (List.mem_cons_of_mem _ hb)

theorem cache_refresh (p : PeerRuntime C) (cache : EndpointCache) (clock : Clock) :
    (p.refresh cache clock).2.1 = cache :=
  cache_applyActions _ _ _ (PeerFsm.unmarked_setCandidates _ _ _)

theorem cache_leave (p : PeerRuntime C) (cache : EndpointCache) (avoid : SocketAddrV6)
    (flush : Bool) (clock : Clock) : (p.leave cache avoid flush clock).2.1 = cache := by
  refine cache_applyActions _ _ _ fun a ha => ?_
  rcases List.mem_append.1 ha with ha | ha
  · exact PeerFsm.unmarked_setCandidates _ _ _ a ha
  · exact PeerFsm.unmarked_retryFromImpl _ _ _ _ a ha

theorem cache_kick (p : PeerRuntime C) (cache : EndpointCache) (now : SystemTime) (clock : Clock) :
    (p.kick cache now clock).2.1 = cache :=
  cache_applyActions _ _ _ (PeerFsm.unmarked_kick p.fsm now)

theorem cache_settle (p : PeerRuntime C) (cache : EndpointCache) (endpoint : SocketAddrV6)
    (clock : Clock) : (p.settle cache endpoint clock).2.1 = cache := by
  unfold settle
  split_ifs
  · exact cache_leave ..
  · exact cache_refresh ..

/-- `on_relay_registered` leaves the cache. -/
theorem cache_relayRegistered (p : PeerRuntime C) (cache : EndpointCache)
    (session? : Option RelaySession) (now : Instant) (clock : Clock) :
    (p.relayRegistered cache session? now clock).2.1 = cache := by
  unfold relayRegistered
  split
  · rfl
  · split
    · rfl
    · simp only
      split_ifs
      · rfl
      · split
        · split_ifs
          · refine (cache_applyActions _ _ _ (PeerFsm.unmarked_retryFromImpl _ _ _ false)).trans ?_
            exact cache_applyActions _ _ _ (PeerFsm.unmarked_setCandidates _ _ _)
          · exact cache_applyActions _ _ _ (PeerFsm.unmarked_setCandidates _ _ _)
        · exact cache_applyActions _ _ _ (PeerFsm.unmarked_setCandidates _ _ _)

/-- **`on_discovered` adds nothing to the cache.** -/
theorem holds_discover (h : (p.discover cache source endpoints clock).2.1.Holds k e) :
    cache.Holds k e := by
  rcases discover_cases p with ⟨link, session, hlink, hsession, hstate⟩ | ⟨ep, hstate, hdirect⟩ |
    ⟨i, rounds, hstate⟩
  · rw [discover_relayed source endpoints clock hlink hsession hstate, cache_leave] at h
    exact h
  · rw [discover_connected source endpoints clock hstate hdirect] at h
    simp only [cache_settle, evicted] at h
    split_ifs at h
    · exact (EndpointCache.holds_evict_iff.1 h).1
    · exact h
  · rw [discover_probing source endpoints clock hstate, cache_refresh] at h
    exact h

/-- What actions add to the cache was marked, and is not the endpoint of the
session. -/
theorem holds_applyActions {as : List Action} (h : (p.applyActions clock cache as).1.Holds k e) :
    cache.Holds k e ∨ (k = p.keyB64 ∧
      ∃ ep, .markGood ep ∈ as ∧ e = normalize ep ∧ p.sessionEndpoint ≠ some ep) := by
  induction as generalizing clock cache with
  | nil => exact Or.inl h
  | cons a as ih =>
      rw [applyActions] at h
      rcases ih _ h with h | ⟨hk, ep, hmem, he, hne⟩
      · cases a with
        | setEndpoint => exact Or.inl h
        | rehandshake => exact Or.inl h
        | nudge => exact Or.inl h
        | markGood ep =>
            rw [applyAction] at h
            split_ifs at h with hs
            · exact Or.inl h
            · rcases EndpointCache.holds_recordGood h with h | ⟨hk, he⟩
              · exact Or.inl h
              · exact Or.inr ⟨hk, ep, List.mem_cons_self, he, hs⟩
      · exact Or.inr ⟨hk, ep, List.mem_cons_of_mem _ hmem, he, hne⟩

/-- The endpoint on which a tick books a fresh handshake. -/
def booked (p : PeerRuntime C) (obs : Observation) : Option SocketAddrV6 :=
  (obs.kernelEndpoint.map normalize).or p.fsm.currentCandidate

/-- `drive_relay` asks for no mark. -/
theorem unmarked_driveRelay (p : PeerRuntime C) (cache : EndpointCache) (now : Instant)
    (clock : Clock) : ∀ a ∈ (p.driveRelay cache now clock).2.1, a.isMark = false := by
  unfold driveRelay
  split
  · simp
  · split_ifs
    · simp
    · split
      · unfold driveProbing
        simp only
        split_ifs <;> simp
      · split
        · simp
        · split_ifs
          · simp
          · unfold driveRelayed
            simp only
            split
            · exact PeerFsm.unmarked_retryFromImpl _ _ _ _
            · split <;> simp

/-- **A tick adds at most the endpoint it books a fresh handshake on**, and not when
that is the endpoint of the session. -/
theorem holds_tick {mgr : RouteManager} {obs : Observation} {now : SystemTime} {t : PeerTick}
    (h : (p.tick cache mgr obs now t).2.1.Holds k e) :
    cache.Holds k e ∨ (k = p.keyB64 ∧ handshakeIsFresh obs.lastHandshake now = true ∧
      ∃ ep, p.booked obs = some ep ∧ e = normalize ep ∧ p.sessionEndpoint ≠ some ep) := by
  unfold tick at h
  simp only [cache_applyActions _ _ _ (unmarked_driveRelay _ _ _ _)] at h
  rcases holds_applyActions _ h with h | ⟨hk, ep, hmem, he, hne⟩
  · exact Or.inl h
  · obtain ⟨hfresh, hbooked⟩ := PeerFsm.markGood_of_tick hmem
    exact Or.inr ⟨hk, hfresh, ep, hbooked, he, hne⟩

end PeerRuntime

end Hextet
