/-
# The handlers of the daemon

`crates/engine/src/daemon.rs`: `apply_actions`, `candidates_for`, `drive_relay`,
`on_relay_registered`, `on_discovered`, `on_membership_event` and `tick_once`,
each as a function from the state and what it reads of the outside (clock
readings in the order they are made, the kernel's report, the success of
operating system calls) to the new state and its effects.

Each handler other than `on_membership_event` works peer by peer: it never
touches the `PeerInfo` of a peer, and what it asks of the backend for a peer are
the calls of that peer's actions.
-/

import Hextet.Engine.Gossip
import Hextet.Engine.Runtime

namespace Hextet

open Lib

variable {C : Crypto}

/-- `RELAY_AFTER_ROUNDS`. -/
def relayAfterRounds : ℕ := 2

/-- `RELAY_RETRY_COOLDOWN`: 60 s. -/
def relayRetryCooldown : ℕ := 60000000000

/-- `UPGRADE_MAX_RETRIES`. -/
def upgradeMaxRetries : ℕ := 8

/-- `REGISTER_INTERVAL`: 30 s. -/
def registerInterval : ℕ := 30000000000

/-- `NUDGE_PORT`. -/
def nudgePort : UInt16 := 9

/-- Successive readings of `SystemTime::now()` in one handler. -/
abbrev Clock := ℕ → SystemTime

/-- The readings after the first `n`. -/
def Clock.after (clock : Clock) (n : ℕ) : Clock := fun i => clock (n + i)

/-- `unix_secs`. -/
def unixSecs (t : SystemTime) : ℕ := t.toNat / 1000000000

/-! ### One peer -/

namespace PeerInfo

/-- The AllowedIPs of a peer: its site and its routes. -/
def allowedIps (i : PeerInfo) : List (Ipv6Addr × ℕ) := allowedIpsFor (siteOf i.overlay) i.routes

/-- The spec with which a peer is added again at an endpoint. -/
def specAt (i : PeerInfo) (ep : SocketAddrV6) : PeerSpec where
  wgPublic := i.wgPublic
  endpoint := some ep
  allowedIps := i.allowedIps
  persistentKeepalive := i.keepalive

end PeerInfo

namespace PeerRuntime

/-- The endpoint of the relay session. -/
def sessionEndpoint (p : PeerRuntime C) : Option SocketAddrV6 :=
  (p.relay.bind RelayLink.session).map RelaySession.endpoint

/-- `apply_actions`, one action. -/
def applyAction (p : PeerRuntime C) (now : SystemTime) (cache : EndpointCache) :
    Action → EndpointCache × List (Effect C)
  | .setEndpoint ep => (cache, [.setPeerEndpoint p.wgPublic ep])
  | .rehandshake ep => (cache, [.removePeer p.wgPublic, .addPeer (p.specAt ep)])
  | .nudge => (cache, if p.onDemand then [] else [.nudge ⟨p.overlay, nudgePort, 0, 0⟩])
  | .markGood ep =>
      -- the port of a relay session dies with it and is not remembered
      if p.sessionEndpoint = some ep then (cache, [])
      else
        let cache := cache.recordGood p.keyB64 ep (unixSecs now)
        (cache, [.saveCache cache])

/-- `apply_actions`. -/
def applyActions (p : PeerRuntime C) (clock : Clock) (cache : EndpointCache) :
    List Action → EndpointCache × List (Effect C)
  | [] => (cache, [])
  | a :: as =>
      let (cache, effects) := p.applyAction (clock 0) cache a
      let (cache, effects') := p.applyActions (clock.after 1) cache as
      (cache, effects ++ effects')

/-- `sources_for`. -/
def sourcesFor (p : PeerRuntime C) (cache : EndpointCache) : CandidateSources :=
  let entry := cache.entry p.keyB64
  { lastGood := entry.bind PeerCacheEntry.lastGood
    discovered := p.discovered
    configured := p.configured
    cached := (entry.map PeerCacheEntry.seen).getD []
    relay := p.sessionEndpoint }

/-- `candidates_for`: the relay alone while a session stands and no upgrade is
being tried. -/
def candidatesFor (p : PeerRuntime C) (cache : EndpointCache) : List SocketAddrV6 :=
  match p.relay with
  | some link =>
      match link.session with
      | some session =>
          if link.upgradePending then buildCandidates (p.sourcesFor cache) else [session.endpoint]
      | none => buildCandidates (p.sourcesFor cache)
  | none => buildCandidates (p.sourcesFor cache)

/-- The state machine with the candidates recomputed. -/
def refreshed (p : PeerRuntime C) (cache : EndpointCache) (now : SystemTime) :
    PeerFsm × List Action :=
  p.fsm.setCandidates (p.candidatesFor cache) now

end PeerRuntime

namespace RelayLink

/-- The last successful registration is an interval old. -/
def due (link : RelayLink C) (now : Instant) : Bool :=
  match link.lastRegister with
  | none => true
  | some t => decide (registerInterval ≤ now - t)

/-- The cooldown after a failed registration still runs. -/
def cooling (link : RelayLink C) (now : Instant) : Bool :=
  link.retryAfter.any fun t => now < t

/-- `spawn_register`. -/
def register (link : RelayLink C) : Effect C := .register link.control link.peerPublic

end RelayLink

namespace PeerRuntime

/-- `drive_relay` while the peer is connected at the endpoint of its session: try
once more to leave the relay, or give up, and renew when due. -/
def driveRelayed (p : PeerRuntime C) (link : RelayLink C) (session : RelaySession)
    (cache : EndpointCache) (now : Instant) (clock : Clock) :
    PeerRuntime C × List Action × List (Effect C) :=
  let retry := link.upgradePending && decide (link.upgradeRetries < upgradeMaxRetries)
  let giveUp := link.upgradePending && !decide (link.upgradeRetries < upgradeMaxRetries)
  let link :=
    if retry then { link with upgradeRetries := link.upgradeRetries + 1 }
    else if giveUp then { link with upgradePending := false, upgradeRetries := 0 } else link
  let renew := link.due now && !link.pending && !link.cooling now
  let effects := if renew then [link.register] else []
  let p := { p with relay := some { link with pending := link.pending || renew } }
  if retry then
    let fsm := (p.refreshed cache (clock 0)).1
    let (fsm, actions) := fsm.retryFromFlush (some session.endpoint) (clock 1)
    ({ p with fsm := fsm }, actions, effects)
  else if giveUp then ({ p with fsm := (p.refreshed cache (clock 0)).1 }, [], effects)
  else (p, [], effects)

/-- `drive_relay` while the peer is being probed. -/
def driveProbing (p : PeerRuntime C) (link : RelayLink C) (rounds : ℕ) (now : Instant) :
    PeerRuntime C × List Action × List (Effect C) :=
  let registering := ({ p with relay := some { link with pending := true } }, [], [link.register])
  if link.upgradePending || link.pending || link.cooling now then (p, [], [])
  else if link.session.isSome then
    if link.due now then registering else (p, [], [])
  else if rounds < relayAfterRounds then (p, [], [])
  else registering

/-- `drive_relay`. -/
def driveRelay (p : PeerRuntime C) (cache : EndpointCache) (now : Instant) (clock : Clock) :
    PeerRuntime C × List Action × List (Effect C) :=
  match p.relay with
  | none => (p, [], [])
  | some link =>
      if link.control.isEmpty then (p, [], [])
      else
        match p.fsm.state with
        | .probing _ rounds => p.driveProbing link rounds now
        | .connected endpoint =>
            match link.session with
            | none => (p, [], [])
            | some session =>
                if endpoint ≠ session.endpoint then
                  -- a direct connection works: let the relay go
                  let p := { p with relay := some { link with
                    session := none, upgradePending := false, upgradeRetries := 0,
                    lastRegister := none, retryAfter := none } }
                  ({ p with fsm := (p.refreshed cache (clock 0)).1 }, [],
                    [.unregister session link.peerPublic])
                else p.driveRelayed link session cache now clock

/-- `on_relay_registered`, the peer it is about. -/
def relayRegistered (p : PeerRuntime C) (cache : EndpointCache) (session? : Option RelaySession)
    (now : Instant) (clock : Clock) : PeerRuntime C × EndpointCache × List (Effect C) :=
  match p.relay with
  | none => (p, cache, [])
  | some link =>
      match session? with
      | none =>
          ({ p with relay := some { link with
              pending := false, retryAfter := some (now + relayRetryCooldown) } }, cache, [])
      | some session =>
          let renewed := { link with
            pending := false, lastRegister := some now, retryAfter := none }
          if link.session = some session then ({ p with relay := some renewed }, cache, [])
          else
            let p := { p with relay := some { renewed with session := some session } }
            let (fsm, actions) := p.refreshed cache (clock 0)
            let p := { p with fsm := fsm }
            let (cache, effects) := p.applyActions (clock.after 1) cache actions
            let clock := clock.after (1 + actions.length)
            match link.session, p.fsm.state with
            | some prev, .connected endpoint =>
                if endpoint = prev.endpoint then
                  let (fsm, actions) := p.fsm.retryFrom (some prev.endpoint) (clock 0)
                  let p := { p with fsm := fsm }
                  let (cache, effects') := p.applyActions (clock.after 1) cache actions
                  (p, cache, effects ++ effects')
                else (p, cache, effects)
            | _, _ => (p, cache, effects)

/-- `relayed_via_endpoint`. -/
def relayedViaEndpoint (p : PeerRuntime C) : Option SocketAddrV6 :=
  match p.sessionEndpoint, p.fsm.state with
  | some ep, .connected endpoint => if endpoint = ep then some endpoint else none
  | _, _ => none

/-- `still_reported_by_authoritative_source`. -/
def stillReported (discovered : List (Source × SocketAddrV6)) (endpoint : SocketAddrV6) : Bool :=
  discovered.any fun (s, e) => s ≠ .gossip && normalize e = endpoint

/-- `reported_by_reliable_source`. -/
def reportedReliably (discovered : List (Source × SocketAddrV6)) (endpoint : SocketAddrV6) : Bool :=
  if discovered.any fun (s, _) => s ≠ .gossip then stillReported discovered endpoint
  else discovered.any fun (_, e) => normalize e = endpoint

/-- `on_discovered`: the endpoints of the source replaced, in the order of the
sources. -/
def mergeDiscovered (discovered : List (Source × SocketAddrV6)) (source : Source)
    (endpoints : List SocketAddrV6) : List (Source × SocketAddrV6) :=
  (discovered.filter (fun x => x.1 ≠ source) ++ endpoints.map fun e => (source, e)).insertionSort
    fun a b => a.1.priority ≤ b.1.priority

/-- New candidates, then a retry away from an endpoint, and their effects. -/
def leave (p : PeerRuntime C) (cache : EndpointCache) (avoid : SocketAddrV6) (flush : Bool)
    (clock : Clock) : PeerRuntime C × EndpointCache × List (Effect C) :=
  let (fsm, actions) := p.refreshed cache (clock 0)
  let (fsm, actions') := fsm.retryFromImpl (some avoid) (clock 1) flush
  let p := { p with fsm := fsm }
  let (cache, effects) := p.applyActions (clock.after 2) cache (actions ++ actions')
  (p, cache, effects)

/-- New candidates and their effects. -/
def refresh (p : PeerRuntime C) (cache : EndpointCache) (clock : Clock) :
    PeerRuntime C × EndpointCache × List (Effect C) :=
  let (fsm, actions) := p.refreshed cache (clock 0)
  let p := { p with fsm := fsm }
  let (cache, effects) := p.applyActions (clock.after 1) cache actions
  (p, cache, effects)

/-- `on_discovered`, the peer it is about. -/
def discover (p : PeerRuntime C) (cache : EndpointCache) (source : Source)
    (endpoints : List SocketAddrV6) (clock : Clock) :
    PeerRuntime C × EndpointCache × List (Effect C) :=
  let p := { p with discovered := mergeDiscovered p.discovered source endpoints }
  match p.relayedViaEndpoint, p.relay with
  | some relayEp, some link =>
      let p := { p with relay := some { link with upgradePending := true, upgradeRetries := 0 } }
      p.leave cache relayEp true clock
  | _, _ =>
      match p.fsm.state with
      | .connected endpoint =>
          let isConfigured := p.configured.any fun c => normalize c = endpoint
          let dead := !isConfigured && !reportedReliably p.discovered endpoint
          let cache := if dead then cache.evict p.keyB64 endpoint else cache
          let saved : List (Effect C) := if dead then [.saveCache cache] else []
          let (p, cache, effects) :=
            if !isConfigured && !stillReported p.discovered endpoint then
              p.leave cache endpoint false clock
            else p.refresh cache clock
          (p, cache, saved ++ effects)
      | .probing .. => p.refresh cache clock

/-- The startup kick and the one after a change of address. -/
def kick (p : PeerRuntime C) (cache : EndpointCache) (now : SystemTime) (clock : Clock) :
    PeerRuntime C × EndpointCache × List (Effect C) :=
  let (fsm, actions) := p.fsm.kick now
  let p := { p with fsm := fsm }
  let (cache, effects) := p.applyActions clock cache actions
  (p, cache, effects)

end PeerRuntime

/-- `PeerStatus`, the part the daemon reads. -/
structure PeerStatus where
  wgPublic : Bytes 32
  endpoint : Option SocketAddr
  lastHandshake : Option SystemTime
  deriving DecidableEq

/-- `kernel_endpoint`. -/
def kernelEndpoint : Option SocketAddr → Option SocketAddrV6
  | some (.v6 a) => some (normalize a)
  | _ => none

/-- What a tick observes of a peer: the last report with its key. -/
def observe (statuses : List PeerStatus) (wgPublic : Bytes 32) : Observation :=
  let observed := statuses.reverse.find? fun s => s.wgPublic = wgPublic
  { lastHandshake := observed.bind PeerStatus.lastHandshake
    kernelEndpoint := observed.bind fun s => kernelEndpoint s.endpoint }

/-- What one peer reads of the outside during a tick. -/
structure PeerTick where
  instant : Instant
  clock : Clock
  routeOk : ℕ → Bool

/-- `tick_once`, one peer. -/
def PeerRuntime.tick (p : PeerRuntime C) (cache : EndpointCache) (mgr : RouteManager)
    (obs : Observation) (now : SystemTime) (t : PeerTick) :
    PeerRuntime C × EndpointCache × RouteManager × Bool × List (Effect C) :=
  let (fsm, actions) := p.fsm.tick now obs
  let p := { p with fsm := fsm }
  let connected := actions.any fun a => match a with | .markGood _ => true | _ => false
  let (cache, effects) := p.applyActions t.clock cache actions
  let clock := t.clock.after actions.length
  let (p, relayActions, relayEffects) := p.driveRelay cache t.instant clock
  let (cache, effects') := p.applyActions (clock.after 2) cache relayActions
  -- `sync_peer_routes`: routes stand while the peer is connected
  let desired := match p.fsm.state with | .connected _ => p.routes | .probing .. => []
  let (mgr, calls, _) := mgr.sync t.routeOk p.keyB64 desired
  (p, cache, mgr, connected, effects ++ relayEffects ++ effects' ++ calls.map .route)

/-! ### The daemon -/

/-- The state the handlers change. -/
structure Daemon (C : Crypto) where
  peers : List (PeerRuntime C)
  members : MembersFile
  cache : EndpointCache
  routes : RouteManager

/-- Overwrite the first peer with the key. -/
def replacePeer (key : String) (p' : PeerRuntime C) : List (PeerRuntime C) → List (PeerRuntime C)
  | [] => []
  | p :: ps => if p.keyB64 = key then p' :: ps else p :: replacePeer key p' ps

namespace Daemon

/-- The keys in the runtime table. -/
def keys (d : Daemon C) : List String := d.peers.map fun p => p.keyB64

/-- A handler for the first peer with a key. -/
def withPeer (d : Daemon C) (key : String)
    (f : PeerRuntime C → EndpointCache → PeerRuntime C × EndpointCache × List (Effect C)) :
    Daemon C × List (Effect C) :=
  match d.peers.find? fun p => p.keyB64 = key with
  | none => (d, [])
  | some p =>
      let (p', cache, effects) := f p d.cache
      ({ d with peers := replacePeer key p' d.peers, cache := cache }, effects)

/-- `on_discovered`. -/
def onDiscovered (d : Daemon C) (update : DiscoveredEndpoints) (clock : Clock) :
    Daemon C × List (Effect C) :=
  d.withPeer update.peerKey fun p cache => p.discover cache update.source update.endpoints clock

/-- `on_relay_registered`. -/
def onRelayRegistered (d : Daemon C) (done : RelayRegistered) (now : Instant) (clock : Clock) :
    Daemon C × List (Effect C) :=
  d.withPeer done.peerKey fun p cache => p.relayRegistered cache done.session now clock

/-- The updates sent to the gossip, DHT and DDNS tasks after a change of the
table. -/
def announce (d : Daemon C) : List (Effect C) :=
  [.updateTargets (d.peers.map fun p => p.overlay),
    .updateDhtPeers (d.peers.map fun p => p.keyB64),
    .updateDdnsPeers (d.peers.map fun p => (p.keyB64, p.ddns))]

/-- `on_membership_event`, `MemberAdmitted`. -/
def onMemberAdmitted (d : Daemon C) (ctx : Ctx) (node : NodePublicKey C) (name : String)
    (address : Ipv6Addr) (now : SystemTime) : Daemon C × List (Effect C) :=
  let keyB64 := node.toBase64
  if keyB64 ∈ d.keys then (d, [])
  else
    let candidates := buildCandidates ⟨none, [], [], [], none⟩
    let spec : PeerSpec :=
      ⟨node.wgPublicBytes, none, [(siteOf address, 64)], keepaliveOpt ctx.keepalive⟩
    let d := { d with
      peers := d.peers ++ [memberPeer ctx.keepalive candidates now name keyB64 node.wgPublicBytes
        address]
      members := (d.members.upsert ⟨name, keyB64, address⟩).1 }
    (d, [.addPeer spec, .saveMembers d.members] ++ d.announce)

/-- `on_membership_event`, `Revoked`. -/
def onRevoked (d : Daemon C) (node : NodePublicKey C) : Daemon C × List (Effect C) :=
  let keyB64 := node.toBase64
  let (members, removed) := d.members.remove keyB64
  let d := { d with
    peers := d.peers.eraseP fun p => p.keyB64 = keyB64
    members := members }
  (d, [.removePeer node.wgPublicBytes] ++ (if removed then [.saveMembers members] else []) ++
    d.announce)

/-- The gossip branch of the main loop. -/
def onGossip (d : Daemon C) (ctx : Ctx) (clock : Clock) : GossipEvent C →
    Daemon C × List (Effect C)
  | .discovered update => d.onDiscovered update clock
  | .memberAdmitted node name address => d.onMemberAdmitted ctx node name address (clock 0)
  | .revoked node => d.onRevoked node

/-- Kick every peer, in order. -/
def kickPeers (cache : EndpointCache) (now : SystemTime) (clocks : ℕ → Clock) :
    List (PeerRuntime C) → List (PeerRuntime C) × EndpointCache × List (Effect C)
  | [] => ([], cache, [])
  | p :: ps =>
      let (p, cache, effects) := p.kick cache now (clocks 0)
      let (ps, cache, effects') := kickPeers cache now (fun i => clocks (i + 1)) ps
      (p :: ps, cache, effects ++ effects')

/-- The address branch of the main loop, and the first trigger at startup. -/
def onKick (d : Daemon C) (now : SystemTime) (clocks : ℕ → Clock) : Daemon C × List (Effect C) :=
  let (peers, cache, effects) := kickPeers d.cache now clocks d.peers
  ({ d with peers := peers, cache := cache }, effects)

/-- `tick_once`, the loop over the peers. -/
def tickPeers (statuses : List PeerStatus) (now : SystemTime) (cache : EndpointCache)
    (mgr : RouteManager) (ts : ℕ → PeerTick) : List (PeerRuntime C) →
    List (PeerRuntime C) × EndpointCache × RouteManager × Bool × List (Effect C)
  | [] => ([], cache, mgr, false, [])
  | p :: ps =>
      let (p, cache, mgr, connected, effects) :=
        p.tick cache mgr (observe statuses p.wgPublic) now (ts 0)
      let (ps, cache, mgr, connected', effects') :=
        tickPeers statuses now cache mgr (fun i => ts (i + 1)) ps
      (p :: ps, cache, mgr, connected || connected', effects ++ effects')

/-- `tick_once`; a failed report skips the tick. -/
def tickOnce (d : Daemon C) (statuses : Option (List PeerStatus)) (now : SystemTime)
    (ts : ℕ → PeerTick) : Daemon C × Bool × List (Effect C) :=
  match statuses with
  | none => (d, false, [])
  | some statuses =>
      let (peers, cache, mgr, connected, effects) :=
        tickPeers statuses now d.cache d.routes ts d.peers
      ({ d with peers := peers, cache := cache, routes := mgr }, connected, effects)

/-- `run_async` up to the main loop: the table of the configuration and the
member file, nothing installed. -/
def startup (cfg : Config C) (cache : EndpointCache) (members : MembersFile)
    (start : SystemTime) : Daemon C :=
  ⟨startupPeers cfg cache members start, members, cache, .new⟩

end Daemon

end Hextet
