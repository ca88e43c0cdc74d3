/-
# The runtime table of the daemon

The data of `crates/engine/src/daemon.rs` and `crates/engine/src/spec.rs`: what
the daemon keeps per peer, what it asks of the outside, and how `run_async`
builds both at startup.

A `PeerRuntime` splits into what is fixed when the peer enters the table
(`PeerInfo`: its key, addresses, routes and keepalive) and what the rendezvous
layers and the state machine change.  Everything the daemon asks of the outside
is an `Effect`; the calls to the WireGuard backend among them are
`Effect.wgCalls`.
-/

import Hextet.Core.Config
import Hextet.Engine.Fsm
import Hextet.Engine.Members
import Hextet.Engine.RouteManager
import Hextet.Wg.Device

namespace Hextet

open Lib

variable {C : Crypto}

/-- `Instant`, nanoseconds of a monotonic clock. -/
abbrev Instant := ℕ

/-- `RelaySession`. -/
structure RelaySession where
  endpoint : SocketAddrV6
  control : SocketAddrV6
  deriving DecidableEq

/-- `RelayLink`. -/
structure RelayLink (C : Crypto) where
  viaName : String
  control : List SocketAddrV6
  peerPublic : NodePublicKey C
  session : Option RelaySession
  pending : Bool
  upgradePending : Bool
  upgradeRetries : ℕ
  lastRegister : Option Instant
  retryAfter : Option Instant

/-- `RelayRegistered`: the end of a registration task. -/
structure RelayRegistered where
  peerKey : String
  session : Option RelaySession
  deriving DecidableEq

/-- The fields of `PeerRuntime` that are fixed when the peer enters the table. -/
structure PeerInfo where
  name : String
  keyB64 : String
  wgPublic : Bytes 32
  overlay : Ipv6Addr
  configured : List SocketAddrV6
  routes : List Ipv6Route
  ddns : Option String
  onDemand : Bool
  keepalive : Option UInt16
  deriving DecidableEq

/-- `PeerRuntime`. -/
structure PeerRuntime (C : Crypto) extends PeerInfo where
  discovered : List (Source × SocketAddrV6)
  relay : Option (RelayLink C)
  fsm : PeerFsm

/-- The part of `Ctx` that the handlers read. -/
structure Ctx where
  keepalive : UInt16

/-- What the daemon asks of the outside. -/
inductive Effect (C : Crypto) where
  | setPeerEndpoint (wgPublic : Bytes 32) (endpoint : SocketAddrV6)
  | addPeer (spec : PeerSpec)
  | removePeer (wgPublic : Bytes 32)
  | nudge (target : SocketAddrV6)
  | saveCache (cache : EndpointCache)
  | saveMembers (file : MembersFile)
  | register (control : List SocketAddrV6) (peer : NodePublicKey C)
  | unregister (session : RelaySession) (peer : NodePublicKey C)
  | route (call : RouteCall)
  | updateTargets (targets : List Ipv6Addr)
  | updateDhtPeers (peers : List String)
  | updateDdnsPeers (peers : List (String × Option String))

/-- The call to the WireGuard backend that an effect is. -/
def Effect.wgCall? : Effect C → Option WgCall
  | .setPeerEndpoint k ep => some (.setPeerEndpoint k ep)
  | .addPeer spec => some (.addPeer spec)
  | .removePeer k => some (.removePeer k)
  | _ => none

/-- The calls to the WireGuard backend among some effects. -/
def wgCalls (effects : List (Effect C)) : List WgCall := effects.filterMap Effect.wgCall?

@[simp] theorem wgCalls_nil : wgCalls ([] : List (Effect C)) = [] := rfl

@[simp] theorem wgCalls_append (es es' : List (Effect C)) :
    wgCalls (es ++ es') = wgCalls es ++ wgCalls es' := List.filterMap_append ..

/-! ### Startup -/

/-- `keepalive_opt`: zero switches keepalive off. -/
def keepaliveOpt (secs : UInt16) : Option UInt16 := if secs = 0 then none else some secs

/-- `peer_keepalive_secs`. -/
def peerKeepaliveSecs (peer : Peer C) (nodeKeepalive : UInt16) : Option UInt16 :=
  keepaliveOpt (peer.keepalive.getD nodeKeepalive)

/-- `build_device_spec`, the peers. -/
def buildDeviceSpec (cfg : Config C) : List PeerSpec :=
  cfg.peers.map fun p =>
    { wgPublic := p.publicKey.wgPublicBytes
      endpoint := p.endpoints.head?
      allowedIps := allowedIpsFor p.addr.site p.routes
      persistentKeepalive := peerKeepaliveSecs p cfg.node.keepalive }

/-- The candidates of a peer at startup: no rendezvous layer has spoken and there
is no relay session. -/
def startupCandidates (cache : EndpointCache) (keyB64 : String)
    (configured : List SocketAddrV6) : List SocketAddrV6 :=
  let entry := cache.entry keyB64
  buildCandidates
    { lastGood := entry.bind PeerCacheEntry.lastGood
      discovered := []
      configured := configured
      cached := (entry.map PeerCacheEntry.seen).getD []
      relay := none }

/-- `run_async`, step 2: the relay of a peer is the first relay that is not the
peer itself. -/
def relayLinkFor (cfg : Config C) (p : Peer C) : Option (RelayLink C) :=
  ((cfg.peers.filter Peer.relay).find? fun r => r.publicKey ≠ p.publicKey).map fun r =>
    { viaName := r.name
      control := r.relayControlEndpoints
      peerPublic := p.publicKey
      session := none
      pending := false
      upgradePending := false
      upgradeRetries := 0
      lastRegister := none
      retryAfter := none }

/-- `run_async`, step 2: the runtime of a configured peer. -/
def configuredPeer (cfg : Config C) (cache : EndpointCache) (start : SystemTime) (p : Peer C) :
    PeerRuntime C where
  name := p.name
  keyB64 := p.publicKey.toBase64
  wgPublic := p.publicKey.wgPublicBytes
  overlay := p.addr.address
  configured := p.endpoints
  routes := p.routes
  ddns := p.ddns
  onDemand := (peerKeepaliveSecs p cfg.node.keepalive).isNone
  keepalive := peerKeepaliveSecs p cfg.node.keepalive
  discovered := []
  relay := relayLinkFor cfg p
  fsm := .new (startupCandidates cache p.publicKey.toBase64 p.endpoints) start

/-- A peer that gossip admitted, now or in an earlier run. -/
def memberPeer (keepalive : UInt16) (candidates : List SocketAddrV6) (now : SystemTime)
    (name keyB64 : String) (wgPublic : Bytes 32) (overlay : Ipv6Addr) : PeerRuntime C where
  name := name
  keyB64 := keyB64
  wgPublic := wgPublic
  overlay := overlay
  configured := []
  routes := []
  ddns := none
  onDemand := (keepaliveOpt keepalive).isNone
  keepalive := keepaliveOpt keepalive
  discovered := []
  relay := none
  fsm := .new candidates now

/-- `run_async`, step 2.5: the runtime of a member of `members.json` that is not
configured and whose key is readable. -/
def persistedPeer (cfg : Config C) (cache : EndpointCache) (start : SystemTime)
    (m : MemberRecord) : Option (PeerRuntime C) :=
  if m.publicKey ∈ cfg.peers.map (fun p => p.publicKey.toBase64) then none
  else
    match NodePublicKey.fromBase64 C m.publicKey with
    | .error _ => none
    | .ok nodeKey =>
        some (memberPeer cfg.node.keepalive (startupCandidates cache m.publicKey []) start m.name
          m.publicKey nodeKey.wgPublicBytes m.address)

/-- `run_async`, steps 2 and 2.5: the runtime table at startup. -/
def startupPeers (cfg : Config C) (cache : EndpointCache) (members : MembersFile)
    (start : SystemTime) : List (PeerRuntime C) :=
  cfg.peers.map (configuredPeer cfg cache start) ++
    members.members.filterMap (persistedPeer cfg cache start)

end Hextet
