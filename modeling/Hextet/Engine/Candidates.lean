/-
# Candidate endpoints and the endpoint cache

`crates/engine/src/candidates.rs` and `crates/engine/src/cache.rs`.  A peer is
reached by trying `[addr]:port` candidates in turn.  They come from the cache of
endpoints that worked, from the rendezvous layers (LAN, gossip, DHT, DDNS), from
the configuration and, last, from a relay session, which keeps a place of its
own.

The cache holds, per peer, the last good endpoint and the endpoints seen, newest
first and at most `CACHE_SEEN_MAX`.  Endpoints are compared after `normalize`.
-/

import Hextet.Core.Addr
import Mathlib.Data.List.Sort

namespace Hextet

/-- `MAX_CANDIDATES`. -/
def maxCandidates : ℕ := 8

/-- `CACHE_SEEN_MAX`. -/
def cacheSeenMax : ℕ := 8

/-- `normalize`: flow info and scope cleared. -/
def normalize (ep : SocketAddrV6) : SocketAddrV6 := ⟨ep.ip, ep.port, 0, 0⟩

@[simp] theorem normalize_normalize (ep : SocketAddrV6) : normalize (normalize ep) = normalize ep :=
  rfl

/-- `Source`: the rendezvous layer an endpoint comes from. -/
inductive Source where
  | lan
  | gossip
  | dht
  | ddns
  deriving DecidableEq, Repr

/-- `Source::priority`. -/
def Source.priority : Source → ℕ
  | .lan => 0
  | .gossip => 1
  | .dht => 2
  | .ddns => 3

/-- `DiscoveredEndpoints`: what a rendezvous layer tells about a peer. -/
structure DiscoveredEndpoints where
  source : Source
  peerKey : String
  endpoints : List SocketAddrV6
  deriving DecidableEq

/-- `CachedEndpoint`. -/
structure CachedEndpoint where
  endpoint : SocketAddrV6
  lastSeenUnix : ℕ
  deriving DecidableEq

/-- `PeerCacheEntry`. -/
structure PeerCacheEntry where
  lastGood : Option SocketAddrV6
  seen : List CachedEndpoint
  deriving DecidableEq

/-- `EndpointCache`, the map `peers` by key. -/
structure EndpointCache where
  peers : List (String × PeerCacheEntry)
  deriving DecidableEq

/-- `CandidateSources`. -/
structure CandidateSources where
  lastGood : Option SocketAddrV6
  discovered : List (Source × SocketAddrV6)
  configured : List SocketAddrV6
  cached : List CachedEndpoint
  relay : Option SocketAddrV6

/-- `push_unique`. -/
def pushUnique (out : List SocketAddrV6) (ep : SocketAddrV6) (cap : ℕ) : List SocketAddrV6 :=
  if out.length < cap ∧ normalize ep ∉ out then out ++ [normalize ep] else out

/-- The stable sort of `sort_by_key(|c| Reverse(c.last_seen_unix))`. -/
def sortNewestFirst (seen : List CachedEndpoint) : List CachedEndpoint :=
  seen.insertionSort fun a b => b.lastSeenUnix ≤ a.lastSeenUnix

/-- `build_candidates`. -/
def buildCandidates (sources : CandidateSources) : List SocketAddrV6 :=
  let directCap := maxCandidates - if sources.relay.isSome then 1 else 0
  let direct := sources.lastGood.toList ++ sources.discovered.map Prod.snd ++ sources.configured ++
    (sortNewestFirst sources.cached).map CachedEndpoint.endpoint
  let out := direct.foldl (fun out ep => pushUnique out ep directCap) []
  match sources.relay with
  | some relay => pushUnique out relay maxCandidates
  | none => out

namespace EndpointCache

/-- `EndpointCache::new`. -/
def new : EndpointCache := ⟨[]⟩

/-- `EndpointCache::entry`. -/
def entry (cache : EndpointCache) (peerKey : String) : Option PeerCacheEntry :=
  cache.peers.lookup peerKey

/-- Write the entry of one peer. -/
def setEntry (cache : EndpointCache) (peerKey : String) (e : PeerCacheEntry) : EndpointCache :=
  ⟨(peerKey, e) :: cache.peers.filter fun p => p.1 ≠ peerKey⟩

/-- The time of an endpoint that was seen before is updated; a new one is added. -/
def touchSeen (seen : List CachedEndpoint) (endpoint : SocketAddrV6) (nowUnix : ℕ) :
    List CachedEndpoint :=
  match seen with
  | [] => [⟨endpoint, nowUnix⟩]
  | c :: seen =>
      if c.endpoint = endpoint then { c with lastSeenUnix := nowUnix } :: seen
      else c :: touchSeen seen endpoint nowUnix

/-- `EndpointCache::record_good`. -/
def recordGood (cache : EndpointCache) (peerKey : String) (endpoint : SocketAddrV6)
    (nowUnix : ℕ) : EndpointCache :=
  let endpoint := normalize endpoint
  let entry := (cache.entry peerKey).getD ⟨none, []⟩
  let seen := (sortNewestFirst (touchSeen entry.seen endpoint nowUnix)).take cacheSeenMax
  cache.setEntry peerKey ⟨some endpoint, seen⟩

/-- `EndpointCache::evict`. -/
def evict (cache : EndpointCache) (peerKey : String) (endpoint : SocketAddrV6) : EndpointCache :=
  let endpoint := normalize endpoint
  match cache.entry peerKey with
  | none => cache
  | some entry =>
      cache.setEntry peerKey
        ⟨if entry.lastGood = some endpoint then none else entry.lastGood,
          entry.seen.filter fun c => c.endpoint ≠ endpoint⟩

end EndpointCache

end Hextet
