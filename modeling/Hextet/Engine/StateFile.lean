/-
# Routes in files

The routes of a peer are written in two places: in `state.json`, by the `Serialize` of
`crates/core/src/route.rs` within the `EngineState` of `crates/engine/src/state.rs`, and in a
peer block of the configuration file.  In both a route is the text that `Display` gives, and
`FromStr` reads it back.

`FromStr` reads back every text but that of a route with an IPv4 address mapped into its
prefix.  One such route among those of all peers makes the whole state file unreadable
(`routes_survive_text_iff`).  The JSON and TOML readers are crates outside the repository:
the first is any function that gives the record back for the bytes in question, the second
any reader of TOML documents.
-/

import Hextet.Core.PeerBlock
import Hextet.Engine.Status

namespace Hextet

open Lib

variable {C : Crypto} {ε : Type}

/-! ### The state file -/

/-- The same record with other routes. -/
def PeerStateOf.withRoutes {ρ σ : Type} (p : PeerStateOf ρ) (routes : List σ) : PeerStateOf σ where
  name := p.name
  publicKey := p.publicKey
  address := p.address
  punchState := p.punchState
  endpoint := p.endpoint
  endpointSource := p.endpointSource
  lanEndpoints := p.lanEndpoints
  gossipEndpoints := p.gossipEndpoints
  ddnsEndpoints := p.ddnsEndpoints
  relayVia := p.relayVia
  routes := routes
  lastHandshakeSecs := p.lastHandshakeSecs
  rxBytes := p.rxBytes
  txBytes := p.txBytes
  candidates := p.candidates
  candidateIndex := p.candidateIndex
  rounds := p.rounds

/-- The same record with other peers. -/
def EngineStateOf.withPeers {ρ σ : Type} (s : EngineStateOf ρ) (peers : List (PeerStateOf σ)) :
    EngineStateOf σ where
  version := s.version
  updatedUnix := s.updatedUnix
  interface := s.interface
  nodeAddress := s.nodeAddress
  nodePublicKey := s.nodePublicKey
  peers := peers

/-- `Serialize` of a peer: its routes as texts. -/
def serializePeer (p : PeerState) : PeerStateOf String := p.withRoutes (routeTexts p.routes)

/-- `Serialize` of the state. -/
def serializeState (s : EngineState) : EngineStateOf String :=
  s.withPeers (s.peers.map serializePeer)

/-- `Deserialize` of a peer. -/
def deserializePeer (p : PeerStateOf String) : Except RouteParseError PeerState := do
  let routes ← p.routes.mapM Ipv6Route.fromStr
  return p.withRoutes routes

/-- `Deserialize` of the state. -/
def deserializeState (s : EngineStateOf String) : Except RouteParseError EngineState := do
  let peers ← s.peers.mapM deserializePeer
  return s.withPeers peers

/-- `state::read` of the bytes of the file; `fromSlice` is the JSON reader. -/
def readState (fromSlice : List UInt8 → Except ε (EngineStateOf String)) (bytes : List UInt8) :
    Except (ε ⊕ RouteParseError) EngineState := do
  let raw ← (fromSlice bytes).mapError .inl
  (deserializeState raw).mapError .inr

theorem deserializePeer_serializePeer_iff (p : PeerState) :
    deserializePeer (serializePeer p) = .ok p ↔ ∀ r ∈ p.routes, r.pre.isIpv4Mapped = false := by
  rw [← Ipv6Route.mapM_fromStr_display_iff, deserializePeer, Fallible.bind_eq_ok]
  constructor
  · rintro ⟨routes, hroutes, heq⟩
    obtain rfl : routes = p.routes := congrArg PeerStateOf.routes (Except.ok.inj heq)
    exact hroutes
  · exact fun hroutes => ⟨p.routes, hroutes, rfl⟩

/-- **The state is read back exactly when no route has an IPv4 address mapped into it.** -/
theorem deserializeState_serializeState_iff (s : EngineState) :
    deserializeState (serializeState s) = .ok s ↔
      ∀ p ∈ s.peers, ∀ r ∈ p.routes, r.pre.isIpv4Mapped = false := by
  have hall : (s.peers.map serializePeer).mapM deserializePeer = .ok s.peers ↔
      ∀ p ∈ s.peers, ∀ r ∈ p.routes, r.pre.isIpv4Mapped = false := by
    rw [Fallible.mapM_eq_ok, List.forall₂_map_left_iff, List.forall₂_same]
    exact forall₂_congr fun p _ => deserializePeer_serializePeer_iff p
  rw [← hall, deserializeState, Fallible.bind_eq_ok]
  constructor
  · rintro ⟨peers, hpeers, heq⟩
    obtain rfl : peers = s.peers := congrArg EngineStateOf.peers (Except.ok.inj heq)
    exact hpeers
  · exact fun hpeers => ⟨s.peers, hpeers, rfl⟩

theorem readState_eq_ok_iff {fromSlice : List UInt8 → Except ε (EngineStateOf String)}
    {bytes : List UInt8} {raw : EngineStateOf String} (h : fromSlice bytes = .ok raw)
    (s : EngineState) : readState fromSlice bytes = .ok s ↔ deserializeState raw = .ok s := by
  rw [readState, h, Fallible.mapError_ok, Fallible.ok_bind, Fallible.mapError_eq_ok]

/-! ### The peer block -/

namespace File

/-- The peers of a TOML text, as `RawConfig` reads them. -/
def readPeers (parse : List Char → Except ε Toml.Table) (text : List Char) :
    Except (ε ⊕ DeError) (List RawPeer) := do
  let t ← (parse text).mapError .inl
  (do (← listed t "peers" asTables).mapM RawPeer.ofTable).mapError .inr

/-- **A peer block is read as one raw peer**, with the texts that were written. -/
theorem readPeers_renderPeerBlock {parse : List Char → Except ε Toml.Table}
    (hp : Toml.Reads parse) (name : String) (publicKey : NodePublicKey C)
    (endpoints : List SocketAddrV6) (routes : List Ipv6Route) :
    readPeers parse (renderPeerBlock name publicKey endpoints routes) =
      .ok [blockPeer name publicKey endpoints routes] := by
  have hbuild : Toml.build (blockDoc name publicKey endpoints routes) =
      some ⟨[], some (.element "peers", blockTable name publicKey endpoints routes)⟩ :=
    run_blockDoc (Or.inl rfl) name publicKey endpoints routes
  have hparse := hp.document _ _ hbuild
  rw [← renderPeerBlock_eq_blockDoc] at hparse
  rw [readPeers, hparse, Fallible.mapError_ok, Fallible.ok_bind]
  simp [Toml.Builder.flush, Toml.addElement, listed, optional, asTables, asTable, Except.map,
    ofTable_blockTable, Fallible.mapError_ok]

end File

/-- **When routes survive their text.**  A route that is written is read back, a state file
with routes is read back, and a peer block with routes is read back with the same routes,
each exactly when no route in it has an IPv4 address mapped into its prefix. -/
theorem routes_survive_text_iff :
    (∀ r : Ipv6Route, Ipv6Route.fromStr (String.ofList r.display) = .ok r ↔
        r.pre.isIpv4Mapped = false) ∧
      (∀ (fromSlice : List UInt8 → Except ε (EngineStateOf String)) (bytes : List UInt8)
        (s : EngineState), fromSlice bytes = .ok (serializeState s) →
          (readState fromSlice bytes = .ok s ↔
            ∀ p ∈ s.peers, ∀ r ∈ p.routes, r.pre.isIpv4Mapped = false)) ∧
      ∀ (parse : List Char → Except ε Toml.Table) (name : String) (publicKey : NodePublicKey C)
        (endpoints : List SocketAddrV6) (routes : List Ipv6Route), Toml.Reads parse →
          ∃ rp, File.readPeers parse (File.renderPeerBlock name publicKey endpoints routes) =
              .ok [rp] ∧
            (rp.routes.mapM Ipv6Route.fromStr = .ok routes ↔
              ∀ r ∈ routes, r.pre.isIpv4Mapped = false) := by
  refine ⟨Ipv6Route.fromStr_display_iff, fun fromSlice bytes s hbytes => ?_,
    fun parse name publicKey endpoints routes hp => ?_⟩
  · rw [readState_eq_ok_iff hbytes, deserializeState_serializeState_iff]
  · exact ⟨_, File.readPeers_renderPeerBlock hp name publicKey endpoints routes,
      Ipv6Route.mapM_fromStr_display_iff routes⟩

/-- `::ffff:0:0/96`. -/
def mappedRoute : Ipv6Route where
  pre := ⟨⟨List.replicate 10 0 ++ [0xff, 0xff, 0, 0, 0, 0], rfl⟩⟩
  prefixLen := 96
  inRange := by decide
  aligned := by decide

/-- The route of all mapped addresses: `FromStr` gives it, and refuses its text. -/
theorem mappedRoute_not_read_back :
    Ipv6Route.fromStr "::ffff:0:0/96" = .ok mappedRoute ∧
      String.ofList mappedRoute.display = "::ffff:0.0.0.0/96" ∧
      Ipv6Route.fromStr (String.ofList mappedRoute.display) =
        .error (.ipv4 "::ffff:0.0.0.0/96") := by
  have htext : String.ofList mappedRoute.display = "::ffff:0.0.0.0/96" := by decide +kernel
  refine ⟨by decide +kernel, htext, ?_⟩
  rw [Ipv6Route.fromStr_display, if_pos (by decide), htext]

end Hextet
