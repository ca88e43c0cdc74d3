/-
# The configuration file

`crates/core/src/config.rs`, `Config::load` from the text of the file on, with
every field, default and error.  The TOML reader and HKDF are crates outside the
repository: `fromStr` is `toml::from_str` to the raw structure and `expand` the
five bytes that HKDF gives for a network key, both arbitrary functions.

`load` checks the node section, reads the network key and the peers, each with
its key, endpoints, routes and domain name, and then checks the peers against
each other and against this node.  What passes with the own key is a valid
configuration in the sense of `Config.Valid` (`valid_of_load`), so everything
proved about a `Config` holds of a file that `load` accepts.
-/

import Hextet.Core.AddrText
import Hextet.Core.Config
import Hextet.Lib.Fallible

namespace Hextet

open Lib

variable {C : Crypto} {ε : Type}

/-! ### Paths -/

/-- A piece of an `OsString`: a character, or bytes that are no UTF-8. -/
inductive OsChar where
  | char (c : Char)
  | invalid (b : List UInt8)
  deriving DecidableEq

/-- The character that `display` shows, a replacement character for invalid bytes. -/
def OsChar.display : OsChar → Char
  | char c => c
  | invalid _ => Char.ofNat 0xFFFD

/-- `PathBuf`. -/
abbrev PathBuf := List OsChar

/-- `PathBuf::from` of a text. -/
def PathBuf.ofText (s : List Char) : PathBuf := s.map .char

/-- `Path::display`. -/
def PathBuf.display (p : PathBuf) : List Char := p.map OsChar.display

@[simp] theorem PathBuf.display_ofText (s : List Char) : (PathBuf.ofText s).display = s := by
  simp [display, ofText, Function.comp_def, OsChar.display]

/-! ### Network keys -/

/-- `NetworkKey`. -/
structure NetworkKey where
  bytes : Bytes 32
  deriving DecidableEq

namespace NetworkKey

/-- `NetworkKey::to_base64`. -/
def toBase64 (k : NetworkKey) : String := String.ofList (Base64.encode k.bytes.1)

/-- `NetworkKey::from_base64`: trim, decode, 32 bytes. -/
def fromBase64 (s : String) : Except IdentityError NetworkKey :=
  match Base64.decode (Base64.trim s.toList) with
  | none => .error .invalidEncoding
  | some b => if h : b.length = 32 then .ok ⟨⟨b, h⟩⟩ else .error .invalidEncoding

/-- Reading a written key gives the key back. -/
@[simp] theorem fromBase64_toBase64 (k : NetworkKey) : fromBase64 k.toBase64 = .ok k := by
  unfold fromBase64 toBase64
  rw [String.toList_ofList, Base64.trim_encode, Base64.decode_encode]
  simp only [k.bytes.2, dite_true]

end NetworkKey

/-- `NetworkPrefix::derive`: `0xfd` and the bytes HKDF expands the key to. -/
def NetworkPrefix.derive (expand : Bytes 32 → Bytes 5) (key : NetworkKey) : NetworkPrefix where
  bytes := ⟨0xfd :: (expand key.bytes).1, by simp⟩
  isUla := rfl

namespace File

/-! ### The raw structure -/

/-- `DdnsProvider`. -/
inductive DdnsProvider where
  | webhook
  | cloudflare
  deriving DecidableEq

/-- `RawNetwork`. -/
structure RawNetwork where
  name : String
  key : String
  deriving DecidableEq

/-- `RawNode`. -/
structure RawNode where
  keyFile : PathBuf
  listenPort : Option UInt16
  mtu : Option UInt32
  interface : Option String
  probePort : Option UInt16
  stateDir : Option PathBuf
  keepalive : Option UInt16
  lanDiscovery : Option Bool
  lanPort : Option UInt16
  relay : Option Bool
  relayPort : Option UInt16
  relayAllow : List String
  gossipPort : Option UInt16
  gossip : Option Bool
  adminKeys : List String
  dht : Option Bool
  httpAddr : Option Ipv6Addr
  httpPort : Option UInt16
  webDir : Option PathBuf
  ddns : Option Bool
  ddnsFqdn : Option String
  ddnsProvider : Option DdnsProvider
  ddnsWebhookUrl : Option String
  ddnsSecret : Option String
  ddnsZone : Option String
  ddnsResolver : Option SocketAddr
  deriving DecidableEq

/-- A node section with a key file, a port and perhaps a state directory. -/
def RawNode.fresh (keyFile : PathBuf) (listenPort : UInt16) (stateDir : Option PathBuf) :
    RawNode where
  keyFile := keyFile
  listenPort := some listenPort
  mtu := none
  interface := none
  probePort := none
  stateDir := stateDir
  keepalive := none
  lanDiscovery := none
  lanPort := none
  relay := none
  relayPort := none
  relayAllow := []
  gossipPort := none
  gossip := none
  adminKeys := []
  dht := none
  httpAddr := none
  httpPort := none
  webDir := none
  ddns := none
  ddnsFqdn := none
  ddnsProvider := none
  ddnsWebhookUrl := none
  ddnsSecret := none
  ddnsZone := none
  ddnsResolver := none

/-- `RawPeer`. -/
structure RawPeer where
  name : String
  publicKey : String
  endpoints : List String
  relay : Option Bool
  relayPort : Option UInt16
  routes : List String
  ddns : Option String
  keepalive : Option UInt16
  deriving DecidableEq

/-- `RawConfig`. -/
structure RawConfig where
  network : RawNetwork
  node : RawNode
  peers : List RawPeer
  deriving DecidableEq

/-! ### The loaded configuration -/

/-- `NodeSettings`. -/
structure NodeSettings (C : Crypto) where
  keyFile : PathBuf
  listenPort : UInt16
  mtu : UInt32
  interface : String
  probePort : UInt16
  stateDir : PathBuf
  keepalive : UInt16
  lanDiscovery : Bool
  lanPort : UInt16
  relay : Bool
  relayPort : UInt16
  relayAllow : List (NodePublicKey C)
  gossipPort : UInt16
  gossip : Bool
  adminKeys : List (NodePublicKey C)
  dht : Bool
  httpAddr : Option Ipv6Addr
  httpPort : Option UInt16
  webDir : Option PathBuf
  ddns : Bool
  ddnsFqdn : Option String
  ddnsProvider : DdnsProvider
  ddnsWebhookUrl : Option String
  ddnsSecret : Option String
  ddnsZone : Option String
  ddnsResolver : Option SocketAddr
  deriving DecidableEq

/-- `Config`. -/
structure Config (C : Crypto) where
  networkName : String
  networkKey : NetworkKey
  pre : NetworkPrefix
  node : NodeSettings C
  peers : List (Peer C)
  deriving DecidableEq

/-- `ConfigError`, from the text on; `ε` is the error of the TOML reader. -/
inductive ConfigError (ε : Type) where
  | parse (e : ε)
  | badKey (name : String) (source : IdentityError)
  | ipv4Endpoint (name endpoint : String)
  | badEndpoint (name endpoint : String)
  | duplicatePeer (a b : String)
  | addr (e : AddrError)
  | badNetworkKey
  | relayWithoutEndpoint (name : String)
  | httpAddrPortMismatch
  | ddnsMissingFqdn
  | ddnsMissingWebhookUrl
  | ddnsMissingCloudflare
  | badDdnsFqdn (name : String)
  | badRoute (name route : String) (source : RouteParseError)
  | duplicateRoute (name route : String)
  | routeConflict (name route : String)
  | routeOverlap (a b routeA routeB : String)
  deriving DecidableEq

/-! ### `load` -/

/-- An error that a check found ends the load. -/
def reject : Option (ConfigError ε) → Except (ConfigError ε) Unit
  | none => .ok ()
  | some e => .error e

/-- `load`, the checks on the node section. -/
def checkNode (node : RawNode) : Option (ConfigError ε) :=
  let ddns := node.ddns.getD false
  let provider := node.ddnsProvider.getD .webhook
  if node.httpAddr.isSome != node.httpPort.isSome then some .httpAddrPortMismatch
  else if ddns && node.ddnsFqdn.all (· == "") then some .ddnsMissingFqdn
  else if ddns && provider == .webhook && node.ddnsWebhookUrl.all (· == "") then
    some .ddnsMissingWebhookUrl
  else if ddns && provider == .cloudflare && (node.ddnsSecret.isNone ||
      node.ddnsZone.all (· == "")) then
    some .ddnsMissingCloudflare
  else none

/-- `load`, a public key of the peer or list `name`. -/
def loadKey (C : Crypto) (name key : String) : Except (ConfigError ε) (NodePublicKey C) :=
  (NodePublicKey.fromBase64 C key).mapError (.badKey name)

/-- `load`, an endpoint of a peer. -/
def loadEndpoint (name e : String) : Except (ConfigError ε) SocketAddrV6 :=
  match parseSocketAddr e.toList with
  | some (.v6 a) => .ok a
  | some .v4 => .error (.ipv4Endpoint name e)
  | none => .error (.badEndpoint name e)

/-- `load`, the routes of a peer after those in `routes`. -/
def loadRoutes (name : String) (routes : List Ipv6Route) :
    List String → Except (ConfigError ε) (List Ipv6Route)
  | [] => .ok routes
  | r :: rs =>
      match Ipv6Route.fromStr r with
      | .error source => .error (.badRoute name r source)
      | .ok route =>
          if route ∈ routes then .error (.duplicateRoute name r)
          else loadRoutes name (routes ++ [route]) rs

/-- `load`, the domain name of a peer. -/
def loadDdns (name : String) : Option String → Except (ConfigError ε) (Option String)
  | none => .ok none
  | some s =>
      let fqdn := Base64.trim s.toList
      if fqdn = [] then .ok none
      else if fqdn.any Base64.isSpace || '.' ∉ fqdn || fqdn.head? == some '.' ||
          fqdn.getLast? == some '.' then
        .error (.badDdnsFqdn name)
      else .ok (some (String.ofList fqdn))

/-- `load`, one peer. -/
def loadPeer (C : Crypto) (pre : NetworkPrefix) (rp : RawPeer) :
    Except (ConfigError ε) (Peer C) := do
  let publicKey ← loadKey C rp.name rp.publicKey
  let endpoints ← rp.endpoints.mapM (loadEndpoint rp.name)
  let routes ← loadRoutes rp.name [] rp.routes
  let ddns ← loadDdns rp.name rp.ddns
  let addr ← (deriveNodeAddr pre publicKey).mapError .addr
  let relay := rp.relay.getD false
  -- a relay without an address would be silently unusable
  reject (if relay && endpoints.isEmpty then some (.relayWithoutEndpoint rp.name) else none)
  return {
    name := rp.name, publicKey := publicKey, endpoints := endpoints, addr := addr, relay := relay,
    relayPort := rp.relayPort.getD defaultRelayPort, routes := routes, ddns := ddns,
    keepalive := rp.keepalive }

/-- `load`, two peers with one key. -/
def duplicatePeer (peers : List (Peer C)) : Option (ConfigError ε) :=
  (pairs peers).findSome? fun (p, q) =>
    if p.publicKey = q.publicKey then some (.duplicatePeer p.name q.name) else none

/-- `load`, the entries of `relay_allow` or `admin_keys`. -/
def loadKeys (C : Crypto) (list : String) (keys : List String) :
    Except (ConfigError ε) (List (NodePublicKey C)) :=
  keys.mapM fun key => loadKey C (list ++ "[" ++ key ++ "]") key

/-- `load`, a route that touches the overlay or this node's site. -/
def routeConflict (overlay : Ipv6Route) (ownSite : Option Ipv6Route) (peers : List (Peer C)) :
    Option (ConfigError ε) :=
  peers.findSome? fun p => p.routes.findSome? fun r =>
    if r.overlaps overlay then some (.routeConflict p.name (String.ofList r.display))
    else if ownSite.any r.overlaps then some (.routeConflict p.name (String.ofList r.display))
    else none

/-- `load`, routes of two peers that overlap. -/
def routeOverlap (peers : List (Peer C)) : Option (ConfigError ε) :=
  (pairs peers).findSome? fun (p, q) => p.routes.findSome? fun ra => q.routes.findSome? fun rb =>
    if ra.overlaps rb then
      some (.routeOverlap p.name q.name (String.ofList ra.display) (String.ofList rb.display))
    else none

/-- `load`, the address of this node, if its key is given. -/
def loadOwn (pre : NetworkPrefix) :
    Option (NodePublicKey C) → Except (ConfigError ε) (Option NodeAddr)
  | none => .ok none
  | some pk => (deriveNodeAddr pre pk).mapError .addr |>.map some

/-- `load`, the node section with its defaults. -/
def settings (node : RawNode) (relayAllow adminKeys : List (NodePublicKey C)) :
    NodeSettings C where
  keyFile := node.keyFile
  listenPort := node.listenPort.getD 4193
  mtu := node.mtu.getD 1400
  interface := node.interface.getD "hextet0"
  probePort := node.probePort.getD 4194
  stateDir := node.stateDir.getD (.ofText "/var/lib/hextet".toList)
  keepalive := node.keepalive.getD 25
  lanDiscovery := node.lanDiscovery.getD true
  lanPort := node.lanPort.getD 4195
  relay := node.relay.getD false
  relayPort := node.relayPort.getD defaultRelayPort
  relayAllow := relayAllow
  gossipPort := node.gossipPort.getD 4197
  gossip := node.gossip.getD true
  adminKeys := adminKeys
  dht := node.dht.getD true
  httpAddr := node.httpAddr
  httpPort := node.httpPort
  webDir := node.webDir
  ddns := node.ddns.getD false
  ddnsFqdn := node.ddnsFqdn
  ddnsProvider := node.ddnsProvider.getD .webhook
  ddnsWebhookUrl := node.ddnsWebhookUrl
  ddnsSecret := node.ddnsSecret
  ddnsZone := node.ddnsZone
  ddnsResolver := node.ddnsResolver

/-- `load`, the checks of the peers against each other and this node. -/
def checkPeers (pre : NetworkPrefix) (own : Option NodeAddr) (peers : List (Peer C)) :
    Except (ConfigError ε) Unit := do
  (checkSubnetCollisions (peers.map (fun p => (p.name, p.addr)) ++
    (own.map fun o => ("<self>", o)).toList)).mapError .addr
  reject (routeConflict (overlayRoute pre) (own.map fun o => siteRoute pre o.subnetId) peers)
  reject (routeOverlap peers)

/-- `Config::load` of a file's text. -/
def load (C : Crypto) (fromStr : List Char → Except ε RawConfig) (expand : Bytes 32 → Bytes 5)
    (text : List Char) (own : Option (NodePublicKey C)) : Except (ConfigError ε) (Config C) := do
  let raw ← (fromStr text).mapError .parse
  reject (checkNode raw.node)
  let networkKey ← (NetworkKey.fromBase64 raw.network.key).mapError fun _ => .badNetworkKey
  let pre := NetworkPrefix.derive expand networkKey
  let peers ← raw.peers.mapM (loadPeer C pre)
  reject (duplicatePeer peers)
  let relayAllow ← loadKeys C "relay_allow" raw.node.relayAllow
  let adminKeys ← loadKeys C "admin_keys" raw.node.adminKeys
  let ownAddr ← loadOwn pre own
  checkPeers pre ownAddr peers
  return {
    networkName := raw.network.name, networkKey := networkKey, pre := pre,
    node := settings raw.node relayAllow adminKeys, peers := peers }

/-! ### What passes is valid -/

theorem reject_eq_ok {o : Option (ConfigError ε)} {u : Unit} : reject o = .ok u ↔ o = none := by
  cases o <;> simp [reject]

theorem duplicatePeer_eq_none_iff (peers : List (Peer C)) :
    duplicatePeer peers = (none : Option (ConfigError ε)) ↔
      peers.Pairwise fun p q => p.publicKey ≠ q.publicKey := by
  rw [duplicatePeer, List.findSome?_eq_none_iff, ← forall_mem_pairs]
  exact forall₂_congr fun x _ => by simp

theorem routeOverlap_eq_none_iff (peers : List (Peer C)) :
    routeOverlap peers = (none : Option (ConfigError ε)) ↔
      peers.Pairwise fun p q => ∀ r ∈ p.routes, ∀ r' ∈ q.routes, r.overlaps r' = false := by
  rw [routeOverlap, List.findSome?_eq_none_iff, ← forall_mem_pairs]
  exact forall₂_congr fun x _ => by simp [List.findSome?_eq_none_iff]

theorem overlaps_of_routeConflict {overlay : Ipv6Route} {site : Option Ipv6Route}
    {peers : List (Peer C)}
    (h : routeConflict overlay site peers = (none : Option (ConfigError ε))) :
    ∀ p ∈ peers, ∀ r ∈ p.routes, r.overlaps overlay = false :=
  fun p hp r hr => Bool.eq_false_iff.2 (not_of_findSome?_eq_none h p hp r hr)

/-- `load` stores the address of each peer. -/
theorem addr_of_loadPeer {pre : NetworkPrefix} {rp : RawPeer} {p : Peer C}
    (h : loadPeer C pre rp = (.ok p : Except (ConfigError ε) _)) :
    deriveNodeAddr pre p.publicKey = .ok p.addr := by
  obtain ⟨publicKey, -, h⟩ := Fallible.bind_eq_ok.1 h
  obtain ⟨endpoints, -, h⟩ := Fallible.bind_eq_ok.1 h
  obtain ⟨routes, -, h⟩ := Fallible.bind_eq_ok.1 h
  obtain ⟨ddns, -, h⟩ := Fallible.bind_eq_ok.1 h
  obtain ⟨addr, haddr, h⟩ := Fallible.bind_eq_ok.1 h
  obtain ⟨_, -, h⟩ := Fallible.bind_eq_ok.1 h
  cases h
  exact Fallible.mapError_eq_ok.1 haddr

theorem addr_of_loadPeers {pre : NetworkPrefix} {rps : List RawPeer} {ps : List (Peer C)}
    (h : rps.mapM (loadPeer C pre) = (.ok ps : Except (ConfigError ε) _)) :
    ∀ p ∈ ps, deriveNodeAddr pre p.publicKey = .ok p.addr := by
  have hall := Fallible.mapM_eq_ok.1 h
  induction hall with
  | nil => simp
  | cons hp hps ih =>
      rintro q (_ | ⟨_, hq⟩)
      · exact addr_of_loadPeer hp
      · exact ih (Fallible.mapM_eq_ok.2 hps) q hq

theorem loadOwn_eq_ok {pre : NetworkPrefix} {own : NodePublicKey C} {o : Option NodeAddr}
    (h : loadOwn pre (some own) = (.ok o : Except (ConfigError ε) _)) :
    ∃ ownAddr, deriveNodeAddr pre own = .ok ownAddr ∧ o = some ownAddr := by
  rw [loadOwn] at h
  cases hd : deriveNodeAddr pre own with
  | error e =>
      rw [hd] at h
      cases h
  | ok ownAddr =>
      rw [hd] at h
      cases h
      exact ⟨ownAddr, rfl, rfl⟩

/-- **A file that loads with the own key is valid.** -/
theorem valid_of_load {fromStr : List Char → Except ε RawConfig} {expand : Bytes 32 → Bytes 5}
    {text : List Char} {own : NodePublicKey C} {f : Config C}
    (h : load C fromStr expand text (some own) = .ok f) :
    ∃ ownAddr, Config.Valid f.pre own ownAddr f.peers := by
  obtain ⟨raw, -, h⟩ := Fallible.bind_eq_ok.1 h
  obtain ⟨_, -, h⟩ := Fallible.bind_eq_ok.1 h
  obtain ⟨networkKey, -, h⟩ := Fallible.bind_eq_ok.1 h
  obtain ⟨peers, hpeers, h⟩ := Fallible.bind_eq_ok.1 h
  obtain ⟨_, hdup, h⟩ := Fallible.bind_eq_ok.1 h
  obtain ⟨relayAllow, -, h⟩ := Fallible.bind_eq_ok.1 h
  obtain ⟨adminKeys, -, h⟩ := Fallible.bind_eq_ok.1 h
  obtain ⟨ownAddr, hown, h⟩ := Fallible.bind_eq_ok.1 h
  obtain ⟨_, hcheck, h⟩ := Fallible.bind_eq_ok.1 h
  obtain ⟨_, hsub, hcheck⟩ := Fallible.bind_eq_ok.1 hcheck
  obtain ⟨_, hconf, hover⟩ := Fallible.bind_eq_ok.1 hcheck
  cases h
  obtain ⟨o, hderive, rfl⟩ := loadOwn_eq_ok hown
  rw [Fallible.mapError_eq_ok, checkSubnetCollisions_eq_ok_iff] at hsub
  rw [reject_eq_ok] at hdup hconf hover
  exact ⟨o, hderive, addr_of_loadPeers hpeers, (duplicatePeer_eq_none_iff peers).1 hdup,
    by simpa [Function.comp_def] using hsub, overlaps_of_routeConflict hconf,
    (routeOverlap_eq_none_iff peers).1 hover⟩

/-- A loaded file with the identity of this node, what the daemon starts from. -/
def Config.withIdentity (f : Config C) (own : NodePublicKey C) (ownAddr : NodeAddr)
    (valid : Config.Valid f.pre own ownAddr f.peers) : Hextet.Config C where
  pre := f.pre
  own := own
  ownAddr := ownAddr
  node := ⟨f.node.listenPort, f.node.keepalive, f.node.adminKeys⟩
  peers := f.peers
  valid := valid

end File

end Hextet
