/-
# Joining and starting a network

`crates/core/src/bootstrap.rs`.  `join_network` decodes an invite, loads or
generates the identity, checks the subnet ids of the bootstrap peers and of this
node, and writes a configuration: the template with the invite's network and a
block for each bootstrap peer.  `init_network` writes the template for a given or
a new network.  What the file system and the random generator answer is
collected in `Host`.

The configuration is written to be read by `Config::load`.  It is read back as it
was meant exactly when the network name and the two paths hold no quote, no
backslash and no control character but the tab, and the paths are valid UTF-8:
the template puts them between quotes unescaped, unlike the names of the peers.
-/

import Hextet.Core.Invite
import Hextet.Core.PeerBlock
import Hextet.Core.PlainCrypto

namespace Hextet

open Lib

variable {C : Crypto} {ε ι : Type}

/-! ### Paths -/

/-- `std::path::Component`. -/
inductive Component where
  | rootDir
  | curDir
  | parentDir
  | normal (name : PathBuf)
  deriving DecidableEq

namespace PathBuf

/-- `has_root`. -/
def hasRoot (p : PathBuf) : Bool := p.head? == some (.char '/')

/-- The pieces between the separators, after the root. -/
def pieces (p : PathBuf) : List PathBuf :=
  if p.hasRoot then (p.splitOn (.char '/')).tail else p.splitOn (.char '/')

/-- A piece that is no component: nothing, or `.`. -/
def isSkipped (piece : PathBuf) : Bool := piece == [] || piece == [.char '.']

/-- The component of a piece. -/
def component (piece : PathBuf) : Component :=
  if piece = [.char '.', .char '.'] then .parentDir else .normal piece

/-- `Path::components`; a `.` counts only at the start of a relative path. -/
def components (p : PathBuf) : List Component :=
  (if p.hasRoot then [.rootDir]
    else if p.pieces.head? == some [.char '.'] then [.curDir] else []) ++
    (p.pieces.filter fun q => !isSkipped q).map component

/-- The pieces with those that are no component dropped at the end. -/
def trimRight (root : Bool) (ps : List PathBuf) : List PathBuf :=
  let kept := (ps.reverse.dropWhile isSkipped).reverse
  if kept = [] && !root && ps.head? == some [.char '.'] then [[.char '.']] else kept

/-- The path of some pieces. -/
def join (root : Bool) (ps : List PathBuf) : PathBuf :=
  (if root then [.char '/'] else []) ++ [OsChar.char '/'].intercalate ps

/-- `Path::parent`. -/
def parent (p : PathBuf) : Option PathBuf :=
  match trimRight p.hasRoot p.pieces with
  | [] => none
  | ps => some (join p.hasRoot (trimRight p.hasRoot ps.dropLast))

/-- The pieces after so many components. -/
def dropPieces : ℕ → List PathBuf → List PathBuf
  | 0, ps => ps
  | _ + 1, [] => []
  | k + 1, p :: ps => if isSkipped p then dropPieces (k + 1) ps else dropPieces k ps

/-- `Path::strip_prefix`. -/
def stripPrefix (p base : PathBuf) : Option PathBuf :=
  if base.components = [] then some (join p.hasRoot (trimRight p.hasRoot p.pieces))
  else if base.components.isPrefixOf p.components then
    let k := (base.pieces.filter fun q => !isSkipped q).length
    some (join false (trimRight false ((dropPieces k p.pieces).dropWhile isSkipped)))
  else none

end PathBuf

/-- `key_file_ref_for_config`. -/
def keyFileRefForConfig (configPath keyPath : PathBuf) : PathBuf :=
  let configDir := configPath.parent.getD [.char '.']
  match keyPath.stripPrefix configDir with
  | some rel => if rel = [] then keyPath else rel
  | none => keyPath

/-! ### `join_network` and `init_network` -/

/-- The kinds of `std::io::Error` that the module tells apart. -/
inductive CreateError (ι : Type) where
  | alreadyExists
  | other (e : ι)
  deriving DecidableEq

/-- What the host answers: which paths exist, the identity in a key file, a new
identity and network key, and whether files can be written.  Of an identity only
the public key is read. -/
structure Host (C : Crypto) (ι : Type) where
  pathExists : PathBuf → Bool
  loadIdentity : PathBuf → Except ι (NodePublicKey C)
  newIdentity : NodePublicKey C
  newNetworkKey : NetworkKey
  saveIdentity : PathBuf → Except ι Unit
  createNew : PathBuf → Except (CreateError ι) Unit

/-- `BootstrapError`. -/
inductive BootstrapError (ε ι : Type) where
  | badInvite (e : InviteError ε)
  | inviteExpired
  | loadKey (path : PathBuf) (source : ι)
  | saveKey (path : PathBuf) (source : ι)
  | keyMissing (path : PathBuf)
  | deriveAddr (e : AddrError)
  | subnetCollision
  | joinConfigExists (path : PathBuf)
  | configExists (path : PathBuf)
  | writeConfig (path : PathBuf) (source : ι)
  | badNetworkKey (e : IdentityError)
  deriving DecidableEq

/-- `JoinOptions`. -/
structure JoinOptions where
  name : String
  listenPort : Option UInt16
  stateDir : Option PathBuf

/-- `InitOptions`. -/
structure InitOptions where
  listenPort : UInt16
  stateDir : Option PathBuf
  requireExistingKey : Bool

/-- `JoinOutcome`. -/
structure JoinOutcome where
  networkName : String
  pre : List Char
  nodeAddress : List Char
  publicKey : String
  configPath : List Char
  keyFile : List Char
  bootstrapPeers : List String
  bootstrapEndpoints : List (List (List Char))
  site : List Char
  listenPort : UInt16
  peerAddCommand : List Char
  deriving DecidableEq

/-- `InitOutcome`. -/
structure InitOutcome where
  networkName : String
  pre : List Char
  nodeAddress : List Char
  publicKey : String
  configPath : List Char
  keyFile : List Char
  networkKeyBase64 : String
  deriving DecidableEq

/-- `NetworkPrefix`'s `Display`. -/
def NetworkPrefix.display (pre : NetworkPrefix) : List Char :=
  (overlayRoute pre).pre.display ++ ['/', '4', '8']

namespace Host

/-- `load_or_generate_identity`: the identity, and whether it is new. -/
def loadOrGenerateIdentity (host : Host C ι) (keyPath : PathBuf) (requireExisting : Bool) :
    Except (BootstrapError ε ι) (NodePublicKey C × Bool) :=
  if host.pathExists keyPath then
    match host.loadIdentity keyPath with
    | .ok id => .ok (id, false)
    | .error source => .error (.loadKey keyPath source)
  else if requireExisting then .error (.keyMissing keyPath)
  else .ok (host.newIdentity, true)

/-- The network key that is given, or a new one. -/
def givenOrNewKey (host : Host C ι) : Option String → Except (BootstrapError ε ι) NetworkKey
  | some s => (NetworkKey.fromBase64 s).mapError .badNetworkKey
  | none => .ok host.newNetworkKey

/-- A configuration that exists is never overwritten. -/
def refuseExisting (host : Host C ι) (configPath : PathBuf) : Except (BootstrapError ε ι) Unit :=
  if host.pathExists configPath then .error (.joinConfigExists configPath) else .ok ()

/-- A new identity is saved before the configuration is written. -/
def saveNew (host : Host C ι) (keyPath : PathBuf) (generated : Bool) :
    Except (BootstrapError ε ι) Unit :=
  if generated then (host.saveIdentity keyPath).mapError (.saveKey keyPath) else .ok ()

/-- `write_new_0600`. -/
def writeNew0600 (host : Host C ι) (path : PathBuf) : Except (BootstrapError ε ι) Unit :=
  match host.createNew path with
  | .ok () => .ok ()
  | .error .alreadyExists => .error (.configExists path)
  | .error (.other e) => .error (.writeConfig path e)

end Host

/-- What a new configuration is made of. -/
structure FreshConfig (C : Crypto) where
  networkName : String
  networkKey : NetworkKey
  keyFile : PathBuf
  listenPort : UInt16
  stateDir : Option PathBuf
  bootstrap : List (BootstrapPeer C)

/-- The text of a new configuration: the template and a block for each peer. -/
def FreshConfig.text (w : FreshConfig C) : List Char :=
  File.renderTemplate w.networkName w.networkKey w.keyFile w.listenPort w.stateDir ++
    w.bootstrap.flatMap fun b => File.renderPeerBlock b.name b.publicKey b.endpoints []

/-- The configuration that an invite asks for. -/
def Invite.fresh (invite : Invite C) (keyPath configPath : PathBuf) (opts : JoinOptions) :
    FreshConfig C where
  networkName := invite.networkName
  networkKey := invite.networkKey
  keyFile := keyFileRefForConfig configPath keyPath
  listenPort := opts.listenPort.getD invite.listenPort
  stateDir := opts.stateDir
  bootstrap := invite.bootstrap

/-- The configuration of a network of the given name and key, without peers. -/
def FreshConfig.named (C : Crypto) (name : String) (key : NetworkKey)
    (keyPath configPath : PathBuf) (opts : InitOptions) : FreshConfig C where
  networkName := name
  networkKey := key
  keyFile := keyFileRefForConfig configPath keyPath
  listenPort := opts.listenPort
  stateDir := opts.stateDir
  bootstrap := []

section Network

variable (host : Host C ι) (json : List UInt8 → Except ε RawInvite) (expand : Bytes 32 → Bytes 5)

/-- `join_network`: the outcome, the identity, and the text that was written. -/
def joinNetwork (token : List Char) (keyPath configPath : PathBuf) (nowUnix : UInt64)
    (opts : JoinOptions) :
    Except (BootstrapError ε ι) (JoinOutcome × NodePublicKey C × List Char) := do
  let invite ← (Invite.decode C json (Base64.trim token)).mapError .badInvite
  (invite.checkNotExpired nowUnix : Except (InviteError ε) Unit).mapError fun _ => .inviteExpired
  let (id, generated) ← host.loadOrGenerateIdentity keyPath false
  let pre := NetworkPrefix.derive expand invite.networkKey
  let own ← (deriveNodeAddr pre id).mapError .deriveAddr
  let all ← invite.bootstrap.mapM fun b =>
    (deriveNodeAddr pre b.publicKey).mapError BootstrapError.deriveAddr |>.map fun a => (b.name, a)
  (checkSubnetCollisions (all ++ [("<self>", own)])).mapError fun _ => .subnetCollision
  host.refuseExisting configPath
  host.saveNew keyPath generated
  let fresh := invite.fresh keyPath configPath opts
  host.writeNew0600 configPath
  return (
    { networkName := invite.networkName, pre := pre.display, nodeAddress := own.address.display
      publicKey := id.toBase64, configPath := configPath.display, keyFile := keyPath.display
      bootstrapPeers := invite.bootstrap.map (·.name)
      bootstrapEndpoints := invite.bootstrap.map fun b => b.endpoints.map SocketAddrV6.display
      site := own.site.display ++ ['/', '6', '4'], listenPort := fresh.listenPort
      peerAddCommand := "hextet peer add --name ".toList ++ opts.name.toList ++
        " --public-key '".toList ++ id.toBase64.toList ++
        "' --endpoint '[你的公网IPv6]:".toList ++ Nat.toDigits 10 fresh.listenPort.toNat ++
          "'".toList },
    id, fresh.text)

/-- `init_network`: the outcome, the identity, and the text that was written. -/
def initNetwork (name : String) (keyPath configPath : PathBuf) (networkKey : Option String)
    (opts : InitOptions) :
    Except (BootstrapError ε ι) (InitOutcome × NodePublicKey C × List Char) := do
  let (id, generated) ← host.loadOrGenerateIdentity keyPath opts.requireExistingKey
  let key ← host.givenOrNewKey networkKey
  let pre := NetworkPrefix.derive expand key
  let own ← (deriveNodeAddr pre id).mapError .deriveAddr
  host.saveNew keyPath generated
  let fresh := FreshConfig.named C name key keyPath configPath opts
  host.writeNew0600 configPath
  return (
    { networkName := name, pre := pre.display, nodeAddress := own.address.display
      publicKey := id.toBase64, configPath := configPath.display, keyFile := keyPath.display
      networkKeyBase64 := key.toBase64 },
    id, fresh.text)

end Network

/-! ### The configuration that is meant -/

/-- The address of a key whose interface id is not zero. -/
def addrOf (pre : NetworkPrefix) (key : NodePublicKey C) : NodeAddr where
  subnetId := subnetIdOf key
  site := overlayAddr pre (subnetIdOf key) zeroIid
  address := overlayAddr pre (subnetIdOf key) (iidOf key)

theorem deriveNodeAddr_eq_ok {pre : NetworkPrefix} {key : NodePublicKey C}
    (h : iidOf key ≠ zeroIid) : deriveNodeAddr pre key = .ok (addrOf pre key) := if_neg h

/-- A bootstrap peer as a peer of the configuration, everything the invite does not
give at its default. -/
def BootstrapPeer.peer (pre : NetworkPrefix) (b : BootstrapPeer C) : Peer C where
  name := b.name
  publicKey := b.publicKey
  endpoints := b.endpoints.map fun e => { e with flowinfo := 0 }
  addr := addrOf pre b.publicKey
  relay := false
  relayPort := defaultRelayPort
  routes := []
  ddns := none
  keepalive := none

namespace FreshConfig

/-- The configuration that is meant. -/
def config (expand : Bytes 32 → Bytes 5) (w : FreshConfig C) : File.Config C where
  networkName := w.networkName
  networkKey := w.networkKey
  pre := NetworkPrefix.derive expand w.networkKey
  node := File.settings (File.RawNode.fresh w.keyFile w.listenPort w.stateDir) [] []
  peers := w.bootstrap.map (BootstrapPeer.peer (NetworkPrefix.derive expand w.networkKey))

/-- The text is read back as the configuration that is meant, without and with the
own key. -/
def ReadsBack (parse : List Char → Except ε Toml.Table) (expand : Bytes 32 → Bytes 5)
    (w : FreshConfig C) (own : NodePublicKey C) : Prop :=
  ∀ o ∈ [none, some own],
    File.load C (File.fromStr parse) expand w.text o = .ok (w.config expand)

/-- The network name and the paths are plain text. -/
structure Plain (w : FreshConfig C) : Prop where
  networkName : w.networkName.toList.all Toml.isPlain = true
  keyFile : w.keyFile.display.all Toml.isPlain = true ∧ w.keyFile = .ofText w.keyFile.display
  stateDir : ∀ dir ∈ w.stateDir,
    dir.display.all Toml.isPlain = true ∧ dir = .ofText dir.display

/-- What `join_network` and `init_network` have checked. -/
structure Checked (w : FreshConfig C) (own : NodePublicKey C) : Prop where
  own_iid : iidOf own ≠ zeroIid
  iid : ∀ b ∈ w.bootstrap, iidOf b.publicKey ≠ zeroIid
  subnets : (w.bootstrap.map (fun b => subnetIdOf b.publicKey) ++ [subnetIdOf own]).Nodup

/-! ### Plain text is read back -/

/-- The document. -/
def doc (w : FreshConfig C) : List Toml.Line :=
  File.headDoc ++ File.networkDoc w.networkName.toList w.networkKey ++
    File.nodeDoc w.keyFile.display w.listenPort ++
    File.stateDirDoc (w.stateDir.map PathBuf.display) ++ File.tailDoc ++
    w.bootstrap.flatMap fun b => File.peerDoc b.name b.publicKey b.endpoints

theorem text_doc (w : FreshConfig C) : Toml.text w.doc = w.text := by
  have hpeers : ∀ bs : List (BootstrapPeer C),
      Toml.text (bs.flatMap fun b => File.peerDoc b.name b.publicKey b.endpoints) =
        bs.flatMap fun b => File.renderPeerBlock b.name b.publicKey b.endpoints [] := by
    intro bs
    induction bs with
    | nil => rfl
    | cons b bs ih =>
        rw [List.flatMap_cons, List.flatMap_cons, Toml.text_append, ih, File.renderPeerBlock_eq]
  rw [text, File.renderTemplate_eq, ← hpeers, doc, Toml.text_append]

/-- The tables of the document, with some of the peers. -/
def tables (w : FreshConfig C) (bs : List (BootstrapPeer C)) : Toml.Table :=
  [("network", .table (File.networkTable w.networkName.toList w.networkKey)),
    ("node", .table (File.nodeTable w.keyFile.display w.listenPort
      (w.stateDir.map PathBuf.display)))] ++
    if bs = [] then []
    else [("peers",
      .array (bs.map fun b => .table (File.peerTable b.name b.publicKey b.endpoints)))]

theorem addElement_tables (w : FreshConfig C) (bs : List (BootstrapPeer C)) (b : BootstrapPeer C) :
    Toml.addElement (w.tables bs) "peers" (.table (File.peerTable b.name b.publicKey b.endpoints)) =
      w.tables (bs ++ [b]) := by
  by_cases h : bs = []
  · simp [tables, h, Toml.addElement, List.lookup_cons]
  · simp [tables, h, Toml.addElement, List.lookup_cons]

/-- The blocks of the peers fill the array of peers. -/
theorem run_peers (w : FreshConfig C) (bs : List (BootstrapPeer C)) {b : Toml.Builder}
    {done : List (BootstrapPeer C)} (hb : b.flush = w.tables done) :
    ∃ b', b.run (bs.flatMap fun b => File.peerDoc b.name b.publicKey b.endpoints) = some b' ∧
      b'.flush = w.tables (done ++ bs) := by
  induction bs generalizing b done with
  | nil => exact ⟨b, rfl, by simpa using hb⟩
  | cons p bs ih =>
      have hpeers : b.flush.lookup "peers" = none ∨
          ∃ vs, b.flush.lookup "peers" = some (.array vs) := by
        rw [hb]
        by_cases h : done = []
        · exact .inl (by simp [tables, h])
        · exact .inr ⟨done.map fun b => .table (File.peerTable b.name b.publicKey b.endpoints),
            by simp [tables, h, List.lookup_cons]⟩
      have hflush : (⟨b.flush, some (.element "peers",
          File.peerTable p.name p.publicKey p.endpoints)⟩ : Toml.Builder).flush =
            w.tables (done ++ [p]) := by
        rw [← addElement_tables, ← hb]
        rfl
      obtain ⟨b', hrun, hb'⟩ := ih hflush
      refine ⟨b', ?_, by simpa using hb'⟩
      rw [List.flatMap_cons, Toml.Builder.run_lines (File.run_peerDoc hpeers _ _ _), hrun]

/-- **The document of plain text builds the tables that are meant.** -/
theorem build_doc {w : FreshConfig C} (h : w.Plain) :
    ∃ b, Toml.build w.doc = some b ∧ b.flush = w.tables w.bootstrap := by
  have hdir : ∀ dir ∈ w.stateDir.map PathBuf.display, dir.all Toml.isPlain = true := by
    intro dir hdir
    obtain ⟨p, hp, rfl⟩ := Option.map_eq_some_iff.1 hdir
    exact (h.stateDir p hp).1
  have hrun : Toml.Builder.run ⟨[], none⟩ (File.headDoc ++
      File.networkDoc w.networkName.toList w.networkKey ++
      File.nodeDoc w.keyFile.display w.listenPort ++
      File.stateDirDoc (w.stateDir.map PathBuf.display) ++ File.tailDoc) =
        some ⟨[("network", .table (File.networkTable w.networkName.toList w.networkKey))],
          some (.table "node", File.nodeTable w.keyFile.display w.listenPort
            (w.stateDir.map PathBuf.display))⟩ := by
    simp only [List.append_assoc]
    rw [Toml.Builder.run_lines File.run_headDoc,
      Toml.Builder.run_lines (File.run_networkDoc h.networkName w.networkKey),
      Toml.Builder.run_lines (File.run_nodeDoc h.keyFile.1 w.listenPort),
      Toml.Builder.run_lines (File.run_stateDirDoc hdir w.listenPort), File.run_tailDoc]
  have hflush : (⟨[("network", .table (File.networkTable w.networkName.toList w.networkKey))],
      some (.table "node", File.nodeTable w.keyFile.display w.listenPort
        (w.stateDir.map PathBuf.display))⟩ : Toml.Builder).flush = w.tables [] := rfl
  obtain ⟨b, hb, hpeers⟩ := w.run_peers w.bootstrap hflush
  refine ⟨b, ?_, by simpa using hpeers⟩
  rw [Toml.build, doc, Toml.Builder.run_lines hrun, hb]

/-- The raw structure of a peer block. -/
def rawPeer (b : BootstrapPeer C) : File.RawPeer where
  name := b.name
  publicKey := b.publicKey.toBase64
  endpoints := b.endpoints.map fun e => String.ofList e.display
  relay := none
  relayPort := none
  routes := []
  ddns := none
  keepalive := none

theorem ofTable_peerTable (b : BootstrapPeer C) :
    File.RawPeer.ofTable (File.peerTable b.name b.publicKey b.endpoints) = .ok (rawPeer b) := by
  rw [File.peerTable_eq, File.ofTable_blockTable]
  rfl

/-- The raw structure that is meant. -/
def raw (w : FreshConfig C) : File.RawConfig where
  network := ⟨w.networkName, w.networkKey.toBase64⟩
  node := File.RawNode.fresh w.keyFile w.listenPort w.stateDir
  peers := w.bootstrap.map rawPeer

theorem asU16_toNat (n : UInt16) : File.asU16 (.integer n.toNat) = some n := by
  have hn : (0 : ℤ) ≤ n.toNat ∧ (n.toNat : ℤ) < ((2 ^ 16 : ℕ) : ℤ) :=
    ⟨Int.natCast_nonneg _, Int.ofNat_lt.2 n.toNat_lt⟩
  rw [File.asU16, File.asUnsigned, if_pos hn, Option.map_some, Int.toNat_natCast,
    UInt16.ofNat_toNat]

theorem ofTable_network (name key : String) :
    File.RawNetwork.ofTable [("name", .string name), ("key", .string key)] = .ok ⟨name, key⟩ := rfl

/-- A node section with the fields of the template, everything else absent. -/
theorem ofTable_node {v : Toml.Value} {listenPort : UInt16} (keyFile : String)
    (h : File.asU16 v = some listenPort) (stateDir : Option String) :
    File.RawNode.ofTable ([("key_file", .string keyFile), ("listen_port", v)] ++
        (stateDir.map fun dir => ("state_dir", Toml.Value.string dir)).toList) =
      .ok (File.RawNode.fresh (.ofText keyFile.toList) listenPort
        (stateDir.map fun dir => .ofText dir.toList)) := by
  cases stateDir <;>
    simp [File.RawNode.ofTable, File.required, File.optional, File.listed, List.lookup_cons,
      File.asPath, File.asString, h, Except.map, File.RawNode.fresh]

theorem ofTable_nodeTable {w : FreshConfig C} (h : w.Plain) :
    File.RawNode.ofTable (File.nodeTable w.keyFile.display w.listenPort
      (w.stateDir.map PathBuf.display)) =
        .ok (File.RawNode.fresh w.keyFile w.listenPort w.stateDir) := by
  have hnode := ofTable_node (String.ofList w.keyFile.display)
    (asU16_toNat w.listenPort) ((w.stateDir.map PathBuf.display).map String.ofList)
  have hdir : ((w.stateDir.map PathBuf.display).map String.ofList).map
      (fun dir => PathBuf.ofText dir.toList) = w.stateDir := by
    cases hdir : w.stateDir with
    | none => rfl
    | some dir =>
        simp only [Option.map_some, String.toList_ofList, ← (h.stateDir dir (by simp [hdir])).2]
  rw [hdir, String.toList_ofList, ← h.keyFile.2, Option.map_map] at hnode
  exact hnode

/-- A document with the two sections and perhaps peers. -/
theorem ofTable_config {n m : Toml.Table} {network : File.RawNetwork} {node : File.RawNode}
    (hn : File.RawNetwork.ofTable n = .ok network) (hm : File.RawNode.ofTable m = .ok node)
    {vs : List Toml.Value} {ts : List Toml.Table} {peers : List File.RawPeer}
    (hvs : vs.mapM File.asTable = some ts) (hts : ts.mapM File.RawPeer.ofTable = .ok peers) :
    File.RawConfig.ofTable [("network", .table n), ("node", .table m)] = .ok ⟨network, node, []⟩ ∧
      File.RawConfig.ofTable [("network", .table n), ("node", .table m), ("peers", .array vs)] =
        .ok ⟨network, node, peers⟩ := by
  constructor <;>
    simp [File.RawConfig.ofTable, File.required, File.optional, File.listed, File.asTable,
      File.asTables, List.lookup_cons, hn, hm, Except.map, hvs, hts]

theorem ofTable_tables {w : FreshConfig C} (h : w.Plain) :
    File.RawConfig.ofTable (w.tables w.bootstrap) = .ok w.raw := by
  have hnetwork : File.RawNetwork.ofTable (File.networkTable w.networkName.toList w.networkKey) =
      .ok ⟨w.networkName, w.networkKey.toBase64⟩ := by
    rw [File.networkTable, String.ofList_toList]
    exact ofTable_network _ _
  have htables : ∀ bs : List (BootstrapPeer C),
      (bs.map fun b => Toml.Value.table (File.peerTable b.name b.publicKey b.endpoints)).mapM
        File.asTable = some (bs.map fun b => File.peerTable b.name b.publicKey b.endpoints) := by
    intro bs
    induction bs with
    | nil => rfl
    | cons b bs ih => simp [File.asTable, ih]
  have hpeers : (w.bootstrap.map fun b => File.peerTable b.name b.publicKey b.endpoints).mapM
      File.RawPeer.ofTable = .ok (w.bootstrap.map rawPeer) :=
    Fallible.mapM_map fun b _ => ofTable_peerTable b
  obtain ⟨hnil, hcons⟩ := ofTable_config hnetwork (ofTable_nodeTable h) (htables _) hpeers
  by_cases hb : w.bootstrap = []
  · rw [tables, if_pos hb, List.append_nil, hnil, raw, hb]
    rfl
  · rw [tables, if_neg hb]
    exact hcons

/-- **A configuration of plain text is read as the raw structure that is meant.** -/
theorem fromStr_text {parse : List Char → Except ε Toml.Table} (hp : Toml.Reads parse)
    {w : FreshConfig C} (h : w.Plain) : File.fromStr parse w.text = .ok w.raw := by
  obtain ⟨b, hb, hflush⟩ := build_doc h
  rw [File.fromStr, ← text_doc, hp.document w.doc b hb, hflush, Fallible.mapError_ok,
    Fallible.ok_bind, ofTable_tables h, Fallible.mapError_ok]

/-! ### The raw structure loads -/

theorem loadEndpoint_display (name : String) (e : SocketAddrV6) :
    File.loadEndpoint name (String.ofList e.display) =
      (.ok { e with flowinfo := 0 } : Except (File.ConfigError ε) _) := by
  unfold File.loadEndpoint
  rw [String.toList_ofList, parseSocketAddr_display]

theorem loadPeer_rawPeer {pre : NetworkPrefix} {b : BootstrapPeer C}
    (h : iidOf b.publicKey ≠ zeroIid) :
    File.loadPeer C pre (rawPeer b) = (.ok (b.peer pre) : Except (File.ConfigError ε) _) := by
  have hkey : File.loadKey C b.name b.publicKey.toBase64 =
      (.ok b.publicKey : Except (File.ConfigError ε) _) := by
    rw [File.loadKey, NodePublicKey.fromBase64_toBase64]
    rfl
  have hends : (b.endpoints.map fun e => String.ofList e.display).mapM
      (File.loadEndpoint b.name) = (.ok (b.endpoints.map fun e => { e with flowinfo := 0 }) :
        Except (File.ConfigError ε) _) :=
    Fallible.mapM_map fun e _ => loadEndpoint_display b.name e
  simp [File.loadPeer, rawPeer, hkey, hends, File.loadRoutes, File.loadDdns,
    deriveNodeAddr_eq_ok h, File.reject, BootstrapPeer.peer]

section Load

variable {w : FreshConfig C} {own : NodePublicKey C} {pre : NetworkPrefix}

theorem Checked.nodup (h : w.Checked own) :
    (w.bootstrap.map fun b => subnetIdOf b.publicKey).Nodup := (List.nodup_append.1 h.subnets).1

/-- Peers of different subnets have different keys. -/
theorem Checked.duplicatePeer (h : w.Checked own) :
    File.duplicatePeer (w.bootstrap.map (BootstrapPeer.peer pre)) =
      (none : Option (File.ConfigError ε)) := by
  rw [File.duplicatePeer_eq_none_iff]
  refine List.pairwise_map.2 ((List.pairwise_map.1 h.nodup).imp fun hne heq => hne ?_)
  exact congrArg subnetIdOf heq

theorem routes_eq_nil {p : Peer C} (hp : p ∈ w.bootstrap.map (BootstrapPeer.peer pre)) :
    p.routes = [] := by
  obtain ⟨b, -, rfl⟩ := List.mem_map.1 hp
  rfl

/-- The checks of the peers against each other and this node pass. -/
theorem Checked.checkPeers (h : w.Checked own) {o : Option (NodePublicKey C)}
    (ho : o ∈ [none, some own]) :
    File.checkPeers pre (o.map (addrOf pre)) (w.bootstrap.map (BootstrapPeer.peer pre)) =
      (.ok () : Except (File.ConfigError ε) _) := by
  have hsub : checkSubnetCollisions
      ((w.bootstrap.map (BootstrapPeer.peer pre)).map (fun p => (p.name, p.addr)) ++
        ((o.map (addrOf pre)).map fun o => ("<self>", o)).toList) = .ok () := by
    rw [checkSubnetCollisions_eq_ok_iff]
    simp only [List.mem_cons, List.not_mem_nil, or_false] at ho
    rcases ho with rfl | rfl
    · simpa [Function.comp_def, BootstrapPeer.peer, addrOf] using h.nodup
    · simpa [Function.comp_def, BootstrapPeer.peer, addrOf] using h.subnets
  have hconf : File.routeConflict (overlayRoute pre)
      ((o.map (addrOf pre)).map fun o => siteRoute pre o.subnetId)
      (w.bootstrap.map (BootstrapPeer.peer pre)) = (none : Option (File.ConfigError ε)) := by
    rw [File.routeConflict, List.findSome?_eq_none_iff]
    intro p hp
    rw [routes_eq_nil hp]
    rfl
  have hover : File.routeOverlap (w.bootstrap.map (BootstrapPeer.peer pre)) =
      (none : Option (File.ConfigError ε)) := by
    rw [File.routeOverlap_eq_none_iff]
    refine List.pairwise_map.2 (List.pairwise_of_forall ?_)
    intro b b' r hr
    cases hr
  rw [File.checkPeers, hsub, hconf, hover]
  rfl

/-- **The raw structure that is meant loads as the configuration that is meant.** -/
theorem load_raw {fromStr : List Char → Except ε File.RawConfig} {expand : Bytes 32 → Bytes 5}
    {text : List Char} (hraw : fromStr text = .ok w.raw) (h : w.Checked own)
    {o : Option (NodePublicKey C)} (ho : o ∈ [none, some own]) :
    File.load C fromStr expand text o = .ok (w.config expand) := by
  have hnode : File.checkNode w.raw.node = (none : Option (File.ConfigError ε)) := rfl
  have hpeers : w.raw.peers.mapM (File.loadPeer C (NetworkPrefix.derive expand w.networkKey)) =
      (.ok (w.config expand).peers : Except (File.ConfigError ε) _) :=
    Fallible.mapM_map fun b hb => loadPeer_rawPeer (h.iid b hb)
  have hown : File.loadOwn (NetworkPrefix.derive expand w.networkKey) o =
      (.ok (o.map (addrOf (NetworkPrefix.derive expand w.networkKey))) :
        Except (File.ConfigError ε) _) := by
    simp only [List.mem_cons, List.not_mem_nil, or_false] at ho
    rcases ho with rfl | rfl
    · rfl
    · rw [File.loadOwn, deriveNodeAddr_eq_ok h.own_iid]
      rfl
  have hkey : NetworkKey.fromBase64 w.raw.network.key = .ok w.networkKey :=
    NetworkKey.fromBase64_toBase64 w.networkKey
  have hdup : File.duplicatePeer (w.config expand).peers =
      (none : Option (File.ConfigError ε)) := h.duplicatePeer
  have hcheck : File.checkPeers (NetworkPrefix.derive expand w.networkKey)
      (o.map (addrOf (NetworkPrefix.derive expand w.networkKey))) (w.config expand).peers =
        (.ok () : Except (File.ConfigError ε) _) := h.checkPeers ho
  refine Fallible.bind_eq_ok.2 ⟨w.raw, by rw [hraw, Fallible.mapError_ok], ?_⟩
  refine Fallible.bind_eq_ok.2 ⟨(), File.reject_eq_ok.2 hnode, ?_⟩
  refine Fallible.bind_eq_ok.2 ⟨w.networkKey, by rw [hkey, Fallible.mapError_ok], ?_⟩
  refine Fallible.bind_eq_ok.2 ⟨_, hpeers, ?_⟩
  refine Fallible.bind_eq_ok.2 ⟨(), File.reject_eq_ok.2 hdup, ?_⟩
  refine Fallible.bind_eq_ok.2 ⟨[], rfl, ?_⟩
  refine Fallible.bind_eq_ok.2 ⟨[], rfl, ?_⟩
  refine Fallible.bind_eq_ok.2 ⟨_, hown, ?_⟩
  exact Fallible.bind_eq_ok.2 ⟨(), hcheck, rfl⟩

/-- **A configuration of plain text is read back.** -/
theorem Plain.readsBack {parse : List Char → Except ε Toml.Table} (hp : Toml.Reads parse)
    (hw : w.Plain) (h : w.Checked own) (expand : Bytes 32 → Bytes 5) :
    w.ReadsBack parse expand own :=
  fun _ ho => load_raw (fromStr_text hp hw) h ho

end Load

/-! ### Only plain text is read back -/

section Necessity

open Fallible

variable {w : FreshConfig C}

theorem required_of_lookup {α : Type} {t : Toml.Table} {field : String} {v : Toml.Value} {a : α}
    {read : Toml.Value → Option α} (hv : t.lookup field = some v)
    (h : File.required t field read = .ok a) : read v = some a := by
  rw [File.required, hv] at h
  simp only at h
  split at h
  · cases h
  · rename_i a' ha
    cases h
    exact ha

theorem optional_of_lookup {α : Type} {t : Toml.Table} {field : String} {v : Toml.Value}
    {o : Option α} {read : Toml.Value → Option α} (hv : t.lookup field = some v)
    (h : File.optional t field read = .ok o) : o = read v := by
  rw [File.optional, hv] at h
  simp only at h
  split at h
  · cases h
  · rename_i a' ha
    cases h
    exact ha.symm

theorem exists_of_get {v : Toml.Table} {name key : String} {x : Toml.Value}
    (h : Toml.get v name key = some x) :
    ∃ t, v.lookup name = some (.table t) ∧ t.lookup key = some x := by
  unfold Toml.get at h
  split at h
  · rename_i t ht
    exact ⟨t, ht, h⟩
  · cases h

theorem name_of_ofTable {t : Toml.Table} {network : File.RawNetwork}
    (h : File.RawNetwork.ofTable t = .ok network) {s : String}
    (hs : t.lookup "name" = some (.string s)) : network.name = s := by
  obtain ⟨name, hname, h⟩ := bind_eq_ok.1 h
  obtain ⟨key, -, h⟩ := bind_eq_ok.1 h
  cases h
  cases required_of_lookup hs hname
  rfl

theorem paths_of_ofTable {t : Toml.Table} {node : File.RawNode}
    (h : File.RawNode.ofTable t = .ok node) :
    (∀ s, t.lookup "key_file" = some (.string s) → node.keyFile = .ofText s.toList) ∧
      ∀ s, t.lookup "state_dir" = some (.string s) → node.stateDir = some (.ofText s.toList) := by
  obtain ⟨keyFile, hkeyFile, h⟩ := bind_eq_ok.1 h
  iterate 4 obtain ⟨_, -, h⟩ := bind_eq_ok.1 h
  obtain ⟨stateDir, hstateDir, h⟩ := bind_eq_ok.1 h
  iterate 20 obtain ⟨_, -, h⟩ := bind_eq_ok.1 h
  cases h
  constructor
  · intro s hs
    cases required_of_lookup hs hkeyFile
    rfl
  · intro s hs
    exact optional_of_lookup hs hstateDir

/-- The raw structure has the strings of the document. -/
theorem ofTable_get {v : Toml.Table} {raw : File.RawConfig}
    (h : File.RawConfig.ofTable v = .ok raw) :
    (∀ s, Toml.get v "network" "name" = some (.string s) → raw.network.name = s) ∧
      (∀ s, Toml.get v "node" "key_file" = some (.string s) →
        raw.node.keyFile = .ofText s.toList) ∧
      ∀ s, Toml.get v "node" "state_dir" = some (.string s) →
        raw.node.stateDir = some (.ofText s.toList) := by
  obtain ⟨networkTable, hnt, h⟩ := bind_eq_ok.1 h
  obtain ⟨network, hnetwork, h⟩ := bind_eq_ok.1 h
  obtain ⟨nodeTable, hmt, h⟩ := bind_eq_ok.1 h
  obtain ⟨node, hnode, h⟩ := bind_eq_ok.1 h
  obtain ⟨_, -, h⟩ := bind_eq_ok.1 h
  obtain ⟨peers, -, h⟩ := bind_eq_ok.1 h
  cases h
  obtain ⟨hkeyFile, hstateDir⟩ := paths_of_ofTable hnode
  refine ⟨fun s hs => ?_, fun s hs => ?_, fun s hs => ?_⟩
  · obtain ⟨t, ht, hkey⟩ := exists_of_get hs
    cases required_of_lookup ht hnt
    exact name_of_ofTable hnetwork hkey
  · obtain ⟨t, ht, hkey⟩ := exists_of_get hs
    cases required_of_lookup ht hmt
    exact hkeyFile s hkey
  · obtain ⟨t, ht, hkey⟩ := exists_of_get hs
    cases required_of_lookup ht hmt
    exact hstateDir s hkey

/-- What a load that succeeded has read. -/
theorem raw_of_load {fromStr : List Char → Except ε File.RawConfig} {expand : Bytes 32 → Bytes 5}
    {text : List Char} {o : Option (NodePublicKey C)} {f : File.Config C}
    (h : File.load C fromStr expand text o = .ok f) :
    ∃ raw, fromStr text = .ok raw ∧ f.networkName = raw.network.name ∧
      f.node.keyFile = raw.node.keyFile ∧
      f.node.stateDir = raw.node.stateDir.getD (.ofText "/var/lib/hextet".toList) := by
  obtain ⟨raw, hraw, h⟩ := bind_eq_ok.1 h
  iterate 8 obtain ⟨_, -, h⟩ := bind_eq_ok.1 h
  cases h
  exact ⟨raw, mapError_eq_ok.1 hraw, rfl, rfl, rfl⟩

/-- The strings of a text that was read. -/
theorem exists_table_of_load {parse : List Char → Except ε Toml.Table} {expand : Bytes 32 → Bytes 5}
    {o : Option (NodePublicKey C)} {f : File.Config C}
    (h : File.load C (File.fromStr parse) expand w.text o = .ok f) :
    ∃ v, parse (Toml.text w.doc) = .ok v ∧
      (∀ s, Toml.get v "network" "name" = some (.string s) → f.networkName = s) ∧
      (∀ s, Toml.get v "node" "key_file" = some (.string s) →
        f.node.keyFile = .ofText s.toList) ∧
      ∀ s, Toml.get v "node" "state_dir" = some (.string s) →
        f.node.stateDir = .ofText s.toList := by
  obtain ⟨raw, hraw, hname, hkey, hdir⟩ := raw_of_load h
  obtain ⟨v, hv, hraw⟩ := bind_eq_ok.1 hraw
  obtain ⟨hname', hkey', hdir'⟩ := ofTable_get (mapError_eq_ok.1 hraw)
  refine ⟨v, by rw [text_doc]; exact mapError_eq_ok.1 hv, fun s hs => ?_, fun s hs => ?_,
    fun s hs => ?_⟩
  · exact hname.trans (hname' s hs)
  · exact hkey.trans (hkey' s hs)
  · rw [hdir, hdir' s hs, Option.getD_some]

theorem text_comments_cons (l : List Char) (doc : List Toml.Line) :
    Toml.text (.comment l :: doc) = ['#'] ++ (l ++ '\n' :: Toml.text doc) := by
  simp [Toml.Line.text]

/-- The network name that is read back is plain. -/
theorem isPlain_networkName {parse : List Char → Except ε Toml.Table} (hp : Toml.Reads parse)
    {v : Toml.Table} (hv : parse (Toml.text w.doc) = .ok v)
    (h : ∀ s, Toml.get v "network" "name" = some (.string s) → w.networkName = s) :
    w.networkName.toList.all Toml.isPlain = true := by
  simp only [doc, File.networkDoc, List.append_assoc, List.cons_append] at hv
  obtain ⟨s, hget, hplain⟩ := hp.string_between File.run_headDoc rfl
    (File.isBare_of_chars (by decide)) hv (show Toml.Pinned '#' by decide)
    (List.mem_singleton_self _) (by decide) (text_comments_cons _ _)
  exact hplain (by rw [h _ hget, String.toList_ofList])

/-- The key file that is read back is plain. -/
theorem isPlain_keyFile {parse : List Char → Except ε Toml.Table} (hp : Toml.Reads parse)
    {v : Toml.Table} (hv : parse (Toml.text w.doc) = .ok v)
    (hname : w.networkName.toList.all Toml.isPlain = true)
    (h : ∀ s, Toml.get v "node" "key_file" = some (.string s) → w.keyFile = .ofText s.toList) :
    w.keyFile.display.all Toml.isPlain = true ∧ w.keyFile = .ofText w.keyFile.display := by
  have hbuild : Toml.build
      (File.headDoc ++ File.networkDoc w.networkName.toList w.networkKey) = _ :=
    (Toml.Builder.run_lines File.run_headDoc _).trans (File.run_networkDoc hname w.networkKey)
  have hport : "listen_port".toList =
      ['l'] ++ ['i', 's', 't', 'e', 'n', '_', 'p', 'o', 'r', 't'] := String.toList_ofList
  rw [doc, File.nodeDoc] at hv
  simp only [List.append_assoc, List.cons_append] at hv
  rw [← List.append_assoc] at hv
  obtain ⟨s, hget, hplain⟩ := hp.string_between hbuild rfl (File.isBare_of_chars (by decide)) hv
    (show Toml.Pinned 'l' by decide) (List.mem_singleton_self _) (by decide)
    (by rw [Toml.text_cons, Toml.Line.text, hport, List.append_assoc, List.append_assoc])
  have hfile := h _ hget
  rw [String.toList_ofList] at hfile
  have hs : s = w.keyFile.display := by rw [hfile, PathBuf.display_ofText]
  exact ⟨hplain hs, by rw [← hs, ← hfile]⟩

/-- The state directory that is read back is plain. -/
theorem isPlain_stateDir {parse : List Char → Except ε Toml.Table} (hp : Toml.Reads parse)
    {v : Toml.Table} (hv : parse (Toml.text w.doc) = .ok v)
    (hname : w.networkName.toList.all Toml.isPlain = true)
    (hfile : w.keyFile.display.all Toml.isPlain = true) {dir : PathBuf}
    (hdir : w.stateDir = some dir)
    (h : ∀ s, Toml.get v "node" "state_dir" = some (.string s) → dir = .ofText s.toList) :
    dir.display.all Toml.isPlain = true ∧ dir = .ofText dir.display := by
  have hbuild : Toml.build (File.headDoc ++ File.networkDoc w.networkName.toList w.networkKey ++
      File.nodeDoc w.keyFile.display w.listenPort) =
        some ⟨[("network", .table (File.networkTable w.networkName.toList w.networkKey))],
          some (.table "node", File.nodeTable w.keyFile.display w.listenPort none)⟩ := by
    rw [Toml.build, List.append_assoc, Toml.Builder.run_lines File.run_headDoc,
      Toml.Builder.run_lines (File.run_networkDoc hname w.networkKey)]
    exact File.run_nodeDoc hfile w.listenPort
  rw [doc, hdir, Option.map_some, File.stateDirDoc] at hv
  rw [List.append_assoc, List.append_assoc, List.cons_append, List.nil_append] at hv
  obtain ⟨r, hr⟩ : ∃ r, Toml.text (File.tailDoc ++ w.bootstrap.flatMap fun b =>
      File.peerDoc b.name b.publicKey b.endpoints) = ['\n', '#'] ++ r := by
    rw [File.tailDoc, File.peerLines]
    exact ⟨_, rfl⟩
  obtain ⟨s, hget, hplain⟩ := hp.string_between hbuild rfl (File.isBare_of_chars (by decide)) hv
    (show Toml.Pinned '#' by decide) (by simp) (by decide) hr
  have hpath := h _ hget
  rw [String.toList_ofList] at hpath
  have hs : s = dir.display := by rw [hpath, PathBuf.display_ofText]
  exact ⟨hplain hs, by rw [← hs, ← hpath]⟩

/-- **What is read back is plain.** -/
theorem plain_of_load {parse : List Char → Except ε Toml.Table} (hp : Toml.Reads parse)
    {expand : Bytes 32 → Bytes 5} {o : Option (NodePublicKey C)}
    (h : File.load C (File.fromStr parse) expand w.text o = .ok (w.config expand)) : w.Plain := by
  obtain ⟨v, hv, hname, hfile, hdir⟩ := exists_table_of_load h
  have hname' := isPlain_networkName hp hv hname
  have hfile' := isPlain_keyFile hp hv hname' hfile
  refine ⟨hname', hfile', fun dir hd => ?_⟩
  have hd' : (w.config expand).node.stateDir = dir := by
    simp only [config, File.settings, File.RawNode.fresh, Option.mem_def.1 hd, Option.getD_some]
  exact isPlain_stateDir hp hv hname' hfile'.1 hd fun s hs => hd'.symm.trans (hdir s hs)

/-- **A new configuration is read back exactly when its texts are plain.** -/
theorem readsBack_iff {parse : List Char → Except ε Toml.Table} (hp : Toml.Reads parse)
    {own : NodePublicKey C} (h : w.Checked own) (expand : Bytes 32 → Bytes 5) :
    w.ReadsBack parse expand own ↔ w.Plain :=
  ⟨fun hw => plain_of_load hp (hw none (by simp)), fun hw => hw.readsBack hp h expand⟩

end Necessity

end FreshConfig

/-! ### Joins and inits -/

section Network

variable {host : Host C ι} {json : List UInt8 → Except ε RawInvite} {expand : Bytes 32 → Bytes 5}

theorem iid_of_mapError {pre : NetworkPrefix} {key : NodePublicKey C} {a : NodeAddr}
    (h : (deriveNodeAddr pre key).mapError BootstrapError.deriveAddr =
      (.ok a : Except (BootstrapError ε ι) _)) : iidOf key ≠ zeroIid ∧ a = addrOf pre key := by
  obtain ⟨hne, rfl⟩ := deriveNodeAddr_eq_ok_iff.1 (Fallible.mapError_eq_ok.1 h)
  exact ⟨hne, rfl⟩

/-- The names and addresses of the bootstrap peers, if they all have one. -/
theorem forall₂_bootstrap {pre : NetworkPrefix} {bs : List (BootstrapPeer C)}
    {all : List (String × NodeAddr)}
    (h : (bs.mapM fun b => ((deriveNodeAddr pre b.publicKey).mapError BootstrapError.deriveAddr).map
      fun a => (b.name, a)) = (.ok all : Except (BootstrapError ε ι) _)) :
    (∀ b ∈ bs, iidOf b.publicKey ≠ zeroIid) ∧
      all.map (fun n => n.2.subnetId) = bs.map fun b => subnetIdOf b.publicKey := by
  have hall := Fallible.mapM_eq_ok.1 h
  clear h
  induction hall with
  | nil => simp
  | @cons b n bs ns hb _ ih =>
      have hn : iidOf b.publicKey ≠ zeroIid ∧ n = (b.name, addrOf pre b.publicKey) := by
        cases hd : (deriveNodeAddr pre b.publicKey).mapError
            (BootstrapError.deriveAddr : AddrError → BootstrapError ε ι) with
        | error e =>
            rw [hd] at hb
            cases hb
        | ok a =>
            obtain ⟨hne, rfl⟩ := iid_of_mapError hd
            rw [hd] at hb
            cases hb
            exact ⟨hne, rfl⟩
      obtain ⟨hne, rfl⟩ := hn
      refine ⟨?_, by simp [ih.2, addrOf]⟩
      rintro b' (_ | ⟨_, hb'⟩)
      · exact hne
      · exact ih.1 b' hb'

/-- What a join that succeeded has decoded, checked and written. -/
theorem joinNetwork_eq_ok {token : List Char} {keyPath configPath : PathBuf} {nowUnix : UInt64}
    {opts : JoinOptions} {out : JoinOutcome} {own : NodePublicKey C} {text : List Char}
    (h : joinNetwork host json expand token keyPath configPath nowUnix opts =
      .ok (out, own, text)) :
    ∃ invite, Invite.decode C json (Base64.trim token) = .ok invite ∧
      text = (invite.fresh keyPath configPath opts).text ∧
      (invite.fresh keyPath configPath opts).Checked own := by
  obtain ⟨invite, hinvite, h⟩ := Fallible.bind_eq_ok.1 h
  obtain ⟨_, -, h⟩ := Fallible.bind_eq_ok.1 h
  obtain ⟨⟨id, generated⟩, -, h⟩ := Fallible.bind_eq_ok.1 h
  obtain ⟨ownAddr, hown, h⟩ := Fallible.bind_eq_ok.1 h
  obtain ⟨all, hall, h⟩ := Fallible.bind_eq_ok.1 h
  obtain ⟨_, hsub, h⟩ := Fallible.bind_eq_ok.1 h
  obtain ⟨_, -, h⟩ := Fallible.bind_eq_ok.1 h
  obtain ⟨_, -, h⟩ := Fallible.bind_eq_ok.1 h
  obtain ⟨_, -, h⟩ := Fallible.bind_eq_ok.1 h
  cases h
  obtain ⟨hiid, rfl⟩ := iid_of_mapError hown
  obtain ⟨hiids, hids⟩ := forall₂_bootstrap hall
  rw [Fallible.mapError_eq_ok, checkSubnetCollisions_eq_ok_iff, List.map_append, hids] at hsub
  exact ⟨invite, Fallible.mapError_eq_ok.1 hinvite, rfl, hiid, hiids, hsub⟩

/-- What an init that succeeded has checked and written. -/
theorem initNetwork_eq_ok {name : String} {keyPath configPath : PathBuf}
    {networkKey : Option String} {opts : InitOptions} {out : InitOutcome} {own : NodePublicKey C}
    {text : List Char}
    (h : (initNetwork host expand name keyPath configPath networkKey opts :
      Except (BootstrapError ε ι) _) = .ok (out, own, text)) :
    ∃ key, (host.givenOrNewKey networkKey : Except (BootstrapError ε ι) _) = .ok key ∧
      text = (FreshConfig.named C name key keyPath configPath opts).text ∧
      (FreshConfig.named C name key keyPath configPath opts).Checked own := by
  obtain ⟨⟨id, generated⟩, -, h⟩ := Fallible.bind_eq_ok.1 h
  obtain ⟨key, hkey, h⟩ := Fallible.bind_eq_ok.1 h
  obtain ⟨ownAddr, hown, h⟩ := Fallible.bind_eq_ok.1 h
  obtain ⟨_, -, h⟩ := Fallible.bind_eq_ok.1 h
  obtain ⟨_, -, h⟩ := Fallible.bind_eq_ok.1 h
  cases h
  exact ⟨key, hkey, rfl, (iid_of_mapError hown).1, by simp [FreshConfig.named],
    List.nodup_singleton _⟩

/-- **A configuration that was written is read back exactly when the network name
and the two paths are plain text**, by any TOML reader: then every load gives the
network, the key file, the port, the state directory and the bootstrap peers, and
the default for everything else. -/
theorem written_readsBack_iff {δ : Type} {parse : List Char → Except δ Toml.Table}
    (hp : Toml.Reads parse) (host : Host C ι) (json : List UInt8 → Except ε RawInvite)
    (expand : Bytes 32 → Bytes 5) :
    (∀ token keyPath configPath nowUnix opts out own text,
      joinNetwork host json expand token keyPath configPath nowUnix opts = .ok (out, own, text) →
      ∃ invite, Invite.decode C json (Base64.trim token) = .ok invite ∧
        let fresh := invite.fresh keyPath configPath opts
        text = fresh.text ∧ (fresh.ReadsBack parse expand own ↔ fresh.Plain)) ∧
    ∀ name keyPath configPath networkKey opts out own text,
      (initNetwork host expand name keyPath configPath networkKey opts :
        Except (BootstrapError ε ι) _) = .ok (out, own, text) →
      ∃ key, (host.givenOrNewKey networkKey : Except (BootstrapError ε ι) _) = .ok key ∧
        let fresh := FreshConfig.named C name key keyPath configPath opts
        text = fresh.text ∧ (fresh.ReadsBack parse expand own ↔ fresh.Plain) := by
  constructor
  · intro token keyPath configPath nowUnix opts out own text h
    obtain ⟨invite, hinvite, htext, hchecked⟩ := joinNetwork_eq_ok h
    exact ⟨invite, hinvite, htext, FreshConfig.readsBack_iff hp hchecked expand⟩
  · intro name keyPath configPath networkKey opts out own text h
    obtain ⟨key, hkey, htext, hchecked⟩ := initNetwork_eq_ok h
    exact ⟨key, hkey, htext, FreshConfig.readsBack_iff hp hchecked expand⟩

end Network

/-- A host without files, on which everything can be written. -/
def plainHost : Host Crypto.plain Unit where
  pathExists _ := false
  loadIdentity _ := .error ()
  newIdentity := plainKey 2 0
  newNetworkKey := ⟨zeros 32⟩
  saveIdentity _ := .ok ()
  createNew _ := .ok ()

/-- The payload of an invite to the network `a`, with one bootstrap peer. -/
def plainJson : List UInt8 := List.map (fun c => UInt8.ofNat c.toNat) (List.flatMap String.toList
  ["\x7b\"v\":1,\"id\":\"", "AAAAAAAAAAAAAAAAAAAAAA", "\",\"network_name\":\"a\",",
    "\"network_key\":\"AAAAAAAA", "AAAAAAAAAAAAAAAAAAAAAAA", "AAAAAAAAAAAA=\",\"issuer\":",
    "\"AAAAAAAAAAAAAAAAAAAAAA", "AAAAAAAAAAAAAAAAAAAAA=\",", "\"issued_unix\":0,",
    "\"expires_unix\":1,", "\"listen_port\":1,", "\"bootstrap\":[\x7b\"name\":\"b\"",
    ",\"public_key\":\"AAEAAAAA", "AAAAAAAAAAAAAAAAAAAAAAA", "AAAAAAAAAAAA=\"\x7d]\x7d"])

/-- The raw structure of `plainJson`, and of nothing else. -/
def readPlainJson (bytes : List UInt8) : Except Unit RawInvite :=
  if bytes = plainJson then .ok {
    v := 1
    id := "AAAAAAAAAAAAAAAAAAAAAA"
    networkName := "a"
    networkKey := "AAAAAAAAAAAAAAAAAAAAAAAAAAAAAAAAAAAAAAAAAAA="
    issuer := "AAAAAAAAAAAAAAAAAAAAAAAAAAAAAAAAAAAAAAAAAAA="
    issuedUnix := 0
    expiresUnix := 1
    listenPort := 1
    bootstrap := [⟨"b", "AAEAAAAAAAAAAAAAAAAAAAAAAAAAAAAAAAAAAAAAAAA=", []⟩] }
  else .error ()

/-- The token of the invite. -/
def plainToken : List Char :=
  ['h', 'x', 'i', '1', '.'] ++ urlEncode plainJson ++ '.' :: urlEncode (List.replicate 64 0)

/-- A join as `n`, with the options at their defaults. -/
def plainJoin : Except (BootstrapError Unit Unit)
    (JoinOutcome × NodePublicKey Crypto.plain × List Char) :=
  joinNetwork plainHost readPlainJson plainExpand plainToken [.char 'k'] [.char 'c'] 0
    ⟨"n", none, none⟩

/-- The start of a network of some name. -/
def plainInit (name : String) : Except (BootstrapError Unit Unit)
    (InitOutcome × NodePublicKey Crypto.plain × List Char) :=
  initNetwork plainHost plainExpand name [.char 'k'] [.char 'c'] none ⟨4193, none, false⟩

theorem written_readsBack_iff_plain :
    (∃ out own text, plainJoin = .ok (out, own, text) ∧
      ∃ invite, Invite.decode Crypto.plain readPlainJson (Base64.trim plainToken) = .ok invite ∧
        let fresh := invite.fresh [.char 'k'] [.char 'c'] ⟨"n", none, none⟩
        text = fresh.text ∧ (fresh.ReadsBack Toml.readLines plainExpand own ↔ fresh.Plain)) ∧
    ∃ out own text, plainInit "a" = .ok (out, own, text) ∧
      ∃ key, (plainHost.givenOrNewKey none : Except (BootstrapError Unit Unit) _) = .ok key ∧
        let fresh := FreshConfig.named Crypto.plain "a" key [.char 'k'] [.char 'c']
          ⟨4193, none, false⟩
        text = fresh.text ∧ (fresh.ReadsBack Toml.readLines plainExpand own ↔ fresh.Plain) := by
  have hjoin : plainJoin.isOk = true := by decide +kernel
  have hinit : (plainInit "a").isOk = true := by decide +kernel
  obtain ⟨⟨out, own, text⟩, h⟩ := Fallible.exists_of_isOk hjoin
  obtain ⟨⟨out', own', text'⟩, h'⟩ := Fallible.exists_of_isOk hinit
  obtain ⟨hwritten, hwritten'⟩ := written_readsBack_iff Toml.reads_readLines plainHost
    readPlainJson plainExpand
  exact ⟨⟨out, own, text, h, hwritten _ _ _ _ _ _ _ _ h⟩,
    out', own', text', h', hwritten' _ _ _ _ _ _ _ _ h'⟩

/-- The configuration of a network whose name holds a quote is not read back. -/
theorem plainInit_quote :
    ∃ out own text, plainInit "a\"b" = .ok (out, own, text) ∧
      ¬∃ f, File.load Crypto.plain (File.fromStr Toml.readLines) plainExpand text (some own) =
        .ok f ∧ f.networkName = "a\"b" := by
  have hok : (plainInit "a\"b").isOk = true := by decide +kernel
  obtain ⟨⟨out, own, text⟩, h⟩ := Fallible.exists_of_isOk hok
  refine ⟨out, own, text, h, ?_⟩
  rintro ⟨f, hf, hname⟩
  obtain ⟨key, -, htext, -⟩ := initNetwork_eq_ok h
  rw [htext] at hf
  obtain ⟨v, hv, hget, -⟩ := FreshConfig.exists_table_of_load hf
  have hplain : "a\"b".toList.all Toml.isPlain = true :=
    FreshConfig.isPlain_networkName Toml.reads_readLines hv fun s hs => hname.symm.trans (hget s hs)
  exact absurd hplain (by decide)

end Hextet
