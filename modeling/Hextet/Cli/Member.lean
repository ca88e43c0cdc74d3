/-
# Admitting and revoking members: `member.rs`

`hextet member add` and `hextet member revoke`, past the loading of the configuration, and
`Entry::sign_member` and `Entry::sign_revocation` of `crates/core/src/gossip.rs`.  The command
signs an entry about another node with the key of this one and sends it once to every configured
peer; it neither waits for an answer nor tells the daemon on the same machine.

What is sent is always a valid entry of a foreign signer (`memberAdd_eq_ok`,
`memberRevoke_eq_ok`), so every daemon that lists the signer, or nobody, takes it up.  One
datagram that arrives anywhere is then enough: gossip brings the entry to all daemons
(`memberAdd_spreads`), and a revoked node is admitted nowhere any more
(`memberRevoke_spreads`).
-/

import Hextet.Core.ConfigFile
import Hextet.Engine.Revocation
import Hextet.Engine.Spread
import Hextet.Lib.Fallible

namespace Hextet

open Lib

variable {C : Crypto}

/-- `Entry::sign_member`. -/
def Entry.signMember (issuer : NodeIdentity C) (node : NodePublicKey C) (name : String)
    (site : UInt16) (seq : UInt64) (inviteId : Bytes 16) : Except GossipError (Entry C) :=
  if (nameBytes name).length > gossipMaxName then .error (.nameTooLong (nameBytes name).length)
  else
    let e := Entry.member node name site seq Entry.zeroSig issuer.publicKey inviteId
    e.signedRegion.map fun region => e.withSig (issuer.sign region)

/-- `Entry::sign_revocation`. -/
def Entry.signRevocation (issuer : NodeIdentity C) (node : NodePublicKey C) (seq : UInt64) :
    Except GossipError (Entry C) :=
  let e := Entry.revocation node seq Entry.zeroSig issuer.publicKey
  e.signedRegion.map fun region => e.withSig (issuer.sign region)

/-- The errors of `add` and `revoke` after the configuration is loaded. -/
inductive MemberError where
  | badPublicKey (e : IdentityError)
  | ownKey
  | alreadyPeer (name : String)
  | addr (e : AddrError)
  | collision (e : AddrError)
  | gossip (e : GossipError)
  deriving DecidableEq

/-- What `broadcast_to_peers` is called with. -/
structure MemberBroadcast where
  bytes : List UInt8
  peers : List Ipv6Addr
  gossipPort : UInt16
  deriving DecidableEq

/-- The end of both commands: the entry is encoded and sent. -/
def announce (cfg : File.Config C) (entry : Entry C) : Except MemberError MemberBroadcast := do
  let bytes ← entry.encode.mapError .gossip
  return ⟨bytes, cfg.peers.map fun p => p.addr.address, cfg.node.gossipPort⟩

/-- `add`, with the time and the random `invite_id`. -/
def memberAdd (cfg : File.Config C) (id : NodeIdentity C) (name publicKey : String)
    (nowUnix : UInt64) (inviteId : Bytes 16) : Except MemberError MemberBroadcast := do
  let publicKey ← (NodePublicKey.fromBase64 C publicKey).mapError .badPublicKey
  if publicKey = id.publicKey then throw .ownKey
  else
    match cfg.peers.find? fun p => p.publicKey = publicKey with
    | some p => throw (.alreadyPeer p.name)
    | none => do
        let newAddr ← (deriveNodeAddr cfg.pre publicKey).mapError .addr
        let ownAddr ← (deriveNodeAddr cfg.pre id.publicKey).mapError .addr
        (checkSubnetCollisions (cfg.peers.map (fun p => (p.name, p.addr)) ++
          [("<self>", ownAddr), (name, newAddr)])).mapError .collision
        let entry ← (Entry.signMember id publicKey name newAddr.subnetId nowUnix
          inviteId).mapError .gossip
        announce cfg entry

/-- `revoke`, with the time. -/
def memberRevoke (cfg : File.Config C) (id : NodeIdentity C) (publicKey : String)
    (nowUnix : UInt64) : Except MemberError MemberBroadcast := do
  let publicKey ← (NodePublicKey.fromBase64 C publicKey).mapError .badPublicKey
  if publicKey = id.publicKey then throw .ownKey
  else do
    let entry ← (Entry.signRevocation id publicKey nowUnix).mapError .gossip
    announce cfg entry

/-! ### What is sent -/

/-- **An entry that its issuer has signed is valid**, unless the issuer is its subject. -/
theorem Entry.isValid_issued {issuer : NodeIdentity C} {e entry : Entry C}
    (hsigner : e.signer = issuer.publicKey) (hother : e.node ≠ issuer.publicKey)
    (h : e.signedRegion.map (fun region => e.withSig (issuer.sign region)) = .ok entry) :
    entry.isValid = true ∧ ∃ sig, e.withSig sig = entry := by
  have hheader (sig : Bytes 64) : (e.withSig sig).header = e.header := by
    simp only [header, kind_withSig, seq_withSig, node_withSig, signer_withSig]
  rw [signedRegion] at h
  cases hpayload : e.payload with
  | error er =>
      rw [hpayload] at h
      cases h
  | ok p =>
      rw [hpayload] at h
      obtain rfl := Except.ok.inj h
      refine ⟨(isValid_iff _).2 ⟨fun _ => ?_, p, ?_, ?_⟩, _, rfl⟩
      · rw [signer_withSig, node_withSig, hsigner]
        exact hother.symm
      · rw [payload_withSig, hpayload]
      · rw [signer_withSig, hheader, sig_withSig, hsigner]
        exact issuer.verifies _

theorem announce_eq_ok {cfg : File.Config C} {e : Entry C} (hvalid : e.isValid = true)
    {a : MemberBroadcast} (h : announce cfg e = .ok a) :
    a = ⟨e.encoding, cfg.peers.map fun p => p.addr.address, cfg.node.gossipPort⟩ := by
  rw [announce, Entry.encode_eq_ok_encoding hvalid] at h
  exact (Except.ok.inj h).symm

variable {cfg : File.Config C} {id : NodeIdentity C} {name text : String} {nowUnix : UInt64}
  {inviteId : Bytes 16} {a : MemberBroadcast}

/-- **`revoke` sends a valid revocation of another node**, if it sends anything. -/
theorem memberRevoke_eq_ok (h : memberRevoke cfg id text nowUnix = .ok a) :
    ∃ node sig, NodePublicKey.fromBase64 C text = .ok node ∧
      (Entry.revocation node nowUnix sig id.publicKey).isValid = true ∧
      a = ⟨(Entry.revocation node nowUnix sig id.publicKey).encoding,
        cfg.peers.map fun p => p.addr.address, cfg.node.gossipPort⟩ := by
  obtain ⟨node, hnode, h⟩ := Fallible.bind_eq_ok.1 h
  split_ifs at h with hown
  obtain ⟨entry, hsign, h⟩ := Fallible.bind_eq_ok.1 h
  obtain ⟨hvalid, sig, rfl⟩ := Entry.isValid_issued
    (e := .revocation node nowUnix Entry.zeroSig id.publicKey) rfl hown
    (Fallible.mapError_eq_ok.1 hsign)
  exact ⟨node, sig, Fallible.mapError_eq_ok.1 hnode, hvalid, announce_eq_ok hvalid h⟩

/-- **`add` sends a valid member entry of another node**, with the subnet that its key gives, if
it sends anything. -/
theorem memberAdd_eq_ok (h : memberAdd cfg id name text nowUnix inviteId = .ok a) :
    ∃ node addr sig, NodePublicKey.fromBase64 C text = .ok node ∧
      deriveNodeAddr cfg.pre node = .ok addr ∧ (∀ p ∈ cfg.peers, p.publicKey ≠ node) ∧
      (Entry.member node name addr.subnetId nowUnix sig id.publicKey inviteId).isValid = true ∧
      a = ⟨(Entry.member node name addr.subnetId nowUnix sig id.publicKey inviteId).encoding,
        cfg.peers.map fun p => p.addr.address, cfg.node.gossipPort⟩ := by
  obtain ⟨node, hnode, h⟩ := Fallible.bind_eq_ok.1 h
  split_ifs at h with hown
  split at h
  · cases h
  · rename_i hnew
    obtain ⟨addr, haddr, h⟩ := Fallible.bind_eq_ok.1 h
    obtain ⟨ownAddr, -, h⟩ := Fallible.bind_eq_ok.1 h
    obtain ⟨_, -, h⟩ := Fallible.bind_eq_ok.1 h
    obtain ⟨entry, hsign, h⟩ := Fallible.bind_eq_ok.1 h
    have hsigned := Fallible.mapError_eq_ok.1 hsign
    rw [Entry.signMember] at hsigned
    split_ifs at hsigned
    obtain ⟨hvalid, sig, rfl⟩ := Entry.isValid_issued
      (e := .member node name addr.subnetId nowUnix Entry.zeroSig id.publicKey inviteId) rfl hown
      hsigned
    refine ⟨node, addr, sig, Fallible.mapError_eq_ok.1 hnode, Fallible.mapError_eq_ok.1 haddr,
      fun p hp heq => ?_, hvalid, announce_eq_ok hvalid h⟩
    exact absurd (List.find?_eq_none.1 hnew p hp) (by simp [heq])

/-! ### Where it gets to -/

section

variable {N : Type} [DecidableEq N] [Fintype N] {net : N → ServeConfig C} {E : Finset (Entry C)}
  {w : Net N C} {link : N → N → Prop} {ops : List (NetOp N)} {rounds : List (List (NetOp N))}

/-- A valid member or revocation entry by a signer on the list that arrives at one node is
covered by every node to which links lead, enough rounds later. -/
theorem Net.Sound.issued_spreads (h : w.Sound net E) (hnet : Net.OneNetwork net)
    (hcap : Net.Fits E)
    (hops : Along (Net.step net) (Net.Introduces net E) w ops)
    (hrounds : Along (run (Net.step net)) (Net.Round net E link) (run (Net.step net) w ops) rounds)
    (henough : Fintype.card N ≤ rounds.length + 1) {e : Entry C} (hvalid : e.isValid = true)
    (hkind : e.kind ≠ .endpoint) {j : N}
    (hauth : (net j).gossip.adminKeys = [] ∨ e.signer ∈ (net j).gossip.adminKeys)
    {src : Ipv6Addr} (hsrc : isWithinPrefix src (net j).gossip.pre = true)
    (hsent : ⟨(net j).ownAddress, ⟨e.encoding, src⟩⟩ ∈ w.wire) {r : Reading}
    (harrived : .deliver j ⟨(net j).ownAddress, ⟨e.encoding, src⟩⟩ r ∈ ops) {i : N}
    (hpath : Relation.ReflTransGen link j i) :
    ((run (run (Net.step net)) (run (Net.step net) w ops) rounds).station i).store.Covers e := by
  have hissuer : isUnauthorised (net j).gossip.adminKeys e = false := by
    refine Bool.eq_false_iff.2 fun hno => ?_
    obtain ⟨-, hne, hnot⟩ := (isUnauthorised_iff _ e).1 hno
    exact hauth.elim hne hnot
  have hacc : Datagram.accepted (net j).gossip ⟨e.encoding, src⟩ = some e :=
    Datagram.accepted_encoding hvalid hsrc hissuer
  have hcov := h.covers_arrived hcap hops hsent rfl hacc (isIgnored_of_kind hkind) harrived
  have hcarried : Relation.ReflTransGen (Net.Carries net link e.key) j i :=
    hpath.lift id fun m n hlink => ⟨hlink, fun hown => hkind (congrArg Prod.snd hown)⟩
  exact (h.along hops).reaches hnet hcap hrounds henough hcov hcarried

/-- **An admission reaches every daemon.**  If what `member add` has sent arrives at one node
that lists the signer, or nobody, then `n - 1` rounds later every node to which links lead
holds the member entry for the key that was given, with the name and the subnet, or one for
the same key that outranks it. -/
theorem memberAdd_spreads (hnet : Net.OneNetwork net)
    (hcap : Net.Fits E) (hstart : w.Started)
    (hwire : ∀ p ∈ w.wire, ∀ e, Entry.decode C p.datagram.buf = .ok e → e ∈ E)
    {before : List (NetOp N)} (hbefore : Along (Net.step net) (Net.Introduces net E) w before)
    (hops : Along (Net.step net) (Net.Introduces net E) (run (Net.step net) w before) ops)
    (hrounds : Along (run (Net.step net)) (Net.Round net E link)
      (run (Net.step net) (run (Net.step net) w before) ops) rounds)
    (henough : Fintype.card N ≤ rounds.length + 1)
    (hcommand : memberAdd cfg id name text nowUnix inviteId = .ok a) {j : N}
    (hauth : (net j).gossip.adminKeys = [] ∨ id.publicKey ∈ (net j).gossip.adminKeys)
    {src : Ipv6Addr} (hsrc : isWithinPrefix src (net j).gossip.pre = true)
    (hsent : ⟨(net j).ownAddress, ⟨a.bytes, src⟩⟩ ∈ (run (Net.step net) w before).wire)
    {r : Reading} (harrived : .deliver j ⟨(net j).ownAddress, ⟨a.bytes, src⟩⟩ r ∈ ops) {i : N}
    (hpath : Relation.ReflTransGen link j i) :
    let later := run (run (Net.step net)) (run (Net.step net) (run (Net.step net) w before) ops)
      rounds
    ∃ node addr sig, NodePublicKey.fromBase64 C text = .ok node ∧
      deriveNodeAddr cfg.pre node = .ok addr ∧
      ∃ e, (later.station i).store.memberOf node = some e ∧
        (e = .member node name addr.subnetId nowUnix sig id.publicKey inviteId ∨
          (Entry.member node name addr.subnetId nowUnix sig id.publicKey inviteId).rank <
            e.rank) := by
  intro later
  obtain ⟨node, addr, sig, hnode, haddr, -, hvalid, rfl⟩ := memberAdd_eq_ok hcommand
  have hsound := (hstart.sound hwire).along hbefore
  obtain ⟨e, he, hle⟩ := hsound.issued_spreads hnet hcap hops hrounds henough hvalid
    (fun h => by cases h) hauth hsrc hsent harrived hpath
  refine ⟨node, addr, sig, hnode, haddr, e, he, ?_⟩
  rcases hle.eq_or_lt with heq | hlt
  · exact Or.inl (Entry.rank_injOn ((later.station i).store.filed _ _ he).1 hvalid heq.symm)
  · exact Or.inr hlt

/-- **A revocation reaches every daemon, for good.**  If what `member revoke` has sent arrives
at one node that lists the signer, or nobody, then `n - 1` rounds later every node to which
links lead holds the key as revoked; and from then on, whatever happens, no datagram admits it
there as a member. -/
theorem memberRevoke_spreads (hnet : Net.OneNetwork net)
    (hcap : Net.Fits E) (hstart : w.Started)
    (hwire : ∀ p ∈ w.wire, ∀ e, Entry.decode C p.datagram.buf = .ok e → e ∈ E)
    {before : List (NetOp N)} (hbefore : Along (Net.step net) (Net.Introduces net E) w before)
    (hops : Along (Net.step net) (Net.Introduces net E) (run (Net.step net) w before) ops)
    (hrounds : Along (run (Net.step net)) (Net.Round net E link)
      (run (Net.step net) (run (Net.step net) w before) ops) rounds)
    (henough : Fintype.card N ≤ rounds.length + 1)
    (hcommand : memberRevoke cfg id text nowUnix = .ok a) {j : N}
    (hauth : (net j).gossip.adminKeys = [] ∨ id.publicKey ∈ (net j).gossip.adminKeys)
    {src : Ipv6Addr} (hsrc : isWithinPrefix src (net j).gossip.pre = true)
    (hsent : ⟨(net j).ownAddress, ⟨a.bytes, src⟩⟩ ∈ (run (Net.step net) w before).wire)
    {r : Reading} (harrived : .deliver j ⟨(net j).ownAddress, ⟨a.bytes, src⟩⟩ r ∈ ops) {i : N}
    (hpath : Relation.ReflTransGen link j i) :
    let later := run (run (Net.step net)) (run (Net.step net) (run (Net.step net) w before) ops)
      rounds
    ∃ node, NodePublicKey.fromBase64 C text = .ok node ∧ ∀ more : List (NetOp N),
      ((run (Net.step net) later more).station i).store.isRevoked node = true ∧
        ∀ d nodeName address,
          (handleDatagram (net i).gossip ((run (Net.step net) later more).station i).store d).1 ≠
            some (.memberAdmitted node nodeName address) := by
  intro later
  obtain ⟨node, sig, hnode, hvalid, rfl⟩ := memberRevoke_eq_ok hcommand
  have hsound := (hstart.sound hwire).along hbefore
  obtain ⟨e, he, -⟩ := hsound.issued_spreads hnet hcap hops hrounds henough hvalid
    (fun h => by cases h) hauth hsrc hsent harrived hpath
  have hrevoked : (later.station i).store.isRevoked node = true :=
    Option.isSome_iff_exists.2 ⟨e, he⟩
  refine ⟨node, hnode, fun more => ?_⟩
  have hkept : ((run (Net.step net) later more).station i).store.isRevoked node = true := by
    refine run_invariant (P := fun w : Net N C => (w.station i).store.isRevoked node = true)
      (fun w' op hw => ?_) hrevoked more
    rcases Net.store_step net w' op i with heq | ⟨d, heq⟩ <;> rw [heq]
    · exact hw
    · exact isRevoked_handleDatagram d hw
  exact ⟨hkept, fun d nodeName address hadmitted =>
    System.not_admits_of_isRevoked hkept (Option.mem_toList.2 hadmitted) rfl⟩

end

/-! ### Two nodes -/

local instance neZeroMembers : NeZero 2 := ⟨two_ne_zero⟩

/-- Node 9, on a machine that has node 1 as its peer. -/
def plainIssuer : NodeIdentity Crypto.plain := ⟨plainKey 9 0, fun _ => Entry.zeroSig, fun _ => rfl⟩

/-- The configuration of node 9. -/
def plainMemberConfig : File.Config Crypto.plain where
  networkName := "n"
  networkKey := ⟨zeros 32⟩
  pre := plainPrefix
  node :=
    { keyFile := [], listenPort := 4193, mtu := 1420, interface := "hextet0", probePort := 4195
      stateDir := [], keepalive := 25, lanDiscovery := false, lanPort := 4194, relay := false
      relayPort := 4196, relayAllow := [], gossipPort := 4197, gossip := true, adminKeys := []
      dht := false, httpAddr := none, httpPort := none, webDir := none, ddns := false
      ddnsFqdn := none, ddnsProvider := .webhook, ddnsWebhookUrl := none, ddnsSecret := none
      ddnsZone := none, ddnsResolver := none }
  peers :=
    [{ name := "one", publicKey := plainKey 1 0, endpoints := []
       addr := ⟨1, (plainNode 0).ownAddress, (plainNode 0).ownAddress⟩, relay := false
       relayPort := 4196, routes := [], ddns := none, keepalive := none }]

/-- Node 3 becomes a member. -/
def plainAdmitted : Entry Crypto.plain :=
  .member (plainKey 3 0) "m" 3 5 Entry.zeroSig (plainKey 9 0) (zeros 16)

theorem memberRevoke_plain : memberRevoke plainMemberConfig plainIssuer (plainKey 3 0).toBase64 5 =
    .ok ⟨plainRevoked.encoding, [(plainNode 0).ownAddress], 4197⟩ := by
  rw [memberRevoke, NodePublicKey.fromBase64_toBase64]
  rfl

theorem memberAdd_plain :
    memberAdd plainMemberConfig plainIssuer "m" (plainKey 3 0).toBase64 5 (zeros 16) =
      .ok ⟨plainAdmitted.encoding, [(plainNode 0).ownAddress], 4197⟩ := by
  rw [memberAdd, NodePublicKey.fromBase64_toBase64]
  rfl

section

variable {e : Entry Crypto.plain}

/-- The command on node 9 sends an entry to node 1. -/
def plainSent (e : Entry Crypto.plain) : List (NetOp (Fin 2)) := [.inject (plainPacket 0 e)]

/-- It arrives. -/
def plainHeard (e : Entry Crypto.plain) : List (NetOp (Fin 2)) :=
  [.deliver 0 (plainPacket 0 e) ⟨[plainAddr], 90⟩]

theorem mem_wire_plain (e : Entry Crypto.plain) :
    plainPacket 0 e ∈ (run (Net.step plainNode) plainNet (plainSent e)).wire := by
  change plainPacket 0 e ∈ plainPacket 0 e ::ₘ plainNet.wire
  exact Multiset.mem_cons_self _ _

theorem sent_plain (hvalid : e.isValid = true) : Along (Net.step plainNode)
    (Net.Introduces plainNode {e, plainOwn}) plainNet (plainSent e) :=
  ⟨(Net.news_plain hvalid).1, trivial⟩

theorem heard_plain (hvalid : e.isValid = true) : Along (Net.step plainNode)
    (Net.Introduces plainNode {e, plainOwn})
    (run (Net.step plainNode) plainNet (plainSent e)) (plainHeard e) :=
  (Net.news_plain hvalid).2

end

/-- Node 2 hears of node 3 from node 1. -/
theorem memberAdd_spreads_two :
    let later := run (run (Net.step plainNode)) (run (Net.step plainNode)
      (run (Net.step plainNode) plainNet (plainSent plainAdmitted)) (plainHeard plainAdmitted))
      [Net.plainRound plainAdmitted]
    ∃ node addr sig, NodePublicKey.fromBase64 Crypto.plain (plainKey 3 0).toBase64 = .ok node ∧
      deriveNodeAddr plainMemberConfig.pre node = .ok addr ∧
      ∃ e, (later.station 1).store.memberOf node = some e ∧
        (e = .member node "m" addr.subnetId 5 sig plainIssuer.publicKey (zeros 16) ∨
          (Entry.member node "m" addr.subnetId 5 sig plainIssuer.publicKey (zeros 16)).rank <
            e.rank) := by
  have hvalid : plainAdmitted.isValid = true := by decide +kernel
  have hround : Along (run (Net.step plainNode)) (Net.Round plainNode {plainAdmitted, plainOwn}
      (· ≠ ·)) (run (Net.step plainNode) (run (Net.step plainNode) plainNet
        (plainSent plainAdmitted)) (plainHeard plainAdmitted)) [Net.plainRound plainAdmitted] :=
    ⟨Net.round_plain (by decide +kernel) (by decide +kernel), trivial⟩
  have hlink : (0 : Fin 2) ≠ 1 := by decide
  have hspread := memberAdd_spreads Net.oneNetwork_plain (Net.fits_pair _ _) Net.started_plain
    Net.wire_plain (sent_plain hvalid) (heard_plain hvalid) hround (by decide) memberAdd_plain
    (Or.inl rfl) (by decide +kernel) (mem_wire_plain _) (List.mem_singleton_self _) (.single hlink)
  exact hspread

/-- Node 2 hears of the revocation of node 3 from node 1. -/
theorem memberRevoke_spreads_two :
    let later := run (run (Net.step plainNode)) (run (Net.step plainNode)
      (run (Net.step plainNode) plainNet (plainSent plainRevoked)) (plainHeard plainRevoked))
      [Net.plainRound plainRevoked, Net.plainRound plainRevoked]
    ∃ node, NodePublicKey.fromBase64 Crypto.plain (plainKey 3 0).toBase64 = .ok node ∧
      ∀ more : List (NetOp (Fin 2)),
        ((run (Net.step plainNode) later more).station 1).store.isRevoked node = true ∧
          ∀ d nodeName address, (handleDatagram (plainNode 1).gossip
            ((run (Net.step plainNode) later more).station 1).store d).1 ≠
              some (.memberAdmitted node nodeName address) := by
  have hvalid := Net.isValid_plainRevoked
  have hrounds : Along (run (Net.step plainNode)) (Net.Round plainNode {plainRevoked, plainOwn}
      (· ≠ ·)) (run (Net.step plainNode) (run (Net.step plainNode) plainNet
        (plainSent plainRevoked)) (plainHeard plainRevoked))
      [Net.plainRound plainRevoked, Net.plainRound plainRevoked] := by
    rw [← run_append]
    exact Net.rounds_plain
  have hlink : (0 : Fin 2) ≠ 1 := by decide
  have hspread := memberRevoke_spreads Net.oneNetwork_plain (Net.fits_pair _ _) Net.started_plain
    Net.wire_plain (sent_plain hvalid) (heard_plain hvalid) hrounds (by decide) memberRevoke_plain
    (Or.inl rfl) (by decide +kernel) (mem_wire_plain _) (List.mem_singleton_self _) (.single hlink)
  exact hspread

end Hextet
