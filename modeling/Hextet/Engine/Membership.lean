/-
# Who is in the runtime table

The part of `crates/engine/src/daemon.rs` through which peers enter and leave:
the startup and `on_membership_event`.  At startup the table is the configured
peers and the readable members of the file; an admission appends a peer that is
not there and a revocation erases the peer.

`Table net` says that the table is keyed by distinct nodes of `net`, each under
its own text and with its own WireGuard key.  It holds at startup for a file that
the daemon wrote (`table_startup`) and is kept by every input (`Sound.step`).
-/

import Hextet.Engine.System

namespace Hextet

open Lib

variable {C : Crypto}

/-- The event admits the node. -/
def GossipEvent.Admits (node : NodePublicKey C) : GossipEvent C → Prop
  | .memberAdmitted n _ _ => n = node
  | _ => False

/-- The node that an event of membership is about. -/
def GossipEvent.subject : GossipEvent C → Option (NodePublicKey C)
  | .discovered _ => none
  | .memberAdmitted n _ _ => some n
  | .revoked n => some n

/-- An event of membership is about the subject of an accepted entry. -/
theorem accepted_of_subject {cfg : GossipConfig C} {s : GossipStore C} {d : Datagram}
    {x : GossipEvent C} {node : NodePublicKey C} (h : (handleDatagram cfg s d).1 = some x)
    (hx : x.subject = some node) : ∃ e, d.accepted cfg = some e ∧ e.node = node := by
  rcases handleDatagram_cases cfg s d with heq | ⟨e, s', hacc, -, -, heq⟩
  · rw [heq] at h
    cases h
  · refine ⟨e, hacc, ?_⟩
    rw [heq] at h
    cases e with
    | endpoint =>
        cases h
        cases hx
    | revocation =>
        cases h
        exact Option.some.inj hx
    | member =>
        simp only [eventOf] at h
        split_ifs at h
        split at h
        · cases h
          exact Option.some.inj hx
        · cases h

/-- The identity of a peer that gossip admitted. -/
def memberInfo (keepalive : UInt16) (name keyB64 : String) (wgPublic : Bytes 32)
    (overlay : Ipv6Addr) : PeerInfo where
  name := name
  keyB64 := keyB64
  wgPublic := wgPublic
  overlay := overlay
  configured := []
  routes := []
  ddns := none
  onDemand := (keepaliveOpt keepalive).isNone
  keepalive := keepaliveOpt keepalive

/-- Erasing a peer by its key erases the key. -/
theorem map_keyB64_eraseP (infos : List PeerInfo) (k : String) :
    (infos.eraseP fun i => i.keyB64 = k).map PeerInfo.keyB64 =
      (infos.map PeerInfo.keyB64).erase k := by
  rw [List.erase_eq_eraseP, List.eraseP_map]
  congr 2
  funext i
  rw [Function.comp_apply, Bool.eq_iff_iff, beq_iff_eq, decide_eq_true_eq, eq_comm]

/-! ### The two handlers -/

namespace Daemon

variable (d : Daemon C) (ctx : Ctx) (node : NodePublicKey C)

/-- An admission of a peer in the table is ignored. -/
theorem onMemberAdmitted_of_mem (name : String) (address : Ipv6Addr) (now : SystemTime)
    (h : node.toBase64 ∈ d.keys) : d.onMemberAdmitted ctx node name address now = (d, []) :=
  if_pos h

/-- What an admission of a new node does. -/
structure Enters (name : String) (address : Ipv6Addr) (r : Daemon C × List (Effect C)) : Prop where
  infos : r.1.infos = d.infos ++
    [memberInfo ctx.keepalive name node.toBase64 node.wgPublicBytes address]
  members : r.1.members = (d.members.upsert ⟨name, node.toBase64, address⟩).1
  calls : wgCalls r.2 = [.addPeer ⟨node.wgPublicBytes, none, [(siteOf address, 64)],
    keepaliveOpt ctx.keepalive⟩]
  saved : r.2.filterMap Effect.savedMembers? = [r.1.members]

/-- **An admission of a new node appends it** to the table, the member table and
the device. -/
theorem enters_onMemberAdmitted (name : String) (address : Ipv6Addr) (now : SystemTime)
    (h : node.toBase64 ∉ d.keys) :
    d.Enters ctx node name address (d.onMemberAdmitted ctx node name address now) := by
  rw [onMemberAdmitted, if_neg h]
  exact ⟨by simp [infos, memberPeer, memberInfo], rfl, rfl, rfl⟩

/-- What a revocation does. -/
structure Leaves (r : Daemon C × List (Effect C)) : Prop where
  infos : r.1.infos = d.infos.eraseP fun i => i.keyB64 = node.toBase64
  members : r.1.members = (d.members.remove node.toBase64).1
  calls : wgCalls r.2 = [.removePeer node.wgPublicBytes]
  saved : r.2.filterMap Effect.savedMembers? =
    if (d.members.remove node.toBase64).2 then [r.1.members] else []

/-- **A revocation erases the node** from the table, the member table and the
device. -/
theorem leaves_onRevoked : d.Leaves node (d.onRevoked node) := by
  refine ⟨?_, rfl, ?_, ?_⟩
  · simp only [onRevoked, infos, List.eraseP_map]
    rfl
  · simp only [onRevoked]
    split_ifs <;> rfl
  · simp only [onRevoked]
    split_ifs <;> rfl

variable {d ctx node}

theorem Enters.keys {name : String} {address : Ipv6Addr} {r : Daemon C × List (Effect C)}
    (h : d.Enters ctx node name address r) : r.1.keys = d.keys ++ [node.toBase64] := by
  rw [keys_eq, keys_eq, h.infos, List.map_append]
  rfl

theorem Leaves.keys {r : Daemon C × List (Effect C)} (h : d.Leaves node r) :
    r.1.keys = d.keys.erase node.toBase64 := by
  rw [keys_eq, keys_eq, h.infos, map_keyB64_eraseP]

end Daemon

/-! ### Tables of distinct nodes -/

/-- The table is keyed by distinct nodes of `net`, each under its own text and
with its own WireGuard key. -/
structure Table (net : Set (NodePublicKey C)) (infos : List PeerInfo) : Prop where
  named : ∀ i ∈ infos, ∃ node ∈ net, i.keyB64 = node.toBase64 ∧ i.wgPublic = node.wgPublicBytes
  nodup : (infos.map PeerInfo.keyB64).Nodup

namespace Table

variable {net : Set (NodePublicKey C)} {infos : List PeerInfo}

/-- Entering a node that is not there. -/
theorem enter (h : Table net infos) {i : PeerInfo} {node : NodePublicKey C} (hnode : node ∈ net)
    (hkey : i.keyB64 = node.toBase64) (hwg : i.wgPublic = node.wgPublicBytes)
    (hnot : node.toBase64 ∉ infos.map PeerInfo.keyB64) : Table net (infos ++ [i]) where
  named j hj := by
    rcases List.mem_append.1 hj with hj | hj
    · exact h.named j hj
    · obtain rfl := List.mem_singleton.1 hj
      exact ⟨node, hnode, hkey, hwg⟩
  nodup := by
    rw [List.map_append]
    exact h.nodup.append (List.nodup_singleton _) (by simpa [hkey] using hnot)

/-- Erasing a node. -/
theorem leave (h : Table net infos) (p : PeerInfo → Bool) : Table net (infos.eraseP p) where
  named i hi := h.named i (List.mem_of_mem_eraseP hi)
  nodup := h.nodup.sublist ((List.eraseP_sublist).map _)

/-- A node that is erased is gone. -/
theorem keyB64_ne_of_mem_eraseP (h : Table net infos) {k : String} {i : PeerInfo}
    (hi : i ∈ infos.eraseP fun i => i.keyB64 = k) : i.keyB64 ≠ k := by
  have hmem := List.mem_map_of_mem (f := PeerInfo.keyB64) hi
  rw [map_keyB64_eraseP] at hmem
  exact (h.nodup.mem_erase_iff.1 hmem).1

/-- **A peer with the WireGuard key of a node is that node**, where distinct nodes
have distinct WireGuard keys. -/
theorem keyB64_of_wgPublic (h : Table net infos) (hwg : Set.InjOn NodePublicKey.wgPublicBytes net)
    {node : NodePublicKey C} (hnode : node ∈ net) {i : PeerInfo} (hi : i ∈ infos)
    (heq : i.wgPublic = node.wgPublicBytes) : i.keyB64 = node.toBase64 := by
  obtain ⟨node', hnode', hkey, hwg'⟩ := h.named i hi
  rw [hkey, hwg hnode' hnode (hwg'.symm.trans heq)]

end Table

/-! ### Startup -/

/-- A persisted peer keeps the text and the address of its record. -/
theorem persistedPeer_eq_some {cfg : Config C} {cache : EndpointCache} {start : SystemTime}
    {m : MemberRecord} {p : PeerRuntime C} (h : persistedPeer cfg cache start m = some p) :
    m.publicKey ∉ cfg.peers.map (fun p => p.publicKey.toBase64) ∧
      ∃ node : NodePublicKey C, NodePublicKey.fromBase64 C m.publicKey = .ok node ∧
        p.toPeerInfo =
          memberInfo cfg.node.keepalive m.name m.publicKey node.wgPublicBytes m.address := by
  unfold persistedPeer at h
  split_ifs at h with hmem
  split at h
  · cases h
  · rename_i node hnode
    cases h
    exact ⟨hmem, node, hnode, rfl⟩

/-- A member of a written file enters unless it is configured. -/
theorem persistedPeer_of_written {cfg : Config C} (cache : EndpointCache) (start : SystemTime)
    {m : MemberRecord} {node : NodePublicKey C} (hm : m.publicKey = node.toBase64)
    (hnot : m.publicKey ∉ cfg.peers.map fun p => p.publicKey.toBase64) :
    ∃ p, persistedPeer cfg cache start m = some p := by
  rw [persistedPeer, if_neg hnot, hm, NodePublicKey.fromBase64_toBase64]
  exact ⟨_, rfl⟩

/-- The configured keys, as texts. -/
def Config.keys (cfg : Config C) : List String := cfg.peers.map fun p => p.publicKey.toBase64

theorem Config.keys_nodup (cfg : Config C) : cfg.keys.Nodup := by
  have h : cfg.keys.Pairwise (· ≠ ·) := List.pairwise_map.2
    (cfg.valid.keys.imp fun hne h => hne (NodePublicKey.toBase64_injective h))
  exact h

theorem keys_startup (cfg : Config C) (cache : EndpointCache) (members : MembersFile)
    (start : SystemTime) :
    (Daemon.startup cfg cache members start).keys = cfg.keys ++
      (members.members.filterMap (persistedPeer cfg cache start)).map fun p => p.keyB64 := by
  rw [Daemon.startup, Daemon.keys, startupPeers, List.map_append, List.map_map]
  rfl

/-- The persisted peers keep the order of the file. -/
theorem keys_persisted_sublist (cfg : Config C) (cache : EndpointCache) (members : MembersFile)
    (start : SystemTime) :
    ((members.members.filterMap (persistedPeer cfg cache start)).map
      fun p => p.keyB64).Sublist members.keys := by
  obtain ⟨ms⟩ := members
  simp only [MembersFile.keys]
  induction ms with
  | nil => exact List.Sublist.refl _
  | cons m ms ih =>
      cases hm : persistedPeer cfg cache start m with
      | none =>
          rw [List.filterMap_cons_none hm]
          exact ih.cons _
      | some p =>
          obtain ⟨-, node, -, hinfo⟩ := persistedPeer_eq_some hm
          have hkey : p.keyB64 = m.publicKey := by rw [hinfo]; rfl
          rw [List.filterMap_cons_some hm, List.map_cons, List.map_cons, hkey]
          exact ih.cons_cons _

/-- **The keys at startup**: the configured ones, and those of the members. -/
theorem mem_keys_startup {cfg : Config C} {cache : EndpointCache} {members : MembersFile}
    {start : SystemTime} (hw : MembersFile.Written C members) {s : String} :
    s ∈ (Daemon.startup cfg cache members start).keys ↔ s ∈ cfg.keys ∨ s ∈ members.keys := by
  rw [keys_startup, List.mem_append]
  constructor
  · rintro (h | h)
    · exact Or.inl h
    · obtain ⟨p, hp, rfl⟩ := List.mem_map.1 h
      obtain ⟨m, hm, hmp⟩ := List.mem_filterMap.1 hp
      obtain ⟨-, node, -, hinfo⟩ := persistedPeer_eq_some hmp
      refine Or.inr (List.mem_map.2 ⟨m, hm, ?_⟩)
      rw [hinfo]
      rfl
  · rintro (h | h)
    · exact Or.inl h
    · obtain ⟨m, hm, rfl⟩ := List.mem_map.1 h
      by_cases hmem : m.publicKey ∈ cfg.keys
      · exact Or.inl hmem
      · obtain ⟨node, hnode⟩ := hw.canonical m hm
        obtain ⟨p, hp⟩ := persistedPeer_of_written cache start hnode hmem
        obtain ⟨-, node', -, hinfo⟩ := persistedPeer_eq_some hp
        refine Or.inr (List.mem_map.2 ⟨p, List.mem_filterMap.2 ⟨m, hm, hp⟩, ?_⟩)
        rw [hinfo]
        rfl

/-- **The table at startup is keyed by distinct nodes**, for a member file that
the daemon wrote. -/
theorem table_startup {cfg : Config C} {cache : EndpointCache} {members : MembersFile}
    {start : SystemTime} {net : Set (NodePublicKey C)} (hw : MembersFile.Written C members)
    (hcfg : ∀ p ∈ cfg.peers, p.publicKey ∈ net)
    (hmem : ∀ node : NodePublicKey C, node.toBase64 ∈ members.keys → node ∈ net) :
    Table net (Daemon.startup cfg cache members start).infos where
  named i hi := by
    obtain ⟨p, hp, rfl⟩ := List.mem_map.1 hi
    rcases List.mem_append.1 hp with hp | hp
    · obtain ⟨q, hq, rfl⟩ := List.mem_map.1 hp
      exact ⟨q.publicKey, hcfg q hq, rfl, rfl⟩
    · obtain ⟨m, hm, hmp⟩ := List.mem_filterMap.1 hp
      obtain ⟨-, node, hnode, hinfo⟩ := persistedPeer_eq_some hmp
      obtain ⟨node', hnode'⟩ := hw.canonical m hm
      rw [hnode', NodePublicKey.fromBase64_toBase64] at hnode
      obtain rfl : node' = node := Except.ok.inj hnode
      refine ⟨node', hmem node' (hnode' ▸ List.mem_map_of_mem hm), ?_, ?_⟩
      · rw [hinfo]
        exact hnode'
      · rw [hinfo]
        rfl
  nodup := by
    rw [← Daemon.keys_eq, keys_startup]
    refine cfg.keys_nodup.append (hw.nodup.sublist (keys_persisted_sublist ..)) fun s hs hs' => ?_
    obtain ⟨p, hp, rfl⟩ := List.mem_map.1 hs'
    obtain ⟨m, -, hmp⟩ := List.mem_filterMap.1 hp
    obtain ⟨hnot, node, -, hinfo⟩ := persistedPeer_eq_some hmp
    rw [hinfo] at hs
    exact hnot hs

/-! ### Every input -/

namespace System

/-- What an input does to the store and the channel: a datagram appends its
event, anything else takes at most the first event. -/
theorem store_queue_step (cfg : Config C) (s : System C) (i : Input) :
    (∃ d, i = .datagram d ∧ (s.step cfg i).store = (handleDatagram cfg.gossip s.store d).2 ∧
      (s.step cfg i).queue = s.queue ++ (handleDatagram cfg.gossip s.store d).1.toList) ∨
    ((s.step cfg i).store = s.store ∧
      ((s.step cfg i).queue = s.queue ∨ ∃ x, s.queue = x :: (s.step cfg i).queue)) := by
  rcases step_cases cfg s i with ⟨d, rfl, heq⟩ | ⟨hq, hqueue⟩ |
    ⟨node, name, address, clock, saved, rest, rfl, hqueue, heq⟩ |
    ⟨node, clock, saved, rest, rfl, hqueue, heq⟩
  · exact Or.inl ⟨d, rfl, by rw [heq], by rw [heq]⟩
  · refine Or.inr ⟨hq.store, hqueue.imp id ?_⟩
    rintro ⟨update, h⟩
    exact ⟨_, h⟩
  · rw [heq]
    exact Or.inr ⟨rfl, Or.inr ⟨_, hqueue⟩⟩
  · rw [heq]
    exact Or.inr ⟨rfl, Or.inr ⟨_, hqueue⟩⟩

/-- **What is in flight after an input** was before it, or comes from its datagram. -/
theorem mem_queue_step {cfg : Config C} {s : System C} {i : Input} {x : GossipEvent C}
    (hx : x ∈ (s.step cfg i).queue) :
    x ∈ s.queue ∨ ∃ d, i = .datagram d ∧ (handleDatagram cfg.gossip s.store d).1 = some x := by
  rcases store_queue_step cfg s i with ⟨d, hd, -, hq⟩ | ⟨-, hq | ⟨y, hq⟩⟩
  · rw [hq] at hx
    rcases List.mem_append.1 hx with hx | hx
    · exact Or.inl hx
    · exact Or.inr ⟨d, hd, Option.mem_toList.1 hx⟩
  · exact Or.inl (hq ▸ hx)
  · exact Or.inl (hq ▸ List.mem_cons_of_mem y hx)

/-- A step after which the same peers stand in the table: the backend calls are those
of actions of these peers. -/
structure Stays (s s' : System C) : Prop where
  infos : s'.daemon.infos = s.daemon.infos
  members : s'.daemon.members = s.daemon.members
  disk : s'.disk = s.disk
  calls : ∃ cs, ActsFor s.daemon.infos cs ∧ s'.log = s.log ++ cs ∧
    s'.device = s.device.calls cs

/-- A step in which a new node is appended to the tables and the device. -/
structure Enters (cfg : Config C) (node : NodePublicKey C) (name : String) (address : Ipv6Addr)
    (saved : Bool) (s s' : System C) : Prop where
  fresh : node.toBase64 ∉ s.daemon.keys
  infos : s'.daemon.infos = s.daemon.infos ++
    [memberInfo cfg.ctx.keepalive name node.toBase64 node.wgPublicBytes address]
  members : s'.daemon.members = (s.daemon.members.upsert ⟨name, node.toBase64, address⟩).1
  disk : s'.disk = if saved then s'.daemon.members else s.disk
  calls : ∃ spec, spec = ⟨node.wgPublicBytes, none, [(siteOf address, 64)],
    keepaliveOpt cfg.ctx.keepalive⟩ ∧ s'.log = s.log ++ [.addPeer spec] ∧
      s'.device = s.device.addPeer spec

/-- A step in which a node is erased from the tables and the device. -/
structure Leaves (node : NodePublicKey C) (saved : Bool) (s s' : System C) : Prop where
  infos : s'.daemon.infos = s.daemon.infos.eraseP fun i => i.keyB64 = node.toBase64
  members : s'.daemon.members = (s.daemon.members.remove node.toBase64).1
  disk : s'.disk = if saved && (s.daemon.members.remove node.toBase64).2 then s'.daemon.members
    else s.disk
  log : s'.log = s.log ++ [.removePeer node.wgPublicBytes]
  device : s'.device = s.device.removePeer node.wgPublicBytes

/-- **What an input does to the tables and the device**: actions of peers that are
there, a new node that enters, or a node that leaves. -/
theorem table_step (cfg : Config C) (s : System C) (i : Input) :
    Stays s (s.step cfg i) ∨
    (∃ node name address clock saved rest, i = .gossip clock saved ∧
      s.queue = .memberAdmitted node name address :: rest ∧
      Enters cfg node name address saved s (s.step cfg i)) ∨
    (∃ node clock saved rest, i = .gossip clock saved ∧ s.queue = .revoked node :: rest ∧
      Leaves node saved s (s.step cfg i)) := by
  rcases step_cases cfg s i with ⟨d, rfl, heq⟩ | ⟨hq, -⟩ |
    ⟨node, name, address, clock, saved, rest, rfl, hqueue, heq⟩ |
    ⟨node, clock, saved, rest, rfl, hqueue, heq⟩
  · rw [heq]
    exact Or.inl ⟨rfl, rfl, rfl, [], .nil, by simp, rfl⟩
  · exact Or.inl ⟨hq.infos, hq.members, hq.disk, hq.calls⟩
  · rw [heq]
    by_cases hmem : node.toBase64 ∈ s.daemon.keys
    · have hsame := s.daemon.onMemberAdmitted_of_mem cfg.ctx node name address (clock 0) hmem
      refine Or.inl ⟨?_, ?_, ?_, [], .nil, ?_, ?_⟩
      · simp only [admitted, perform, hsame]
      · simp only [admitted, perform, hsame]
      · simp [admitted, perform, hsame, savedBy]
      · simp only [admitted, perform, hsame, wgCalls_nil]
      · simp only [admitted, perform, hsame, wgCalls_nil]
    · have henters := s.daemon.enters_onMemberAdmitted cfg.ctx node name address (clock 0) hmem
      refine Or.inr (Or.inl ⟨node, name, address, clock, saved, rest, rfl, hqueue, hmem,
        henters.infos, henters.members, ?_, _, rfl, ?_, ?_⟩)
      · simp [admitted, perform, savedBy, henters.saved]
      · simp only [admitted, perform, henters.calls]
      · simp only [admitted, perform, henters.calls]
        rfl
  · rw [heq]
    have hleaves := s.daemon.leaves_onRevoked node
    refine Or.inr (Or.inr ⟨node, clock, saved, rest, rfl, hqueue, hleaves.infos, hleaves.members,
      ?_, ?_, ?_⟩)
    · cases saved with
      | false => rfl
      | true =>
          cases hremoved : (s.daemon.members.remove node.toBase64).2 <;>
            simp [revoked, perform, savedBy, hleaves.saved, hremoved]
    · simp only [revoked, perform, hleaves.calls]
    · simp only [revoked, perform, hleaves.calls]
      rfl

section Tables

variable {cfg : Config C} {node : NodePublicKey C} {name : String} {address : Ipv6Addr}
  {saved : Bool} {s s' : System C}

theorem Stays.keys (h : Stays s s') : s'.daemon.keys = s.daemon.keys := by
  rw [Daemon.keys_eq, Daemon.keys_eq, h.infos]

theorem Enters.keys (h : Enters cfg node name address saved s s') :
    s'.daemon.keys = s.daemon.keys ++ [node.toBase64] := by
  rw [Daemon.keys_eq, Daemon.keys_eq, h.infos, List.map_append]
  rfl

theorem Leaves.keys (h : Leaves node saved s s') :
    s'.daemon.keys = s.daemon.keys.erase node.toBase64 := by
  rw [Daemon.keys_eq, Daemon.keys_eq, h.infos, map_keyB64_eraseP]

end Tables

/-- The entry that a datagram brings, if it is accepted, is about a node of
`net`. -/
def Within (cfg : Config C) (net : Set (NodePublicKey C)) (i : Input) : Prop :=
  ∀ d e, i = .datagram d → d.accepted cfg.gossip = some e → e.node ∈ net

/-- The nodes that a run meets: the configured ones, those of the member file, and
the subjects of the entries it accepts. -/
def met (cfg : Config C) (u : Startup) (is : List Input) : Set (NodePublicKey C) :=
  {node | (∃ p ∈ cfg.peers, p.publicKey = node) ∨ node.toBase64 ∈ u.members.keys ∨
    ∃ d e, .datagram d ∈ is ∧ d.accepted cfg.gossip = some e ∧ e.node = node}

theorem within_met (cfg : Config C) (u : Startup) {is : List Input} {i : Input} (hi : i ∈ is) :
    Within cfg (met cfg u is) i := by
  rintro d e rfl he
  exact Or.inr (Or.inr ⟨d, e, hi, he, rfl⟩)

/-- The table and the member table are keyed by distinct nodes, and those of the
table and of the events in flight are nodes of `net`. -/
structure Sound (net : Set (NodePublicKey C)) (s : System C) : Prop where
  table : Table net s.daemon.infos
  written : MembersFile.Written C s.daemon.members
  queue : ∀ x ∈ s.queue, ∀ node, x.subject = some node → node ∈ net

namespace Sound

variable {cfg : Config C} {net : Set (NodePublicKey C)} {s : System C}

theorem keys_nodup (h : Sound net s) : s.daemon.keys.Nodup := by
  rw [Daemon.keys_eq]
  exact h.table.nodup

/-- A node whose WireGuard key a peer of the table has is in the table, where
distinct nodes have distinct WireGuard keys. -/
theorem mem_keys_of_wgPublic (h : Sound net s) (hwg : Set.InjOn NodePublicKey.wgPublicBytes net)
    {node : NodePublicKey C} (hnode : node ∈ net) {i : PeerInfo} (hi : i ∈ s.daemon.infos)
    (heq : i.wgPublic = node.wgPublicBytes) : node.toBase64 ∈ s.daemon.keys := by
  rw [← h.table.keyB64_of_wgPublic hwg hnode hi heq]
  exact Daemon.keyB64_mem_keys hi

theorem queue_step (h : Sound net s) {i : Input} (hi : Within cfg net i) :
    ∀ x ∈ (s.step cfg i).queue, ∀ node, x.subject = some node → node ∈ net := by
  intro x hx node hnode
  rcases mem_queue_step hx with hx | ⟨d, hd, hx⟩
  · exact h.queue x hx node hnode
  · obtain ⟨e, hacc, rfl⟩ := accepted_of_subject hx hnode
    exact hi d e hd hacc

/-- **Every input keeps the tables keyed by distinct nodes.** -/
theorem step (h : Sound net s) {i : Input} (hi : Within cfg net i) :
    Sound net (s.step cfg i) := by
  have hqueue := h.queue_step hi
  rcases table_step cfg s i with hstays |
    ⟨node, name, address, clock, saved, rest, rfl, hnode, henters⟩ |
    ⟨node, clock, saved, rest, rfl, -, hleaves⟩
  · exact ⟨hstays.infos ▸ h.table, hstays.members ▸ h.written, hqueue⟩
  · refine ⟨?_, ?_, hqueue⟩
    · rw [henters.infos]
      refine h.table.enter (h.queue _ (hnode ▸ List.mem_cons_self) node rfl) rfl rfl ?_
      rw [← Daemon.keys_eq]
      exact henters.fresh
    · rw [henters.members]
      exact h.written.upsert name node address
  · refine ⟨?_, ?_, hqueue⟩
    · rw [hleaves.infos]
      exact h.table.leave _
    · rw [hleaves.members]
      exact h.written.remove _

/-- **The state at the entry of the main loop is sound**, for a member file that the
daemon wrote. -/
theorem boot (cfg : Config C) (u : Startup) (hw : MembersFile.Written C u.members)
    (hcfg : ∀ p ∈ cfg.peers, p.publicKey ∈ net)
    (hmem : ∀ node : NodePublicKey C, node.toBase64 ∈ u.members.keys → node ∈ net) :
    Sound net (System.boot cfg u) := by
  refine ⟨?_, ?_, by simp⟩
  · rw [infos_boot]
    exact table_startup hw hcfg hmem
  · rw [members_boot]
    exact hw

/-- **Every state of a run is sound.** -/
theorem after (cfg : Config C) (u : Startup) (hw : MembersFile.Written C u.members)
    (hcfg : ∀ p ∈ cfg.peers, p.publicKey ∈ net)
    (hmem : ∀ node : NodePublicKey C, node.toBase64 ∈ u.members.keys → node ∈ net)
    {is : List Input} (his : ∀ i ∈ is, Within cfg net i) :
    Sound net (System.after cfg (System.boot cfg u) is) :=
  Along.invariant (fun _ _ h hi => h.step hi) (Sound.boot cfg u hw hcfg hmem)
    (Along.of_forall his _)

end Sound

end System

end Hextet
