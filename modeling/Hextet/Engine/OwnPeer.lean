/-
# Can a node become its own peer?

`handle_datagram` in `crates/engine/src/gossip.rs` drops an endpoint entry of this node
before the merge, but merges a member entry about this node like any other: the node is then
admitted to its own table, added to its own device, made a target of its own gossip and
written to `members.json`, from where it comes back at the next start.

`Lifetime` is the daemon over any number of restarts, each of which finds the member file
that the last run left.  Where neither the configuration nor the first member file names this
node under its WireGuard key or its overlay address, and no such node is admitted on the way,
it never meets itself (`never_own_peer`).
-/

import Hextet.Engine.Channels

namespace Hextet

open Lib

variable {C : Crypto}

/-! ### The daemon over its restarts -/

/-- The targets that a message gives to the gossip task. -/
def Control.targets? : Control → Option (List Ipv6Addr)
  | .gossip targets => some targets
  | _ => none

/-- The targets that an input gives to the gossip task. -/
def System.targetsGiven (cfg : Config C) (s : System C) : Input → List (List Ipv6Addr)
  | .gossip clock _ =>
      match s.queue with
      | [] => []
      | event :: _ => (s.daemon.controls cfg.ctx clock event).filterMap Control.targets?
  | _ => []

/-- The daemon, and the targets that its gossip tasks were given so far. -/
structure Lifetime (C : Crypto) where
  sys : System C
  targets : List (List Ipv6Addr)

/-- What happens to the daemon. -/
inductive LifeOp where
  | input (i : Input)
  /-- A restart, which reads the member file that is there. -/
  | restart (u : System.Startup)

namespace Lifetime

/-- `run_async` up to the main loop. -/
def boot (cfg : Config C) (u : System.Startup) : Lifetime C where
  sys := System.boot cfg u
  targets := [(System.boot cfg u).daemon.peers.map fun p => p.overlay]

/-- One event in the life of the daemon. -/
def step (cfg : Config C) (s : Lifetime C) : LifeOp → Lifetime C
  | .input i => ⟨s.sys.step cfg i, s.targets ++ s.sys.targetsGiven cfg i⟩
  | .restart u =>
      let new := boot cfg { u with disk := s.sys.disk }
      ⟨{ new.sys with log := s.sys.log ++ new.sys.log }, s.targets ++ new.targets⟩

/-- **The node has never been its own peer**: its key is not in the table, its WireGuard key
was not given to `add_peer`, and its overlay address was not a target of gossip. -/
structure NeverOwn (cfg : Config C) (s : Lifetime C) : Prop where
  table : cfg.own.toBase64 ∉ s.sys.daemon.keys
  added : ∀ spec, .addPeer spec ∈ s.sys.log → spec.wgPublic ≠ cfg.own.wgPublicBytes
  targets : ∀ targets ∈ s.targets, cfg.ownAddr.address ∉ targets

end Lifetime

/-! ### Other nodes -/

/-- The node has another WireGuard key and another overlay address than this node. -/
def Config.IsOther (cfg : Config C) (node : NodePublicKey C) : Prop :=
  node.wgPublicBytes ≠ cfg.own.wgPublicBytes ∧
    ∀ a, deriveNodeAddr cfg.pre node = .ok a → a.address ≠ cfg.ownAddr.address

/-- The record is of a node with another WireGuard key, at another overlay address. -/
def Config.IsOtherRecord (cfg : Config C) (m : MemberRecord) : Prop :=
  m.address ≠ cfg.ownAddr.address ∧
    ∀ node : NodePublicKey C, NodePublicKey.fromBase64 C m.publicKey = .ok node →
      node.wgPublicBytes ≠ cfg.own.wgPublicBytes

namespace Lifetime

/-- A datagram does not bring in this node: a member entry that is taken up, about a node that
is not revoked, is about another node. -/
def BringsOthers (cfg : Config C) (s : Lifetime C) : LifeOp → Prop
  | .input (.datagram d) =>
      ∀ e ∈ d.accepted cfg.gossip, e.kind = .member → Takes cfg.gossip s.sys.store e →
        s.sys.store.isRevoked e.node = false → cfg.IsOther e.node
  | _ => True

/-- The peer is another node. -/
structure OtherInfo (cfg : Config C) (i : PeerInfo) : Prop where
  key : i.keyB64 ≠ cfg.own.toBase64
  wg : i.wgPublic ≠ cfg.own.wgPublicBytes
  overlay : i.overlay ≠ cfg.ownAddr.address

/-- Every peer, member and admission is of another node, and was so far. -/
structure Others (cfg : Config C) (s : Lifetime C) : Prop where
  infos : ∀ i ∈ s.sys.daemon.infos, OtherInfo cfg i
  members : ∀ m ∈ s.sys.daemon.members.members, cfg.IsOtherRecord m
  disk : ∀ m ∈ s.sys.disk.members, cfg.IsOtherRecord m
  queue : ∀ node name address, .memberAdmitted node name address ∈ s.sys.queue →
    node.wgPublicBytes ≠ cfg.own.wgPublicBytes ∧ address ≠ cfg.ownAddr.address
  added : ∀ spec, .addPeer spec ∈ s.sys.log → spec.wgPublic ≠ cfg.own.wgPublicBytes
  targets : ∀ targets ∈ s.targets, cfg.ownAddr.address ∉ targets

variable {cfg : Config C} {s : Lifetime C}

theorem Others.neverOwn (h : s.Others cfg) : s.NeverOwn cfg := by
  refine ⟨fun hmem => ?_, h.added, h.targets⟩
  rw [Daemon.keys_eq] at hmem
  obtain ⟨i, hi, hkey⟩ := List.mem_map.1 hmem
  exact (h.infos i hi).key hkey

/-- A node whose text is that of a record has the WireGuard key that the record gives. -/
theorem key_ne_of_isOtherRecord {m : MemberRecord} (h : cfg.IsOtherRecord m) :
    m.publicKey ≠ cfg.own.toBase64 := by
  intro hkey
  refine h.2 cfg.own ?_ rfl
  rw [hkey, NodePublicKey.fromBase64_toBase64]

/-- A new node of another WireGuard key has another key. -/
theorem otherInfo_member {node : NodePublicKey C} (hwg : node.wgPublicBytes ≠ cfg.own.wgPublicBytes)
    {address : Ipv6Addr} (haddr : address ≠ cfg.ownAddr.address) (keepalive : UInt16)
    (name : String) :
    OtherInfo cfg (memberInfo keepalive name node.toBase64 node.wgPublicBytes address) := by
  refine ⟨fun hkey => hwg ?_, hwg, haddr⟩
  rw [NodePublicKey.toBase64_injective hkey]

/-- A record of a node of another WireGuard key. -/
theorem isOtherRecord_member {node : NodePublicKey C}
    (hwg : node.wgPublicBytes ≠ cfg.own.wgPublicBytes) {address : Ipv6Addr}
    (haddr : address ≠ cfg.ownAddr.address) (name : String) :
    cfg.IsOtherRecord ⟨name, node.toBase64, address⟩ := by
  refine ⟨haddr, fun node' hnode' => ?_⟩
  rw [NodePublicKey.fromBase64_toBase64] at hnode'
  cases hnode'
  exact hwg

/-- Actions of other peers add none but these. -/
theorem wgPublic_ne_of_actsFor {infos : List PeerInfo} {cs : List WgCall} (h : ActsFor infos cs)
    (hinfos : ∀ i ∈ infos, OtherInfo cfg i) {spec : PeerSpec} (hspec : .addPeer spec ∈ cs) :
    spec.wgPublic ≠ cfg.own.wgPublicBytes := by
  obtain ⟨l, hl, rfl⟩ := h
  obtain ⟨⟨i, a⟩, hx, hcall⟩ := List.mem_flatMap.1 hspec
  have hi := hinfos i (hl _ hx)
  cases a with
  | rehandshake ep =>
      simp only [PeerInfo.calls, List.mem_cons, reduceCtorEq, WgCall.addPeer.injEq, false_or,
        List.not_mem_nil, or_false] at hcall
      rw [hcall]
      exact hi.wg
  | setEndpoint ep => simp [PeerInfo.calls] at hcall
  | nudge => cases hcall
  | markGood ep => cases hcall

/-! ### A start -/

/-- A configured peer has another address than this node: the check of the subnet ids counts
this node in. -/
theorem address_ne_of_configured {p : Peer C} (hp : p ∈ cfg.peers) :
    p.addr.address ≠ cfg.ownAddr.address := by
  intro haddr
  have hpeer := cfg.valid.addr p hp
  have hsite : p.addr.site = cfg.ownAddr.site := by
    rw [← siteOf_address hpeer, ← siteOf_address cfg.valid.own_addr, haddr]
  rw [(deriveNodeAddr_eq_ok_iff.1 hpeer).2, (deriveNodeAddr_eq_ok_iff.1 cfg.valid.own_addr).2,
    site_eq_iff] at hsite
  have hsubnet : p.addr.subnetId = cfg.ownAddr.subnetId := by
    rw [(deriveNodeAddr_eq_ok_iff.1 hpeer).2, (deriveNodeAddr_eq_ok_iff.1 cfg.valid.own_addr).2]
    exact hsite
  have hnot := (List.nodup_append.1 cfg.valid.subnets).2.2 _ (List.mem_map_of_mem hp) _
    (List.mem_singleton_self _)
  exact hnot hsubnet

/-- **The peers at a start are other nodes**, if the configuration and the member file name no
other ones. -/
theorem otherInfo_startup (hcfg : ∀ p ∈ cfg.peers,
      p.publicKey.wgPublicBytes ≠ cfg.own.wgPublicBytes) (cache : EndpointCache)
    {members : MembersFile} (hmembers : ∀ m ∈ members.members, cfg.IsOtherRecord m)
    (start : SystemTime) :
    ∀ i ∈ (Daemon.startup cfg cache members start).infos, OtherInfo cfg i := by
  intro i hi
  obtain ⟨p, hp, rfl⟩ := List.mem_map.1 hi
  rcases List.mem_append.1 hp with hp | hp
  · obtain ⟨q, hq, rfl⟩ := List.mem_map.1 hp
    refine ⟨fun hkey => hcfg q hq ?_, hcfg q hq, address_ne_of_configured hq⟩
    rw [NodePublicKey.toBase64_injective hkey]
  · obtain ⟨m, hm, hmp⟩ := List.mem_filterMap.1 hp
    obtain ⟨-, node, hnode, hinfo⟩ := persistedPeer_eq_some hmp
    have hother := hmembers m hm
    rw [hinfo]
    exact ⟨key_ne_of_isOtherRecord hother, hother.2 node hnode, hother.1⟩

/-- The targets of gossip are the addresses of the table. -/
theorem not_mem_targets {infos : List PeerInfo} (h : ∀ i ∈ infos, OtherInfo cfg i) :
    cfg.ownAddr.address ∉ infos.map PeerInfo.overlay := by
  intro hmem
  obtain ⟨i, hi, haddr⟩ := List.mem_map.1 hmem
  exact (h i hi).overlay haddr

theorem map_overlay_peers (d : Daemon C) :
    (d.peers.map fun p => p.overlay) = d.infos.map PeerInfo.overlay := by
  rw [Daemon.infos, List.map_map]
  rfl

theorem Others.boot (hcfg : ∀ p ∈ cfg.peers, p.publicKey.wgPublicBytes ≠ cfg.own.wgPublicBytes)
    {u : System.Startup} (hdisk : ∀ m ∈ u.disk.members, cfg.IsOtherRecord m) :
    (Lifetime.boot cfg u).Others cfg := by
  have hmembers : ∀ m ∈ u.members.members, cfg.IsOtherRecord m := by
    unfold System.Startup.members
    split_ifs
    · exact hdisk
    · simp [MembersFile.new]
  have hinfos : ∀ i ∈ (System.boot cfg u).daemon.infos, OtherInfo cfg i := by
    rw [System.infos_boot]
    exact otherInfo_startup hcfg u.cache hmembers u.start
  obtain ⟨cs, hacts, hlog, -⟩ := (System.quietStep_boot cfg u).calls
  refine ⟨hinfos, ?_, ?_, ?_, ?_, ?_⟩
  · exact hmembers
  · change ∀ m ∈ (System.boot cfg u).disk.members, cfg.IsOtherRecord m
    rw [System.disk_boot]
    exact hdisk
  · intro node name address hmem
    cases hmem
  · intro spec hspec
    change .addPeer spec ∈ (System.boot cfg u).log at hspec
    rw [hlog] at hspec
    refine wgPublic_ne_of_actsFor hacts ?_ hspec
    exact otherInfo_startup hcfg u.cache hmembers u.start
  · intro targets htargets
    obtain rfl := List.mem_singleton.1 htargets
    rw [map_overlay_peers]
    exact not_mem_targets hinfos

/-! ### A step -/

/-- The targets that an input gives are the addresses of the new table. -/
theorem targets_of_given {s : System C} {i : Input} {targets : List Ipv6Addr}
    (h : targets ∈ s.targetsGiven cfg i) :
    targets = (s.step cfg i).daemon.infos.map PeerInfo.overlay := by
  cases i with
  | gossip clock saved =>
      cases hq : s.queue with
      | nil => simp [System.targetsGiven, hq] at h
      | cons event rest =>
          simp only [System.targetsGiven, hq] at h
          have hstep : (s.step cfg (.gossip clock saved)).daemon =
              (s.daemon.onGossip cfg.ctx clock event).1 := by
            simp only [System.step, hq]
            rfl
          rw [hstep, ← map_overlay_peers]
          cases hann : event.announces s.daemon.keys with
          | false =>
              rw [Daemon.controls_of_not_announces _ _ _ _ hann] at h
              cases h
          | true =>
              rw [Daemon.controls_of_announces _ _ _ _ hann] at h
              exact List.mem_singleton.1 h
  | datagram => cases h
  | discovered => cases h
  | relay => cases h
  | tick => cases h
  | kick => cases h

/-- An admission that a datagram gives is of another node, if the datagram brings others. -/
theorem other_of_admitted {i : Input} (hi : s.BringsOthers cfg (.input i)) {d : Datagram}
    (hd : i = .datagram d) {node : NodePublicKey C} {name : String} {address : Ipv6Addr}
    (h : (handleDatagram cfg.gossip s.sys.store d).1 = some (.memberAdmitted node name address)) :
    node.wgPublicBytes ≠ cfg.own.wgPublicBytes ∧ address ≠ cfg.ownAddr.address := by
  subst hd
  obtain ⟨⟨e, hacc, hkind, rfl⟩, hrevoked, a, ha, rfl⟩ := accepted_of_memberAdmitted h
  have htakes : Takes cfg.gossip s.sys.store e := by
    by_contra hnot
    rw [handleDatagram_of_not_takes hacc hnot] at h
    cases h
  have hbefore : s.sys.store.isRevoked e.node = false := by
    by_contra hwas
    rw [isRevoked_handleDatagram d (by simpa using hwas)] at hrevoked
    cases hrevoked
  obtain ⟨hwg, haddr⟩ := hi e hacc hkind htakes hbefore
  exact ⟨hwg, haddr a ha⟩

theorem Others.queue_step (h : s.Others cfg) {i : Input} (hi : s.BringsOthers cfg (.input i))
    {node : NodePublicKey C} {name : String} {address : Ipv6Addr}
    (hmem : .memberAdmitted node name address ∈ (s.sys.step cfg i).queue) :
    node.wgPublicBytes ≠ cfg.own.wgPublicBytes ∧ address ≠ cfg.ownAddr.address := by
  rcases System.mem_queue_step hmem with hmem | ⟨d, hd, hmem⟩
  · exact h.queue node name address hmem
  · exact other_of_admitted hi hd hmem

/-- Overwriting a record keeps the others. -/
theorem isOtherRecord_upsert {file : MembersFile} (h : ∀ m ∈ file.members, cfg.IsOtherRecord m)
    {record : MemberRecord} (hrecord : cfg.IsOtherRecord record) :
    ∀ m ∈ (file.upsert record).1.members, cfg.IsOtherRecord m := by
  have hreplace : ∀ ms : List MemberRecord, (∀ m ∈ ms, cfg.IsOtherRecord m) →
      ∀ m ∈ MembersFile.replace record ms, cfg.IsOtherRecord m := by
    intro ms
    induction ms with
    | nil => exact fun hms => hms
    | cons m ms ih =>
        intro hms
        rw [List.forall_mem_cons] at hms
        rw [MembersFile.replace]
        split_ifs
        · exact List.forall_mem_cons.2 ⟨hrecord, hms.2⟩
        · exact List.forall_mem_cons.2 ⟨hms.1, ih hms.2⟩
  unfold MembersFile.upsert
  split_ifs
  · exact hreplace _ h
  · intro m hm
    rcases List.mem_append.1 hm with hm | hm
    · exact h m hm
    · rw [List.mem_singleton.1 hm]
      exact hrecord

/-- An input whose new peers, members and calls are of other nodes keeps this node
out. -/
theorem Others.of_step (h : s.Others cfg) {i : Input} (hi : s.BringsOthers cfg (.input i))
    (hinfos : ∀ j ∈ (s.sys.step cfg i).daemon.infos, OtherInfo cfg j)
    (hmembers : ∀ m ∈ (s.sys.step cfg i).daemon.members.members, cfg.IsOtherRecord m)
    (hdisk : (s.sys.step cfg i).disk = (s.sys.step cfg i).daemon.members ∨
      (s.sys.step cfg i).disk = s.sys.disk)
    {cs : List WgCall} (hlog : (s.sys.step cfg i).log = s.sys.log ++ cs)
    (hcs : ∀ spec, .addPeer spec ∈ cs → spec.wgPublic ≠ cfg.own.wgPublicBytes) :
    (s.step cfg (.input i)).Others cfg where
  infos := hinfos
  members := hmembers
  disk := by
    change ∀ m ∈ (s.sys.step cfg i).disk.members, cfg.IsOtherRecord m
    rcases hdisk with hdisk | hdisk
    · exact hdisk ▸ hmembers
    · exact hdisk ▸ h.disk
  queue node name address hmem := h.queue_step hi hmem
  added spec hspec := by
    change .addPeer spec ∈ (s.sys.step cfg i).log at hspec
    rw [hlog] at hspec
    rcases List.mem_append.1 hspec with hspec | hspec
    · exact h.added spec hspec
    · exact hcs spec hspec
  targets targets hmem := by
    rcases List.mem_append.1 hmem with hmem | hmem
    · exact h.targets targets hmem
    · rw [targets_of_given hmem]
      exact not_mem_targets hinfos

/-- **An input keeps this node out**, if the datagram it may be brings others. -/
theorem Others.input (h : s.Others cfg) {i : Input} (hi : s.BringsOthers cfg (.input i)) :
    (s.step cfg (.input i)).Others cfg := by
  rcases System.table_step cfg s.sys i with hstays |
    ⟨node, name, address, clock, saved, rest, -, hnode, henters⟩ |
    ⟨node, clock, saved, rest, -, -, hleaves⟩
  · obtain ⟨cs, hacts, hlog, -⟩ := hstays.calls
    exact h.of_step hi (hstays.infos ▸ h.infos) (hstays.members ▸ h.members) (.inr hstays.disk)
      hlog fun spec hspec => wgPublic_ne_of_actsFor hacts h.infos hspec
  · obtain ⟨hwg, haddr⟩ := h.queue node name address (hnode ▸ List.mem_cons_self ..)
    obtain ⟨spec', hspec', hlog, -⟩ := henters.calls
    refine h.of_step hi ?_ ?_ (henters.disk ▸ ite_eq_or_eq ..) hlog ?_
    · rw [henters.infos]
      intro j hj
      rcases List.mem_append.1 hj with hj | hj
      · exact h.infos j hj
      · rw [List.mem_singleton.1 hj]
        exact otherInfo_member hwg haddr _ name
    · rw [henters.members]
      exact isOtherRecord_upsert h.members (isOtherRecord_member hwg haddr name)
    · intro spec hspec
      rw [WgCall.addPeer.inj (List.mem_singleton.1 hspec), hspec']
      exact hwg
  · refine h.of_step hi ?_ ?_ (hleaves.disk ▸ ite_eq_or_eq ..) hleaves.log (by simp)
    · rw [hleaves.infos]
      exact fun j hj => h.infos j (List.mem_of_mem_eraseP hj)
    · rw [hleaves.members]
      exact fun m hm => h.members m (List.mem_filter.1 hm).1

/-- **A restart keeps this node out**: it finds the member file that the last run left. -/
theorem Others.restart (h : s.Others cfg)
    (hcfg : ∀ p ∈ cfg.peers, p.publicKey.wgPublicBytes ≠ cfg.own.wgPublicBytes)
    (u : System.Startup) : (s.step cfg (.restart u)).Others cfg := by
  have hboot : (Lifetime.boot cfg { u with disk := s.sys.disk }).Others cfg :=
    Others.boot hcfg h.disk
  refine ⟨hboot.infos, hboot.members, hboot.disk, hboot.queue, ?_, ?_⟩
  · intro spec hspec
    rcases List.mem_append.1 hspec with hspec | hspec
    · exact h.added spec hspec
    · exact hboot.added spec hspec
  · intro targets hmem
    rcases List.mem_append.1 hmem with hmem | hmem
    · exact h.targets targets hmem
    · exact hboot.targets targets hmem

/-- **When a node never becomes its own peer.**  Over every sequence of inputs and restarts:
if the configuration and the first member file name no node with the WireGuard key or the
overlay address of this node, and no datagram brings one in, then its key is never in the
runtime table, its WireGuard key never given to `add_peer` and its overlay address never a
target of gossip. -/
theorem never_own_peer (cfg : Config C) (u : System.Startup)
    (hcfg : ∀ p ∈ cfg.peers, p.publicKey.wgPublicBytes ≠ cfg.own.wgPublicBytes)
    (hdisk : ∀ m ∈ u.disk.members, cfg.IsOtherRecord m) (ops : List LifeOp)
    (hops : Along (step cfg) (BringsOthers cfg) (boot cfg u) ops) :
    (run (step cfg) (boot cfg u) ops).NeverOwn cfg := by
  have hrun : (run (step cfg) (boot cfg u) ops).Others cfg := by
    refine Along.invariant (fun s op h hop => ?_) (Others.boot hcfg hdisk) hops
    cases op with
    | input i => exact h.input hop
    | restart u' => exact h.restart hcfg u'
  exact hrun.neverOwn

/-- A node is admitted, and the daemon starts again. -/
def admittedThenRestarted (node : NodePublicKey Crypto.plain) : List LifeOp :=
  [.input (.datagram (admission node)), .input (.gossip (fun _ => 0) true), .restart plainStartup]

/-- Node 2 is admitted to node 600 and is there after the restart; node 600 is not. -/
theorem never_own_peer_two :
    let s := run (step plainConfig) (boot plainConfig plainStartup)
      (admittedThenRestarted (plainKey 2 0))
    (plainKey 2 0).toBase64 ∈ s.sys.daemon.keys ∧ s.NeverOwn plainConfig := by
  refine ⟨by decide +kernel, never_own_peer plainConfig plainStartup ?_ ?_ _ ?_⟩
  · decide +kernel
  · simp [plainStartup, MembersFile.new]
  · refine ⟨fun e he _ _ _ => ?_, trivial, trivial, trivial⟩
    rw [accepted_admission (plainKey_ne (by omega) (by omega) (by omega) 0 0)] at he
    cases he
    refine ⟨by decide +kernel, fun a ha => ?_⟩
    have hderive := deriveNodeAddr_plainKey plainPrefix (by omega : 2 < 65536) (by omega) 0
    cases hderive.symm.trans ha
    decide +kernel

/-- **Node 9 admits node 600 to itself**: node 600 is in its own table, before and after a
restart. -/
theorem own_peer_admitted :
    ¬(run (step plainConfig) (boot plainConfig plainStartup)
        ((admittedThenRestarted plainConfig.own).take 2)).NeverOwn plainConfig ∧
      ¬(run (step plainConfig) (boot plainConfig plainStartup)
        (admittedThenRestarted plainConfig.own)).NeverOwn plainConfig := by
  refine ⟨fun h => h.table ?_, fun h => h.table ?_⟩
  · decide +kernel
  · decide +kernel

end Lifetime

end Hextet
