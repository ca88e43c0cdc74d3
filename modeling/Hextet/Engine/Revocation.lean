/-
# Revocation is permanent within a run

`handle_datagram` in `crates/engine/src/gossip.rs` and `on_membership_event` in
`crates/engine/src/daemon.rs`, joined by the event channel.  After the daemon has
taken `Revoked` of a node from the channel, the node does not come back for as
long as the process runs: not through an admission that was queued before the
revocation, a newer member entry, a late relay registration, a discovery, or the
re-adding of a peer that the state machine asks for.

The argument relates the three places where a node can be.  The store never
forgets a revocation, so it returns no admission after one (`Ordered`): all
admissions of the node stand before the revocation in the channel, and are gone
when the revocation is taken.  From then on the node is `Banned`, and every input
keeps it so.  A call to the backend that reaches the WireGuard key of the node
would be made for a peer in the table, and only the node itself has that key.
-/

import Hextet.Engine.GossipTrust
import Hextet.Engine.Membership

namespace Hextet

open Lib

variable {C : Crypto}

/-- The call adds the peer with the WireGuard key or sets its endpoint. -/
def WgCall.Reaches (k : Bytes 32) : WgCall → Prop
  | .setPeerEndpoint k' _ => k' = k
  | .addPeer spec => spec.wgPublic = k
  | .removePeer _ => False

/-- A call for peers in a list that reaches a key is made for a peer with that
key. -/
theorem ActsFor.exists_of_reaches {infos : List PeerInfo} {cs : List WgCall}
    (h : ActsFor infos cs) {k : Bytes 32} {c : WgCall} (hc : c ∈ cs) (hk : c.Reaches k) :
    ∃ i ∈ infos, i.wgPublic = k := by
  obtain ⟨l, hl, rfl⟩ := h
  obtain ⟨⟨i, a⟩, hx, hc⟩ := List.mem_flatMap.1 hc
  refine ⟨i, hl _ hx, ?_⟩
  cases a with
  | setEndpoint ep =>
      obtain rfl := List.mem_singleton.1 hc
      exact hk
  | rehandshake ep =>
      rcases List.mem_pair.1 hc with rfl | rfl
      · exact hk.elim
      · exact hk
  | nudge => cases hc
  | markGood => cases hc

namespace System

variable {cfg : Config C} {net : Set (NodePublicKey C)} {s : System C} {node : NodePublicKey C}

/-! ### Before the revocation is taken -/

/-- No admission of the node follows a revocation of it in the channel, and the
store holds every revocation that is in the channel. -/
structure Ordered (node : NodePublicKey C) (s : System C) : Prop where
  queue : s.queue.Pairwise fun x y => x = .revoked node → ¬y.Admits node
  store : .revoked node ∈ s.queue → s.store.isRevoked node = true

/-- A store that holds a revocation returns no admission. -/
theorem not_admits_of_isRevoked {cfg : GossipConfig C} {st : GossipStore C} {d : Datagram}
    (h : st.isRevoked node = true) {x : GossipEvent C}
    (hx : x ∈ (handleDatagram cfg st d).1.toList) : ¬x.Admits node := by
  intro hadmits
  have hrev : (handleDatagram cfg st d).2.isRevoked node = true := isRevoked_handleDatagram d h
  cases x with
  | discovered => exact hadmits
  | revoked => exact hadmits
  | memberAdmitted n name address =>
      obtain rfl : n = node := hadmits
      rw [(accepted_of_memberAdmitted (Option.mem_toList.1 hx)).2.1] at hrev
      cases hrev

theorem Ordered.step (h : Ordered node s) (i : Input) : Ordered node (s.step cfg i) := by
  rcases store_queue_step cfg s i with ⟨d, rfl, hst, hq⟩ | ⟨hst, hq⟩
  · constructor
    · rw [hq, List.pairwise_append]
      refine ⟨h.queue, ?_, ?_⟩
      · cases (handleDatagram cfg.gossip s.store d).1 with
        | none => exact .nil
        | some x => exact List.pairwise_singleton _ _
      · rintro x hx y hy rfl
        exact not_admits_of_isRevoked (h.store hx) hy
    · rw [hq, hst, List.mem_append]
      rintro (hx | hx)
      · exact isRevoked_handleDatagram d (h.store hx)
      · exact isRevoked_of_revoked (Option.mem_toList.1 hx)
  · rcases hq with hq | ⟨x, hq⟩
    · exact ⟨hq ▸ h.queue, by rw [hq, hst]; exact h.store⟩
    · constructor
      · exact (List.pairwise_cons.1 (hq ▸ h.queue)).2
      · intro hx
        rw [hst]
        exact h.store (hq ▸ List.mem_cons_of_mem x hx)

/-- **The channel is ordered in every state of a run.** -/
theorem ordered_after (cfg : Config C) (u : Startup) (is : List Input) (node : NodePublicKey C) :
    Ordered node (after cfg (boot cfg u) is) :=
  run_invariant (fun _ i h => h.step i) ⟨.nil, fun h => by cases h⟩ is

/-! ### After the revocation was taken -/

/-- The node is revoked, in neither table, and no admission of it is in flight. -/
structure Banned (node : NodePublicKey C) (s : System C) : Prop where
  store : s.store.isRevoked node = true
  queue : ∀ x ∈ s.queue, ¬x.Admits node
  peers : node.toBase64 ∉ s.daemon.keys
  members : node.toBase64 ∉ s.daemon.members.keys

/-- **Taking a revocation from the channel bans the node.** -/
theorem banned_of_revoked (hs : Sound net s) (ho : Ordered node s)
    {rest : List (GossipEvent C)} (hq : s.queue = .revoked node :: rest) (clock : Clock)
    (saved : Bool) : Banned node (s.step cfg (.gossip clock saved)) := by
  have heq : s.step cfg (.gossip clock saved) = s.revoked node saved rest := by
    simp [step, hq, Daemon.onGossip, revoked]
  have hleaves := s.daemon.leaves_onRevoked node
  rw [heq]
  refine ⟨ho.store (by simp [hq]), ?_, ?_, ?_⟩
  · have hpair := ho.queue
    rw [hq, List.pairwise_cons] at hpair
    exact fun x hx => hpair.1 x hx rfl
  · simp only [revoked, perform, hleaves.keys]
    exact fun hmem => (hs.keys_nodup.mem_erase_iff.1 hmem).1 rfl
  · simp only [revoked, perform, hleaves.members]
    exact fun hmem => (MembersFile.mem_keys_remove.1 hmem).2 rfl

namespace Banned

/-- An admission in flight is of another node. -/
theorem ne_of_queue (h : Banned node s) {n : NodePublicKey C} {name : String} {address : Ipv6Addr}
    {rest : List (GossipEvent C)} (hq : s.queue = .memberAdmitted n name address :: rest) :
    node ≠ n := by
  have hmem : GossipEvent.memberAdmitted n name address ∈ s.queue := by simp [hq]
  exact fun hnode => h.queue _ hmem hnode.symm

/-- **Every input keeps the node banned.** -/
theorem step (h : Banned node s) (i : Input) : Banned node (s.step cfg i) := by
  have hstore : (s.step cfg i).store.isRevoked node = true := by
    rcases store_queue_step cfg s i with ⟨d, rfl, hst, -⟩ | ⟨hst, -⟩
    · rw [hst]
      exact isRevoked_handleDatagram d h.store
    · rw [hst]
      exact h.store
  have hqueue : ∀ x ∈ (s.step cfg i).queue, ¬x.Admits node := by
    intro x hx
    rcases mem_queue_step hx with hx | ⟨d, -, hx⟩
    · exact h.queue x hx
    · exact not_admits_of_isRevoked h.store (Option.mem_toList.2 hx)
  rcases table_step cfg s i with hstays | ⟨n, name, address, clock, saved, rest, -, hn, henters⟩ |
    ⟨n, clock, saved, rest, -, -, hleaves⟩
  · exact ⟨hstore, hqueue, hstays.keys ▸ h.peers, hstays.members ▸ h.members⟩
  · have hne : node.toBase64 ≠ n.toBase64 := fun hb =>
      h.ne_of_queue hn (NodePublicKey.toBase64_injective hb)
    refine ⟨hstore, hqueue, ?_, ?_⟩
    · rw [henters.keys, List.mem_append, List.mem_singleton, not_or]
      exact ⟨h.peers, hne⟩
    · rw [henters.members, MembersFile.mem_keys_upsert, not_or]
      exact ⟨h.members, hne⟩
  · refine ⟨hstore, hqueue, ?_, ?_⟩
    · rw [hleaves.keys]
      exact fun hmem => h.peers (List.mem_of_mem_erase hmem)
    · rw [hleaves.members]
      exact fun hmem => h.members (MembersFile.mem_keys_remove.1 hmem).1

/-- **No input makes a call that reaches a banned node.** -/
theorem log_step (cfg : Config C) (h : Banned node s) (hs : Sound net s)
    (hwg : Set.InjOn NodePublicKey.wgPublicBytes net) (hnode : node ∈ net) (i : Input) :
    ∃ cs, (s.step cfg i).log = s.log ++ cs ∧ ∀ c ∈ cs, ¬c.Reaches node.wgPublicBytes := by
  rcases table_step cfg s i with hstays | ⟨n, name, address, clock, saved, rest, -, hn, henters⟩ |
    ⟨n, clock, saved, rest, -, -, hleaves⟩
  · obtain ⟨cs, hacts, hlog, -⟩ := hstays.calls
    refine ⟨cs, hlog, fun c hc hreach => h.peers ?_⟩
    obtain ⟨i, hi, hk⟩ := hacts.exists_of_reaches hc hreach
    exact hs.mem_keys_of_wgPublic hwg hnode hi hk
  · obtain ⟨spec, rfl, hlog, -⟩ := henters.calls
    refine ⟨_, hlog, fun c hc hreach => ?_⟩
    obtain rfl := List.mem_singleton.1 hc
    have hnet : n ∈ net := hs.queue _ (hn ▸ List.mem_cons_self) n rfl
    exact h.ne_of_queue hn (hwg hnet hnode hreach).symm
  · refine ⟨_, hleaves.log, ?_⟩
    simp [WgCall.Reaches]

/-- A run from a state where the node is banned. -/
theorem log_after (h : Banned node s) (hs : Sound net s)
    (hwg : Set.InjOn NodePublicKey.wgPublicBytes net) (hnode : node ∈ net) {is : List Input}
    (his : ∀ i ∈ is, Within cfg net i) :
    ∃ cs, (after cfg s is).log = s.log ++ cs ∧ ∀ c ∈ cs, ¬c.Reaches node.wgPublicBytes := by
  induction is generalizing s with
  | nil => exact ⟨[], by simp, by simp⟩
  | cons i is ih =>
      obtain ⟨cs, hlog, hcs⟩ := h.log_step cfg hs hwg hnode i
      obtain ⟨cs', hlog', hcs'⟩ := ih (h.step i) (hs.step (his i (List.mem_cons_self ..)))
        fun j hj => his j (List.mem_cons_of_mem _ hj)
      refine ⟨cs ++ cs', ?_, fun c hc => ?_⟩
      · rw [← List.append_assoc, ← hlog]
        exact hlog'
      · rcases List.mem_append.1 hc with hc | hc
        · exact hcs c hc
        · exact hcs' c hc

end Banned

/-! ### The member file -/

/-- The member file is saved whenever the input tries to. -/
def Saves : Input → Prop
  | .gossip _ saved => saved = true
  | _ => True

/-- **The file on disk is the member table** as long as every save succeeds. -/
theorem disk_step (h : s.disk = s.daemon.members) {i : Input} (hi : Saves i) :
    (s.step cfg i).disk = (s.step cfg i).daemon.members := by
  rcases table_step cfg s i with hstays | ⟨n, name, address, clock, saved, rest, rfl, -, henters⟩ |
    ⟨n, clock, saved, rest, rfl, -, hleaves⟩
  · rw [hstays.disk, hstays.members, h]
  · obtain rfl : saved = true := hi
    rw [henters.disk, if_pos rfl]
  · obtain rfl : saved = true := hi
    rw [hleaves.disk, Bool.true_and]
    split_ifs with hremoved
    · rfl
    · -- nothing was removed, so the table is the one on disk
      rw [hleaves.members, h, MembersFile.remove_eq_self]
      exact fun hin => hremoved ((MembersFile.remove_snd_iff _ _).2 hin)

theorem disk_after (cfg : Config C) {u : Startup} (hu : u.readable = true) {is : List Input}
    (his : ∀ i ∈ is, Saves i) :
    (after cfg (boot cfg u) is).disk = (after cfg (boot cfg u) is).daemon.members := by
  refine Along.invariant (P := fun s : System C => s.disk = s.daemon.members)
    (fun s i h hi => disk_step h hi) ?_ (Along.of_forall his _)
  rw [disk_boot, members_boot, Startup.members, if_pos hu]

/-! ### Permanence -/

/-- **Revocation is permanent within a run.**  After the daemon has taken
`Revoked` of a node from the channel, whatever happens before and after: the node
is in neither table, nor in the member file if that could be read and written,
and no later call adds its WireGuard key or sets its endpoint, if the nodes that
the run meets have distinct WireGuard keys. -/
theorem revocation_permanent (cfg : Config C) (u : Startup)
    (hw : MembersFile.Written C u.members) (node : NodePublicKey C) (before later : List Input)
    (clock : Clock) (saved : Bool) (rest : List (GossipEvent C))
    (hwg : Set.InjOn NodePublicKey.wgPublicBytes
      (met cfg u (before ++ .gossip clock saved :: later)))
    (htaken : (after cfg (boot cfg u) before).queue = .revoked node :: rest) :
    let s := after cfg (boot cfg u) (before ++ [.gossip clock saved])
    let s' := after cfg s later
    node.toBase64 ∉ s'.daemon.keys ∧ node.toBase64 ∉ s'.daemon.members.keys ∧
      (u.readable = true → (∀ i ∈ before ++ .gossip clock saved :: later, Saves i) →
        node.toBase64 ∉ s'.disk.keys) ∧
      ∃ cs, s'.log = s.log ++ cs ∧ ∀ c ∈ cs, ¬c.Reaches node.wgPublicBytes := by
  intro s s'
  set is := before ++ .gossip clock saved :: later with his
  have hwithin : ∀ i ∈ is, Within cfg (met cfg u is) i := fun i hi => within_met cfg u hi
  have hsound : ∀ js, (∀ i ∈ js, i ∈ is) →
      Sound (met cfg u is) (after cfg (boot cfg u) js) := fun js hjs =>
    Sound.after cfg u hw (fun p hp => Or.inl ⟨p, hp, rfl⟩) (fun n hn => Or.inr (Or.inl hn))
      fun i hi => hwithin i (hjs i hi)
  have hbefore := hsound before fun i hi => by simp [his, hi]
  have hs : s = (after cfg (boot cfg u) before).step cfg (.gossip clock saved) := run_append ..
  have hs' : s' = after cfg (boot cfg u) is := by
    rw [his, List.append_cons]
    exact (run_append ..).symm
  have hnode : node ∈ met cfg u is :=
    hbefore.queue _ (by rw [htaken]; exact List.mem_cons_self) node rfl
  have hbanned : Banned node s := by
    rw [hs]
    exact banned_of_revoked hbefore (ordered_after cfg u before node) htaken clock saved
  have hbanned' : Banned node s' := run_invariant (fun _ i h => h.step i) hbanned later
  refine ⟨hbanned'.peers, hbanned'.members, fun hread hsave => ?_, ?_⟩
  · have hdisk := disk_after cfg hread hsave
    rw [hs', hdisk, ← hs']
    exact hbanned'.members
  · refine hbanned.log_after (hsound _ fun i hi => ?_) hwg hnode fun i hi => hwithin i ?_
    · rw [his]
      rcases List.mem_append.1 hi with hi | hi
      · exact List.mem_append_left _ hi
      · obtain rfl := List.mem_singleton.1 hi
        exact List.mem_append_right _ List.mem_cons_self
    · rw [his]
      exact List.mem_append_right _ (List.mem_cons_of_mem _ hi)

end System

/-! ### A network of transparent keys -/

/-- The address of the node `n` of a subnet. -/
def plainNodeAddr (subnet n : ℕ) : NodeAddr where
  subnetId := UInt16.ofNat subnet
  site := overlayAddr plainPrefix (UInt16.ofNat subnet) zeroIid
  address := overlayAddr plainPrefix (UInt16.ofNat subnet) (iidOf (plainKey subnet n))

/-- Node 1, without endpoints and routes. -/
def plainPeer : Peer Crypto.plain where
  name := "a"
  publicKey := plainKey 1 0
  endpoints := []
  addr := plainNodeAddr 1 0
  relay := false
  relayPort := defaultRelayPort
  routes := []
  ddns := none
  keepalive := none

/-- Node 600 with the one peer, 25 s of keepalive and no admin list. -/
def plainConfig : Config Crypto.plain where
  pre := plainPrefix
  own := plainKey 600 0
  ownAddr := plainNodeAddr 600 0
  node := ⟨4193, 25, []⟩
  peers := [plainPeer]
  valid :=
    { own_addr := deriveNodeAddr_plainKey plainPrefix (by omega) (by omega) 0
      addr := by
        intro p hp
        obtain rfl := List.mem_singleton.1 hp
        exact deriveNodeAddr_plainKey plainPrefix (by omega) (by omega) 0
      keys := List.pairwise_singleton _ _
      subnets := by decide
      clear := by simp [plainPeer]
      apart := List.pairwise_singleton _ _ }

/-- A first start: no cache and no member file. -/
def plainStartup : System.Startup where
  cache := .new
  disk := .new
  readable := true
  start := 0
  now := 0
  clocks := fun _ _ => 0

theorem wgPublicBytes_plain_injective :
    Function.Injective (NodePublicKey.wgPublicBytes : NodePublicKey Crypto.plain → Bytes 32) :=
  fun _ _ h => NodePublicKey.ext_bytes h

/-- Node 9 admits a node. -/
def admission (node : NodePublicKey Crypto.plain) : Datagram :=
  Datagram.ofEntry plainPrefix (.plainMember node (plainKey 9 0) 5)

theorem accepted_admission {node : NodePublicKey Crypto.plain} (hne : plainKey 9 0 ≠ node) :
    (admission node).accepted plainConfig.gossip = some (.plainMember node (plainKey 9 0) 5) :=
  Datagram.accepted_ofEntry plainOpenConfig (Entry.isValid_plainMember hne 5) rfl

namespace System

/-- The first datagram of a run, a member entry, is answered by the admission. -/
theorem queue_admission {node : NodePublicKey Crypto.plain} (hne : plainKey 9 0 ≠ node)
    {a : NodeAddr} (ha : deriveNodeAddr plainPrefix node = .ok a) (u : Startup) :
    (after plainConfig (boot plainConfig u) [.datagram (admission node)]).queue =
      [.memberAdmitted node "m" a.address] := by
  obtain ⟨heq, hmap⟩ := handleDatagram_of_takes (accepted_admission hne)
    (takes_new (Entry.isValid_plainMember hne 5) rfl)
  have hrevoked : (GossipStore.new.merge (.plainMember node (plainKey 9 0) 5)).2.isRevoked node =
      false := by
    rw [GossipStore.isRevoked, hmap, Finmap.lookup_insert_of_ne]
    · rfl
    · exact fun hk => by cases congrArg Prod.snd hk
  have hevent := eventOf_member plainConfig.gossip hrevoked ha "m" 0 5 Entry.zeroSig (plainKey 9 0)
    ⟨List.replicate 16 0, by simp⟩
  rw [after, run_cons, run_nil, step_datagram, queue_boot, store_boot, heq]
  simp only
  rw [show eventOf plainConfig.gossip _ (.plainMember node (plainKey 9 0) 5) = _ from hevent]
  rfl

/-- The configured node 1 is revoked, and a member entry for it comes later. -/
theorem revocation_permanent_configured :
    let member := Datagram.ofEntry plainPrefix (.plainMember (plainKey 1 0) (plainKey 9 0) 6)
    let s := after plainConfig (boot plainConfig plainStartup)
      ([.datagram revokeOne] ++ [.gossip (fun _ => 0) true])
    let s' := after plainConfig s [.datagram member, .gossip (fun _ => 0) true]
    (plainKey 1 0).toBase64 ∉ s'.daemon.keys ∧
      (plainKey 1 0).toBase64 ∉ s'.daemon.members.keys := by
  have htaken : (after plainConfig (boot plainConfig plainStartup) [.datagram revokeOne]).queue =
      [.revoked (plainKey 1 0)] := by
    rw [after, run_cons, run_nil, step_datagram, queue_boot, store_boot,
      show plainConfig.gossip = plainOpenConfig from rfl, handleDatagram_revokeOne.1]
    rfl
  obtain ⟨hpeers, hmembers, -⟩ := revocation_permanent plainConfig plainStartup .new (plainKey 1 0)
    [.datagram revokeOne] [.datagram (Datagram.ofEntry plainPrefix (.plainMember (plainKey 1 0)
      (plainKey 9 0) 6)), .gossip (fun _ => 0) true]
    (fun _ => 0) true [] wgPublicBytes_plain_injective.injOn htaken
  exact ⟨hpeers, hmembers⟩

end System

end Hextet
