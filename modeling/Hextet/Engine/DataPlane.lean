/-
# The runtime table and the data plane

A peer enters the runtime table of `crates/engine/src/daemon.rs` by three ways: the
configuration, `members.json` and a live admission.  It enters the WireGuard device
by `build_device_spec` (`crates/engine/src/spec.rs`), by `add_peer` on admission and
by the re-adding of a peer on `Rehandshake`.  The first way matches the first and
the third the second, but nothing adds a peer that comes back from `members.json`:
`set_peer_endpoint` then creates it in the device without AllowedIPs.

`Agrees` says that every peer of the table is in the device with its AllowedIPs and
its keepalive.  Over any number of lifetimes of the daemon, each starting from the
member file that the last one left, it holds in every state exactly when no lifetime
starts with a member that is not configured (`table_and_device_agree_iff`).
-/

import Hextet.Engine.AllowedIps

namespace Hextet

open Lib

variable {C : Crypto}

/-! ### Carrying a table -/

/-- Every peer of a list is in the device with its AllowedIPs and its keepalive. -/
def Carried (infos : List PeerInfo) (dev : Device) : Prop :=
  ∀ i ∈ infos, dev.Carries i.wgPublic i.allowedIps.toFinset i.keepalive

/-- Distinct peers of a table have distinct WireGuard keys, if distinct nodes
have. -/
theorem Table.eq_of_wgPublic {net : Set (NodePublicKey C)} {infos : List PeerInfo}
    (h : Table net infos) (hwg : Set.InjOn NodePublicKey.wgPublicBytes net) {i j : PeerInfo}
    (hi : i ∈ infos) (hj : j ∈ infos) (heq : i.wgPublic = j.wgPublic) : i = j := by
  obtain ⟨n, hn, hkey, hwgn⟩ := h.named j hj
  have hk := h.keyB64_of_wgPublic hwg hn hi (heq.trans hwgn)
  exact List.inj_on_of_nodup_map h.nodup hi hj (hk.trans hkey.symm)

/-- **Removing a peer and adding it again gives it its own AllowedIPs and keepalive**,
whatever the device held. -/
theorem Device.carries_readd (dev : Device) (i : PeerInfo) (ep : SocketAddrV6) :
    (dev.calls (i.calls (.rehandshake ep))).Carries i.wgPublic i.allowedIps.toFinset
      i.keepalive := by
  have hnone : (dev.removePeer i.wgPublic).peer (i.specAt ep).wgPublic = none :=
    dev.removePeer_self _
  exact Device.carries_addPeer hnone

namespace Carried

variable {cfg : Config C} {reserved : Set Ipv6Addr} {net : Set (NodePublicKey C)}
  {infos : List PeerInfo} {dev : Device}

/-- Adding a peer again at an endpoint. -/
theorem rehandshake (h : Carried infos dev) (hspread : Spread cfg reserved infos)
    (htable : Table net infos) (hwg : Set.InjOn NodePublicKey.wgPublicBytes net) {i : PeerInfo}
    (hi : i ∈ infos) (ep : SocketAddrV6) :
    Carried infos ((dev.removePeer i.wgPublic).addPeer (i.specAt ep)) := by
  intro j hj
  by_cases hij : j = i
  · subst hij
    exact dev.carries_readd j ep
  · have hne : j.wgPublic ≠ i.wgPublic := fun heq => hij (htable.eq_of_wgPublic hwg hj hi heq)
    exact ((h j hj).removePeer hne).addPeer hne (hspread.disjoint hj hi hij)

/-- **Calls for peers of the table keep it carried.** -/
theorem calls (h : Carried infos dev) (hspread : Spread cfg reserved infos)
    (htable : Table net infos) (hwg : Set.InjOn NodePublicKey.wgPublicBytes net)
    {cs : List WgCall} (hcs : ActsFor infos cs) : Carried infos (dev.calls cs) := by
  refine hcs.invariant (fun i hi a dev h => ?_) h
  cases a with
  | setEndpoint ep => exact fun j hj => (h j hj).setPeerEndpoint i.wgPublic ep
  | rehandshake ep => exact h.rehandshake hspread htable hwg hi ep
  | nudge => exact h
  | markGood => exact h

/-- A peer that is not in the device is added. -/
theorem enter (h : Carried infos dev) {i : PeerInfo} (hspread : Spread cfg reserved (infos ++ [i]))
    (hnone : dev.peer i.wgPublic = none) (hne : ∀ j ∈ infos, j.wgPublic ≠ i.wgPublic)
    {spec : PeerSpec} (hspec : spec.wgPublic = i.wgPublic) (hips : spec.allowedIps = i.allowedIps)
    (hka : spec.persistentKeepalive = i.keepalive) : Carried (infos ++ [i]) (dev.addPeer spec) := by
  intro j hj
  have hi : i ∈ infos ++ [i] := List.mem_append_right _ (List.mem_singleton_self i)
  rcases List.mem_append.1 hj with hj' | hj'
  · have hdisj := hspread.disjoint hj hi fun heq => hne j hj' (by rw [heq])
    exact (h j hj').addPeer (hspec ▸ hne j hj') (hips ▸ hdisj)
  · obtain rfl := List.mem_singleton.1 hj'
    rw [← hspec, ← hips, ← hka]
    exact Device.carries_addPeer (hspec ▸ hnone)

/-- The peers that stay when one WireGuard key is removed. -/
theorem leave (h : Carried infos dev) {k : Bytes 32} {infos' : List PeerInfo}
    (hsub : ∀ i ∈ infos', i ∈ infos ∧ i.wgPublic ≠ k) : Carried infos' (dev.removePeer k) :=
  fun i hi => (h i (hsub i hi).1).removePeer (hsub i hi).2

end Carried

/-! ### The configured device -/

/-- **`apply` gives every peer its spec**, when keys and prefixes are distinct. -/
theorem carries_foldl_addPeer {specs : List PeerSpec} {dev : Device}
    (hpair : specs.Pairwise fun a b => a.wgPublic ≠ b.wgPublic ∧
      Disjoint a.allowedIps.toFinset b.allowedIps.toFinset)
    (hnone : ∀ spec ∈ specs, dev.peer spec.wgPublic = none) {spec : PeerSpec}
    (hspec : spec ∈ specs) :
    (specs.foldl Device.addPeer dev).Carries spec.wgPublic spec.allowedIps.toFinset
      spec.persistentKeepalive := by
  have hkeep : ∀ (specs : List PeerSpec) (dev : Device) (spec : PeerSpec),
      (∀ b ∈ specs, spec.wgPublic ≠ b.wgPublic ∧
        Disjoint spec.allowedIps.toFinset b.allowedIps.toFinset) →
      dev.Carries spec.wgPublic spec.allowedIps.toFinset spec.persistentKeepalive →
        (specs.foldl Device.addPeer dev).Carries spec.wgPublic spec.allowedIps.toFinset
          spec.persistentKeepalive := by
    intro specs
    induction specs with
    | nil => exact fun dev spec _ h => h
    | cons b specs ih =>
        intro dev spec hb h
        obtain ⟨hne, hdisj⟩ := hb b List.mem_cons_self
        exact ih _ spec (fun x hx => hb x (List.mem_cons_of_mem _ hx)) (h.addPeer hne hdisj)
  induction specs generalizing dev with
  | nil => cases hspec
  | cons b specs ih =>
      rw [List.pairwise_cons] at hpair
      rcases List.mem_cons.1 hspec with rfl | hmem
      · exact hkeep specs _ spec hpair.1
          (Device.carries_addPeer (hnone spec List.mem_cons_self))
      · refine ih hpair.2 (fun x hx => ?_) hmem
        exact Device.addPeer_eq_none (hnone x (List.mem_cons_of_mem _ hx)) (hpair.1 x hx).1.symm

/-- **The specs of the configured peers claim no prefix twice.** -/
theorem disjoint_buildDeviceSpec (cfg : Config C) :
    (buildDeviceSpec cfg).Pairwise fun a b =>
      Disjoint a.allowedIps.toFinset b.allowedIps.toFinset := by
  have hpairs := List.pairwise_map.1 (spread_configured cfg .new 0).apart
  refine List.pairwise_map.2 (hpairs.imp_of_mem fun {q r} hq hr hapart => ?_)
  rw [System.allowedIps_configuredPeer cfg .new 0 hq,
    System.allowedIps_configuredPeer cfg .new 0 hr, ← siteOf_address (cfg.valid.addr q hq)] at hapart
  rw [← siteOf_address (cfg.valid.addr q hq)]
  exact hapart.disjoint

namespace System

/-- **The configured device carries the configured peers**, if their WireGuard keys
are distinct. -/
theorem carried_applySpecs (cfg : Config C) (cache : EndpointCache) (start : SystemTime)
    {net : Set (NodePublicKey C)} (hcfg : ∀ p ∈ cfg.peers, p.publicKey ∈ net)
    (hwg : Set.InjOn NodePublicKey.wgPublicBytes net) :
    Carried (cfg.peers.map fun p => (configuredPeer cfg cache start p).toPeerInfo)
      (.applySpecs (buildDeviceSpec cfg)) := by
  intro i hi
  obtain ⟨p, hp, rfl⟩ := List.mem_map.1 hi
  have hkeys : (buildDeviceSpec cfg).Pairwise fun a b => a.wgPublic ≠ b.wgPublic :=
    List.pairwise_map.2 (cfg.valid.keys.imp_of_mem fun hq hr hqr heq =>
      hqr (hwg (hcfg _ hq) (hcfg _ hr) heq))
  rw [allowedIps_configuredPeer cfg cache start hp]
  exact carries_foldl_addPeer (hkeys.and (disjoint_buildDeviceSpec cfg)) (fun _ _ => rfl)
    (List.mem_map_of_mem hp)

/-! ### Runs -/

/-- The table and the device agree: every peer of the table is in the device with
its AllowedIPs and its keepalive. -/
def Agrees (s : System C) : Prop := Carried s.daemon.infos s.device

/-- Every peer of the table is sited in the subnet of its node. -/
def Homed (cfg : Config C) (net : Set (NodePublicKey C)) (infos : List PeerInfo) : Prop :=
  ∀ i ∈ infos, ∃ node ∈ net, i.keyB64 = node.toBase64 ∧ i.Sited cfg (subnetIdOf node)

/-- What keeps the table and the device in agreement. -/
structure Aligned (cfg : Config C) (net : Set (NodePublicKey C)) (s : System C) : Prop where
  sound : Sound net s
  derived : Derived cfg s
  homed : Homed cfg net s.daemon.infos
  spread : Spread cfg ∅ s.daemon.infos
  held : Held s.daemon.infos s.device
  agrees : Agrees s

section Step

variable {cfg : Config C} {net : Set (NodePublicKey C)} {s : System C}

/-- A node that is not in the table has a site of its own, if distinct nodes have
distinct subnet ids. -/
theorem Aligned.site_ne (h : Aligned cfg net s) (hsub : Set.InjOn subnetIdOf net)
    {node : NodePublicKey C} (hnode : node ∈ net) (hmem : node.toBase64 ∉ s.daemon.keys)
    {a : NodeAddr} (ha : deriveNodeAddr cfg.pre node = .ok a) {j : PeerInfo}
    (hj : j ∈ s.daemon.infos) : siteOf j.overlay ≠ siteOf a.address := by
  obtain ⟨n, hn, hkey, hs⟩ := h.homed j hj
  rw [hs.site, siteOf_derived ha, Ne, site_eq_iff]
  intro heq
  obtain rfl := hsub hn hnode heq
  exact hmem (hkey ▸ Daemon.keyB64_mem_keys hj)

/-- A node that is not in the table is not in the device, if distinct nodes have
distinct WireGuard keys. -/
theorem Aligned.peer_eq_none (h : Aligned cfg net s)
    (hwg : Set.InjOn NodePublicKey.wgPublicBytes net) {node : NodePublicKey C} (hnode : node ∈ net)
    (hmem : node.toBase64 ∉ s.daemon.keys) : s.device.peer node.wgPublicBytes = none := by
  rw [Option.eq_none_iff_forall_ne_some]
  intro p hp
  obtain ⟨⟨i, hi, hk⟩, -⟩ := h.held _ p hp
  exact hmem (h.sound.mem_keys_of_wgPublic hwg hnode hi hk)

/-- Actions of peers that are there keep the agreement. -/
theorem Aligned.stays {s' : System C} (h : Aligned cfg net s) (hsound : Sound net s')
    (hderived : Derived cfg s') (hwg : Set.InjOn NodePublicKey.wgPublicBytes net)
    (hstays : Stays s s') : Aligned cfg net s' := by
  obtain ⟨cs, hacts, -, hdev⟩ := hstays.calls
  refine ⟨hsound, hderived, hstays.infos ▸ h.homed, hstays.infos ▸ h.spread, ?_, ?_⟩
  · rw [hstays.infos, hdev]
    exact h.held.calls hacts
  · rw [Agrees, hstays.infos, hdev]
    exact h.agrees.calls h.spread h.sound.table hwg hacts

/-- A node that enters with its own address keeps the agreement. -/
theorem Aligned.enters {s' : System C} (h : Aligned cfg net s) (hsound : Sound net s')
    (hderived : Derived cfg s') (hwg : Set.InjOn NodePublicKey.wgPublicBytes net)
    (hsub : Set.InjOn subnetIdOf net) {node : NodePublicKey C} (hnet : node ∈ net) {a : NodeAddr}
    (ha : deriveNodeAddr cfg.pre node = .ok a) {name : String} {saved : Bool}
    (henters : Enters cfg node name a.address saved s s') : Aligned cfg net s' := by
  have hinfos := henters.infos
  obtain ⟨spec, rfl, -, hdev⟩ := henters.calls
  have hsited : (memberInfo cfg.ctx.keepalive name node.toBase64 node.wgPublicBytes
      a.address).Sited cfg (subnetIdOf node) := ⟨siteOf_derived ha, by simp [memberInfo]⟩
  have hspread := h.spread.enter (h.spread.room hsited rfl (Set.notMem_empty _) fun j hj =>
    h.site_ne hsub hnet henters.fresh ha hj)
  refine ⟨hsound, hderived, ?_, hinfos ▸ hspread, ?_, ?_⟩
  · rw [hinfos]
    intro j hj
    rcases List.mem_append.1 hj with hj | hj
    · exact h.homed j hj
    · obtain rfl := List.mem_singleton.1 hj
      exact ⟨node, hnet, rfl, hsited⟩
  · rw [hinfos, hdev]
    exact (h.held.mono fun i hi => List.mem_append_left _ hi).addPeer
      (List.mem_append_right _ (List.mem_singleton_self _)) rfl rfl
  · rw [Agrees, hinfos, hdev]
    exact h.agrees.enter hspread (h.peer_eq_none hwg hnet henters.fresh)
      (fun j hj heq => henters.fresh (h.sound.mem_keys_of_wgPublic hwg hnet hj heq)) rfl rfl rfl

/-- A node that leaves keeps the agreement. -/
theorem Aligned.leaves {s' : System C} (h : Aligned cfg net s) (hsound : Sound net s')
    (hderived : Derived cfg s') (hwg : Set.InjOn NodePublicKey.wgPublicBytes net)
    {node : NodePublicKey C} (hnet : node ∈ net) {saved : Bool}
    (hleaves : Leaves node saved s s') : Aligned cfg net s' := by
  have hsublist := List.eraseP_sublist (l := s.daemon.infos)
    (p := fun i => i.keyB64 = node.toBase64)
  refine ⟨hsound, hderived, ?_, ?_, ?_, ?_⟩
  · rw [hleaves.infos]
    exact fun j hj => h.homed j (hsublist.subset hj)
  · rw [hleaves.infos]
    exact h.spread.sublist hsublist
  · rw [hleaves.infos, hleaves.device]
    exact h.held.leave fun i hi hk => h.sound.mem_eraseP hi hk
  · rw [Agrees, hleaves.infos, hleaves.device]
    refine h.agrees.leave fun i hi => ⟨hsublist.subset hi, fun hk => ?_⟩
    exact h.sound.table.keyB64_ne_of_mem_eraseP hi
      (h.sound.table.keyB64_of_wgPublic hwg hnet (hsublist.subset hi) hk)

/-- **Every input keeps the table and the device in agreement**, if distinct nodes
have distinct WireGuard keys and subnet ids. -/
theorem Aligned.step (h : Aligned cfg net s) (hwg : Set.InjOn NodePublicKey.wgPublicBytes net)
    (hsub : Set.InjOn subnetIdOf net) {i : Input} (hi : Within cfg net i) :
    Aligned cfg net (s.step cfg i) := by
  have hsound := h.sound.step hi
  have hderived := h.derived.step i
  rcases table_step cfg s i with hstays |
    ⟨node, name, address, clock, saved, rest, rfl, hnode, henters⟩ |
    ⟨node, clock, saved, rest, -, hnode, hleaves⟩
  · exact h.stays hsound hderived hwg hstays
  · have hnet : node ∈ net := h.sound.queue _ (hnode ▸ List.mem_cons_self) node rfl
    obtain ⟨a, ha, rfl⟩ := h.derived node name address (by simp [hnode])
    exact h.enters hsound hderived hwg hsub hnet ha henters
  · have hnet : node ∈ net := h.sound.queue _ (hnode ▸ List.mem_cons_self) node rfl
    exact h.leaves hsound hderived hwg hnet hleaves

end Step

/-! ### Startup -/

/-- No member of the file enters the table: each is configured or has a key that
cannot be read. -/
def Unpersisted (cfg : Config C) (u : Startup) : Prop :=
  ∀ m ∈ u.members.members, m.publicKey ∈ cfg.keys ∨
    ∀ node : NodePublicKey C, NodePublicKey.fromBase64 C m.publicKey ≠ .ok node

/-- The table at startup is the configured one, if no member enters. -/
theorem infos_startup_of_unpersisted {cfg : Config C} {u : Startup} (h : Unpersisted cfg u) :
    (Daemon.startup cfg u.cache u.members u.start).infos =
      cfg.peers.map fun p => (configuredPeer cfg u.cache u.start p).toPeerInfo := by
  have hnone : u.members.members.filterMap (persistedPeer cfg u.cache u.start) = [] := by
    refine List.filterMap_eq_nil_iff.2 fun m hm => ?_
    rw [Option.eq_none_iff_forall_ne_some]
    intro p hp
    obtain ⟨hnot, node, hnode, -⟩ := persistedPeer_eq_some hp
    rcases h m hm with hmem | hbad
    · exact hnot hmem
    · exact hbad node hnode
  rw [infos_startup, hnone, List.map_nil, List.append_nil]

/-- **At startup the table and the device agree**, if no member enters from the
file. -/
theorem aligned_boot {cfg : Config C} {u : Startup} {net : Set (NodePublicKey C)}
    (hw : MembersFile.Written C u.members) (hcfg : ∀ p ∈ cfg.peers, p.publicKey ∈ net)
    (hmem : ∀ node : NodePublicKey C, node.toBase64 ∈ u.members.keys → node ∈ net)
    (hwg : Set.InjOn NodePublicKey.wgPublicBytes net) (hu : Unpersisted cfg u) :
    Aligned cfg net (boot cfg u) := by
  have hsound := Sound.boot cfg u hw hcfg hmem
  have hinfos := (infos_boot cfg u).trans (infos_startup_of_unpersisted hu)
  have hspread : Spread cfg ∅ (boot cfg u).daemon.infos := by
    rw [hinfos]
    exact (spread_configured cfg u.cache u.start).mono (Set.empty_subset _)
  refine ⟨hsound, fun _ _ _ h => (by cases h), ?_, hspread, held_boot cfg u, ?_⟩
  · rw [hinfos]
    intro i hi
    obtain ⟨p, hp, rfl⟩ := List.mem_map.1 hi
    refine ⟨p.publicKey, hcfg p hp, rfl, ?_⟩
    have hs := sited_configuredPeer cfg u.cache u.start hp
    rwa [(deriveNodeAddr_eq_ok_iff.1 (cfg.valid.addr p hp)).2] at hs
  · obtain ⟨cs, hacts, hdev⟩ := device_boot cfg u
    have hcarried := carried_applySpecs cfg u.cache u.start hcfg hwg
    rw [← hinfos] at hcarried
    rw [Agrees, hdev]
    exact hcarried.calls hspread hsound.table hwg hacts

/-- **Every state of a run agrees**, if no member enters from the file. -/
theorem agrees_after {cfg : Config C} {u : Startup} {net : Set (NodePublicKey C)}
    (hw : MembersFile.Written C u.members) (hcfg : ∀ p ∈ cfg.peers, p.publicKey ∈ net)
    (hmem : ∀ node : NodePublicKey C, node.toBase64 ∈ u.members.keys → node ∈ net)
    (hwg : Set.InjOn NodePublicKey.wgPublicBytes net) (hsub : Set.InjOn subnetIdOf net)
    (hu : Unpersisted cfg u) {is : List Input} (his : ∀ i ∈ is, Within cfg net i) :
    Agrees (after cfg (boot cfg u) is) := by
  have haligned : Aligned cfg net (after cfg (boot cfg u) is) :=
    Along.invariant (fun _ _ h hi => h.step hwg hsub hi) (aligned_boot hw hcfg hmem hwg hu)
      (Along.of_forall his _)
  exact haligned.agrees

/-! ### A member that comes back from the file -/

/-- The key is not in the device, or holds no AllowedIPs there. -/
def Bare (k : Bytes 32) (dev : Device) : Prop := ∀ p, dev.peer k = some p → p.allowedIps = ∅

theorem Bare.setPeerEndpoint {k : Bytes 32} {dev : Device} (h : Bare k dev) (k' : Bytes 32)
    (ep : SocketAddrV6) : Bare k (dev.setPeerEndpoint k' ep) := by
  intro p hp
  by_cases hk : k = k'
  · subst hk
    obtain rfl := Option.some.inj ((dev.setPeerEndpoint_self k ep).symm.trans hp)
    cases hold : dev.peer k with
    | none => rfl
    | some q => exact h q hold
  · rw [dev.setPeerEndpoint_of_ne hk] at hp
    exact h p hp

/-- The call sets an endpoint. -/
def SetsEndpoint (c : WgCall) : Prop := ∃ k ep, c = .setPeerEndpoint k ep

theorem Bare.calls {k : Bytes 32} {dev : Device} (h : Bare k dev) {cs : List WgCall}
    (hcs : ∀ c ∈ cs, SetsEndpoint c) : Bare k (dev.calls cs) := by
  induction cs generalizing dev with
  | nil => exact h
  | cons c cs ih =>
      obtain ⟨k', ep, rfl⟩ := hcs c List.mem_cons_self
      exact ih (h.setPeerEndpoint k' ep) fun c hc => hcs c (List.mem_cons_of_mem _ hc)

end System

/-- The actions of a kick set endpoints and nudge. -/
theorem PeerFsm.mem_kick {fsm : PeerFsm} {now : SystemTime} {a : Action}
    (ha : a ∈ (fsm.kick now).2) : a = .nudge ∨ ∃ ep, a = .setEndpoint ep := by
  unfold PeerFsm.kick at ha
  simp only at ha
  split at ha
  · exact Or.inl (List.mem_singleton.1 ha)
  · unfold PeerFsm.point at ha
    split at ha
    · rcases List.mem_pair.1 ha with rfl | rfl
      · exact Or.inr ⟨_, rfl⟩
      · exact Or.inl rfl
    · cases ha

namespace System

theorem setsEndpoint_applyActions (p : PeerRuntime C) (clock : Clock) (cache : EndpointCache)
    {as : List Action} (has : ∀ a ∈ as, a = .nudge ∨ ∃ ep, a = .setEndpoint ep) :
    ∀ c ∈ wgCalls (p.applyActions clock cache as).2, SetsEndpoint c := by
  intro c hc
  rw [p.wgCalls_applyActions] at hc
  obtain ⟨a, ha, hc⟩ := List.mem_flatMap.1 hc
  rcases has a ha with rfl | ⟨ep, rfl⟩
  · cases hc
  · obtain rfl := List.mem_singleton.1 hc
    exact ⟨_, _, rfl⟩

/-- **A kick only sets endpoints.** -/
theorem setsEndpoint_onKick (d : Daemon C) (now : SystemTime) (clocks : ℕ → Clock) :
    ∀ c ∈ wgCalls (d.onKick now clocks).2, SetsEndpoint c := by
  have hpeers : ∀ (ps : List (PeerRuntime C)) (cache : EndpointCache) (clocks : ℕ → Clock),
      ∀ c ∈ wgCalls (Daemon.kickPeers cache now clocks ps).2.2, SetsEndpoint c := by
    intro ps
    induction ps with
    | nil => simp [Daemon.kickPeers]
    | cons p ps ih =>
        intro cache clocks c hc
        simp only [Daemon.kickPeers, wgCalls_append, List.mem_append] at hc
        rcases hc with hc | hc
        · have hkick : ∀ a ∈ (p.fsm.kick now).2, a = .nudge ∨ ∃ ep, a = .setEndpoint ep :=
            fun a ha => PeerFsm.mem_kick ha
          exact setsEndpoint_applyActions _ _ _ hkick c hc
        · exact ih _ _ c hc
  exact hpeers d.peers d.cache clocks

/-- The configured device does not know a node that is not configured. -/
theorem applySpecs_eq_none {cfg : Config C} {net : Set (NodePublicKey C)}
    (hcfg : ∀ p ∈ cfg.peers, p.publicKey ∈ net)
    (hwg : Set.InjOn NodePublicKey.wgPublicBytes net) {node : NodePublicKey C} (hnode : node ∈ net)
    (hnot : node.toBase64 ∉ cfg.keys) :
    (Device.applySpecs (buildDeviceSpec cfg)).peer node.wgPublicBytes = none := by
  rw [Option.eq_none_iff_forall_ne_some]
  intro p hp
  obtain ⟨⟨i, hi, hk⟩, -⟩ := held_applySpecs cfg .new .new 0 _ p hp
  rw [infos_startup, show MembersFile.new.members = [] from rfl, List.filterMap_nil,
    List.map_nil, List.append_nil] at hi
  obtain ⟨q, hq, rfl⟩ := List.mem_map.1 hi
  obtain rfl := hwg (hcfg q hq) hnode hk
  exact hnot (List.mem_map_of_mem hq)

/-- **A member that enters from the file has no AllowedIPs in the device**: where the
table and the device agree at the entry of the main loop, no member entered. -/
theorem unpersisted_of_agrees {cfg : Config C} {u : Startup} {net : Set (NodePublicKey C)}
    (hw : MembersFile.Written C u.members) (hcfg : ∀ p ∈ cfg.peers, p.publicKey ∈ net)
    (hmem : ∀ node : NodePublicKey C, node.toBase64 ∈ u.members.keys → node ∈ net)
    (hwg : Set.InjOn NodePublicKey.wgPublicBytes net) (h : Agrees (boot cfg u)) :
    Unpersisted cfg u := by
  intro m hm
  by_contra hneg
  have hnot : m.publicKey ∉ cfg.keys := fun hk => hneg (Or.inl hk)
  obtain ⟨node, hkey⟩ := hw.canonical m hm
  obtain ⟨p, hp⟩ := persistedPeer_of_written u.cache u.start hkey hnot
  obtain ⟨-, node', hnode', hinfo⟩ := persistedPeer_eq_some hp
  rw [hkey, NodePublicKey.fromBase64_toBase64] at hnode'
  obtain rfl : node = node' := Except.ok.inj hnode'
  have hi : p.toPeerInfo ∈ (boot cfg u).daemon.infos := by
    rw [infos_boot, infos_startup]
    exact List.mem_append_right _ (List.mem_map_of_mem (List.mem_filterMap.2 ⟨m, hm, hp⟩))
  have hnet : node ∈ net := hmem node (hkey ▸ List.mem_map_of_mem hm)
  have hnone := applySpecs_eq_none hcfg hwg hnet (hkey ▸ hnot)
  have hbare : Bare node.wgPublicBytes (boot cfg u).device :=
    Bare.calls (fun q hq => (by cases hnone.symm.trans hq)) (setsEndpoint_onKick _ u.now u.clocks)
  obtain ⟨q, hq, hips, -⟩ := h _ hi
  have hwgp : p.wgPublic = node.wgPublicBytes := by
    rw [hinfo]
    rfl
  rw [hbare q (hwgp ▸ hq)] at hips
  have hsite : (siteOf p.overlay, 64) ∈ p.toPeerInfo.allowedIps.toFinset :=
    List.mem_toFinset.2 (mem_allowedIpsFor.2 (Or.inl rfl))
  rw [← hips] at hsite
  exact Finset.notMem_empty _ hsite

/-! ### Lifetimes -/

/-- The file on disk is left alone, or is the member table. -/
theorem disk_step_cases (cfg : Config C) (s : System C) (i : Input) :
    (s.step cfg i).disk = s.disk ∨ (s.step cfg i).disk = (s.step cfg i).daemon.members := by
  rcases table_step cfg s i with hstays | ⟨n, name, address, clock, saved, rest, -, -, henters⟩ |
    ⟨n, clock, saved, rest, -, -, hleaves⟩
  · exact Or.inl hstays.disk
  · rw [henters.disk]
    split_ifs
    · exact Or.inr rfl
    · exact Or.inl rfl
  · rw [hleaves.disk]
    split_ifs
    · exact Or.inr rfl
    · exact Or.inl rfl

/-- A file that the daemon wrote is loaded as it is, or as the empty one. -/
theorem Startup.written_members (u : Startup) (hw : MembersFile.Written C u.disk) :
    MembersFile.Written C u.members := by
  unfold Startup.members
  split_ifs
  · exact hw
  · exact .new

/-- **The daemon leaves a member file that it wrote.** -/
theorem written_disk_after (cfg : Config C) (u : Startup) (hw : MembersFile.Written C u.disk)
    (is : List Input) : MembersFile.Written C (after cfg (boot cfg u) is).disk := by
  have hboot : Sound Set.univ (boot cfg u) ∧ MembersFile.Written C (boot cfg u).disk := by
    refine ⟨Sound.boot cfg u (u.written_members hw) (fun _ _ => Set.mem_univ _)
      fun _ _ => Set.mem_univ _, ?_⟩
    rw [disk_boot]
    exact hw
  refine (run_invariant (P := fun s : System C => Sound Set.univ s ∧ MembersFile.Written C s.disk)
    (fun s i h => ?_) hboot is).2
  have hsound : Sound Set.univ (s.step cfg i) := h.1.step fun _ _ _ _ => Set.mem_univ _
  refine ⟨hsound, ?_⟩
  rcases disk_step_cases cfg s i with hdisk | hdisk
  · rw [hdisk]
    exact h.2
  · rw [hdisk]
    exact hsound.written

/-- One lifetime of the daemon: what it starts from and what happens to it. -/
structure Life (C : Crypto) where
  cfg : Config C
  startup : Startup
  inputs : List Input

namespace Life

/-- The state after some of the inputs. -/
def state (l : Life C) (is : List Input) : System C := after l.cfg (boot l.cfg l.startup) is

/-- The nodes that the lifetime meets. -/
def met (l : Life C) : Set (NodePublicKey C) := System.met l.cfg l.startup l.inputs

/-- The member file that it leaves. -/
def left (l : Life C) : MembersFile := (l.state l.inputs).disk

/-- The same start from the file that it leaves. -/
def again (l : Life C) (is : List Input) : Life C :=
  { l with startup := { l.startup with disk := l.left }, inputs := is }

theorem disk_again (l : Life C) (is : List Input) : (l.again is).startup.disk = l.left := rfl

theorem members_again (l : Life C) (is : List Input) (h : l.startup.readable = true) :
    (l.again is).startup.members = l.left := if_pos h

theorem left_pair (cfg : Config C) (u : Startup) (i j : Input) :
    (Life.mk cfg u [i, j]).left = ((after cfg (boot cfg u) [i]).step cfg j).disk := rfl

end Life

/-- Each lifetime starts from the member file that the one before left. -/
def Lifetimes : MembersFile → List (Life C) → Prop
  | _, [] => True
  | disk, l :: ls => l.startup.disk = disk ∧ Lifetimes l.left ls

/-- Every lifetime starts from a file that the daemon wrote. -/
theorem Lifetimes.written {disk : MembersFile} {ls : List (Life C)} (h : Lifetimes disk ls)
    (hw : MembersFile.Written C disk) : ∀ l ∈ ls, MembersFile.Written C l.startup.members := by
  induction ls generalizing disk with
  | nil => simp
  | cons l ls ih =>
      obtain ⟨rfl, htail⟩ := h
      intro l' hl'
      rcases List.mem_cons.1 hl' with rfl | hl'
      · exact l'.startup.written_members hw
      · exact ih htail (written_disk_after l.cfg l.startup hw l.inputs) l' hl'

/-- **The table and the device agree over whole lifetimes exactly when no lifetime
starts with a member that is not configured**, where the nodes that a lifetime meets
have distinct WireGuard keys and subnet ids. -/
theorem table_and_device_agree_iff (disk : MembersFile) (hw : MembersFile.Written C disk)
    (ls : List (Life C)) (hls : Lifetimes disk ls)
    (hwg : ∀ l ∈ ls, Set.InjOn NodePublicKey.wgPublicBytes l.met)
    (hsub : ∀ l ∈ ls, Set.InjOn subnetIdOf l.met) :
    (∀ l ∈ ls, ∀ is, is <+: l.inputs → Agrees (l.state is)) ↔
      ∀ l ∈ ls, Unpersisted l.cfg l.startup := by
  have hwritten := hls.written hw
  have hcfg : ∀ l ∈ ls, ∀ p ∈ l.cfg.peers, p.publicKey ∈ l.met :=
    fun l _ p hp => Or.inl ⟨p, hp, rfl⟩
  have hmem : ∀ l ∈ ls, ∀ node : NodePublicKey C,
      node.toBase64 ∈ l.startup.members.keys → node ∈ l.met :=
    fun l _ node hnode => Or.inr (Or.inl hnode)
  constructor
  · intro h l hl
    exact unpersisted_of_agrees (hwritten l hl) (hcfg l hl) (hmem l hl) (hwg l hl)
      (h l hl [] (List.nil_prefix))
  · intro h l hl is his
    exact agrees_after (hwritten l hl) (hcfg l hl) (hmem l hl) (hwg l hl) (hsub l hl) (h l hl)
      fun i hi => within_met l.cfg l.startup (his.subset hi)

/-- Node 2 is admitted and its admission is saved. -/
def firstLife : Life Crypto.plain where
  cfg := plainConfig
  startup := plainStartup
  inputs := [.datagram (admission (plainKey 2 0)), .gossip (fun _ => 0) true]

/-- The daemon starts again from the file that the first lifetime left. -/
def secondLife : Life Crypto.plain := firstLife.again []

/-- The first lifetime leaves node 2 in the file. -/
theorem keys_left_firstLife : firstLife.left.keys = [(plainKey 2 0).toBase64] := by
  have haddr : deriveNodeAddr plainPrefix (plainKey 2 0) = .ok (plainNodeAddr 2 0) :=
    deriveNodeAddr_plainKey plainPrefix (by omega) (by omega) 0
  have hne : plainKey 2 0 ≠ plainKey 1 0 := plainKey_ne (by omega) (by omega) (by omega) 0 0
  have hq := queue_admission (plainKey_ne (by omega) (by omega) (by omega) 0 0) haddr plainStartup
  set s := after plainConfig (boot plainConfig plainStartup) [.datagram (admission (plainKey 2 0))]
    with hs
  have hmem : (plainKey 2 0).toBase64 ∉ s.daemon.keys := by
    rw [hs, daemon_datagram, Daemon.keys_eq, infos_boot_plain]
    intro h
    exact hne (NodePublicKey.toBase64_injective (List.mem_singleton.1 h))
  have henters := s.daemon.enters_onMemberAdmitted plainConfig.ctx (plainKey 2 0) "m"
    (plainNodeAddr 2 0).address 0 hmem
  have hleft : firstLife.left = (s.step plainConfig (.gossip (fun _ => 0) true)).disk :=
    Life.left_pair ..
  have hstep : s.step plainConfig (.gossip (fun _ => 0) true) =
      s.admitted plainConfig (plainKey 2 0) "m" (plainNodeAddr 2 0).address (fun _ => 0) true
        [] := by
    simp [step, hq, Daemon.onGossip, admitted]
  have hnew : s.daemon.members = .new := by
    rw [hs, daemon_datagram, members_boot]
    rfl
  rw [hleft, hstep]
  simp [admitted, perform, savedBy, henters.saved, henters.members, hnew, MembersFile.keys_upsert]

theorem injOn_met {l : Life Crypto.plain}
    (h : ∀ node ∈ l.met, node = plainKey 1 0 ∨ node = plainKey 2 0) :
    Set.InjOn subnetIdOf l.met := by
  have hne : subnetIdOf (plainKey 1 0) ≠ subnetIdOf (plainKey 2 0) := by
    rw [subnetIdOf_plainKey (by omega), subnetIdOf_plainKey (by omega)]
    decide
  intro a ha b hb heq
  rcases h a ha with rfl | rfl
  · rcases h b hb with rfl | rfl
    · rfl
    · exact (hne heq).elim
  · rcases h b hb with rfl | rfl
    · exact (hne heq.symm).elim
    · rfl

theorem met_firstLife : ∀ node ∈ firstLife.met, node = plainKey 1 0 ∨ node = plainKey 2 0 := by
  rintro node (⟨p, hp, rfl⟩ | hnode | ⟨d, e, hd, he, rfl⟩)
  · obtain rfl := List.mem_singleton.1 hp
    exact Or.inl rfl
  · cases hnode
  · obtain rfl : d = admission (plainKey 2 0) := by simpa [firstLife] using hd
    rw [show firstLife.cfg.gossip = plainConfig.gossip from rfl,
      accepted_admission (plainKey_ne (by omega) (by omega) (by omega) 0 0)] at he
    cases he
    exact Or.inr rfl

theorem met_secondLife : ∀ node ∈ secondLife.met, node = plainKey 1 0 ∨ node = plainKey 2 0 := by
  rintro node (⟨p, hp, rfl⟩ | hnode | ⟨d, e, hd, -, -⟩)
  · obtain rfl := List.mem_singleton.1 hp
    exact Or.inl rfl
  · rw [secondLife, firstLife.members_again _ rfl, keys_left_firstLife] at hnode
    exact Or.inr (NodePublicKey.toBase64_injective (List.mem_singleton.1 hnode))
  · cases hd

/-- In the first lifetime the table and the device agree after the admission. -/
theorem table_and_device_agree_first : Agrees (firstLife.state firstLife.inputs) := by
  have hone : ∀ l ∈ [firstLife], l = firstLife := fun l hl => List.mem_singleton.1 hl
  have hiff := table_and_device_agree_iff .new .new [firstLife] ⟨rfl, trivial⟩
    (fun _ _ => wgPublicBytes_plain_injective.injOn)
    (fun l hl => hone l hl ▸ injOn_met met_firstLife)
  refine hiff.2 (fun l hl => ?_) firstLife (List.mem_singleton_self _) _ List.prefix_rfl
  obtain rfl := hone l hl
  intro m hm
  cases hm

/-- **A member that comes back from the file is not in the data plane.**  Node 2 is
admitted and saved in one lifetime; in the next it is in the table, but not in the
device with its AllowedIPs. -/
theorem table_and_device_disagree :
    Lifetimes .new [firstLife, secondLife] ∧
      (∀ l ∈ [firstLife, secondLife], Set.InjOn subnetIdOf l.met) ∧
      ¬Agrees (secondLife.state []) := by
  refine ⟨⟨rfl, firstLife.disk_again _, trivial⟩, fun l hl => ?_, fun h => ?_⟩
  · rcases List.mem_pair.1 hl with rfl | rfl
    · exact injOn_met met_firstLife
    · exact injOn_met met_secondLife
  · have hmembers : secondLife.startup.members = firstLife.left := firstLife.members_again [] rfl
    have hw : MembersFile.Written Crypto.plain secondLife.startup.members := by
      rw [hmembers]
      exact written_disk_after plainConfig plainStartup .new firstLife.inputs
    have hnone := unpersisted_of_agrees hw (fun _ _ => Set.mem_univ _) (fun _ _ => Set.mem_univ _)
      wgPublicBytes_plain_injective.injOn h
    have hkey : (plainKey 2 0).toBase64 ∈ secondLife.startup.members.keys := by
      rw [hmembers, keys_left_firstLife]
      exact List.mem_singleton_self _
    obtain ⟨m, hm, hkey⟩ := List.mem_map.1 hkey
    rcases hnone m hm with hcfg | hbad
    · rw [hkey] at hcfg
      have hone := NodePublicKey.toBase64_injective (List.mem_singleton.1 hcfg)
      exact plainKey_ne (by omega) (by omega) (by omega) 0 0 hone
    · exact hbad (plainKey 2 0) (by rw [hkey, NodePublicKey.fromBase64_toBase64])

end System

end Hextet
