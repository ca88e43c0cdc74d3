/-
# Address space of the peers

`on_membership_event` in `crates/engine/src/daemon.rs` gives a new member the /64
site of its address, without the check for colliding subnet ids that
`load_config` (`check_subnet_collisions`) and `hextet member add` make.  Two nodes
share a site when the 16 bits of their subnet ids agree, and then the second one
to enter takes the prefix of the first.

`Spread` says that the routes of the peers keep out of the network and that no two
peers share an address; it survives as long as the peers that enter have a site of
their own (`EntersClear`), which a route cannot cover.  `Held` says that what the device
holds, it holds for peers in the table; together they give that an admission
takes no prefix from another peer.

A file that `Config::load` accepts has passed the checks, so that its device spec
has at most one peer for every address (`load_unambiguous`).
-/

import Hextet.Engine.Revocation
import Hextet.Core.ConfigFile

namespace Hextet

open Lib

variable {C : Crypto}

/-! ### Peers that share no address -/

theorem Config.ownAddr_site (cfg : Config C) :
    cfg.ownAddr.site = overlayAddr cfg.pre cfg.ownAddr.subnetId zeroIid := by
  rw [(deriveNodeAddr_eq_ok_iff.1 cfg.valid.own_addr).2]

/-- The site of the peer is that of a subnet id, and its routes lie outside the
network. -/
structure PeerInfo.Sited (cfg : Config C) (t : UInt16) (i : PeerInfo) : Prop where
  site : siteOf i.overlay = overlayAddr cfg.pre t zeroIid
  clear : ∀ r ∈ i.routes, r.overlaps (overlayRoute cfg.pre) = false

/-- **Peers of different subnets share no address**, if their routes do not
overlap. -/
theorem PeerInfo.Sited.apart {cfg : Config C} {s t : UInt16} {i j : PeerInfo} (hi : i.Sited cfg s)
    (hj : j.Sited cfg t) (hst : s ≠ t)
    (hroutes : ∀ r ∈ i.routes, ∀ r' ∈ j.routes, r.overlaps r' = false) :
    Apart i.allowedIps j.allowedIps := by
  rw [allowedIps, allowedIps, hi.site, hj.site]
  exact apart_allowedIpsFor (fun h => hst ((site_eq_iff cfg.pre s t).1 h))
    (apart_site_routes hj.clear) (apart_site_routes hi.clear) hroutes

/-- The routes of the peers lie outside the network, no site is reserved, and no two
peers share an address. -/
structure Spread (cfg : Config C) (reserved : Set Ipv6Addr) (infos : List PeerInfo) : Prop where
  clear : ∀ i ∈ infos, ∀ r ∈ i.routes, r.overlaps (overlayRoute cfg.pre) = false
  sites : ∀ i ∈ infos, siteOf i.overlay ∉ reserved
  apart : infos.Pairwise fun i j => Apart i.allowedIps j.allowedIps

/-- A peer can enter beside the others: it has no routes, and its site is not
reserved, is nobody else's and lies in no route. -/
structure Room (reserved : Set Ipv6Addr) (infos : List PeerInfo) (i : PeerInfo) : Prop where
  routes : i.routes = []
  site : siteOf i.overlay ∉ reserved
  fresh : ∀ j ∈ infos, siteOf j.overlay ≠ siteOf i.overlay
  unrouted : ∀ j ∈ infos, Apart [(siteOf i.overlay, 64)] (j.routes.map Ipv6Route.toPair)

namespace Spread

variable {cfg : Config C} {reserved : Set Ipv6Addr} {infos : List PeerInfo}

/-- A peer enters where there is room. -/
theorem enter (h : Spread cfg reserved infos) {i : PeerInfo} (hi : Room reserved infos i) :
    Spread cfg reserved (infos ++ [i]) where
  clear := by
    simpa [or_imp, forall_and, hi.routes] using h.clear
  sites := by
    simpa [or_imp, forall_and] using And.intro h.sites hi.site
  apart := by
    refine List.pairwise_append.2 ⟨h.apart, List.pairwise_singleton _ _, fun j hj k hk => ?_⟩
    obtain rfl := List.mem_singleton.1 hk
    exact apart_allowedIpsFor (hi.fresh j hj) (by simp [Apart, hi.routes]) (hi.unrouted j hj)
      (by simp [hi.routes])

/-- There is room for a peer without routes on a free site of the network. -/
theorem room (h : Spread cfg reserved infos) {i : PeerInfo} {t : UInt16} (hi : i.Sited cfg t)
    (hroutes : i.routes = []) (hsite : siteOf i.overlay ∉ reserved)
    (hfresh : ∀ j ∈ infos, siteOf j.overlay ≠ siteOf i.overlay) : Room reserved infos i where
  routes := hroutes
  site := hsite
  fresh := hfresh
  unrouted j hj := hi.site ▸ apart_site_routes (h.clear j hj)

theorem sublist (h : Spread cfg reserved infos) {infos' : List PeerInfo}
    (hsub : infos'.Sublist infos) : Spread cfg reserved infos' :=
  ⟨fun i hi => h.clear i (hsub.subset hi), fun i hi => h.sites i (hsub.subset hi),
    h.apart.sublist hsub⟩

theorem mono (h : Spread cfg reserved infos) {reserved' : Set Ipv6Addr}
    (hsub : reserved' ⊆ reserved) : Spread cfg reserved' infos :=
  ⟨h.clear, fun i hi hmem => h.sites i hi (hsub hmem), h.apart⟩

/-- Peers on other sites than this node's keep out of its site. -/
theorem apart_own (h : Spread cfg {cfg.ownAddr.site} infos) {i : PeerInfo} (hi : i ∈ infos) :
    Apart i.allowedIps [(cfg.ownAddr.site, 64)] := by
  change Apart _ (allowedIpsFor cfg.ownAddr.site [])
  refine apart_allowedIpsFor (h.sites i hi) (by simp [Apart]) ?_ (by simp)
  exact cfg.ownAddr_site ▸ apart_site_routes (h.clear i hi)

/-- The AllowedIPs of two peers of the table share no prefix. -/
theorem disjoint (h : Spread cfg reserved infos) {i j : PeerInfo} (hi : i ∈ infos) (hj : j ∈ infos)
    (hne : i ≠ j) : Disjoint i.allowedIps.toFinset j.allowedIps.toFinset := by
  have hsymm : Std.Symm fun i j : PeerInfo => Apart i.allowedIps j.allowedIps :=
    ⟨fun _ _ => Apart.symm⟩
  exact (h.apart.forall hi hj hne).disjoint

/-- Peers that enter one after another. -/
theorem enter_all {js : List PeerInfo} (h : Spread cfg reserved infos)
    (hroutes : ∀ j ∈ js, j.routes = [])
    (hsites : ∀ j ∈ js, siteOf j.overlay ∉ reserved)
    (hunrouted : ∀ j ∈ js, ∀ i ∈ infos,
      Apart [(siteOf j.overlay, 64)] (i.routes.map Ipv6Route.toPair))
    (hnodup : ((infos ++ js).map fun i => siteOf i.overlay).Nodup) :
    Spread cfg reserved (infos ++ js) := by
  induction js generalizing infos with
  | nil => rwa [List.append_nil]
  | cons j js ih =>
      rw [List.append_cons] at hnodup ⊢
      have hfresh : ∀ i ∈ infos, siteOf i.overlay ≠ siteOf j.overlay := by
        intro i hi heq
        rw [List.map_append, List.map_append] at hnodup
        have hdisj := List.disjoint_of_nodup_append (List.Nodup.of_append_left hnodup)
        exact hdisj (List.mem_map_of_mem hi) (by simp [heq])
      have hroom : Room reserved infos j :=
        ⟨hroutes j List.mem_cons_self, hsites j List.mem_cons_self, hfresh,
          hunrouted j List.mem_cons_self⟩
      refine ih (h.enter hroom) (fun k hk => hroutes k (List.mem_cons_of_mem _ hk))
        (fun k hk => hsites k (List.mem_cons_of_mem _ hk)) (fun k hk i hi => ?_) hnodup
      rcases List.mem_append.1 hi with hi | hi
      · exact hunrouted k (List.mem_cons_of_mem _ hk) i hi
      · obtain rfl := List.mem_singleton.1 hi
        simp [Apart, hroutes i List.mem_cons_self]

end Spread

/-! ### What the device holds -/

/-- What the device holds, it holds for peers of a list. -/
def Held (infos : List PeerInfo) (dev : Device) : Prop :=
  ∀ k p, dev.peer k = some p → (∃ i ∈ infos, i.wgPublic = k) ∧
    ∀ x ∈ p.allowedIps, ∃ i ∈ infos, i.wgPublic = k ∧ x ∈ i.allowedIps

namespace Held

variable {infos : List PeerInfo} {dev : Device}

theorem empty : Held infos .empty := fun _ _ h => by cases h

theorem mono (h : Held infos dev) {infos' : List PeerInfo} (hsub : ∀ i ∈ infos, i ∈ infos') :
    Held infos' dev := by
  intro k p hp
  obtain ⟨⟨i, hi, hk⟩, hips⟩ := h k p hp
  refine ⟨⟨i, hsub i hi, hk⟩, fun x hx => ?_⟩
  obtain ⟨j, hj, hx⟩ := hips x hx
  exact ⟨j, hsub j hj, hx⟩

theorem setPeerEndpoint (h : Held infos dev) {i : PeerInfo} (hi : i ∈ infos) (ep : SocketAddrV6) :
    Held infos (dev.setPeerEndpoint i.wgPublic ep) := by
  intro k p hp
  by_cases hk : k = i.wgPublic
  · subst hk
    obtain rfl := Option.some.inj ((dev.setPeerEndpoint_self _ ep).symm.trans hp)
    refine ⟨⟨i, hi, rfl⟩, fun x hx => ?_⟩
    cases hold : dev.peer i.wgPublic with
    | none => simp [hold, Device.blank] at hx
    | some q =>
        rw [hold] at hx
        exact (h _ q hold).2 x hx
  · rw [dev.setPeerEndpoint_of_ne hk] at hp
    exact h k p hp

theorem addPeer (h : Held infos dev) {i : PeerInfo} (hi : i ∈ infos) {spec : PeerSpec}
    (hwg : spec.wgPublic = i.wgPublic) (hips : spec.allowedIps = i.allowedIps) :
    Held infos (dev.addPeer spec) := by
  intro k p hp
  by_cases hk : k = spec.wgPublic
  · subst hk
    obtain rfl := Option.some.inj ((dev.addPeer_self spec).symm.trans hp)
    refine ⟨⟨i, hi, hwg.symm⟩, fun x hx => ?_⟩
    rcases Finset.mem_union.1 hx with hx | hx
    · cases hold : dev.peer spec.wgPublic with
      | none => simp [hold, Device.blank] at hx
      | some q =>
          rw [hold] at hx
          exact (h _ q hold).2 x hx
    · exact ⟨i, hi, hwg.symm, hips ▸ List.mem_toFinset.1 hx⟩
  · rw [dev.addPeer_of_ne hk] at hp
    obtain ⟨q, hq, rfl⟩ := Option.map_eq_some_iff.1 hp
    exact ⟨(h k q hq).1, fun x hx => (h k q hq).2 x (Finset.sdiff_subset hx)⟩

theorem removePeer (h : Held infos dev) (k' : Bytes 32) : Held infos (dev.removePeer k') := by
  intro k p hp
  by_cases hk : k = k'
  · subst hk
    cases (dev.removePeer_self k).symm.trans hp
  · exact h k p ((dev.removePeer_of_ne hk).symm.trans hp)

/-- **Calls for peers of the list keep it so.** -/
theorem calls (h : Held infos dev) {cs : List WgCall} (hcs : ActsFor infos cs) :
    Held infos (dev.calls cs) := by
  refine hcs.invariant (fun i hi a dev h => ?_) h
  cases a with
  | setEndpoint ep => exact h.setPeerEndpoint hi ep
  | rehandshake ep => exact (h.removePeer i.wgPublic).addPeer hi rfl rfl
  | nudge => exact h
  | markGood => exact h

/-- Removing the WireGuard key of the peers that leave. -/
theorem leave (h : Held infos dev) {k : Bytes 32} {infos' : List PeerInfo}
    (hsub : ∀ i ∈ infos, i.wgPublic ≠ k → i ∈ infos') : Held infos' (dev.removePeer k) := by
  intro k' p hp
  by_cases hk : k' = k
  · subst hk
    cases (dev.removePeer_self k').symm.trans hp
  · obtain ⟨⟨i, hi, hwg⟩, hips⟩ := h k' p ((dev.removePeer_of_ne hk).symm.trans hp)
    refine ⟨⟨i, hsub i hi fun heq => hk (hwg.symm.trans heq), hwg⟩, fun x hx => ?_⟩
    obtain ⟨j, hj, hwg', hx⟩ := hips x hx
    exact ⟨j, hsub j hj fun heq => hk (hwg'.symm.trans heq), hwg', hx⟩

/-- **A prefix that no peer of the list has is taken from nobody.** -/
theorem addPeer_other (h : Held infos dev) {spec : PeerSpec}
    (hfree : ∀ i ∈ infos, ∀ x ∈ spec.allowedIps, x ∉ i.allowedIps) {k : Bytes 32}
    (hk : k ≠ spec.wgPublic) : (dev.addPeer spec).peer k = dev.peer k := by
  rw [dev.addPeer_of_ne hk]
  cases hp : dev.peer k with
  | none => rfl
  | some p =>
      have hdisj : Disjoint p.allowedIps spec.allowedIps.toFinset := by
        refine Finset.disjoint_left.2 fun x hx hx' => ?_
        obtain ⟨i, hi, -, hxi⟩ := (h k p hp).2 x hx
        exact hfree i hi x (List.mem_toFinset.1 hx') hxi
      rw [Option.map_some, Finset.sdiff_eq_self_of_disjoint hdisj]

end Held

/-! ### Startup -/

/-- A peer of the configuration. -/
theorem sited_configuredPeer (cfg : Config C) (cache : EndpointCache) (start : SystemTime)
    {p : Peer C} (hp : p ∈ cfg.peers) :
    (configuredPeer cfg cache start p).toPeerInfo.Sited cfg p.addr.subnetId where
  site := by
    refine (siteOf_address (cfg.valid.addr p hp)).trans ?_
    rw [(deriveNodeAddr_eq_ok_iff.1 (cfg.valid.addr p hp)).2]
  clear := cfg.valid.clear p hp

/-- **The configuration gives peers that share no address**, also with this
node. -/
theorem spread_configured (cfg : Config C) (cache : EndpointCache) (start : SystemTime) :
    Spread cfg {cfg.ownAddr.site}
      (cfg.peers.map fun p => (configuredPeer cfg cache start p).toPeerInfo) := by
  obtain ⟨hnodup, -, hown⟩ := List.nodup_append'.1 cfg.valid.subnets
  refine ⟨fun i hi => ?_, fun i hi heq => ?_, ?_⟩
  · obtain ⟨p, hp, rfl⟩ := List.mem_map.1 hi
    exact cfg.valid.clear p hp
  · obtain ⟨p, hp, rfl⟩ := List.mem_map.1 hi
    have hsub : p.addr.subnetId = cfg.ownAddr.subnetId := by
      rw [← site_eq_iff cfg.pre, ← (sited_configuredPeer cfg cache start hp).site, heq,
        cfg.ownAddr_site]
    exact hown (List.mem_map_of_mem hp) (by simp [hsub])
  · have hpairs := (List.pairwise_map.1 hnodup).and cfg.valid.apart
    refine List.pairwise_map.2 (hpairs.imp_of_mem fun hp hq hpq => ?_)
    exact (sited_configuredPeer cfg cache start hp).apart (sited_configuredPeer cfg cache start hq)
      hpq.1 hpq.2

namespace System

/-- At startup no two peers, nor a peer and this node, share a site, and the site of a
member that enters from the file lies in no route of a configured peer. -/
structure StartsClear (cfg : Config C) (u : Startup) : Prop where
  sites : (cfg.ownAddr.site :: (Daemon.startup cfg u.cache u.members u.start).infos.map
    fun i => siteOf i.overlay).Nodup
  routes : ∀ m ∈ u.members.members, m.publicKey ∉ cfg.keys → ∀ p ∈ cfg.peers,
    Apart [(siteOf m.address, 64)] (p.routes.map Ipv6Route.toPair)

/-- The derived address of a node is sited in the subnet of the node. -/
theorem siteOf_derived {cfg : Config C} {node : NodePublicKey C} {a : NodeAddr}
    (h : deriveNodeAddr cfg.pre node = .ok a) :
    siteOf a.address = overlayAddr cfg.pre (subnetIdOf node) zeroIid := by
  rw [siteOf_address h, (deriveNodeAddr_eq_ok_iff.1 h).2]

theorem infos_startup (cfg : Config C) (cache : EndpointCache) (members : MembersFile)
    (start : SystemTime) :
    (Daemon.startup cfg cache members start).infos =
      cfg.peers.map (fun p => (configuredPeer cfg cache start p).toPeerInfo) ++
        (members.members.filterMap (persistedPeer cfg cache start)).map
          PeerRuntime.toPeerInfo := by
  rw [Daemon.startup, Daemon.infos, startupPeers, List.map_append, List.map_map]
  rfl

theorem spread_startup {cfg : Config C} {u : Startup} (h : StartsClear cfg u) :
    Spread cfg {cfg.ownAddr.site} (Daemon.startup cfg u.cache u.members u.start).infos := by
  have hsites := h.sites
  rw [infos_startup] at hsites ⊢
  rw [List.nodup_cons] at hsites
  have henters : ∀ i ∈ (u.members.members.filterMap (persistedPeer cfg u.cache u.start)).map
      PeerRuntime.toPeerInfo, i.routes = [] ∧ ∃ m ∈ u.members.members,
        m.publicKey ∉ cfg.keys ∧ i.overlay = m.address := by
    intro i hi
    obtain ⟨p, hp, rfl⟩ := List.mem_map.1 hi
    obtain ⟨m, hm, hmp⟩ := List.mem_filterMap.1 hp
    obtain ⟨hnot, node, -, hinfo⟩ := persistedPeer_eq_some hmp
    rw [hinfo]
    exact ⟨rfl, m, hm, hnot, rfl⟩
  refine (spread_configured cfg u.cache u.start).enter_all (fun i hi => (henters i hi).1)
    (fun i hi heq => hsites.1 ?_) (fun i hi j hj => ?_) hsites.2
  · rw [← show siteOf i.overlay = _ from heq]
    exact List.mem_map_of_mem (List.mem_append_right _ hi)
  · obtain ⟨-, m, hm, hnot, hoverlay⟩ := henters i hi
    obtain ⟨p, hp, rfl⟩ := List.mem_map.1 hj
    exact hoverlay ▸ h.routes m hm hnot p hp

/-- The AllowedIPs of a configured peer are the same in the device spec and in the
table. -/
theorem allowedIps_configuredPeer (cfg : Config C) (cache : EndpointCache) (start : SystemTime)
    {p : Peer C} (hp : p ∈ cfg.peers) :
    (configuredPeer cfg cache start p).toPeerInfo.allowedIps =
      allowedIpsFor p.addr.site p.routes := by
  rw [← siteOf_address (cfg.valid.addr p hp)]
  rfl

/-- The device that startup configures holds what it holds for peers of the
table. -/
theorem held_applySpecs (cfg : Config C) (cache : EndpointCache) (members : MembersFile)
    (start : SystemTime) :
    Held (Daemon.startup cfg cache members start).infos (.applySpecs (buildDeviceSpec cfg)) := by
  have hspecs : ∀ spec ∈ buildDeviceSpec cfg,
      ∃ i ∈ (Daemon.startup cfg cache members start).infos,
        spec.wgPublic = i.wgPublic ∧ spec.allowedIps = i.allowedIps := by
    intro spec hspec
    obtain ⟨p, hp, rfl⟩ := List.mem_map.1 hspec
    refine ⟨(configuredPeer cfg cache start p).toPeerInfo, ?_, rfl,
      (allowedIps_configuredPeer cfg cache start hp).symm⟩
    rw [infos_startup]
    exact List.mem_append_left _ (List.mem_map_of_mem hp)
  have hfold : ∀ (specs : List PeerSpec) (dev : Device),
      Held (Daemon.startup cfg cache members start).infos dev →
      (∀ spec ∈ specs, spec ∈ buildDeviceSpec cfg) →
        Held (Daemon.startup cfg cache members start).infos (specs.foldl Device.addPeer dev) := by
    intro specs
    induction specs with
    | nil => exact fun dev h _ => h
    | cons spec specs ih =>
        intro dev h hmem
        obtain ⟨i, hi, hwg, hips⟩ := hspecs spec (hmem spec List.mem_cons_self)
        exact ih _ (h.addPeer hi hwg hips) fun x hx => hmem x (List.mem_cons_of_mem _ hx)
  exact hfold _ _ .empty fun _ h => h

theorem held_boot (cfg : Config C) (u : Startup) :
    Held (boot cfg u).daemon.infos (boot cfg u).device := by
  obtain ⟨cs, hacts, hdev⟩ := device_boot cfg u
  have hheld := held_applySpecs cfg u.cache u.members u.start
  rw [← infos_boot] at hheld
  rw [hdev]
  exact hheld.calls hacts

/-! ### Runs -/

/-- Admissions in flight carry the derived address of their node. -/
def Derived (cfg : Config C) (s : System C) : Prop :=
  ∀ node name address, .memberAdmitted node name address ∈ s.queue →
    ∃ a, deriveNodeAddr cfg.pre node = .ok a ∧ a.address = address

theorem Derived.step {cfg : Config C} {s : System C} (h : Derived cfg s) (i : Input) :
    Derived cfg (s.step cfg i) := by
  intro node name address hx
  rcases mem_queue_step hx with hx | ⟨d, -, hx⟩
  · exact h node name address hx
  · exact (accepted_of_memberAdmitted hx).2.2

/-- If the input admits a node that is not in the table, its site is neither this
node's nor that of a peer in the table. -/
def EntersClear (cfg : Config C) (s : System C) (i : Input) : Prop :=
  ∀ clock saved node name address rest, i = .gossip clock saved →
    s.queue = .memberAdmitted node name address :: rest → node.toBase64 ∉ s.daemon.keys →
      siteOf address ≠ cfg.ownAddr.site ∧
        ∀ j ∈ s.daemon.infos, siteOf j.overlay ≠ siteOf address

/-- The peers share no address, neither with each other nor with this node, and
the device holds what it holds for them. -/
structure Clear (cfg : Config C) (s : System C) : Prop where
  sound : Sound Set.univ s
  derived : Derived cfg s
  spread : Spread cfg {cfg.ownAddr.site} s.daemon.infos
  held : Held s.daemon.infos s.device

/-- A peer in the table with another WireGuard key than a node is another node. -/
theorem Sound.keyB64_ne {net : Set (NodePublicKey C)} {s : System C} (h : Sound net s)
    {i : PeerInfo} (hi : i ∈ s.daemon.infos) {node : NodePublicKey C}
    (hwg : i.wgPublic ≠ node.wgPublicBytes) : i.keyB64 ≠ node.toBase64 := by
  obtain ⟨n, -, hkey, hn⟩ := h.table.named i hi
  rintro heq
  obtain rfl := NodePublicKey.toBase64_injective (hkey.symm.trans heq)
  exact hwg hn

/-- Only the node itself is erased. -/
theorem Sound.mem_eraseP {net : Set (NodePublicKey C)} {s : System C} (h : Sound net s)
    {i : PeerInfo} (hi : i ∈ s.daemon.infos) {node : NodePublicKey C}
    (hwg : i.wgPublic ≠ node.wgPublicBytes) :
    i ∈ s.daemon.infos.eraseP fun i => i.keyB64 = node.toBase64 := by
  rw [List.mem_eraseP_of_neg (by simpa using h.keyB64_ne hi hwg)]
  exact hi

/-- **Every input that lets nobody in on an occupied site keeps the address spaces
apart.** -/
theorem Clear.step {cfg : Config C} {s : System C} (h : Clear cfg s) {i : Input}
    (hi : EntersClear cfg s i) : Clear cfg (s.step cfg i) := by
  have hsound : Sound Set.univ (s.step cfg i) := h.sound.step fun _ _ _ _ => Set.mem_univ _
  have hderived := h.derived.step i
  rcases table_step cfg s i with hstays |
    ⟨node, name, address, clock, saved, rest, rfl, hnode, henters⟩ |
    ⟨node, clock, saved, rest, -, -, hleaves⟩
  · obtain ⟨cs, hacts, -, hdev⟩ := hstays.calls
    refine ⟨hsound, hderived, hstays.infos ▸ h.spread, ?_⟩
    rw [hstays.infos, hdev]
    exact h.held.calls hacts
  · obtain ⟨hown, hfresh⟩ := hi clock saved node name address rest rfl hnode henters.fresh
    obtain ⟨a, ha, rfl⟩ := h.derived node name address (by simp [hnode])
    obtain ⟨spec, rfl, -, hdev⟩ := henters.calls
    refine ⟨hsound, hderived, ?_, ?_⟩
    · rw [henters.infos]
      exact h.spread.enter (h.spread.room ⟨siteOf_derived ha, by simp [memberInfo]⟩ rfl hown hfresh)
    · rw [henters.infos, hdev]
      exact (h.held.mono fun i hi => List.mem_append_left _ hi).addPeer
        (List.mem_append_right _ (List.mem_singleton_self _)) rfl rfl
  · refine ⟨hsound, hderived, ?_, ?_⟩
    · rw [hleaves.infos]
      exact h.spread.sublist List.eraseP_sublist
    · rw [hleaves.infos, hleaves.device]
      exact h.held.leave fun i hi hk => h.sound.mem_eraseP hi hk

theorem Clear.boot {cfg : Config C} {u : Startup} (hw : MembersFile.Written C u.members)
    (hstart : StartsClear cfg u) : Clear cfg (boot cfg u) := by
  refine ⟨Sound.boot cfg u hw (fun _ _ => Set.mem_univ _) fun _ _ => Set.mem_univ _,
    fun _ _ _ h => (by cases h), ?_, held_boot cfg u⟩
  rw [infos_boot]
  exact spread_startup hstart

/-- **Admitting a member takes no address space from anybody else**, in runs where
no node enters the table on an occupied site: the AllowedIPs of the peers share no
address, neither with each other nor with this node's site, and taking an admission
from the channel leaves what every other peer of the device holds. -/
theorem admission_takes_no_prefix (cfg : Config C) (u : Startup)
    (hw : MembersFile.Written C u.members) (hstart : StartsClear cfg u) (is : List Input)
    (hok : Along (System.step cfg) (EntersClear cfg) (boot cfg u) is) :
    let s := after cfg (boot cfg u) is
    (s.daemon.infos.Pairwise fun i j => Apart i.allowedIps j.allowedIps) ∧
    (∀ i ∈ s.daemon.infos, Apart i.allowedIps [(cfg.ownAddr.site, 64)]) ∧
    ∀ clock saved node name address rest,
      s.queue = .memberAdmitted node name address :: rest →
      EntersClear cfg s (.gossip clock saved) →
        ∀ k ≠ node.wgPublicBytes,
          (s.step cfg (.gossip clock saved)).device.peer k = s.device.peer k := by
  intro s
  have hclear : Clear cfg s :=
    Along.invariant (fun _ _ h hi => h.step hi) (Clear.boot hw hstart) hok
  refine ⟨hclear.spread.apart, fun i hi => hclear.spread.apart_own hi, ?_⟩
  intro clock saved node name address rest hq henter k hk
  have heq : s.step cfg (.gossip clock saved) =
      s.admitted cfg node name address clock saved rest := by
    simp [step, hq, Daemon.onGossip, admitted]
  by_cases hmem : node.toBase64 ∈ s.daemon.keys
  · have hsame := s.daemon.onMemberAdmitted_of_mem cfg.ctx node name address (clock 0) hmem
    simp only [heq, admitted, perform, hsame, wgCalls_nil, Device.calls_nil]
  · have henters := s.daemon.enters_onMemberAdmitted cfg.ctx node name address (clock 0) hmem
    have hspread := (hclear.step henter).spread
    simp only [heq, admitted, perform, henters.infos] at hspread
    simp only [heq, admitted, perform, henters.calls]
    refine hclear.held.addPeer_other (fun i hi x hx hxi => ?_) hk
    have hne : i ≠ memberInfo cfg.ctx.keepalive name node.toBase64 node.wgPublicBytes address := by
      rintro rfl
      exact hmem (Daemon.keyB64_mem_keys hi)
    have hdisj := hspread.disjoint (List.mem_append_left _ hi)
      (List.mem_append_right _ (List.mem_singleton_self _)) hne
    exact Finset.disjoint_left.1 hdisj (List.mem_toFinset.2 hxi) (List.mem_toFinset.2 hx)

/-! ### Two nodes of one subnet -/

/-- **A node that enters on an occupied site takes the prefix of the site**: the
table then holds two peers that share it, and in the device no peer but the new one
has it. -/
theorem takes_prefix (cfg : Config C) {s : System C} {node : NodePublicKey C} {name : String}
    {a : NodeAddr} {rest : List (GossipEvent C)}
    (hq : s.queue = .memberAdmitted node name a.address :: rest)
    (ha : deriveNodeAddr cfg.pre node = .ok a) (hmem : node.toBase64 ∉ s.daemon.keys)
    {i : PeerInfo} (hi : i ∈ s.daemon.infos) (hsite : siteOf i.overlay = a.site) (clock : Clock)
    (saved : Bool) :
    ¬((s.step cfg (.gossip clock saved)).daemon.infos.Pairwise
        fun i j => Apart i.allowedIps j.allowedIps) ∧
      ∀ k ≠ node.wgPublicBytes, ∀ p, (s.step cfg (.gossip clock saved)).device.peer k = some p →
        (a.site, 64) ∉ p.allowedIps := by
  have heq : s.step cfg (.gossip clock saved) =
      s.admitted cfg node name a.address clock saved rest := by
    simp [step, hq, Daemon.onGossip, admitted]
  have henters := s.daemon.enters_onMemberAdmitted cfg.ctx node name a.address (clock 0) hmem
  have hsite' := siteOf_address ha
  rw [heq]
  simp only [admitted, perform, henters.infos, henters.calls]
  constructor
  · intro hpair
    have hapart := (List.pairwise_append.1 hpair).2.2 i hi _ (List.mem_singleton_self _)
    have hcovers : Covers (a.site, 64) a.site := hsite' ▸ covers_siteOf a.address
    refine hapart (a.site, 64) ?_ (a.site, 64) ?_ a.site ⟨hcovers, hcovers⟩
    · exact mem_allowedIpsFor.2 (Or.inl (by rw [hsite]))
    · exact mem_allowedIpsFor.2 (Or.inl (by rw [← hsite']; rfl))
  · intro k hk p hp hx
    rw [Device.calls_cons, Device.calls_nil, Device.call, Device.addPeer_of_ne _ hk] at hp
    obtain ⟨q, -, rfl⟩ := Option.map_eq_some_iff.1 hp
    exact (Finset.mem_sdiff.1 hx).2 (by simp [hsite'])

theorem infos_boot_plain :
    (boot plainConfig plainStartup).daemon.infos =
      [(configuredPeer plainConfig .new 0 plainPeer).toPeerInfo] :=
  infos_boot plainConfig plainStartup

theorem startsClear_plain : StartsClear plainConfig plainStartup where
  sites := by decide
  routes m hm := by cases hm

/-- Node 2 is admitted beside the configured node 1. -/
theorem admission_takes_no_prefix_two :
    let s := after plainConfig (boot plainConfig plainStartup)
      [.datagram (admission (plainKey 2 0)), .gossip (fun _ => 0) true]
    (s.daemon.infos.Pairwise fun i j => Apart i.allowedIps j.allowedIps) ∧
      ∀ i ∈ s.daemon.infos, Apart i.allowedIps [((plainNodeAddr 600 0).site, 64)] := by
  have haddr : deriveNodeAddr plainPrefix (plainKey 2 0) = .ok (plainNodeAddr 2 0) :=
    deriveNodeAddr_plainKey plainPrefix (by omega) (by omega) 0
  have hq := queue_admission (plainKey_ne (by omega) (by omega) (by omega) 0 0) haddr plainStartup
  have hinfos := infos_boot_plain
  rw [← daemon_datagram plainConfig _ (admission (plainKey 2 0)), after_singleton] at hinfos
  rw [after_singleton] at hq
  have hok : Along (System.step plainConfig) (EntersClear plainConfig)
      (boot plainConfig plainStartup)
      [.datagram (admission (plainKey 2 0)), .gossip (fun _ => 0) true] := by
    refine ⟨?_, ?_, trivial⟩
    · rintro clock saved node name address rest ⟨⟩
    · rintro clock saved node name address rest - hq' -
      rw [hq] at hq'
      cases hq'
      refine ⟨by decide, fun j hj => ?_⟩
      obtain rfl := List.mem_singleton.1 (hinfos ▸ hj)
      decide
  obtain ⟨hpair, hown, -⟩ := admission_takes_no_prefix plainConfig plainStartup .new
    startsClear_plain _ hok
  exact ⟨hpair, hown⟩

/-- Node 1 is configured and another node of its subnet is admitted: both stand in
the table with the same AllowedIPs, and the device has moved the prefix of node
1. -/
theorem admission_takes_prefix :
    let s := after plainConfig (boot plainConfig plainStartup)
      [.datagram (admission (plainKey 1 1))]
    let s' := s.step plainConfig (.gossip (fun _ => 0) true)
    ¬(s'.daemon.infos.Pairwise fun i j => Apart i.allowedIps j.allowedIps) ∧
      (∃ p, (boot plainConfig plainStartup).device.peer (plainKey 1 0).wgPublicBytes = some p ∧
        ((plainNodeAddr 1 0).site, 64) ∈ p.allowedIps) ∧
      ∀ p, s'.device.peer (plainKey 1 0).wgPublicBytes = some p →
        ((plainNodeAddr 1 0).site, 64) ∉ p.allowedIps := by
  have haddr : deriveNodeAddr plainPrefix (plainKey 1 1) = .ok (plainNodeAddr 1 1) :=
    deriveNodeAddr_plainKey plainPrefix (by omega) (by omega) 1
  have hsite : (plainNodeAddr 1 0).site = (plainNodeAddr 1 1).site := by
    simp only [plainNodeAddr]
  have hne : plainKey 1 1 ≠ plainKey 1 0 := by decide
  have hq := queue_admission (plainKey_ne (by omega) (by omega) (by omega) 0 1) haddr plainStartup
  have hinfos := infos_boot_plain
  rw [← daemon_datagram plainConfig _ (admission (plainKey 1 1))] at hinfos
  have hmem : (plainKey 1 1).toBase64 ∉ (after plainConfig (boot plainConfig plainStartup)
      [.datagram (admission (plainKey 1 1))]).daemon.keys := by
    rw [Daemon.keys_eq, hinfos]
    intro h
    exact hne (NodePublicKey.toBase64_injective (List.mem_singleton.1 h))
  obtain ⟨hapart, hdev⟩ := takes_prefix plainConfig hq haddr hmem
    (hinfos ▸ List.mem_singleton_self _)
    ((siteOf_address (plainConfig.valid.addr plainPeer (List.mem_singleton_self _))).trans hsite)
    (fun _ => 0) true
  have hwg : (plainKey 1 0).wgPublicBytes ≠ (plainKey 1 1).wgPublicBytes :=
    fun h => hne (wgPublicBytes_plain_injective h).symm
  refine ⟨hapart, ⟨_, rfl, by decide⟩, ?_⟩
  rw [hsite]
  exact hdev _ hwg

end System

/-! ### The device spec of a loaded file -/

/-- **The device spec of a configuration is unambiguous**: no two of its peers
share an address, and none has an address of this node's site. -/
theorem apart_buildDeviceSpec (cfg : Config C) :
    (buildDeviceSpec cfg).Pairwise (fun s t => Apart s.allowedIps t.allowedIps) ∧
      ∀ s ∈ buildDeviceSpec cfg, Apart s.allowedIps [(cfg.ownAddr.site, 64)] := by
  -- what the table of peers holds does not depend on the cache or the time
  have hspread := spread_configured cfg ⟨[]⟩ 0
  have hips := fun p hp => System.allowedIps_configuredPeer cfg ⟨[]⟩ 0 (p := p) hp
  constructor
  · refine List.pairwise_map.2 ((List.pairwise_map.1 hspread.apart).imp_of_mem ?_)
    intro p q hp hq h
    rwa [hips p hp, hips q hq] at h
  · intro s hs
    obtain ⟨p, hp, rfl⟩ := List.mem_map.1 hs
    have h := hspread.apart_own (List.mem_map_of_mem hp)
    rwa [hips p hp] at h

/-- **A file that loads gives a device spec in which every address has at most
one peer**, and none in this node's site. -/
theorem load_unambiguous {ε : Type} {fromStr : List Char → Except ε File.RawConfig}
    {expand : Bytes 32 → Bytes 5} {text : List Char} {own : NodePublicKey C} {f : File.Config C}
    (h : File.load C fromStr expand text (some own) = .ok f) :
    ∃ (ownAddr : NodeAddr) (valid : Config.Valid f.pre own ownAddr f.peers),
      let specs := buildDeviceSpec (f.withIdentity own ownAddr valid)
      (specs.Pairwise fun s t => ∀ a, ¬((∃ p ∈ s.allowedIps, Covers p a) ∧
        ∃ q ∈ t.allowedIps, Covers q a)) ∧
      ∀ s ∈ specs, ∀ a, (∃ p ∈ s.allowedIps, Covers p a) → ¬Covers (ownAddr.site, 64) a := by
  obtain ⟨ownAddr, valid⟩ := File.valid_of_load h
  obtain ⟨hpeers, hown⟩ := apart_buildDeviceSpec (f.withIdentity own ownAddr valid)
  refine ⟨ownAddr, valid, hpeers.imp ?_, ?_⟩
  · rintro s t hst a ⟨⟨p, hp, hpa⟩, q, hq, hqa⟩
    exact hst p hp q hq a ⟨hpa, hqa⟩
  · rintro s hs a ⟨p, hp, hpa⟩ ha
    exact hown s hs p hp _ (List.mem_singleton_self _) a ⟨hpa, ha⟩

/-- A file with two peers, each the gateway of a prefix. -/
def routedText : List Char := List.flatMap String.toList
  ["[network]\nname = \"a\"\n", "key = \"AAAAAAAAAAAAAAAA", "AAAAAAAAAAAAAAAAAAAAAAAAAAA=\"\n",
    "[node]\nkey_file = \"k\"\n", "listen_port = 4193\n",
    "[[peers]]\nname = \"b\"\n", "public_key = \"AAEAAAAAAAAAAA",
    "AAAAAAAAAAAAAAAAAAAAAAAAAAAAA=\"\n", "routes = [\"2001:db8:1::/48\"]\n",
    "[[peers]]\nname = \"c\"\n", "public_key = \"AAIAAAAAAAAAAA",
    "AAAAAAAAAAAAAAAAAAAAAAAAAAAAA=\"\n", "routes = [\"2001:db8:2::/48\"]\n"]

/-- A peer of `routedText`. -/
def routedPeer (name key route : String) : File.RawPeer where
  name := name
  publicKey := key
  endpoints := []
  relay := none
  relayPort := none
  routes := [route]
  ddns := none
  keepalive := none

/-- The raw structure of `routedText`, and of nothing else. -/
def readRouted (text : List Char) : Except Unit File.RawConfig :=
  if text = routedText then .ok {
    network := ⟨"a", "AAAAAAAAAAAAAAAAAAAAAAAAAAAAAAAAAAAAAAAAAAA="⟩
    node := .fresh (.ofText ['k']) 4193 none
    peers := [
      routedPeer "b" "AAEAAAAAAAAAAAAAAAAAAAAAAAAAAAAAAAAAAAAAAAA=" "2001:db8:1::/48",
      routedPeer "c" "AAIAAAAAAAAAAAAAAAAAAAAAAAAAAAAAAAAAAAAAAAA=" "2001:db8:2::/48"] }
  else .error ()

theorem load_unambiguous_routed :
    ∃ f, File.load Crypto.plain readRouted plainExpand routedText (some (plainKey 3 0)) = .ok f ∧
      ∃ (ownAddr : NodeAddr) (valid : Config.Valid f.pre (plainKey 3 0) ownAddr f.peers),
        let specs := buildDeviceSpec (f.withIdentity (plainKey 3 0) ownAddr valid)
        (specs.Pairwise fun s t => ∀ a, ¬((∃ p ∈ s.allowedIps, Covers p a) ∧
          ∃ q ∈ t.allowedIps, Covers q a)) ∧
        ∀ s ∈ specs, ∀ a, (∃ p ∈ s.allowedIps, Covers p a) → ¬Covers (ownAddr.site, 64) a := by
  have hok : (File.load Crypto.plain readRouted plainExpand routedText
      (some (plainKey 3 0))).isOk = true := by decide +kernel
  obtain ⟨f, hf⟩ := Fallible.exists_of_isOk hok
  exact ⟨f, hf, load_unambiguous hf⟩

end Hextet
