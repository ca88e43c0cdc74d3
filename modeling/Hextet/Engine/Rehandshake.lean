/-
# Endpoint changes

`apply_actions` of `crates/engine/src/daemon.rs` moves a peer to another endpoint, by
`set_peer_endpoint` or, to force a handshake, by removing the peer and adding it
again.  What it adds again it derives anew, from the overlay address, the routes and
the keepalive of the runtime table; `build_device_spec` derived the same from the
configuration, and `on_membership_event` from the admission.

A `Turn` is one call of `apply_actions`, and `Moved` what it may change of the
device: the endpoint of the peer that it addresses.  A device that is `Intact` (the
peers of the specs, as the specs have them, and no others) therefore stays so.  The
device is keyed by WireGuard keys and `Config::load` compares the ed25519 keys, of
which two can have one WireGuard key; the configured device is intact, and stays so,
exactly when no two peers are of that kind (`endpoint_changes_keep_peers`).
-/

import Hextet.Engine.DataPlane

namespace Hextet

open Lib

variable {C : Crypto}

/-- A call of `apply_actions`: the peer as it then is, what the call reads, and the
actions. -/
structure Turn (C : Crypto) where
  peer : PeerRuntime C
  clock : Clock
  cache : EndpointCache
  actions : List Action

/-- The backend calls of `apply_actions`. -/
def Turn.calls (t : Turn C) : List WgCall :=
  wgCalls (t.peer.applyActions t.clock t.cache t.actions).2

/-- The device after a call of `apply_actions` whose backend calls succeed. -/
def Device.turn (dev : Device) (t : Turn C) : Device := dev.calls t.calls

theorem Turn.calls_eq (t : Turn C) : t.calls = t.actions.flatMap t.peer.toPeerInfo.calls :=
  t.peer.wgCalls_applyActions ..

/-! ### What a turn leaves alone -/

/-- Two devices differ at most in the endpoint of one peer: the other peers are the
same, and this one has the AllowedIPs and the keepalive that it had, or is in neither. -/
structure Moved (k : Bytes 32) (dev dev' : Device) : Prop where
  others : ∀ k' ≠ k, dev'.peer k' = dev.peer k'
  own : (dev'.peer k).map (fun p => (p.allowedIps, p.keepalive)) =
    (dev.peer k).map fun p => (p.allowedIps, p.keepalive)

/-- The device has the peers of the specs, with their AllowedIPs and keepalives, and
no others. -/
structure Intact (specs : List PeerSpec) (dev : Device) : Prop where
  carries : ∀ spec ∈ specs, dev.Carries spec.wgPublic spec.allowedIps.toFinset
    spec.persistentKeepalive
  only : ∀ k p, dev.peer k = some p → ∃ spec ∈ specs, spec.wgPublic = k

namespace Moved

variable {k : Bytes 32} {dev dev' dev'' : Device}

theorem refl : Moved k dev dev := ⟨fun _ _ => rfl, rfl⟩

theorem trans (h : Moved k dev dev') (h' : Moved k dev' dev'') : Moved k dev dev'' :=
  ⟨fun k' hk => (h'.others k' hk).trans (h.others k' hk), h'.own.trans h.own⟩

/-- AllowedIPs and keepalives stay, the addressed peer's too. -/
theorem data (h : Moved k dev dev') (k' : Bytes 32) :
    (dev'.peer k').map (fun p => (p.allowedIps, p.keepalive)) =
      (dev.peer k').map fun p => (p.allowedIps, p.keepalive) := by
  by_cases hk : k' = k
  · rw [hk]
    exact h.own
  · rw [h.others k' hk]

theorem carries (h : Moved k dev dev') {k' : Bytes 32} {ips : Finset (Ipv6Addr × ℕ)}
    {ka : Option UInt16} (hc : dev.Carries k' ips ka) : dev'.Carries k' ips ka := by
  obtain ⟨p, hp, rfl, rfl⟩ := hc
  have hdata := h.data k'
  rw [hp, Option.map_some, Option.map_eq_some_iff] at hdata
  obtain ⟨p', hp', heq⟩ := hdata
  exact ⟨p', hp', congrArg Prod.fst heq, congrArg Prod.snd heq⟩

/-- **An intact device stays intact.** -/
theorem intact (h : Moved k dev dev') {specs : List PeerSpec} (hi : Intact specs dev) :
    Intact specs dev' where
  carries spec hspec := h.carries (hi.carries spec hspec)
  only k' p hp := by
    have hdata := h.data k'
    rw [hp, Option.map_some, eq_comm, Option.map_eq_some_iff] at hdata
    obtain ⟨q, hq, -⟩ := hdata
    exact hi.only k' q hq

/-- A new endpoint for a peer that is there. -/
theorem setPeerEndpoint {ips : Finset (Ipv6Addr × ℕ)} {ka : Option UInt16}
    (hc : dev.Carries k ips ka) (ep : SocketAddrV6) : Moved k dev (dev.setPeerEndpoint k ep) where
  others k' hk := dev.setPeerEndpoint_of_ne hk ep
  own := by
    obtain ⟨p, hp, -⟩ := hc
    rw [dev.setPeerEndpoint_self, hp]
    rfl

/-- **Removing a peer and adding it with what it had** changes its endpoint only, if no
other peer has a prefix of it. -/
theorem readd {spec : PeerSpec}
    (hc : dev.Carries spec.wgPublic spec.allowedIps.toFinset spec.persistentKeepalive)
    (hfree : ∀ k ≠ spec.wgPublic, ∀ p, dev.peer k = some p →
      Disjoint p.allowedIps spec.allowedIps.toFinset) :
    Moved spec.wgPublic dev ((dev.removePeer spec.wgPublic).addPeer spec) where
  others k' hk := by
    rw [Device.addPeer_of_ne _ hk, Device.removePeer_of_ne _ hk]
    cases hp : dev.peer k' with
    | none => rfl
    | some p => rw [Option.map_some, Finset.sdiff_eq_self_of_disjoint (hfree k' hk p hp)]
  own := by
    obtain ⟨p, hp, hips, hka⟩ := hc
    obtain ⟨p', hp', hips', hka'⟩ := Device.carries_addPeer (dev.removePeer_self spec.wgPublic)
    rw [hp', hp, Option.map_some, Option.map_some, hips', hka', hips, hka]

end Moved

/-- The specs claim no prefix twice, unless it is for one key. -/
def Exclusive (specs : List PeerSpec) : Prop :=
  ∀ a ∈ specs, ∀ b ∈ specs, a.wgPublic ≠ b.wgPublic →
    Disjoint a.allowedIps.toFinset b.allowedIps.toFinset

/-- The table has of a peer what its spec has. -/
structure PeerInfo.Matches (i : PeerInfo) (spec : PeerSpec) : Prop where
  wgPublic : i.wgPublic = spec.wgPublic
  allowedIps : i.allowedIps = spec.allowedIps
  keepalive : i.keepalive = spec.persistentKeepalive

section Turns

variable {specs : List PeerSpec} {dev : Device}

/-- **An action moves the peer that it is for.** -/
theorem Intact.moved_action (h : Intact specs dev) (hex : Exclusive specs) {i : PeerInfo}
    {spec : PeerSpec} (hspec : spec ∈ specs) (hi : i.Matches spec) (a : Action) :
    Moved i.wgPublic dev (dev.calls (i.calls a)) := by
  have hc : dev.Carries i.wgPublic i.allowedIps.toFinset i.keepalive := by
    rw [hi.wgPublic, hi.allowedIps, hi.keepalive]
    exact h.carries spec hspec
  cases a with
  | setEndpoint ep => exact .setPeerEndpoint hc ep
  | rehandshake ep =>
      have hfree : ∀ k ≠ (i.specAt ep).wgPublic, ∀ p, dev.peer k = some p →
          Disjoint p.allowedIps (i.specAt ep).allowedIps.toFinset := by
        intro k hk p hp
        obtain ⟨b, hb, rfl⟩ := h.only k p hp
        obtain ⟨q, hq, hips, -⟩ := h.carries b hb
        obtain rfl := Option.some.inj (hp.symm.trans hq)
        rw [hips, PeerInfo.specAt, hi.allowedIps]
        exact hex b hb spec hspec (hi.wgPublic ▸ hk)
      exact Moved.readd hc hfree
  | nudge => exact .refl
  | markGood ep => exact .refl

/-- **A turn moves the peer that it addresses.** -/
theorem Intact.moved_turn (h : Intact specs dev) (hex : Exclusive specs) {t : Turn C}
    {spec : PeerSpec} (hspec : spec ∈ specs) (ht : t.peer.toPeerInfo.Matches spec) :
    Moved t.peer.wgPublic dev (dev.turn t) := by
  rw [Device.turn, t.calls_eq]
  induction t.actions generalizing dev with
  | nil => exact .refl
  | cons a as ih =>
      rw [List.flatMap_cons, Device.calls_append]
      have hmoved := h.moved_action hex hspec ht a
      exact hmoved.trans (ih (hmoved.intact h))

/-- **Turns of peers of the specs leave the device intact.** -/
theorem Intact.turns (h : Intact specs dev) (hex : Exclusive specs) {ts : List (Turn C)}
    (hts : ∀ t ∈ ts, ∃ spec ∈ specs, t.peer.toPeerInfo.Matches spec) :
    Intact specs (run Device.turn dev ts) := by
  refine Along.invariant (fun dev t hd ht => ?_) h (Along.of_forall hts dev)
  obtain ⟨spec, hspec, hmatch⟩ := ht
  exact (hd.moved_turn hex hspec hmatch).intact hd

end Turns

/-- The peer that a call names. -/
def WgCall.wgPublic : WgCall → Bytes 32
  | .setPeerEndpoint k _ => k
  | .addPeer spec => spec.wgPublic
  | .removePeer k => k

/-- **A turn names no other peer**: the sessions of the others go on. -/
theorem Turn.wgPublic_of_mem_calls {t : Turn C} {c : WgCall} (h : c ∈ t.calls) :
    c.wgPublic = t.peer.wgPublic := by
  rw [t.calls_eq] at h
  obtain ⟨a, -, hc⟩ := List.mem_flatMap.1 h
  cases a with
  | setEndpoint ep =>
      obtain rfl := List.mem_singleton.1 hc
      rfl
  | rehandshake ep =>
      rcases List.mem_pair.1 hc with rfl | rfl
      · rfl
      · rfl
  | nudge => cases hc
  | markGood ep => cases hc

/-! ### The configured peers -/

/-- The turn is one of a configured peer, whatever the daemon knows of the peer by
then. -/
def Turn.Configured (cfg : Config C) (t : Turn C) : Prop :=
  ∃ p ∈ cfg.peers, t.peer.toPeerInfo = (configuredPeer cfg .new 0 p).toPeerInfo

/-- The configured device after some turns. -/
def Device.configured (cfg : Config C) (ts : List (Turn C)) : Device :=
  run Device.turn (.applySpecs (buildDeviceSpec cfg)) ts

/-- **Turns of configured peers keep what `build_device_spec` gave**: after any number of
them the device is intact, and another one changes the endpoint of the peer that it
addresses and nothing else, by calls that name this peer. -/
def KeepsConfigured (cfg : Config C) : Prop :=
  ∀ ts : List (Turn C), (∀ t ∈ ts, t.Configured cfg) →
    Intact (buildDeviceSpec cfg) (.configured cfg ts) ∧
    ∀ t : Turn C, t.Configured cfg →
      Moved t.peer.wgPublic (.configured cfg ts) (.configured cfg (ts ++ [t])) ∧
      ∀ c ∈ t.calls, c.wgPublic = t.peer.wgPublic

/-- No two configured peers have one WireGuard key. -/
def Config.DistinctWg (cfg : Config C) : Prop :=
  cfg.peers.Pairwise fun p q => p.publicKey.wgPublicBytes ≠ q.publicKey.wgPublicBytes

section Configured

variable {cfg : Config C}

/-- **The runtime table has of a configured peer what `build_device_spec` gave the
device.** -/
theorem Turn.Configured.matches {t : Turn C} (h : t.Configured cfg) :
    ∃ spec ∈ buildDeviceSpec cfg, t.peer.toPeerInfo.Matches spec := by
  obtain ⟨p, hp, heq⟩ := h
  refine ⟨_, List.mem_map_of_mem hp, ?_⟩
  rw [heq]
  exact ⟨rfl, System.allowedIps_configuredPeer cfg .new 0 hp, rfl⟩

theorem exclusive_buildDeviceSpec (cfg : Config C) : Exclusive (buildDeviceSpec cfg) := by
  intro a ha b hb hne
  have hsymm : Std.Symm fun a b : PeerSpec =>
      Disjoint a.allowedIps.toFinset b.allowedIps.toFinset := ⟨fun _ _ h => h.symm⟩
  exact (disjoint_buildDeviceSpec cfg).forall ha hb fun heq => hne (heq ▸ rfl)

/-- The configured device has no peer but those of its specs. -/
theorem exists_of_applySpecs {specs : List PeerSpec} {k : Bytes 32} {p : DevicePeer}
    (h : (Device.applySpecs specs).peer k = some p) : ∃ spec ∈ specs, spec.wgPublic = k := by
  by_contra hnot
  have hnone : ∀ (l : List PeerSpec) (dev : Device), (∀ spec ∈ l, spec.wgPublic ≠ k) →
      dev.peer k = none → (l.foldl Device.addPeer dev).peer k = none := by
    intro l
    induction l with
    | nil => exact fun dev _ hdev => hdev
    | cons spec l ih =>
        intro dev hl hdev
        exact ih _ (fun s hs => hl s (List.mem_cons_of_mem _ hs))
          (Device.addPeer_eq_none hdev (hl spec List.mem_cons_self).symm)
  have hall : ∀ spec ∈ specs, spec.wgPublic ≠ k := fun spec hspec heq => hnot ⟨spec, hspec, heq⟩
  cases (hnone specs .empty hall rfl).symm.trans h

/-- The configured device is intact at the start, if the WireGuard keys are distinct. -/
theorem Config.DistinctWg.intact (h : cfg.DistinctWg) :
    Intact (buildDeviceSpec cfg) (.applySpecs (buildDeviceSpec cfg)) := by
  have hkeys : (buildDeviceSpec cfg).Pairwise fun a b => a.wgPublic ≠ b.wgPublic :=
    List.pairwise_map.2 h
  refine ⟨fun spec hspec => ?_, fun k p hp => exists_of_applySpecs hp⟩
  exact carries_foldl_addPeer (hkeys.and (disjoint_buildDeviceSpec cfg)) (fun _ _ => rfl) hspec

/-- **An intact device has peers of distinct WireGuard keys**: two configured peers
have different sites, and one entry of the device cannot have exactly the AllowedIPs of
both. -/
theorem Intact.distinctWg {dev : Device} (h : Intact (buildDeviceSpec cfg) dev) :
    cfg.DistinctWg := by
  refine (List.pairwise_map.1 (disjoint_buildDeviceSpec cfg)).imp_of_mem
    fun {p q} hp hq hdisj heq => ?_
  obtain ⟨d, hd, hips, -⟩ := h.carries _ (List.mem_map_of_mem hp)
  obtain ⟨d', hd', hips', -⟩ := h.carries _ (List.mem_map_of_mem hq)
  obtain rfl : d = d' := Option.some.inj (hd.symm.trans ((congrArg dev.peer heq).trans hd'))
  have hsite : (p.addr.site, 64) ∈ d.allowedIps := by
    rw [hips]
    exact List.mem_toFinset.2 (mem_allowedIpsFor.2 (Or.inl rfl))
  exact Finset.disjoint_left.1 hdisj (hips ▸ hsite) (hips' ▸ hsite)

/-- **Turns of configured peers keep what `build_device_spec` gave exactly when no two
have one WireGuard key.** -/
theorem keepsConfigured_iff (cfg : Config C) : KeepsConfigured cfg ↔ cfg.DistinctWg := by
  refine ⟨fun h => (h [] (by simp)).1.distinctWg, fun h ts hts => ?_⟩
  have hex := exclusive_buildDeviceSpec cfg
  have hintact : Intact (buildDeviceSpec cfg) (.configured cfg ts) :=
    h.intact.turns hex fun t ht => (hts t ht).matches
  refine ⟨hintact, fun t ht => ⟨?_, fun c hc => Turn.wgPublic_of_mem_calls hc⟩⟩
  obtain ⟨spec, hspec, hmatch⟩ := ht.matches
  rw [Device.configured, Device.configured, run_append]
  exact hintact.moved_turn hex hspec hmatch

end Configured

/-! ### A peer that gossip admitted -/

/-- The turn is one of the peer, or one of a peer with another WireGuard key and no
prefix of this one. -/
def Turn.OwnOrApart (i : PeerInfo) (t : Turn C) : Prop :=
  t.peer.toPeerInfo = i ∨ t.peer.wgPublic ≠ i.wgPublic ∧
    Disjoint i.allowedIps.toFinset t.peer.toPeerInfo.allowedIps.toFinset

section Admitted

variable {i : PeerInfo} {dev : Device}

/-- An action of a peer of another key and other prefixes. -/
theorem Device.Carries.action {k : Bytes 32} {ips : Finset (Ipv6Addr × ℕ)} {ka : Option UInt16}
    (h : dev.Carries k ips ka) (hne : i.wgPublic ≠ k)
    (hdisj : Disjoint ips i.allowedIps.toFinset) (a : Action) :
    (dev.calls (i.calls a)).Carries k ips ka := by
  cases a with
  | setEndpoint ep => exact h.setPeerEndpoint i.wgPublic ep
  | rehandshake ep =>
      have hspec : k ≠ (i.specAt ep).wgPublic := hne.symm
      exact (h.removePeer hne.symm).addPeer hspec hdisj
  | nudge => exact h
  | markGood ep => exact h

/-- An action of the peer itself. -/
theorem Device.Carries.ownAction
    (h : dev.Carries i.wgPublic i.allowedIps.toFinset i.keepalive) (a : Action) :
    (dev.calls (i.calls a)).Carries i.wgPublic i.allowedIps.toFinset i.keepalive := by
  cases a with
  | setEndpoint ep => exact h.setPeerEndpoint i.wgPublic ep
  | rehandshake ep => exact dev.carries_readd i ep
  | nudge => exact h
  | markGood ep => exact h

/-- **A turn of the peer, or of one apart from it, keeps it.** -/
theorem Device.Carries.turn (h : dev.Carries i.wgPublic i.allowedIps.toFinset i.keepalive)
    {t : Turn C} (ht : t.OwnOrApart i) :
    (dev.turn t).Carries i.wgPublic i.allowedIps.toFinset i.keepalive := by
  rw [Device.turn, t.calls_eq]
  induction t.actions generalizing dev with
  | nil => exact h
  | cons a as ih =>
      rw [List.flatMap_cons, Device.calls_append]
      refine ih ?_
      rcases ht with rfl | ⟨hne, hdisj⟩
      · exact h.ownAction a
      · exact h.action hne hdisj a

/-- **A turn that forces a handshake leaves the peer with its own AllowedIPs and
keepalive**, whatever the device held. -/
theorem Device.carries_of_rehandshake (dev : Device) {t : Turn C} (ht : t.peer.toPeerInfo = i)
    {ep : SocketAddrV6} (hep : .rehandshake ep ∈ t.actions) :
    (dev.turn t).Carries i.wgPublic i.allowedIps.toFinset i.keepalive := by
  obtain ⟨as, bs, has⟩ := List.append_of_mem hep
  subst ht
  have hsplit : dev.turn t = ((dev.calls (as.flatMap t.peer.toPeerInfo.calls)).calls
      (t.peer.toPeerInfo.calls (.rehandshake ep))).turn { t with actions := bs } := by
    simp only [Device.turn, Turn.calls_eq, has, List.flatMap_append, List.flatMap_cons,
      Device.calls_append]
  rw [hsplit]
  exact (Device.carries_readd _ _ ep).turn (Or.inl rfl)

/-- Turns of the peer and of peers apart from it keep it, from the start or from a forced
handshake on. -/
theorem Device.carries_turns {ts : List (Turn C)} (hts : ∀ t ∈ ts, t.OwnOrApart i)
    (h : dev.Carries i.wgPublic i.allowedIps.toFinset i.keepalive ∨
      ∃ t ∈ ts, t.peer.toPeerInfo = i ∧ ∃ ep, .rehandshake ep ∈ t.actions) :
    (run Device.turn dev ts).Carries i.wgPublic i.allowedIps.toFinset i.keepalive := by
  induction ts generalizing dev with
  | nil =>
      rcases h with h | ⟨t, ht, -⟩
      · exact h
      · cases ht
  | cons t ts ih =>
      refine ih (fun s hs => hts s (List.mem_cons_of_mem _ hs)) ?_
      rcases h with h | ⟨s, hs, hown, ep, hep⟩
      · exact Or.inl (h.turn (hts t List.mem_cons_self))
      · rcases List.mem_cons.1 hs with rfl | hs
        · exact Or.inl (dev.carries_of_rehandshake hown hep)
        · exact Or.inr ⟨s, hs, hown, ep, hep⟩

end Admitted

/-- **An admitted peer keeps the AllowedIPs and the keepalive of its admission**: through
turns of its own and of peers apart from it, if the device did not know its key, and from
its first forced handshake on whatever the device held. -/
def KeepsAdmitted (C : Crypto) : Prop :=
  ∀ (d : Daemon C) (ctx : Ctx) (node : NodePublicKey C) (name : String) (address : Ipv6Addr)
    (now : SystemTime), node.toBase64 ∉ d.keys →
    ∃ spec, wgCalls (d.onMemberAdmitted ctx node name address now).2 = [.addPeer spec] ∧
      ∀ i ∈ (d.onMemberAdmitted ctx node name address now).1.infos, i.keyB64 = node.toBase64 →
        ∀ (dev : Device) (ts : List (Turn C)), (∀ t ∈ ts, t.OwnOrApart i) →
          (dev.peer spec.wgPublic = none ∨
            ∃ t ∈ ts, t.peer.toPeerInfo = i ∧ ∃ ep, .rehandshake ep ∈ t.actions) →
          (run Device.turn (dev.addPeer spec) ts).Carries spec.wgPublic spec.allowedIps.toFinset
            spec.persistentKeepalive

/-- **The runtime table has of an admitted peer what its admission gave the device.** -/
theorem matches_memberInfo (keepalive : UInt16) (name : String) (node : NodePublicKey C)
    (address : Ipv6Addr) :
    (memberInfo keepalive name node.toBase64 node.wgPublicBytes address).Matches
      ⟨node.wgPublicBytes, none, [(siteOf address, 64)], keepaliveOpt keepalive⟩ :=
  ⟨rfl, rfl, rfl⟩

theorem keepsAdmitted (C : Crypto) : KeepsAdmitted C := by
  intro d ctx node name address now hfresh
  have henters := d.enters_onMemberAdmitted ctx node name address now hfresh
  refine ⟨_, henters.calls, fun i hi hkey dev ts hts h => ?_⟩
  obtain rfl : i = memberInfo ctx.keepalive name node.toBase64 node.wgPublicBytes address := by
    rw [henters.infos] at hi
    rcases List.mem_append.1 hi with hi | hi
    · exact (hfresh (hkey ▸ Daemon.keyB64_mem_keys hi)).elim
    · exact List.mem_singleton.1 hi
  have hmatch := matches_memberInfo ctx.keepalive name node address
  rw [← hmatch.wgPublic, ← hmatch.allowedIps, ← hmatch.keepalive]
  refine Device.carries_turns hts (h.imp_left fun hnone => ?_)
  exact Device.carries_addPeer hnone

/-- **Endpoint changes keep the rest of the peer**: of the configured peers exactly when
no two have one WireGuard key, and of an admitted peer. -/
theorem endpoint_changes_keep_peers (cfg : Config C) :
    (KeepsConfigured cfg ↔ cfg.DistinctWg) ∧ KeepsAdmitted C :=
  ⟨keepsConfigured_iff cfg, keepsAdmitted C⟩

/-! ### Two peers with one WireGuard key -/

/-- What the curve and the hash give on a key. -/
structure KnownKey where
  bytes : Bytes 32
  montgomery : Bytes 32
  /-- The digest behind the subnet id. -/
  subnetDigest : Bytes 32
  /-- The digest behind the interface id. -/
  iidDigest : Bytes 32

/-- The primitives on some keys; the text before the key is 19 bytes long for the subnet
id and 13 for the interface id. -/
def Crypto.known (ks : List KnownKey) : Crypto where
  isPoint b := ks.any fun k => k.bytes = b
  verifyStrict _ _ _ := false
  toMontgomery b := ((ks.find? fun k => k.bytes = b).map KnownKey.montgomery).getD b
  sha256 m :=
    ((ks.find? fun k => k.bytes.1 = m.drop (m.length - 32)).map fun k =>
      if m.length = 51 then k.subnetDigest else k.iidDigest).getD ⟨List.replicate 32 0, by simp⟩

/-- A number in 32 bytes. -/
def wide (n : ℕ) : Bytes 32 := ⟨beBytes 32 n, by simp⟩

/-- The base point of the curve. -/
def basePoint : KnownKey where
  bytes := wide 0x5866666666666666666666666666666666666666666666666666666666666666
  montgomery := wide 0x0900000000000000000000000000000000000000000000000000000000000000
  subnetDigest := wide 0xf0e7cb910938328ab100a0c94b2077829be6b4a0a0c16a963ce52bc71e7de379
  iidDigest := wide 0x8ea477dd4b14b54f195864da2433445adb4018600658675f27ce5946f2907624

/-- The negative of the base point: its bytes differ in the sign bit of the other
coordinate, which the Montgomery form does not have. -/
def negBasePoint : KnownKey where
  bytes := wide 0x58666666666666666666666666666666666666666666666666666666666666e6
  montgomery := wide 0x0900000000000000000000000000000000000000000000000000000000000000
  subnetDigest := wide 0x1e4990eb7358e3d86a861d7fe9214f2741af885e165446e277835c080cf03028
  iidDigest := wide 0x5cbc47ae61f4931b0ffa79c7ad5f894c7ab35d356a045bf2c5e01938ce58dbcc

/-- A third point, for this node. -/
def thirdPoint : KnownKey where
  bytes := wide 0xd75a980182b10ab7d54bfed3c964073a0ee172f3daa62325af021a68f707511a
  montgomery := wide 0xd85e07ec22b0ad881537c2f44d662d1a143cf830c57aca4305d85c7a90f6b62e
  subnetDigest := wide 0x9e160c2c418f7b87604c59984a69826f35cc8b7f9b870727bbc079fa56b414fd
  iidDigest := wide 0x6f44a81487559b81e6d6ce2e363ab12faa3b083a615d9109fcdd804fa244a17c

/-- The primitives on these keys. -/
def Crypto.twins : Crypto := .known [basePoint, negBasePoint, thirdPoint]

/-- The key of the first twin. -/
def twinKey : NodePublicKey Crypto.twins := ⟨basePoint.bytes, by decide⟩

/-- The key of the second twin. -/
def negTwinKey : NodePublicKey Crypto.twins := ⟨negBasePoint.bytes, by decide⟩

/-- The key of this node. -/
def twinsOwnKey : NodePublicKey Crypto.twins := ⟨thirdPoint.bytes, by decide⟩

/-- What a key derives in the network. -/
def twinAddr (key : NodePublicKey Crypto.twins) : NodeAddr where
  subnetId := subnetIdOf key
  site := overlayAddr plainPrefix (subnetIdOf key) zeroIid
  address := overlayAddr plainPrefix (subnetIdOf key) (iidOf key)

/-- A twin as `load` keeps it. -/
def twin (name : String) (key : NodePublicKey Crypto.twins) : Peer Crypto.twins where
  name := name
  publicKey := key
  endpoints := []
  addr := twinAddr key
  relay := false
  relayPort := defaultRelayPort
  routes := []
  ddns := none
  keepalive := none

/-- A file with the two twins. -/
def twinsText : List Char := List.flatMap String.toList
  ["[network]\nname = \"n\"\n", "key = \"AAAAAAEAAAAAAAAA", "AAAAAAAAAAAAAAAAAAAAAAAAAAA=\"\n",
    "[node]\nkey_file = \"k\"\n", "listen_port = 4193\n",
    "[[peers]]\nname = \"a\"\n", "public_key = \"WGZmZmZmZmZmZm",
    "ZmZmZmZmZmZmZmZmZmZmZmZmZmZmY=\"\n", "[[peers]]\nname = \"b\"\n",
    "public_key = \"WGZmZmZmZmZmZm", "ZmZmZmZmZmZmZmZmZmZmZmZmZmZuY=\"\n"]

/-- The node section of `twinsText`. -/
def twinsNode : File.RawNode := .fresh (.ofText ['k']) 4193 none

/-- The raw structure of `twinsText`, and of nothing else. -/
def readTwins (text : List Char) : Except Unit File.RawConfig :=
  if text = twinsText then .ok {
    network := ⟨"n", "AAAAAAEAAAAAAAAAAAAAAAAAAAAAAAAAAAAAAAAAAAA="⟩
    node := twinsNode
    peers := [
      ⟨"a", "WGZmZmZmZmZmZmZmZmZmZmZmZmZmZmZmZmZmZmZmZmY=", [], none, none, [], none, none⟩,
      ⟨"b", "WGZmZmZmZmZmZmZmZmZmZmZmZmZmZmZmZmZmZmZmZuY=", [], none, none, [], none, none⟩] }
  else .error ()

/-- What `load` makes of the file. -/
def twinsFile : File.Config Crypto.twins where
  networkName := "n"
  networkKey := ⟨⟨[0, 0, 0, 0, 1] ++ List.replicate 27 0, rfl⟩⟩
  pre := plainPrefix
  node := File.settings twinsNode [] []
  peers := [twin "a" twinKey, twin "b" negTwinKey]

theorem valid_twinsFile :
    Config.Valid twinsFile.pre twinsOwnKey (twinAddr twinsOwnKey) twinsFile.peers where
  own_addr := by decide
  addr := by decide
  keys := by decide
  subnets := by decide
  clear := by decide
  apart := by decide

/-- The configuration that the daemon starts from. -/
def twinsConfig : Config Crypto.twins :=
  twinsFile.withIdentity twinsOwnKey (twinAddr twinsOwnKey) valid_twinsFile

/-- The first twin is forced to a handshake. -/
def twinTurn : Turn Crypto.twins where
  peer := configuredPeer twinsConfig .new 0 (twin "a" twinKey)
  clock _ := 0
  cache := .new
  actions := [.rehandshake ⟨plainAddr, 4193, 0, 0⟩]

/-- **A forced handshake of one twin takes the site of the other out of the device.**
`Config::load` accepts the file; under the WireGuard key of both the device has the sites
of both, and after the handshake that of the first alone. -/
theorem rehandshake_drops_twin :
    File.load Crypto.twins readTwins plainExpand twinsText (some twinsOwnKey) = .ok twinsFile ∧
      twinTurn.Configured twinsConfig ∧
      ((Device.configured twinsConfig []).peer negTwinKey.wgPublicBytes).map
        DevicePeer.allowedIps = some
          {((twinAddr twinKey).site, 64), ((twinAddr negTwinKey).site, 64)} ∧
      ((Device.configured twinsConfig [twinTurn]).peer negTwinKey.wgPublicBytes).map
        DevicePeer.allowedIps = some {((twinAddr twinKey).site, 64)} ∧
      ¬KeepsConfigured twinsConfig := by
  have hturn : twinTurn.Configured twinsConfig := ⟨twin "a" twinKey, List.mem_cons_self, rfl⟩
  have hbefore : ((Device.configured twinsConfig []).peer negTwinKey.wgPublicBytes).map
      DevicePeer.allowedIps = some
        {((twinAddr twinKey).site, 64), ((twinAddr negTwinKey).site, 64)} := by
    decide
  have hafter : ((Device.configured twinsConfig [twinTurn]).peer negTwinKey.wgPublicBytes).map
      DevicePeer.allowedIps = some {((twinAddr twinKey).site, 64)} := by
    decide
  have hload : File.load Crypto.twins readTwins plainExpand twinsText (some twinsOwnKey) =
      .ok twinsFile := by
    decide +kernel
  refine ⟨hload, hturn, hbefore, hafter, fun h => ?_⟩
  obtain ⟨-, hmoved⟩ := h [] (by simp)
  have hdata := congrArg (Option.map Prod.fst) ((hmoved twinTurn hturn).1.data
    negTwinKey.wgPublicBytes)
  simp only [Option.map_map, Function.comp_def] at hdata
  rw [List.nil_append] at hdata
  have hsame := (hafter.symm.trans hdata).trans hbefore
  revert hsame
  decide

end Hextet
