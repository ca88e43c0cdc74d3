/-
# Configuration

The configuration of a node as the daemon holds it: `Config` and `Peer` of
`crates/core/src/config.rs`, with the identity that `load_config_and_identity` adds.

`Config` carries what the checks of `Config::load` establish as `Config.Valid`, so a
configuration that was not checked cannot be built: no key twice, no subnet id twice
(this node included), no route that touches the overlay /48, no two peers with
overlapping routes.  From it no two configured peers, and no peer and this node, cover
a common address (`apart_allowedIpsFor`).
-/

import Hextet.Core.Route

namespace Hextet

open Lib

variable {C : Crypto}

/-- `Peer`. -/
structure Peer (C : Crypto) where
  name : String
  publicKey : NodePublicKey C
  endpoints : List SocketAddrV6
  addr : NodeAddr
  relay : Bool
  relayPort : UInt16
  routes : List Ipv6Route
  ddns : Option String
  keepalive : Option UInt16
  deriving DecidableEq

/-- `NodeSettings`, the fields that the modelled part of the daemon reads. -/
structure NodeSettings (C : Crypto) where
  listenPort : UInt16
  keepalive : UInt16
  adminKeys : List (NodePublicKey C)

/-- `DEFAULT_RELAY_PORT`. -/
def defaultRelayPort : UInt16 := 4196

/-- `Peer::relay_control_endpoints`. -/
def Peer.relayControlEndpoints (p : Peer C) : List SocketAddrV6 :=
  if p.relay then p.endpoints.map fun e => ⟨e.ip, p.relayPort, 0, 0⟩ else []

/-- Bytes followed by zeros. -/
def padAddr (b : List UInt8) (h : b.length ≤ 16) : Ipv6Addr :=
  ⟨⟨b ++ List.replicate (16 - b.length) 0, by simp; omega⟩⟩

/-- An address with zeros past a byte boundary is aligned to it. -/
theorem applyMask_padAddr (b : List UInt8) (h : b.length ≤ 16) :
    applyMask (padAddr b h) (8 * b.length) = padAddr b h := by
  refine Ipv6Addr.ext_octets fun i hi => ?_
  rw [applyMask_octets _ _ hi]
  simp only [padAddr]
  by_cases hb : i < b.length
  · have hmask : maskByte (8 * b.length) i = 0xff := if_pos (by omega)
    rw [List.getElem?_append_left hb, List.getElem?_eq_getElem hb, hmask]
    simp only [Option.map_some, Option.some.injEq]
    exact UInt8.and_neg_one
  · rw [List.getElem?_append_right (by omega), List.getElem?_replicate]
    split_ifs with h'
    · simp
    · rfl

/-- `NetworkPrefix::network` with `PREFIX_LEN`: the overlay /48. -/
def overlayRoute (pre : NetworkPrefix) : Ipv6Route where
  pre := padAddr pre.bytes.1 (by simp)
  prefixLen := 48
  inRange := by omega
  aligned := by simpa using applyMask_padAddr pre.bytes.1 (by simp)

theorem overlayAddr_zeroIid (pre : NetworkPrefix) (subnet : UInt16) :
    overlayAddr pre subnet zeroIid =
      padAddr (pre.bytes.1 ++ beBytes 2 subnet.toNat) (by simp) := by
  simp [overlayAddr, padAddr, zeroIid]

/-- The /64 site of a subnet. -/
def siteRoute (pre : NetworkPrefix) (subnet : UInt16) : Ipv6Route where
  pre := overlayAddr pre subnet zeroIid
  prefixLen := 64
  inRange := by omega
  aligned := by
    have h := applyMask_padAddr (pre.bytes.1 ++ beBytes 2 subnet.toNat) (by simp)
    rw [overlayAddr_zeroIid]
    simpa using h

/-- The pairs of a nested loop `for i`, `for j in i+1..`. -/
def pairs {α : Type*} : List α → List (α × α)
  | [] => []
  | x :: xs => xs.map (x, ·) ++ pairs xs

/-- What the checks of `load` establish. -/
structure Config.Valid (pre : NetworkPrefix) (own : NodePublicKey C) (ownAddr : NodeAddr)
    (peers : List (Peer C)) : Prop where
  own_addr : deriveNodeAddr pre own = .ok ownAddr
  addr : ∀ p ∈ peers, deriveNodeAddr pre p.publicKey = .ok p.addr
  keys : peers.Pairwise fun p q => p.publicKey ≠ q.publicKey
  subnets : (peers.map (fun p => p.addr.subnetId) ++ [ownAddr.subnetId]).Nodup
  clear : ∀ p ∈ peers, ∀ r ∈ p.routes, r.overlaps (overlayRoute pre) = false
  apart : peers.Pairwise fun p q => ∀ r ∈ p.routes, ∀ r' ∈ q.routes, r.overlaps r' = false

/-- `Config` and the identity, as `load_config_and_identity` returns them. -/
structure Config (C : Crypto) where
  pre : NetworkPrefix
  own : NodePublicKey C
  ownAddr : NodeAddr
  node : NodeSettings C
  peers : List (Peer C)
  valid : Config.Valid pre own ownAddr peers

theorem forall_mem_pairs {α : Type*} {R : α → α → Prop} (l : List α) :
    (∀ x ∈ pairs l, R x.1 x.2) ↔ l.Pairwise R := by
  induction l with
  | nil => simp [pairs]
  | cons x xs ih =>
      rw [List.pairwise_cons, ← ih]
      simp only [pairs, List.mem_append, List.mem_map]
      constructor
      · intro h
        exact ⟨fun y hy => h (x, y) (Or.inl ⟨y, hy, rfl⟩), fun p hp => h p (Or.inr hp)⟩
      · rintro ⟨h, h'⟩ p (⟨y, hy, rfl⟩ | hp)
        · exact h y hy
        · exact h' p hp

/-- Where a nested search finds nothing, its first check fails everywhere. -/
theorem not_of_findSome?_eq_none {α β γ : Type*} {xs : List α} {ys : α → List β}
    {found : α → β → γ} {c : α → β → Prop} [∀ x y, Decidable (c x y)] {next : α → β → Option γ}
    (h : (xs.findSome? fun x => (ys x).findSome? fun y =>
      if c x y then some (found x y) else next x y) = none) : ∀ x ∈ xs, ∀ y ∈ ys x, ¬c x y := by
  intro x hx y hy hc
  have h' := List.findSome?_eq_none_iff.1 (List.findSome?_eq_none_iff.1 h x hx) y hy
  rw [if_pos hc] at h'
  cases h'

/-! ### Prefixes that share no address -/

/-- No address matches a prefix of each list. -/
def Apart (ips ips' : List (Ipv6Addr × ℕ)) : Prop :=
  ∀ p ∈ ips, ∀ q ∈ ips', ∀ a, ¬(Covers p a ∧ Covers q a)

theorem Apart.symm {ips ips' : List (Ipv6Addr × ℕ)} (h : Apart ips ips') : Apart ips' ips :=
  fun p hp q hq a ha => h q hq p hp a ha.symm

/-- The sites of a network lie in its overlay. -/
theorem covers_overlayRoute (pre : NetworkPrefix) {s : UInt16} {a : Ipv6Addr}
    (h : Covers (siteRoute pre s).toPair a) : Covers (overlayRoute pre).toPair a := by
  have hsite : applyMask a 64 = overlayAddr pre s zeroIid := h
  change applyMask a 48 = padAddr pre.bytes.1 (by simp)
  rw [← applyMask_applyMask a (show 48 ≤ 64 by omega), hsite]
  refine Ipv6Addr.ext_octets fun i hi => ?_
  rw [applyMask_octets _ _ hi]
  simp only [overlayAddr, padAddr]
  by_cases h6 : i < 6
  · have hmask : maskByte 48 i = 0xff := if_pos (by omega)
    rw [List.getElem?_append_left (by simpa using h6),
      List.getElem?_append_left (by simpa using h6), List.getElem?_eq_getElem (by simpa using h6),
      hmask]
    simp only [Option.map_some, Option.some.injEq]
    exact UInt8.and_neg_one
  · have hmask : maskByte 48 i = 0 := by
      rw [maskByte, if_neg (by omega), if_neg (by omega)]
    have hlen : (pre.bytes.1 ++ (beBytes 2 s.toNat ++ zeroIid.1)).length = 16 := by simp
    have hpre : pre.bytes.1.length = 6 := pre.bytes.2
    rw [List.getElem?_eq_getElem (show i < _ by omega), hmask, Option.map_some, UInt8.and_zero,
      List.getElem?_append_right (by omega), List.getElem?_replicate, if_pos (by omega)]

/-- Every address lies in its own site. -/
theorem covers_siteOf (a : Ipv6Addr) : Covers (siteOf a, 64) (siteOf a) := by
  have h := applyMask_padAddr (a.octets.1.take 8) (by simp)
  simpa [Covers, siteOf, padAddr] using h

section

variable {pre : NetworkPrefix} {s : UInt16} {a site site' : Ipv6Addr} {r r' : Ipv6Route}

/-- Routes that do not overlap share no address. -/
theorem not_covers_routes (h : r.overlaps r' = false) :
    ¬(Covers r.toPair a ∧ Covers r'.toPair a) := by
  rintro ⟨hr, hr'⟩
  rw [Ipv6Route.overlaps_of_common hr hr'] at h
  cases h

/-- Routes outside the overlay share no address with a site in it. -/
theorem apart_site_routes {rs : List Ipv6Route}
    (h : ∀ r ∈ rs, r.overlaps (overlayRoute pre) = false) :
    Apart [(overlayAddr pre s zeroIid, 64)] (rs.map Ipv6Route.toPair) := by
  intro p hp q hq a hc
  obtain rfl := List.mem_singleton.1 hp
  obtain ⟨r, hr, rfl⟩ := List.mem_map.1 hq
  exact not_covers_routes (h r hr) ⟨hc.2, covers_overlayRoute pre hc.1⟩

/-- **The AllowedIPs of two nodes share no address** when their sites differ, the
routes of each keep out of the site of the other and do not overlap. -/
theorem apart_allowedIpsFor {rs rs' : List Ipv6Route} (hsite : site ≠ site')
    (hrs' : Apart [(site, 64)] (rs'.map Ipv6Route.toPair))
    (hrs : Apart [(site', 64)] (rs.map Ipv6Route.toPair))
    (hap : ∀ r ∈ rs, ∀ r' ∈ rs', r.overlaps r' = false) :
    Apart (allowedIpsFor site rs) (allowedIpsFor site' rs') := by
  intro p hp q hq a
  rcases mem_allowedIpsFor.1 hp with rfl | ⟨r, hr, rfl⟩
  · rcases mem_allowedIpsFor.1 hq with rfl | ⟨r', hr', rfl⟩
    · rintro ⟨h, h'⟩
      exact hsite (h.symm.trans h')
    · exact hrs' _ (List.mem_singleton_self _) _ (List.mem_map_of_mem hr') a
  · rcases mem_allowedIpsFor.1 hq with rfl | ⟨r', hr', rfl⟩
    · exact fun hc => hrs _ (List.mem_singleton_self _) _ (List.mem_map_of_mem hr) a hc.symm
    · exact not_covers_routes (hap r hr r' hr')

end

/-- Lists of AllowedIPs that share no address share no prefix. -/
theorem Apart.disjoint {a : Ipv6Addr} {rs : List Ipv6Route} {ips : List (Ipv6Addr × ℕ)}
    (h : Apart (allowedIpsFor (siteOf a) rs) ips) :
    Disjoint (allowedIpsFor (siteOf a) rs).toFinset ips.toFinset := by
  refine Finset.disjoint_left.2 fun p hp hp' => ?_
  rw [List.mem_toFinset] at hp hp'
  rcases mem_allowedIpsFor.1 hp with rfl | ⟨r, hr, rfl⟩
  · exact h _ hp _ hp' _ ⟨covers_siteOf a, covers_siteOf a⟩
  · exact h _ hp _ hp' _ ⟨r.covers_pre, r.covers_pre⟩

end Hextet
