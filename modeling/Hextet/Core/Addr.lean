/-
# Overlay addresses

`crates/core/src/addr.rs`, the prefix of `crates/core/src/network.rs` and
`site_of` of `crates/engine/src/members.rs`.  A network is a /48 under `fd00::/8`.
A node's 16-bit subnet id and its 64-bit interface id are the leading bytes of
two hashes of its public key; the site of the node is the /64 of its subnet id
and its address is the site with the interface id.

The hash is arbitrary, so two keys may share a subnet id.  Two derived sites
are equal exactly when the subnet ids are (`site_eq_iff`), and `siteOf` recovers
the site from the address (`siteOf_address`).
-/

import Hextet.Core.Identity
import Mathlib.Data.List.Nodup

namespace Hextet

open Lib

variable {C : Crypto}

/-- `std::net::Ipv6Addr`. -/
structure Ipv6Addr where
  /-- `octets()`. -/
  octets : Bytes 16
  deriving DecidableEq

/-- `std::net::SocketAddrV6`. -/
structure SocketAddrV6 where
  ip : Ipv6Addr
  port : UInt16
  flowinfo : UInt32
  scopeId : UInt32
  deriving DecidableEq

/-- `SocketAddr`; nothing is read of an IPv4 address. -/
inductive SocketAddr where
  | v4
  | v6 (a : SocketAddrV6)
  deriving DecidableEq

/-- `NetworkPrefix`: six bytes, the first of them `0xfd`. -/
structure NetworkPrefix where
  bytes : Bytes 6
  isUla : bytes.1.head? = some 0xfd
  deriving DecidableEq

/-- `NodeAddr`: what a node occupies in the overlay. -/
structure NodeAddr where
  subnetId : UInt16
  site : Ipv6Addr
  address : Ipv6Addr
  deriving DecidableEq

/-- `AddrError`. -/
inductive AddrError where
  | degenerateIid
  | subnetCollision (a b : String)
  deriving DecidableEq, Repr

/-- `u16::from_be_bytes([d[0], d[1]])` of a digest. -/
def digestU16 (d : Bytes 32) : UInt16 := UInt16.ofNat (ofBe (d.1.take 2))

/-- The subnet id of a key. -/
def subnetIdOf (key : NodePublicKey C) : UInt16 :=
  digestU16 (C.sha256 ("hextet-v1 subnet-id".toUTF8.data.toList ++ key.bytes.1))

/-- The interface id of a key. -/
def iidOf (key : NodePublicKey C) : Bytes 8 :=
  let d := C.sha256 ("hextet-v1 iid".toUTF8.data.toList ++ key.bytes.1)
  ⟨d.1.take 8, by simp⟩

/-- The address of a /48, a subnet id and an interface id. -/
def overlayAddr (pre : NetworkPrefix) (subnet : UInt16) (iid : Bytes 8) : Ipv6Addr :=
  ⟨⟨pre.bytes.1 ++ (beBytes 2 subnet.toNat ++ iid.1), by simp⟩⟩

/-- Eight zero bytes. -/
def zeroIid : Bytes 8 := ⟨List.replicate 8 0, by simp⟩

/-- `derive_node_addr`. -/
def deriveNodeAddr (pre : NetworkPrefix) (key : NodePublicKey C) : Except AddrError NodeAddr :=
  if iidOf key = zeroIid then .error .degenerateIid
  else .ok
    { subnetId := subnetIdOf key
      site := overlayAddr pre (subnetIdOf key) zeroIid
      address := overlayAddr pre (subnetIdOf key) (iidOf key) }

/-- The first 16-bit group, `segments()[0]`. -/
def Ipv6Addr.segment₀ (a : Ipv6Addr) : ℕ := ofBe (a.octets.1.take 2)

/-- `is_ula`. -/
def isUla (a : Ipv6Addr) : Bool := a.segment₀ &&& 0xfe00 == 0xfc00

/-- `is_link_local`. -/
def isLinkLocal (a : Ipv6Addr) : Bool := a.segment₀ &&& 0xffc0 == 0xfe80

/-- `Ipv6Addr::is_loopback`: `::1`. -/
def Ipv6Addr.isLoopback (a : Ipv6Addr) : Bool := a.octets.1 == List.replicate 15 0 ++ [1]

/-- `Ipv6Addr::is_unspecified`: `::`. -/
def Ipv6Addr.isUnspecified (a : Ipv6Addr) : Bool := a.octets.1 == List.replicate 16 0

/-- `Ipv6Addr::is_multicast`: `ff00::/8`. -/
def Ipv6Addr.isMulticast (a : Ipv6Addr) : Bool := a.octets.1.head? == some 0xff

/-- `Ipv6Addr::to_ipv4_mapped().is_some()`: `::ffff:0:0/96`. -/
def Ipv6Addr.isIpv4Mapped (a : Ipv6Addr) : Bool :=
  a.octets.1.take 12 == List.replicate 10 0 ++ [0xff, 0xff]

/-- `is_usable_endpoint_addr`. -/
def isUsableEndpointAddr (a : Ipv6Addr) : Bool :=
  !isUla a && !isLinkLocal a && !a.isLoopback && !a.isMulticast && !a.isUnspecified &&
    !a.isIpv4Mapped

/-- The loop of `check_subnet_collisions`, `seen` the names met so far by
subnet id. -/
def checkSubnetCollisionsFrom (seen : List (UInt16 × String)) :
    List (String × NodeAddr) → Except AddrError Unit
  | [] => .ok ()
  | (name, addr) :: rest =>
      match seen.lookup addr.subnetId with
      | some prev => .error (.subnetCollision prev name)
      | none => checkSubnetCollisionsFrom ((addr.subnetId, name) :: seen) rest

/-- `check_subnet_collisions`. -/
def checkSubnetCollisions (nodes : List (String × NodeAddr)) : Except AddrError Unit :=
  checkSubnetCollisionsFrom [] nodes

/-- `site_of`: the last eight octets cleared. -/
def siteOf (a : Ipv6Addr) : Ipv6Addr :=
  ⟨⟨a.octets.1.take 8 ++ List.replicate 8 0, by simp⟩⟩

/-- A 16-bit word is written in two bytes without loss. -/
theorem beBytes_two_inj {x y : UInt16} (h : beBytes 2 x.toNat = beBytes 2 y.toNat) : x = y := by
  have hx : x.toNat < 256 ^ 2 := x.toNat_lt
  have hy : y.toNat < 256 ^ 2 := y.toNat_lt
  have := congrArg ofBe h
  rw [ofBe_beBytes, ofBe_beBytes, Nat.mod_eq_of_lt hx, Nat.mod_eq_of_lt hy] at this
  exact UInt16.toNat_inj.1 this

/-- **Two sites of one network are equal exactly when the subnet ids are.** -/
theorem site_eq_iff (pre : NetworkPrefix) (s t : UInt16) :
    overlayAddr pre s zeroIid = overlayAddr pre t zeroIid ↔ s = t := by
  refine ⟨fun h => ?_, fun h => h ▸ rfl⟩
  have h' := congrArg (fun a : Ipv6Addr => a.octets.1) h
  simp only [overlayAddr] at h'
  exact beBytes_two_inj (List.append_cancel_right (List.append_cancel_left h'))

/-- Clearing the interface id of an address gives the site. -/
theorem siteOf_overlayAddr (pre : NetworkPrefix) (s : UInt16) (iid : Bytes 8) :
    siteOf (overlayAddr pre s iid) = overlayAddr pre s zeroIid := by
  have hlen : (pre.bytes.1 ++ beBytes 2 s.toNat).length = 8 := by simp
  simp only [siteOf, overlayAddr, zeroIid, ← List.append_assoc]
  congr 2
  rw [List.take_append_of_le_length (by omega), List.take_of_length_le (by omega)]

variable {pre : NetworkPrefix} {key : NodePublicKey C} {a : NodeAddr}

/-- Derivation fails only on a zero interface id. -/
theorem deriveNodeAddr_eq_ok_iff :
    deriveNodeAddr pre key = .ok a ↔ iidOf key ≠ zeroIid ∧
      a = ⟨subnetIdOf key, overlayAddr pre (subnetIdOf key) zeroIid,
        overlayAddr pre (subnetIdOf key) (iidOf key)⟩ := by
  unfold deriveNodeAddr
  split_ifs with h
  · simp [h]
  · simp [h, eq_comm]

/-- The site of a derived address is the derived site. -/
theorem siteOf_address (h : deriveNodeAddr pre key = .ok a) : siteOf a.address = a.site := by
  obtain ⟨-, rfl⟩ := deriveNodeAddr_eq_ok_iff.1 h
  exact siteOf_overlayAddr ..

/-- **The collision check accepts exactly the lists without a repeated subnet
id**, apart from those in `seen`. -/
theorem checkSubnetCollisionsFrom_eq_ok_iff (seen : List (UInt16 × String))
    (nodes : List (String × NodeAddr)) :
    checkSubnetCollisionsFrom seen nodes = .ok () ↔
      (nodes.map fun n => n.2.subnetId).Nodup ∧
        ∀ n ∈ nodes, n.2.subnetId ∉ seen.map Prod.fst := by
  induction nodes generalizing seen with
  | nil => simp [checkSubnetCollisionsFrom]
  | cons n rest ih =>
      obtain ⟨name, addr⟩ := n
      unfold checkSubnetCollisionsFrom
      cases hl : seen.lookup addr.subnetId with
      | some prev =>
          have hmem : addr.subnetId ∈ seen.map Prod.fst := by
            obtain ⟨l₁, l₂, rfl, -⟩ := List.lookup_eq_some_iff.1 hl
            simp
          simp only [reduceCtorEq, false_iff, not_and]
          exact fun _ hn => hn (name, addr) (List.mem_cons_self ..) hmem
      | none =>
          have hnot : addr.subnetId ∉ seen.map Prod.fst := by
            intro hmem
            obtain ⟨p, hp, hpe⟩ := List.mem_map.1 hmem
            have := List.lookup_eq_none_iff.1 hl p hp
            simp [hpe] at this
          rw [ih]
          simp only [List.map_cons, List.nodup_cons, List.mem_map, List.mem_cons,
            forall_eq_or_imp]
          grind

theorem checkSubnetCollisions_eq_ok_iff (nodes : List (String × NodeAddr)) :
    checkSubnetCollisions nodes = .ok () ↔ (nodes.map fun n => n.2.subnetId).Nodup := by
  simp [checkSubnetCollisions, checkSubnetCollisionsFrom_eq_ok_iff]

end Hextet
