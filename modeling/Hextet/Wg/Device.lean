/-
# The WireGuard device

`crates/wg/src/types.rs` and the semantics of `WgBackend` in
`crates/wg/src/kernel.rs`.  The kernel holds, per WireGuard key, an endpoint, a
set of AllowedIPs and a keepalive interval, and a prefix belongs to at most one
peer: giving it to one takes it from any other.

`apply` replaces all peers.  `set_peer_endpoint` and `add_peer` merge into what
is there, and create a peer that is not; `add_peer` leaves the endpoint or the
keepalive alone when its spec has none.
-/

import Hextet.Core.Route
import Mathlib.Data.Finset.SDiff

namespace Hextet

open Lib

/-- `PeerSpec`. -/
structure PeerSpec where
  wgPublic : Bytes 32
  endpoint : Option SocketAddrV6
  allowedIps : List (Ipv6Addr × ℕ)
  persistentKeepalive : Option UInt16
  deriving DecidableEq

/-- What the kernel holds about a peer. -/
structure DevicePeer where
  endpoint : Option SocketAddrV6
  allowedIps : Finset (Ipv6Addr × ℕ)
  keepalive : Option UInt16
  deriving DecidableEq

/-- The peers of a device, by WireGuard key. -/
structure Device where
  peer : Bytes 32 → Option DevicePeer

/-- A call of `WgBackend` after `apply`. -/
inductive WgCall where
  | setPeerEndpoint (wgPublic : Bytes 32) (endpoint : SocketAddrV6)
  | addPeer (spec : PeerSpec)
  | removePeer (wgPublic : Bytes 32)
  deriving DecidableEq

namespace Device

/-- No peers. -/
def empty : Device := ⟨fun _ => none⟩

/-- A peer before anything is known about it. -/
def blank : DevicePeer := ⟨none, ∅, none⟩

/-- `set_peer_endpoint`. -/
def setPeerEndpoint (dev : Device) (wgPublic : Bytes 32) (endpoint : SocketAddrV6) : Device :=
  ⟨fun k =>
    if k = wgPublic then some { (dev.peer k).getD blank with endpoint := some endpoint }
    else dev.peer k⟩

/-- `add_peer`: the prefixes move to the peer. -/
def addPeer (dev : Device) (spec : PeerSpec) : Device :=
  ⟨fun k =>
    if k = spec.wgPublic then
      let old := (dev.peer k).getD blank
      some
        { endpoint := spec.endpoint.or old.endpoint
          allowedIps := old.allowedIps ∪ spec.allowedIps.toFinset
          keepalive := spec.persistentKeepalive.or old.keepalive }
    else (dev.peer k).map fun p => { p with allowedIps := p.allowedIps \ spec.allowedIps.toFinset }⟩

/-- `remove_peer`. -/
def removePeer (dev : Device) (wgPublic : Bytes 32) : Device :=
  ⟨fun k => if k = wgPublic then none else dev.peer k⟩

/-- `apply`: the peers of the spec and no others. -/
def applySpecs (specs : List PeerSpec) : Device := specs.foldl addPeer empty

/-- The effect of a call that succeeds. -/
def call (dev : Device) : WgCall → Device
  | .setPeerEndpoint k ep => dev.setPeerEndpoint k ep
  | .addPeer spec => dev.addPeer spec
  | .removePeer k => dev.removePeer k

/-- Calls in sequence, all succeeding. -/
def calls (dev : Device) (cs : List WgCall) : Device := cs.foldl call dev

@[simp] theorem calls_nil (dev : Device) : dev.calls [] = dev := rfl

@[simp] theorem calls_cons (dev : Device) (c : WgCall) (cs : List WgCall) :
    dev.calls (c :: cs) = (dev.call c).calls cs := rfl

theorem calls_append (dev : Device) (cs cs' : List WgCall) :
    dev.calls (cs ++ cs') = (dev.calls cs).calls cs' := List.foldl_append ..

section Lookup

variable (dev : Device) {k k' : Bytes 32}

theorem setPeerEndpoint_self (k : Bytes 32) (ep : SocketAddrV6) :
    (dev.setPeerEndpoint k ep).peer k =
      some { (dev.peer k).getD blank with endpoint := some ep } := if_pos rfl

theorem setPeerEndpoint_of_ne (h : k ≠ k') (ep : SocketAddrV6) :
    (dev.setPeerEndpoint k' ep).peer k = dev.peer k := if_neg h

theorem addPeer_self (spec : PeerSpec) :
    (dev.addPeer spec).peer spec.wgPublic =
      some
        { endpoint := spec.endpoint.or ((dev.peer spec.wgPublic).getD blank).endpoint
          allowedIps := ((dev.peer spec.wgPublic).getD blank).allowedIps ∪ spec.allowedIps.toFinset
          keepalive :=
            spec.persistentKeepalive.or ((dev.peer spec.wgPublic).getD blank).keepalive } :=
  if_pos rfl

theorem addPeer_of_ne {spec : PeerSpec} (h : k ≠ spec.wgPublic) :
    (dev.addPeer spec).peer k = (dev.peer k).map fun p =>
      { p with allowedIps := p.allowedIps \ spec.allowedIps.toFinset } := if_neg h

@[simp] theorem removePeer_self (k : Bytes 32) : (dev.removePeer k).peer k = none := if_pos rfl

theorem removePeer_of_ne (h : k ≠ k') : (dev.removePeer k').peer k = dev.peer k := if_neg h

end Lookup

/-- The device carries a peer as it should: these AllowedIPs and this
keepalive. -/
def Carries (dev : Device) (k : Bytes 32) (ips : Finset (Ipv6Addr × ℕ))
    (keepalive : Option UInt16) : Prop :=
  ∃ p, dev.peer k = some p ∧ p.allowedIps = ips ∧ p.keepalive = keepalive

section Frame

variable {dev : Device} {k k' : Bytes 32} {ips : Finset (Ipv6Addr × ℕ)} {ka : Option UInt16}

/-- **A new endpoint leaves AllowedIPs and keepalive alone.** -/
theorem Carries.setPeerEndpoint (h : dev.Carries k ips ka) (k' : Bytes 32) (ep : SocketAddrV6) :
    (dev.setPeerEndpoint k' ep).Carries k ips ka := by
  obtain ⟨p, hp, hips, hka⟩ := h
  by_cases hk : k = k'
  · subst hk
    exact ⟨_, setPeerEndpoint_self dev k ep, by simp [hp, hips], by simp [hp, hka]⟩
  · exact ⟨p, (setPeerEndpoint_of_ne dev hk ep).trans hp, hips, hka⟩

/-- Removing one peer leaves the others alone. -/
theorem Carries.removePeer (h : dev.Carries k ips ka) (hne : k ≠ k') :
    (dev.removePeer k').Carries k ips ka := by
  obtain ⟨p, hp, h⟩ := h
  exact ⟨p, (removePeer_of_ne dev hne).trans hp, h⟩

/-- **Adding a peer leaves alone the others whose prefixes it does not claim.** -/
theorem Carries.addPeer (h : dev.Carries k ips ka) {spec : PeerSpec} (hne : k ≠ spec.wgPublic)
    (hdisj : Disjoint ips spec.allowedIps.toFinset) : (dev.addPeer spec).Carries k ips ka := by
  obtain ⟨p, hp, hips, hka⟩ := h
  refine ⟨{ p with allowedIps := p.allowedIps \ spec.allowedIps.toFinset }, ?_, ?_, hka⟩
  · rw [addPeer_of_ne dev hne, hp]
    rfl
  · rw [hips, Finset.sdiff_eq_self_of_disjoint hdisj]

/-- An absent peer is added with the AllowedIPs and the keepalive of its spec. -/
theorem carries_addPeer {spec : PeerSpec} (h : dev.peer spec.wgPublic = none) :
    (dev.addPeer spec).Carries spec.wgPublic spec.allowedIps.toFinset
      spec.persistentKeepalive := by
  refine ⟨_, addPeer_self dev spec, ?_, ?_⟩
  · simp [h, blank]
  · simp [h, blank]

/-- An absent peer stays absent while others are added. -/
theorem addPeer_eq_none {spec : PeerSpec} (h : dev.peer k = none) (hne : k ≠ spec.wgPublic) :
    (dev.addPeer spec).peer k = none := by
  rw [addPeer_of_ne dev hne, h]
  rfl

end Frame

end Device

end Hextet
