/-
# Gossip inside the tunnel

`crates/engine/src/gossip.rs`, `is_within_prefix` and `handle_datagram`: the one
function through which datagrams reach the store and become events for the
daemon.  In order: the source address, `decode`, the admin list for member and
revocation entries, and then by kind the merge and the event.

`handleDatagram_eq` reads the function on an accepted entry as a merge followed
by a choice of event, and the lemmas after it say when the store changes.
-/

import Hextet.Core.GossipConvergence
import Hextet.Engine.Candidates

namespace Hextet

open Lib

variable {C : Crypto}

/-- `GossipEvent`. -/
inductive GossipEvent (C : Crypto) where
  | discovered (d : DiscoveredEndpoints)
  | memberAdmitted (node : NodePublicKey C) (name : String) (address : Ipv6Addr)
  | revoked (node : NodePublicKey C)
  deriving DecidableEq

/-- The part of `GossipConfig` that `handle_datagram` reads. -/
structure GossipConfig (C : Crypto) where
  pre : NetworkPrefix
  own : NodePublicKey C
  adminKeys : List (NodePublicKey C)

/-- A received datagram: the bytes and the source address. -/
structure Datagram where
  buf : List UInt8
  src : Ipv6Addr
  deriving DecidableEq

/-- `is_within_prefix`. -/
def isWithinPrefix (addr : Ipv6Addr) (pre : NetworkPrefix) : Bool :=
  addr.octets.1.take 6 == pre.bytes.1

/-- The admin check of `handle_datagram`: an issued entry whose signer is not on
a non-empty list. -/
def isUnauthorised (adminKeys : List (NodePublicKey C)) (entry : Entry C) : Bool :=
  entry.kind ≠ .endpoint && !adminKeys.isEmpty && !adminKeys.contains entry.signer

/-- `handle_datagram` on a decoded and authorised entry. -/
def handleEntry (cfg : GossipConfig C) (store : GossipStore C) (entry : Entry C) :
    Option (GossipEvent C) × GossipStore C :=
  match entry with
  | .endpoint node .. =>
      if node.toBase64 = cfg.own.toBase64 then (none, store)
      else if entry.endpointAddrs = [] then (none, store)
      else
        let (outcome, store') := store.merge entry
        if outcome ≠ .applied then (none, store')
        else (some (.discovered ⟨.gossip, node.toBase64, entry.endpointAddrs⟩), store')
  | .member node name .. =>
      let (outcome, store') := store.merge entry
      if outcome ≠ .applied then (none, store')
      else if store'.isRevoked node then (none, store')
      else
        match deriveNodeAddr cfg.pre node with
        | .ok a => (some (.memberAdmitted node name a.address), store')
        | .error _ => (none, store')
  | .revocation node .. =>
      let (outcome, store') := store.merge entry
      if outcome ≠ .applied then (none, store') else (some (.revoked node), store')

/-- `handle_datagram`. -/
def handleDatagram (cfg : GossipConfig C) (store : GossipStore C) (d : Datagram) :
    Option (GossipEvent C) × GossipStore C :=
  if !isWithinPrefix d.src cfg.pre then (none, store)
  else
    match Entry.decode C d.buf with
    | .ok entry =>
        if isUnauthorised cfg.adminKeys entry then (none, store) else handleEntry cfg store entry
    | _ => (none, store)

/-- The entry a datagram carries, if it comes from inside the network and its
signer may issue it. -/
def Datagram.accepted (cfg : GossipConfig C) (d : Datagram) : Option (Entry C) :=
  if !isWithinPrefix d.src cfg.pre then none
  else
    match Entry.decode C d.buf with
    | .ok entry => if isUnauthorised cfg.adminKeys entry then none else some entry
    | _ => none

/-- An endpoint entry that is dropped before the merge: this node's own, or one
without a usable address. -/
def isIgnored (cfg : GossipConfig C) : Entry C → Bool
  | .endpoint node eps port s g =>
      decide (node = cfg.own) || (Entry.endpoint node eps port s g).endpointAddrs == []
  | _ => false

/-- Only endpoint entries are ignored. -/
theorem isIgnored_of_kind {cfg : GossipConfig C} {e : Entry C} (h : e.kind ≠ .endpoint) :
    isIgnored cfg e = false := by
  cases e with
  | endpoint => exact absurd rfl h
  | member => rfl
  | revocation => rfl

/-- The event of an entry the store has just taken up. -/
def eventOf (cfg : GossipConfig C) (store : GossipStore C) :
    Entry C → Option (GossipEvent C)
  | .endpoint node eps port s g =>
      some (.discovered ⟨.gossip, node.toBase64, (Entry.endpoint node eps port s g).endpointAddrs⟩)
  | .member node name .. =>
      if store.isRevoked node then none
      else
        match deriveNodeAddr cfg.pre node with
        | .ok a => some (.memberAdmitted node name a.address)
        | .error _ => none
  | .revocation node .. => some (.revoked node)

/-- What a datagram does is decided by the entry it carries. -/
theorem handleDatagram_eq (cfg : GossipConfig C) (store : GossipStore C) (d : Datagram) :
    handleDatagram cfg store d =
      match d.accepted cfg with
      | some entry => handleEntry cfg store entry
      | none => (none, store) := by
  unfold handleDatagram Datagram.accepted
  split_ifs
  · rfl
  · split
    · split_ifs <;> rfl
    · rfl

/-- **An accepted entry is ignored, or merged and answered with its event.** -/
theorem handleEntry_eq (cfg : GossipConfig C) (store : GossipStore C) (e : Entry C) :
    handleEntry cfg store e =
      if isIgnored cfg e then (none, store)
      else if (store.merge e).1 = .applied then (eventOf cfg (store.merge e).2 e, (store.merge e).2)
      else (none, store) := by
  have hself : (store.merge e).1 ≠ .applied → (store.merge e).2 = store :=
    GossipStore.merge_eq_self
  cases e with
  | endpoint node eps port s g =>
      simp only [handleEntry, isIgnored, eventOf, NodePublicKey.toBase64_inj]
      by_cases hn : node = cfg.own
      · simp [hn]
      by_cases ha : (Entry.endpoint node eps port s g).endpointAddrs = []
      · simp [ha]
      by_cases hm : (store.merge (.endpoint node eps port s g)).1 = .applied
      · simp [hn, ha, hm]
      · simp [hn, ha, hm, hself hm]
  | member node name site s g i d =>
      simp only [handleEntry, isIgnored, eventOf]
      by_cases hm : (store.merge (.member node name site s g i d)).1 = .applied
      · simp only [hm, ne_eq, not_true_eq_false, if_false, if_true, Bool.false_eq_true]
        split_ifs
        · rfl
        · split <;> rfl
      · simp [hm, hself hm]
  | revocation node s g i =>
      simp only [handleEntry, isIgnored, eventOf]
      by_cases hm : (store.merge (.revocation node s g i)).1 = .applied
      · simp [hm]
      · simp [hm, hself hm]

/-- A member entry about a node that is not revoked admits it. -/
theorem eventOf_member (cfg : GossipConfig C) {s : GossipStore C} {node : NodePublicKey C}
    {a : NodeAddr} (hr : s.isRevoked node = false) (ha : deriveNodeAddr cfg.pre node = .ok a)
    (name : String) (site : UInt16) (seq : UInt64) (sig : Bytes 64) (issuer : NodePublicKey C)
    (inviteId : Bytes 16) :
    eventOf cfg s (.member node name site seq sig issuer inviteId) =
      some (.memberAdmitted node name a.address) := by
  simp [eventOf, hr, ha]

/-! ### Runs -/

/-- Datagrams in sequence: the events returned, and the store at the end. -/
def handleAll (cfg : GossipConfig C) :
    GossipStore C → List Datagram → List (GossipEvent C) × GossipStore C
  | store, [] => ([], store)
  | store, d :: ds =>
      let (event, store) := handleDatagram cfg store d
      let (events, store) := handleAll cfg store ds
      (event.toList ++ events, store)

@[simp] theorem handleAll_nil (cfg : GossipConfig C) (s : GossipStore C) :
    handleAll cfg s [] = ([], s) := rfl

theorem handleAll_cons (cfg : GossipConfig C) (s : GossipStore C) (d : Datagram)
    (ds : List Datagram) :
    handleAll cfg s (d :: ds) =
      ((handleDatagram cfg s d).1.toList ++ (handleAll cfg (handleDatagram cfg s d).2 ds).1,
        (handleAll cfg (handleDatagram cfg s d).2 ds).2) := rfl

theorem handleAll_append (cfg : GossipConfig C) (s : GossipStore C) (ds ds' : List Datagram) :
    handleAll cfg s (ds ++ ds') =
      ((handleAll cfg s ds).1 ++ (handleAll cfg (handleAll cfg s ds).2 ds').1,
        (handleAll cfg (handleAll cfg s ds).2 ds').2) := by
  induction ds generalizing s with
  | nil => rfl
  | cons d ds ih => simp only [List.cons_append, handleAll_cons, ih, List.append_assoc]

/-! ### What the store does on a datagram -/

/-- An accepted entry is what the datagram decodes to. -/
theorem Datagram.decode_of_accepted {cfg : GossipConfig C} {d : Datagram} {e : Entry C}
    (h : d.accepted cfg = some e) : Entry.decode C d.buf = .ok e := by
  unfold accepted at h
  split_ifs at h
  split at h
  · rename_i e' hdec
    split_ifs at h
    cases h
    exact hdec
  · cases h

/-- An accepted entry is valid: `decode` returns no other. -/
theorem Datagram.isValid_of_accepted {cfg : GossipConfig C} {d : Datagram} {e : Entry C}
    (h : d.accepted cfg = some e) : e.isValid = true :=
  (Entry.decode_eq_ok_iff.1 (decode_of_accepted h)).1

/-- The datagram of a valid entry, from inside and by an entitled signer, carries
that entry. -/
theorem Datagram.accepted_encoding {cfg : GossipConfig C} {e : Entry C} {src : Ipv6Addr}
    (hv : e.isValid = true) (hsrc : isWithinPrefix src cfg.pre = true)
    (hauth : isUnauthorised cfg.adminKeys e = false) :
    (⟨e.encoding, src⟩ : Datagram).accepted cfg = some e := by
  have hdec := Entry.decode_eq_ok_iff.2 ⟨hv, Entry.encode_eq_ok_encoding hv⟩
  simp [accepted, hsrc, hdec, hauth]

/-- A datagram without an accepted entry does nothing. -/
theorem handleDatagram_of_none {cfg : GossipConfig C} {s : GossipStore C} {d : Datagram}
    (h : d.accepted cfg = none) : handleDatagram cfg s d = (none, s) := by
  rw [handleDatagram_eq, h]

/-- The entry is taken up: it is not ignored and the merge is applied. -/
def Takes (cfg : GossipConfig C) (s : GossipStore C) (e : Entry C) : Prop :=
  isIgnored cfg e = false ∧ (s.merge e).1 = .applied

/-- An entry under a new key is taken up if there is room. -/
theorem takes_of_fresh {cfg : GossipConfig C} {s : GossipStore C} {e : Entry C}
    (hv : e.isValid = true) (hign : isIgnored cfg e = false) (hnone : s.map.lookup e.key = none)
    (hroom : s.len < maxStoreEntries) : Takes cfg s e := by
  refine ⟨hign, (s.merge_eq_applied_iff e).2 ⟨hv, fun old hold => ?_, fun _ => hroom⟩⟩
  rw [hnone] at hold
  cases hold

/-- The empty store takes up every valid entry that is not ignored. -/
theorem takes_new {cfg : GossipConfig C} {e : Entry C} (hv : e.isValid = true)
    (hign : isIgnored cfg e = false) : Takes cfg GossipStore.new e :=
  takes_of_fresh hv hign (Finmap.lookup_empty _)
    (by simp [GossipStore.len, GossipStore.new, maxStoreEntries])

/-- **An accepted entry that is taken up** is filed and answered. -/
theorem handleDatagram_of_takes {cfg : GossipConfig C} {s : GossipStore C} {d : Datagram}
    {e : Entry C} (h : d.accepted cfg = some e) (ht : Takes cfg s e) :
    handleDatagram cfg s d = (eventOf cfg (s.merge e).2 e, (s.merge e).2) ∧
      (s.merge e).2.map = s.map.insert e.key e := by
  constructor
  · rw [handleDatagram_eq, h]
    simp only [handleEntry_eq]
    rw [if_neg (by simp [ht.1]), if_pos ht.2]
  · exact GossipStore.map_of_applied (Prod.ext ht.2 rfl)

/-- **An accepted entry that is not taken up** does nothing. -/
theorem handleDatagram_of_not_takes {cfg : GossipConfig C} {s : GossipStore C} {d : Datagram}
    {e : Entry C} (h : d.accepted cfg = some e) (ht : ¬Takes cfg s e) :
    handleDatagram cfg s d = (none, s) := by
  rw [handleDatagram_eq, h]
  simp only [handleEntry_eq]
  by_cases hi : isIgnored cfg e = true
  · rw [if_pos hi]
  · rw [if_neg hi, if_neg fun hm => ht ⟨by simpa using hi, hm⟩]

/-- **The two ends of a datagram**: nothing, or an entry filed and answered. -/
theorem handleDatagram_cases (cfg : GossipConfig C) (s : GossipStore C) (d : Datagram) :
    handleDatagram cfg s d = (none, s) ∨
      ∃ e s', d.accepted cfg = some e ∧ Takes cfg s e ∧ s'.map = s.map.insert e.key e ∧
        handleDatagram cfg s d = (eventOf cfg s' e, s') := by
  cases h : d.accepted cfg with
  | none => exact Or.inl (handleDatagram_of_none h)
  | some e =>
      by_cases ht : Takes cfg s e
      · obtain ⟨heq, hmap⟩ := handleDatagram_of_takes h ht
        exact Or.inr ⟨e, _, rfl, ht, hmap, heq⟩
      · exact Or.inl (handleDatagram_of_not_takes h ht)

/-- The store after an accepted entry: it is merged unless it is ignored. -/
theorem snd_handleEntry (cfg : GossipConfig C) (s : GossipStore C) (e : Entry C) :
    (handleEntry cfg s e).2 = s.mergeAll ([e].filter fun e => !isIgnored cfg e) := by
  rw [handleEntry_eq]
  by_cases hi : isIgnored cfg e = true
  · simp [hi, GossipStore.mergeAll]
  · by_cases hm : (s.merge e).1 = .applied
    · simp [hi, hm, GossipStore.mergeAll]
    · simp [hi, hm, GossipStore.mergeAll, GossipStore.merge_eq_self hm]

/-- The store after a datagram: its accepted entry is merged unless it is
ignored. -/
theorem snd_handleDatagram (cfg : GossipConfig C) (s : GossipStore C) (d : Datagram) :
    (handleDatagram cfg s d).2 =
      s.mergeAll ((d.accepted cfg).toList.filter fun e => !isIgnored cfg e) := by
  rw [handleDatagram_eq]
  cases d.accepted cfg with
  | none => rfl
  | some e => exact snd_handleEntry cfg s e

/-- Keys stay in the store. -/
theorem mem_handleDatagram {cfg : GossipConfig C} {s : GossipStore C} (d : Datagram)
    {k : NodePublicKey C × Kind} (h : k ∈ s.map) : k ∈ (handleDatagram cfg s d).2.map := by
  rcases handleDatagram_cases cfg s d with heq | ⟨e, s', -, -, hmap, heq⟩
  · rwa [heq]
  · rw [heq, hmap, Finmap.mem_insert]
    exact Or.inr h

namespace GossipStore

theorem isRevoked_iff (s : GossipStore C) (node : NodePublicKey C) :
    s.isRevoked node = true ↔ (node, Kind.revocation) ∈ s.map := by
  rw [isRevoked, Option.isSome_iff_exists, Finmap.mem_iff]

end GossipStore

/-- Revocation is permanent in the store. -/
theorem isRevoked_handleDatagram {cfg : GossipConfig C} {s : GossipStore C} (d : Datagram)
    {node : NodePublicKey C} (h : s.isRevoked node = true) :
    (handleDatagram cfg s d).2.isRevoked node = true := by
  rw [GossipStore.isRevoked_iff] at h ⊢
  exact mem_handleDatagram d h

/-- An event of revocation comes from a store that has just filed one. -/
theorem isRevoked_of_revoked {cfg : GossipConfig C} {s : GossipStore C} {d : Datagram}
    {node : NodePublicKey C} (h : (handleDatagram cfg s d).1 = some (.revoked node)) :
    (handleDatagram cfg s d).2.isRevoked node = true := by
  rcases handleDatagram_cases cfg s d with heq | ⟨e, s', -, -, hmap, heq⟩
  · rw [heq] at h
    cases h
  · rw [heq] at h ⊢
    cases e with
    | endpoint => cases h
    | member =>
        simp only [eventOf] at h
        split_ifs at h
        split at h <;> cases h
    | revocation node' =>
        simp only [eventOf, Option.some.injEq, GossipEvent.revoked.injEq] at h
        subst h
        rw [GossipStore.isRevoked_iff, hmap, Finmap.mem_insert]
        exact Or.inl rfl

theorem isRevoked_handleAll {cfg : GossipConfig C} {s : GossipStore C} (ds : List Datagram)
    {node : NodePublicKey C} (h : s.isRevoked node = true) :
    (handleAll cfg s ds).2.isRevoked node = true := by
  induction ds generalizing s with
  | nil => exact h
  | cons d ds ih => exact ih (isRevoked_handleDatagram d h)

/-- **An admission comes from an accepted member entry** about a node that the
store does not hold as revoked, with the address derived from its key. -/
theorem accepted_of_memberAdmitted {cfg : GossipConfig C} {s : GossipStore C} {d : Datagram}
    {node : NodePublicKey C} {name : String} {address : Ipv6Addr}
    (h : (handleDatagram cfg s d).1 = some (.memberAdmitted node name address)) :
    (∃ e, d.accepted cfg = some e ∧ e.kind = .member ∧ e.node = node) ∧
      (handleDatagram cfg s d).2.isRevoked node = false ∧
        ∃ a, deriveNodeAddr cfg.pre node = .ok a ∧ a.address = address := by
  rcases handleDatagram_cases cfg s d with heq | ⟨e, s', hacc, -, -, heq⟩
  · rw [heq] at h
    cases h
  · rw [heq] at h ⊢
    cases e with
    | endpoint => cases h
    | revocation => cases h
    | member node' =>
        simp only [eventOf] at h
        split_ifs at h with hr
        split at h
        · rename_i a ha
          cases h
          exact ⟨⟨_, hacc, rfl, rfl⟩, by simpa using hr, a, ha, rfl⟩
        · cases h

/-- A datagram adds at most one entry. -/
theorem len_handleDatagram_le (cfg : GossipConfig C) (s : GossipStore C) (d : Datagram) :
    (handleDatagram cfg s d).2.len ≤ s.len + 1 := by
  rcases handleDatagram_cases cfg s d with heq | ⟨e, s', -, -, hmap, heq⟩
  · rw [heq]
    exact Nat.le_succ _
  · rw [heq, GossipStore.len, hmap, LastWriter.keys_insert]
    exact Finset.card_insert_le _ _

theorem len_handleAll_le (cfg : GossipConfig C) (s : GossipStore C) (ds : List Datagram) :
    (handleAll cfg s ds).2.len ≤ s.len + ds.length := by
  induction ds generalizing s with
  | nil => simp
  | cons d ds ih =>
      have h := ih (handleDatagram cfg s d).2
      have h' := len_handleDatagram_le cfg s d
      rw [handleAll_cons, List.length_cons]
      simp only
      omega

/-- Every overlay address lies in the prefix of its network. -/
theorem isWithinPrefix_overlayAddr (pre : NetworkPrefix) (subnet : UInt16) (iid : Bytes 8) :
    isWithinPrefix (overlayAddr pre subnet iid) pre = true := by
  simp [isWithinPrefix, overlayAddr]

/-- The datagram of an entry, sent from inside the network. -/
def Datagram.ofEntry (pre : NetworkPrefix) (e : Entry C) : Datagram :=
  ⟨e.encoding, overlayAddr pre 0 zeroIid⟩

/-- A valid entry by an entitled signer is accepted. -/
theorem Datagram.accepted_ofEntry (cfg : GossipConfig C) {e : Entry C} (hv : e.isValid = true)
    (hauth : isUnauthorised cfg.adminKeys e = false) :
    (Datagram.ofEntry cfg.pre e).accepted cfg = some e :=
  accepted_encoding hv (isWithinPrefix_overlayAddr ..) hauth

end Hextet
