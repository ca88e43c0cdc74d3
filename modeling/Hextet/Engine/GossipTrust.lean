/-
# Who influences what in gossip

Two statements about trust at `handle_datagram`.

With an admin list, membership events are a matter of the admins
(`docs/protocol/gossip.md` §6 and §7).  Deleting every datagram that is not an
admin-signed member or revocation entry leaves the membership events of a run as
they were, as long as no admin entry under a new key meets a full store
(`membership_noninterference`).  All kinds share one capacity, and endpoint
entries are self-signed, so strangers can fill it (`strangers_fill_store`).

A revoked node is removed from the data plane, but what it signs is judged as
before its revocation: `handle_datagram` drops an entry of a revoked signer
exactly when it would drop it of anybody (`revoked_signer_refused_iff`).
-/

import Hextet.Engine.Gossip

namespace Hextet

open Lib

variable {C : Crypto}

/-- An event that changes who is a member. -/
def GossipEvent.isMembership : GossipEvent C → Bool
  | .discovered _ => false
  | .memberAdmitted .. => true
  | .revoked _ => true

/-- The datagram is a member or revocation entry signed by an admin. -/
def Datagram.isAdminIssued (adminKeys : List (NodePublicKey C)) (d : Datagram) : Bool :=
  match Entry.decode C d.buf with
  | .ok e => e.kind ≠ .endpoint && adminKeys.contains e.signer
  | _ => false

/-! ### Membership with an admin list -/

/-- Two stores hold the same member and revocation entries, and the first holds
at least the keys of the second. -/
structure SameIssued (s t : GossipStore C) : Prop where
  issued : ∀ node kind, kind ≠ Kind.endpoint →
    t.map.lookup (node, kind) = s.map.lookup (node, kind)
  keys : t.map.keys ⊆ s.map.keys

namespace SameIssued

variable {s t : GossipStore C}

theorem len_le (h : SameIssued s t) : t.len ≤ s.len := Finset.card_le_card h.keys

theorem isRevoked (h : SameIssued s t) (node : NodePublicKey C) :
    t.isRevoked node = s.isRevoked node := by
  rw [GossipStore.isRevoked, GossipStore.isRevoked, h.issued node _ (by simp)]

/-- An endpoint entry filed in the first store is not seen. -/
theorem insert_endpoint (h : SameIssued s t) {s' : GossipStore C} {e : Entry C}
    (he : e.kind = .endpoint) (hmap : s'.map = s.map.insert e.key e) : SameIssued s' t where
  issued node kind hk := by
    rw [h.issued node kind hk, hmap, Finmap.lookup_insert_of_ne]
    intro hc
    exact hk (he ▸ congrArg Prod.snd hc)
  keys := by
    rw [hmap, LastWriter.keys_insert]
    exact h.keys.trans (Finset.subset_insert _ _)

/-- One entry filed in both. -/
theorem insert_both (h : SameIssued s t) {s' t' : GossipStore C} {e : Entry C}
    (hs : s'.map = s.map.insert e.key e) (ht : t'.map = t.map.insert e.key e) :
    SameIssued s' t' where
  issued node kind hk := by
    rw [hs, ht]
    by_cases hkey : (node, kind) = e.key
    · rw [hkey, Finmap.lookup_insert, Finmap.lookup_insert]
    · rw [Finmap.lookup_insert_of_ne _ hkey, Finmap.lookup_insert_of_ne _ hkey,
        h.issued node kind hk]
  keys := by
    rw [hs, ht, LastWriter.keys_insert, LastWriter.keys_insert]
    exact Finset.insert_subset_insert _ h.keys

/-- An issued entry that finds room is taken up in both or in neither. -/
theorem takes_iff (h : SameIssued s t) (cfg : GossipConfig C) {e : Entry C}
    (he : e.kind ≠ .endpoint) (hroom : s.map.lookup e.key = none → s.len < maxStoreEntries) :
    Takes cfg t e ↔ Takes cfg s e := by
  have hl : t.map.lookup e.key = s.map.lookup e.key := h.issued e.node e.kind he
  have hroom' : t.map.lookup e.key = none → t.len < maxStoreEntries :=
    fun hn => h.len_le.trans_lt (hroom (hl ▸ hn))
  refine and_congr_right fun _ => ?_
  rw [GossipStore.merge_eq_applied_iff, GossipStore.merge_eq_applied_iff, hl]
  exact and_congr_right fun _ => and_congr_right fun _ => iff_of_true (hl ▸ hroom') hroom

end SameIssued

/-- An issued entry is answered by what the store says about revocations. -/
theorem eventOf_congr (cfg : GossipConfig C) {s t : GossipStore C} {e : Entry C}
    (h : ∀ node, t.isRevoked node = s.isRevoked node) : eventOf cfg t e = eventOf cfg s e := by
  cases e with
  | member node => simp only [eventOf, h]
  | endpoint => rfl
  | revocation => rfl

/-- An accepted entry that is not an endpoint was issued by an admin, when there
is an admin list. -/
theorem isAdminIssued_of_accepted {cfg : GossipConfig C} (hadmin : cfg.adminKeys ≠ [])
    {d : Datagram} {e : Entry C} (h : d.accepted cfg = some e) (he : e.kind ≠ .endpoint) :
    d.isAdminIssued cfg.adminKeys = true := by
  unfold Datagram.accepted at h
  split_ifs at h
  split at h
  · rename_i e' hdec
    split_ifs at h with hun
    cases h
    have hne : cfg.adminKeys.isEmpty = false := by simpa using hadmin
    simp only [isUnauthorised, he, hne, ne_eq, not_false_eq_true, decide_true, Bool.not_false,
      Bool.true_and, Bool.not_eq_true', Bool.not_eq_false] at hun
    rw [Datagram.isAdminIssued, hdec]
    simpa [he] using hun
  · cases h

/-- A deleted datagram changes no issued entry and returns no membership event. -/
theorem SameIssued.handle_other {cfg : GossipConfig C} (hadmin : cfg.adminKeys ≠ [])
    {s t : GossipStore C} (h : SameIssued s t) {d : Datagram}
    (hd : d.isAdminIssued cfg.adminKeys = false) :
    SameIssued (handleDatagram cfg s d).2 t ∧
      (handleDatagram cfg s d).1.toList.filter GossipEvent.isMembership = [] := by
  rcases handleDatagram_cases cfg s d with heq | ⟨e, s', hacc, -, hmap, heq⟩
  · rw [heq]
    exact ⟨h, rfl⟩
  · have he : e.kind = .endpoint := by
      by_contra he
      rw [isAdminIssued_of_accepted hadmin hacc he] at hd
      cases hd
    rw [heq]
    refine ⟨h.insert_endpoint he hmap, ?_⟩
    cases e with
    | endpoint => rfl
    | member => cases he
    | revocation => cases he

/-- A kept datagram acts on both stores alike. -/
theorem SameIssued.handle_admin {cfg : GossipConfig C} {s t : GossipStore C}
    (h : SameIssued s t) {d : Datagram} (hd : d.isAdminIssued cfg.adminKeys = true)
    (hroom : ∀ e, d.accepted cfg = some e → s.map.lookup e.key = none →
      s.len < maxStoreEntries) :
    SameIssued (handleDatagram cfg s d).2 (handleDatagram cfg t d).2 ∧
      (handleDatagram cfg t d).1 = (handleDatagram cfg s d).1 := by
  cases hacc : d.accepted cfg with
  | none =>
      rw [handleDatagram_of_none hacc, handleDatagram_of_none hacc]
      exact ⟨h, rfl⟩
  | some e =>
      have he : e.kind ≠ .endpoint := by
        unfold Datagram.accepted at hacc
        split_ifs at hacc
        split at hacc
        · rename_i e' hdec
          split_ifs at hacc
          cases hacc
          rw [Datagram.isAdminIssued, hdec] at hd
          simp only [Bool.and_eq_true, decide_eq_true_eq] at hd
          exact hd.1
        · cases hacc
      have hiff := h.takes_iff cfg he (hroom e hacc)
      by_cases ht : Takes cfg s e
      · obtain ⟨hs, hsmap⟩ := handleDatagram_of_takes hacc ht
        obtain ⟨ht, htmap⟩ := handleDatagram_of_takes hacc (hiff.2 ht)
        have hboth := h.insert_both hsmap htmap
        rw [hs, ht]
        exact ⟨hboth, eventOf_congr cfg hboth.isRevoked⟩
      · rw [handleDatagram_of_not_takes hacc ht,
          handleDatagram_of_not_takes hacc (mt hiff.1 ht)]
        exact ⟨h, rfl⟩

/-- Along a run: no accepted admin entry under a new key meets a full store. -/
def RoomForAdmins (cfg : GossipConfig C) (s : GossipStore C) (ds : List Datagram) : Prop :=
  ∀ ds₁ d ds₂, ds = ds₁ ++ d :: ds₂ → d.isAdminIssued cfg.adminKeys = true →
    ∀ e, d.accepted cfg = some e → (handleAll cfg s ds₁).2.map.lookup e.key = none →
      (handleAll cfg s ds₁).2.len < maxStoreEntries

theorem RoomForAdmins.tail {cfg : GossipConfig C} {s : GossipStore C} {d : Datagram}
    {ds : List Datagram} (h : RoomForAdmins cfg s (d :: ds)) :
    RoomForAdmins cfg (handleDatagram cfg s d).2 ds := by
  rintro ds₁ d' ds₂ rfl
  exact h (d :: ds₁) d' ds₂ rfl

/-- **The run lemma**: from stores that agree on the issued entries, the full
input and the admins' part of it return the same membership events. -/
theorem SameIssued.handleAll {cfg : GossipConfig C} (hadmin : cfg.adminKeys ≠ [])
    (ds : List Datagram) {s t : GossipStore C} (h : SameIssued s t)
    (hroom : RoomForAdmins cfg s ds) :
    (handleAll cfg s ds).1.filter GossipEvent.isMembership =
      (handleAll cfg t (ds.filter (Datagram.isAdminIssued cfg.adminKeys))).1.filter
        GossipEvent.isMembership := by
  induction ds generalizing s t with
  | nil => rfl
  | cons d ds ih =>
      by_cases hd : d.isAdminIssued cfg.adminKeys = true
      · obtain ⟨h', hev⟩ := h.handle_admin hd (hroom [] d ds rfl hd)
        rw [List.filter_cons_of_pos hd, handleAll_cons, handleAll_cons, List.filter_append,
          List.filter_append, hev, ih h' hroom.tail]
      · obtain ⟨h', hev⟩ := h.handle_other hadmin (by simpa using hd)
        rw [List.filter_cons_of_neg hd, handleAll_cons, List.filter_append, hev, List.nil_append,
          ih h' hroom.tail]

/-- **Nobody but the admins influences membership**, while no admin entry under a
new key meets a full store: the membership events of a run are those of its
admin-signed member and revocation entries alone. -/
theorem membership_noninterference (cfg : GossipConfig C) (hadmin : cfg.adminKeys ≠ [])
    (ds : List Datagram) (hroom : RoomForAdmins cfg GossipStore.new ds) :
    (handleAll cfg GossipStore.new ds).1.filter GossipEvent.isMembership =
      (handleAll cfg GossipStore.new
        (ds.filter (Datagram.isAdminIssued cfg.adminKeys))).1.filter GossipEvent.isMembership :=
  SameIssued.handleAll hadmin ds ⟨fun _ _ _ => rfl, fun _ h => h⟩ hroom

/-- Admins always find room in short runs. -/
theorem roomForAdmins_of_length_le {cfg : GossipConfig C} {ds : List Datagram}
    (h : ds.length ≤ maxStoreEntries) : RoomForAdmins cfg GossipStore.new ds := by
  rintro ds₁ d ds₂ rfl - e - -
  have hlen := len_handleAll_le cfg GossipStore.new ds₁
  have hnew : (GossipStore.new : GossipStore C).len = 0 := rfl
  rw [List.length_append, List.length_cons] at h
  omega

/-- A node whose only admin is node 601, with its own key 600. -/
def plainAdminConfig : GossipConfig Crypto.plain := ⟨plainPrefix, plainKey 600 0, [plainKey 601 0]⟩

/-- A stranger's endpoint and an admin's member entry, in this order. -/
theorem membership_noninterference_short :
    let ds := [Datagram.ofEntry plainPrefix (.plainEndpoint (plainKey 1 0) 7),
      Datagram.ofEntry plainPrefix (.plainMember (plainKey 602 0) (plainKey 601 0) 7)]
    (handleAll plainAdminConfig GossipStore.new ds).1.filter GossipEvent.isMembership =
      (handleAll plainAdminConfig GossipStore.new
        (ds.filter (Datagram.isAdminIssued plainAdminConfig.adminKeys))).1.filter
          GossipEvent.isMembership :=
  membership_noninterference plainAdminConfig (by simp [plainAdminConfig]) _
    (roomForAdmins_of_length_le (by simp [maxStoreEntries]))

/-- Entries under fresh keys fill the store one by one, and leave other keys
alone. -/
theorem handleAll_fresh (cfg : GossipConfig C) (es : List (Entry C)) {s : GossipStore C}
    (hacc : ∀ e ∈ es, (Datagram.ofEntry cfg.pre e).accepted cfg = some e)
    (hign : ∀ e ∈ es, isIgnored cfg e = false) (hnodup : (es.map Entry.key).Nodup)
    (hfresh : ∀ e ∈ es, s.map.lookup e.key = none) (hroom : s.len + es.length ≤ maxStoreEntries) :
    (handleAll cfg s (es.map (Datagram.ofEntry cfg.pre))).2.len = s.len + es.length ∧
      ∀ k ∉ es.map Entry.key,
        (handleAll cfg s (es.map (Datagram.ofEntry cfg.pre))).2.map.lookup k = s.map.lookup k := by
  induction es generalizing s with
  | nil => simp
  | cons e es ih =>
      rw [List.length_cons] at hroom
      rw [List.map_cons, List.nodup_cons] at hnodup
      have he := hacc e (List.mem_cons_self ..)
      have hnone := hfresh e (List.mem_cons_self ..)
      have htakes : Takes cfg s e := takes_of_fresh (Datagram.isValid_of_accepted he)
        (hign e (List.mem_cons_self ..)) hnone (by omega)
      obtain ⟨heq, hmap⟩ := handleDatagram_of_takes he htakes
      have hlen : (s.merge e).2.len = s.len + 1 := by
        rw [GossipStore.len, hmap, LastWriter.card_insert hnone]
        rfl
      have hfresh' : ∀ e' ∈ es, (s.merge e).2.map.lookup e'.key = none := by
        intro e' he'
        rw [hmap, Finmap.lookup_insert_of_ne]
        · exact hfresh e' (List.mem_cons_of_mem _ he')
        · exact fun hk => hnodup.1 (hk ▸ List.mem_map_of_mem he')
      obtain ⟨ihlen, ihlook⟩ := ih (fun e' he' => hacc e' (List.mem_cons_of_mem _ he'))
        (fun e' he' => hign e' (List.mem_cons_of_mem _ he')) hnodup.2 hfresh' (by omega)
      rw [List.map_cons, handleAll_cons, heq]
      refine ⟨by rw [ihlen, hlen, List.length_cons]; omega, fun k hk => ?_⟩
      rw [List.map_cons, List.mem_cons, not_or] at hk
      rw [ihlook k hk.2, hmap, Finmap.lookup_insert_of_ne _ hk.1]

/-- Endpoint entries return no membership event. -/
theorem filter_isMembership_endpoints (cfg : GossipConfig C) (ds : List Datagram)
    {s : GossipStore C} (h : ∀ d ∈ ds, ∀ e, d.accepted cfg = some e → e.kind = .endpoint) :
    (handleAll cfg s ds).1.filter GossipEvent.isMembership = [] := by
  induction ds generalizing s with
  | nil => rfl
  | cons d ds ih =>
      rw [handleAll_cons, List.filter_append, ih fun d' hd' => h d' (List.mem_cons_of_mem _ hd'),
        List.append_nil]
      rcases handleDatagram_cases cfg s d with heq | ⟨e, s', hacc, -, -, heq⟩
      · rw [heq]
        rfl
      · rw [heq]
        have he := h d (List.mem_cons_self ..) e hacc
        cases e with
        | endpoint => rfl
        | member => cases he
        | revocation => cases he

/-- The endpoint entries of 512 strangers. -/
def strangers : List (Entry Crypto.plain) :=
  (List.range 512).map fun i => .plainEndpoint (plainKey (i + 1) 0) 7

/-- An admin admits node 602. -/
def adminsMember : Entry Crypto.plain := .plainMember (plainKey 602 0) (plainKey 601 0) 7

theorem accepted_of_mem_strangers {e : Entry Crypto.plain} (h : e ∈ strangers) :
    (Datagram.ofEntry plainPrefix e).accepted plainAdminConfig = some e := by
  obtain ⟨i, -, rfl⟩ := List.mem_map.1 h
  exact Datagram.accepted_ofEntry plainAdminConfig (Entry.isValid_plainEndpoint ..) rfl

theorem kind_of_mem_strangers {e : Entry Crypto.plain} (h : e ∈ strangers) :
    e.kind = .endpoint := by
  obtain ⟨i, -, rfl⟩ := List.mem_map.1 h
  rfl

/-- The endpoint entry of another node is not ignored. -/
theorem isIgnored_plainEndpoint {cfg : GossipConfig Crypto.plain}
    {node : NodePublicKey Crypto.plain} (h : node ≠ cfg.own) (seq : UInt64) :
    isIgnored cfg (.plainEndpoint node seq) = false := by
  have haddrs := Entry.endpointAddrs_plainEndpoint node seq
  simp only [Entry.plainEndpoint] at haddrs
  simp [isIgnored, Entry.plainEndpoint, h, haddrs]

theorem isIgnored_of_mem_strangers {e : Entry Crypto.plain} (h : e ∈ strangers) :
    isIgnored plainAdminConfig e = false := by
  obtain ⟨i, hi, rfl⟩ := List.mem_map.1 h
  rw [List.mem_range] at hi
  exact isIgnored_plainEndpoint (plainKey_ne (by omega) (by omega) (by omega) 0 0) 7

theorem nodup_key_strangers : (strangers.map Entry.key).Nodup := by
  rw [strangers, List.map_map]
  refine List.Nodup.map_on (fun i hi j hj hij => ?_) List.nodup_range
  have := plainKey_inj (by simp at hi; omega) (by simp at hj; omega)
    (congrArg Prod.fst hij : plainKey (i + 1) 0 = plainKey (j + 1) 0)
  omega

/-- The store is full after the strangers' entries, and knows no members. -/
theorem handleAll_strangers :
    (handleAll plainAdminConfig GossipStore.new
      (strangers.map (Datagram.ofEntry plainPrefix))).2.len = maxStoreEntries ∧
    (handleAll plainAdminConfig GossipStore.new
      (strangers.map (Datagram.ofEntry plainPrefix))).2.map.lookup adminsMember.key = none := by
  obtain ⟨hlen, hlook⟩ := handleAll_fresh plainAdminConfig strangers
    (s := GossipStore.new) (fun e => accepted_of_mem_strangers)
    (fun e => isIgnored_of_mem_strangers) nodup_key_strangers (fun e _ => rfl)
    (by simp [strangers, GossipStore.len, GossipStore.new, maxStoreEntries])
  refine ⟨?_, ?_⟩
  · rw [show plainPrefix = plainAdminConfig.pre from rfl, hlen]
    simp [strangers, GossipStore.len, GossipStore.new, maxStoreEntries]
  · rw [show plainPrefix = plainAdminConfig.pre from rfl, hlook]
    · rfl
    · intro hmem
      obtain ⟨e, he, hk⟩ := List.mem_map.1 hmem
      have := congrArg Prod.snd hk
      rw [show e.key.2 = e.kind from rfl, kind_of_mem_strangers he] at this
      cases this

theorem isValid_adminsMember : adminsMember.isValid = true := by
  refine Entry.isValid_plainMember (fun hk => ?_) 7
  have := plainKey_inj (by omega) (by omega) hk
  omega

theorem accepted_adminsMember :
    (Datagram.ofEntry plainPrefix adminsMember).accepted plainAdminConfig = some adminsMember :=
  Datagram.accepted_ofEntry plainAdminConfig isValid_adminsMember (by
    simp [isUnauthorised, plainAdminConfig, adminsMember, Entry.plainMember, Entry.signer])

/-- Alone, the admin's entry admits the node. -/
theorem handleAll_adminsMember :
    (handleAll plainAdminConfig GossipStore.new
      [Datagram.ofEntry plainPrefix adminsMember]).1.filter GossipEvent.isMembership ≠ [] := by
  have htakes : Takes plainAdminConfig GossipStore.new adminsMember :=
    takes_new isValid_adminsMember rfl
  obtain ⟨heq, hmap⟩ := handleDatagram_of_takes accepted_adminsMember htakes
  have hrevoked : (GossipStore.new.merge adminsMember).2.isRevoked (plainKey 602 0) = false := by
    rw [GossipStore.isRevoked, hmap, Finmap.lookup_insert_of_ne]
    · rfl
    · exact fun hk => by cases congrArg Prod.snd hk
  have haddr := deriveNodeAddr_plainKey plainPrefix (show 602 < 65536 by omega) (by omega) 0
  rw [handleAll_cons, heq]
  simp only
  rw [show eventOf plainAdminConfig (GossipStore.new.merge adminsMember).2 adminsMember = _ from
    eventOf_member plainAdminConfig hrevoked haddr ..]
  simp [GossipEvent.isMembership]

/-- The part of the input that the admins issued. -/
theorem filter_isAdminIssued_strangers :
    (strangers.map (Datagram.ofEntry plainPrefix) ++
        [Datagram.ofEntry plainPrefix adminsMember]).filter
      (Datagram.isAdminIssued plainAdminConfig.adminKeys) =
        [Datagram.ofEntry plainPrefix adminsMember] := by
  have hdec : ∀ {e : Entry Crypto.plain}, e.isValid = true →
      Entry.decode Crypto.plain (Datagram.ofEntry plainPrefix e).buf = .ok e :=
    fun hv => Entry.decode_eq_ok_iff.2 ⟨hv, Entry.encode_eq_ok_encoding hv⟩
  have hstrangers : (strangers.map (Datagram.ofEntry plainPrefix)).filter
      (Datagram.isAdminIssued plainAdminConfig.adminKeys) = [] := by
    refine List.filter_eq_nil_iff.2 fun d hd => ?_
    obtain ⟨e, he, rfl⟩ := List.mem_map.1 hd
    have hv := Datagram.isValid_of_accepted (accepted_of_mem_strangers he)
    rw [Datagram.isAdminIssued, hdec hv]
    simp [kind_of_mem_strangers he]
  have hadmin : Datagram.isAdminIssued plainAdminConfig.adminKeys
      (Datagram.ofEntry plainPrefix adminsMember) = true := by
    rw [Datagram.isAdminIssued, hdec isValid_adminsMember]
    simp [plainAdminConfig, adminsMember, Entry.plainMember, Entry.signer, Entry.kind]
  rw [List.filter_append, hstrangers, List.nil_append, List.filter_cons_of_pos hadmin,
    List.filter_nil]

/-- **Strangers can fill the store**: after 512 self-signed endpoints an admin's
member entry is refused, while without them it admits the node. -/
theorem strangers_fill_store :
    let ds := strangers.map (Datagram.ofEntry plainPrefix) ++
      [Datagram.ofEntry plainPrefix adminsMember]
    plainAdminConfig.adminKeys ≠ [] ∧
    (handleAll plainAdminConfig GossipStore.new ds).1.filter GossipEvent.isMembership ≠
      (handleAll plainAdminConfig GossipStore.new
        (ds.filter (Datagram.isAdminIssued plainAdminConfig.adminKeys))).1.filter
          GossipEvent.isMembership := by
  refine ⟨by simp [plainAdminConfig], ?_⟩
  obtain ⟨hlen, hnone⟩ := handleAll_strangers
  have hrefused : ¬Takes plainAdminConfig (handleAll plainAdminConfig GossipStore.new
      (strangers.map (Datagram.ofEntry plainPrefix))).2 adminsMember := by
    intro ht
    have := ((GossipStore.merge_eq_applied_iff _ _).1 ht.2).2.2 hnone
    omega
  have hquiet : (handleAll plainAdminConfig GossipStore.new
      (strangers.map (Datagram.ofEntry plainPrefix))).1.filter GossipEvent.isMembership = [] := by
    refine filter_isMembership_endpoints _ _ fun d hd e he => ?_
    obtain ⟨e', he', rfl⟩ := List.mem_map.1 hd
    rw [accepted_of_mem_strangers he', Option.some.injEq] at he
    exact he ▸ kind_of_mem_strangers he'
  rw [filter_isAdminIssued_strangers, handleAll_append, List.filter_append, hquiet, handleAll_cons,
    handleDatagram_of_not_takes accepted_adminsMember hrefused]
  exact fun h => handleAll_adminsMember h.symm

/-! ### What a revoked node signs -/

/-- What an accepted entry is not taken up for: it is ignored, it does not
outrank what its key holds, or its key is new and the store is full. -/
theorem not_takes_iff {cfg : GossipConfig C} {s : GossipStore C} {e : Entry C}
    (hv : e.isValid = true) :
    ¬Takes cfg s e ↔ isIgnored cfg e = true ∨
      (∃ old, s.map.lookup e.key = some old ∧ lwwCompare e old ≠ .gt) ∨
        (s.map.lookup e.key = none ∧ maxStoreEntries ≤ s.len) := by
  rw [Takes, GossipStore.merge_eq_applied_iff]
  cases hl : s.map.lookup e.key with
  | some old =>
      have hgt := lwwCompare_eq_gt_iff hv (s.filed _ _ hl).1
      simp only [hv, Option.some.injEq, forall_eq', exists_eq_left', reduceCtorEq, false_and,
        or_false, false_implies, and_true, true_and, ne_eq, hgt, not_and_or, Bool.not_eq_false]
  | none =>
      simp only [hv, reduceCtorEq, false_implies, implies_true, forall_const, true_and, false_and,
        exists_false, false_or, not_and_or, Bool.not_eq_false, Nat.not_lt]

/-- A decoded entry is accepted from inside the network, by an entitled signer. -/
theorem accepted_eq_some_iff {cfg : GossipConfig C} {d : Datagram} {e : Entry C}
    (hdec : Entry.decode C d.buf = .ok e) :
    d.accepted cfg = some e ↔
      isWithinPrefix d.src cfg.pre = true ∧ isUnauthorised cfg.adminKeys e = false := by
  simp only [Datagram.accepted, hdec]
  split_ifs with h h' <;> simp_all

theorem isUnauthorised_iff (adminKeys : List (NodePublicKey C)) (e : Entry C) :
    isUnauthorised adminKeys e = true ↔
      e.kind ≠ .endpoint ∧ adminKeys ≠ [] ∧ e.signer ∉ adminKeys := by
  simp [isUnauthorised, and_assoc]

theorem isIgnored_iff (cfg : GossipConfig C) (e : Entry C) :
    isIgnored cfg e = true ↔
      e.kind = .endpoint ∧ (e.signer = cfg.own ∨ e.endpointAddrs = []) := by
  cases e with
  | endpoint => simp [isIgnored, Entry.kind, Entry.signer]
  | member => simp [isIgnored, Entry.kind]
  | revocation => simp [isIgnored, Entry.kind]

/-- An accepted entry changes nothing exactly when it is not taken: a filed entry is found under
its key, and outranks what was there. -/
theorem handleDatagram_eq_self_iff {cfg : GossipConfig C} {s : GossipStore C} {d : Datagram}
    {e : Entry C} (hacc : d.accepted cfg = some e) :
    handleDatagram cfg s d = (none, s) ↔ ¬Takes cfg s e := by
  refine ⟨fun heq ht => ?_, fun ht => handleDatagram_of_not_takes hacc ht⟩
  obtain ⟨heq', hmap⟩ := handleDatagram_of_takes hacc ht
  have hself : s.map = s.map.insert e.key e := by
    rw [← hmap, ← congrArg Prod.snd heq', heq]
  have hold : s.map.lookup e.key = some e := by
    rw [hself, Finmap.lookup_insert]
  exact lt_irrefl _ (((GossipStore.merge_eq_applied_iff s e).1 ht.2).2.1 e hold)

/-- **An entry of a revoked signer is dropped exactly when it would be dropped of
anybody.**  After a revocation of `node` was applied and whatever came since, the
store knows that the node is revoked, and an entry signed by it is still dropped
only for its source, for the admin list, as an ignored endpoint, as outranked, or
for lack of room. -/
theorem revoked_signer_refused_iff (cfg : GossipConfig C) (node : NodePublicKey C)
    (ds₁ : List Datagram) (d₀ : Datagram) (ds₂ : List Datagram)
    (hrev : (handleDatagram cfg (handleAll cfg GossipStore.new ds₁).2 d₀).1 = some (.revoked node))
    (d : Datagram) (e : Entry C) (hdec : Entry.decode C d.buf = .ok e) (hsigner : e.signer = node) :
    let s := (handleAll cfg GossipStore.new (ds₁ ++ d₀ :: ds₂)).2
    s.isRevoked node = true ∧
    (handleDatagram cfg s d = (none, s) ↔
      isWithinPrefix d.src cfg.pre = false ∨
      (e.kind ≠ .endpoint ∧ cfg.adminKeys ≠ [] ∧ node ∉ cfg.adminKeys) ∨
      (e.kind = .endpoint ∧ (node = cfg.own ∨ e.endpointAddrs = [])) ∨
      (∃ old, s.map.lookup e.key = some old ∧ lwwCompare e old ≠ .gt) ∨
      (s.map.lookup e.key = none ∧ maxStoreEntries ≤ s.len)) := by
  intro s
  have hs : s.isRevoked node = true := by
    rw [show s = _ from congrArg Prod.snd (handleAll_append cfg GossipStore.new ds₁ (d₀ :: ds₂)),
      handleAll_cons]
    exact isRevoked_handleAll ds₂ (isRevoked_of_revoked hrev)
  have hv := (Entry.decode_eq_ok_iff.1 hdec).1
  refine ⟨hs, ?_⟩
  rw [← hsigner, ← isUnauthorised_iff, ← isIgnored_iff, ← not_takes_iff hv]
  by_cases hacc : d.accepted cfg = some e
  · obtain ⟨hsrc, hauth⟩ := (accepted_eq_some_iff hdec).1 hacc
    simp only [hsrc, hauth, reduceCtorEq, Bool.true_eq_false, false_or]
    exact handleDatagram_eq_self_iff hacc
  · have hnone : d.accepted cfg = none := by
      rw [accepted_eq_some_iff hdec, not_and_or] at hacc
      simp only [Datagram.accepted, hdec]
      split_ifs <;> simp_all
    rw [handleDatagram_of_none hnone]
    rw [accepted_eq_some_iff hdec, not_and_or, Bool.not_eq_true, Bool.not_eq_false] at hacc
    simp only [true_iff]
    exact hacc.imp id Or.inl

/-- A node without an admin list. -/
def plainOpenConfig : GossipConfig Crypto.plain := ⟨plainPrefix, plainKey 600 0, []⟩

/-- Node 9 revokes node 1. -/
def revokeOne : Datagram :=
  Datagram.ofEntry plainPrefix (.plainRevocation (plainKey 1 0) (plainKey 9 0) 5)

theorem handleDatagram_revokeOne :
    (handleDatagram plainOpenConfig GossipStore.new revokeOne).1 =
        some (.revoked (plainKey 1 0)) ∧
      (handleAll plainOpenConfig GossipStore.new [revokeOne]).2.map.lookup
        (plainKey 1 0, .endpoint) = none := by
  have hne : plainKey 9 0 ≠ plainKey 1 0 := plainKey_ne (by omega) (by omega) (by omega) 0 0
  have hv := Entry.isValid_plainRevocation hne 5
  have htakes : Takes plainOpenConfig GossipStore.new
      (.plainRevocation (plainKey 1 0) (plainKey 9 0) 5) := takes_new hv rfl
  have hacc := Datagram.accepted_ofEntry plainOpenConfig hv rfl
  obtain ⟨heq, hmap⟩ := handleDatagram_of_takes hacc htakes
  refine ⟨congrArg Prod.fst heq, ?_⟩
  rw [handleAll_cons, handleAll_nil, show handleDatagram plainOpenConfig GossipStore.new revokeOne
    = _ from heq]
  simp only
  rw [hmap, Finmap.lookup_insert_of_ne]
  · rfl
  · exact fun hk => by cases congrArg Prod.snd hk

/-- The endpoint of the revoked node 1, from outside the network. -/
theorem revoked_signer_refused_outside :
    let s := (handleAll plainOpenConfig GossipStore.new [revokeOne]).2
    handleDatagram plainOpenConfig s
      ⟨(Entry.plainEndpoint (plainKey 1 0) 6).encoding, plainAddr⟩ = (none, s) := by
  have hv := Entry.isValid_plainEndpoint (plainKey 1 0) 6
  exact (revoked_signer_refused_iff plainOpenConfig (plainKey 1 0) [] revokeOne []
    handleDatagram_revokeOne.1 ⟨_, plainAddr⟩ (.plainEndpoint (plainKey 1 0) 6)
    (Entry.decode_eq_ok_iff.2 ⟨hv, Entry.encode_eq_ok_encoding hv⟩) rfl).2.2 (Or.inl (by decide))

/-- **A revoked node is still heard**: after the revocation of node 1 was
applied, the endpoint entry that it signs is filed and forwarded. -/
theorem revoked_node_heard :
    let d := Datagram.ofEntry plainPrefix (.plainEndpoint (plainKey 1 0) 6)
    let s := (handleAll plainOpenConfig GossipStore.new [revokeOne]).2
    (handleDatagram plainOpenConfig GossipStore.new revokeOne).1 =
      some (.revoked (plainKey 1 0)) ∧
    Entry.decode Crypto.plain d.buf = .ok (.plainEndpoint (plainKey 1 0) 6) ∧
    (Entry.plainEndpoint (plainKey 1 0) 6).signer = plainKey 1 0 ∧
    handleDatagram plainOpenConfig s d ≠ (none, s) := by
  intro d s
  have hv := Entry.isValid_plainEndpoint (plainKey 1 0) 6
  have hacc : d.accepted plainOpenConfig = some (.plainEndpoint (plainKey 1 0) 6) :=
    Datagram.accepted_ofEntry plainOpenConfig hv rfl
  have hlen : s.len ≤ 1 := len_handleAll_le plainOpenConfig GossipStore.new [revokeOne]
  obtain ⟨hrev, hnone⟩ := handleDatagram_revokeOne
  have htakes : Takes plainOpenConfig s (.plainEndpoint (plainKey 1 0) 6) := by
    have hown : plainKey 1 0 ≠ plainKey 600 0 := plainKey_ne (by omega) (by omega) (by omega) 0 0
    by_contra hnot
    rcases (not_takes_iff hv).1 hnot with hign | ⟨old, hold, -⟩ | ⟨-, hfull⟩
    · rw [isIgnored_plainEndpoint hown 6] at hign
      cases hign
    · exact Option.some_ne_none old (hold.symm.trans hnone)
    · exact absurd (hfull.trans hlen) (by decide)
  refine ⟨hrev, Entry.decode_eq_ok_iff.2 ⟨hv, Entry.encode_eq_ok_encoding hv⟩, rfl, ?_⟩
  rw [(handleDatagram_of_takes hacc htakes).1]
  exact fun h => by cases congrArg Prod.fst h

end Hextet
