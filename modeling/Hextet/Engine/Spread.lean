/-
# Gossip reaches everybody

`crates/engine/src/gossip.rs`, `serve`: besides the answers to news (`Engine.Flood`), every
`BROADCAST_INTERVAL` a node sends its own entry and its whole table to its targets.  Datagrams
may be lost, so nothing holds of one broadcast; here a round is a stretch of the run in which
every link carries something for every key, perhaps out of different broadcasts
(`Net.Brings`).  Whatever else happens in a round, among `n` nodes `n - 1` rounds bring an entry
wherever links lead (`Net.gossip_spreads`), and when no better entries come up all stores then
hold the same under a key (`Net.gossip_agrees`).

The source has three reasons to drop an entry that a neighbour holds: its signer is not on the
list of administrators, it is the own endpoint, or the table is full.  Hence the hypotheses: one
list for all (`docs/protocol/gossip.md` §7), no path through the node of an endpoint entry, and no
more than `MAX_STORE_ENTRIES` keys of valid entries in circulation (`Net.Fits`).
-/

import Hextet.Engine.Flood
import Hextet.Engine.GossipTrust
import Hextet.Lib.Rounds

namespace Hextet

open Lib

variable {C : Crypto}

/-! ### What an arriving entry leaves -/

namespace GossipStore

/-- What covers an entry covers those it outranks. -/
theorem covers_of_rank_le {s : GossipStore C} {e e' : Entry C} (h : s.Covers e)
    (hkey : e'.key = e.key) (hle : e'.rank ≤ e.rank) : s.Covers e' := by
  obtain ⟨w, hw, hew⟩ := h
  exact ⟨w, hkey ▸ hw, hle.trans hew⟩

/-- A merge for which there is room covers the entry: it is filed, or outranked. -/
theorem covers_merge_self {s : GossipStore C} {e : Entry C} (hvalid : e.isValid = true)
    (hroom : s.map.lookup e.key = none → s.len < maxStoreEntries) : (s.merge e).2.Covers e := by
  by_cases happ : (s.merge e).1 = .applied
  · exact ((s.covers_merge e).2 happ).2
  · rw [merge_eq_self happ]
    rcases s.merge_cases e with ⟨hno, -⟩ | ⟨-, old, hold, hle, -⟩ | ⟨-, hnone, hfull, -⟩ |
      ⟨-, -, -, s', heq, -⟩
    · rw [hvalid] at hno
      cases hno
    · exact ⟨old, hold, hle⟩
    · exact absurd (hroom hnone) (Nat.not_lt.2 hfull)
    · exact absurd (by rw [heq]) happ

/-- **An accepted entry that is not ignored is covered**, where there is room. -/
theorem covers_of_accepted {cfg : GossipConfig C} {s : GossipStore C} {d : Datagram} {e : Entry C}
    (hacc : d.accepted cfg = some e) (hign : isIgnored cfg e = false)
    (hroom : s.map.lookup e.key = none → s.len < maxStoreEntries) :
    (handleDatagram cfg s d).2.Covers e := by
  have hmerge := covers_merge_self (Datagram.isValid_of_accepted hacc) hroom
  by_cases htakes : Takes cfg s e
  · rw [(handleDatagram_of_takes hacc htakes).1]
    exact hmerge
  · rw [handleDatagram_of_not_takes hacc htakes]
    rwa [merge_eq_self fun happ => htakes ⟨hign, happ⟩] at hmerge

end GossipStore

namespace Net

variable {N : Type} [DecidableEq N]

/-! ### The invariant -/

/-- The nodes are of one network: each signs with its own key, all have the same
administrators, and the overlay addresses lie in the prefix. -/
structure OneNetwork (cfg : N → ServeConfig C) : Prop where
  own : ∀ i, (cfg i).gossip.own = (cfg i).own.ownIdentity.publicKey
  admins : ∀ i j, (cfg i).gossip.adminKeys = (cfg j).gossip.adminKeys
  inside : ∀ i j, isWithinPrefix (cfg i).ownAddress (cfg j).gossip.pre = true

/-- What holds of the network at any time: the circulation, that a store holds only what its
node takes up, and that the cached entry is the one of the addresses beside it. -/
structure Sound (cfg : N → ServeConfig C) (E : Finset (Entry C)) (w : Net N C) : Prop where
  within : w.Within E
  vetted : ∀ i k e, (w.station i).store.map.lookup k = some e →
    isUnauthorised (cfg i).gossip.adminKeys e = false ∧ isIgnored (cfg i).gossip e = false
  coherent : ∀ i, (w.station i).bc.Coherent (cfg i).own

/-- Every node has just been started; the wire may carry anything. -/
def Started (w : Net N C) : Prop :=
  ∀ i, (w.station i).store = .new ∧ ∃ now, (w.station i).bc = .new now

variable {cfg : N → ServeConfig C} {E : Finset (Entry C)} {w : Net N C}

omit [DecidableEq N] in
theorem Started.sound (h : w.Started) (hwire : ∀ p ∈ w.wire, ∀ e,
    Entry.decode C p.datagram.buf = .ok e → e ∈ E) : w.Sound cfg E where
  within :=
    { store := fun i k e he => by simp [(h i).1, GossipStore.new] at he
      wire := hwire
      cache := fun i bytes hb => by
        obtain ⟨now, hbc⟩ := (h i).2
        rw [hbc] at hb
        exact absurd hb (Option.not_mem_none bytes) }
  vetted i k e he := by simp [(h i).1, GossipStore.new] at he
  coherent i := by
    obtain ⟨now, hbc⟩ := (h i).2
    exact hbc ▸ Broadcast.coherent_new (cfg i).own now

/-- The store of a node after a step: its own or what a datagram made of it. -/
theorem store_step (cfg : N → ServeConfig C) (w : Net N C) (op : NetOp N) (j : N) :
    ((w.step cfg op).station j).store = (w.station j).store ∨
      ∃ d, ((w.step cfg op).station j).store =
        (handleDatagram (cfg j).gossip (w.station j).store d).2 := by
  cases op with
  | inject p => exact Or.inl rfl
  | tick i r =>
      rw [Net.step, store_broadcast]
      split_ifs with hj
      · exact Or.inl (by rw [hj])
      · exact Or.inl rfl
  | updateTargets i targets =>
      simp only [Net.step, Function.update_apply]
      split_ifs with hj
      · exact Or.inl (by rw [hj])
      · exact Or.inl rfl
  | deliver i p r =>
      rw [Net.step]
      split_ifs with hp
      · simp only
        split
        · simp only [Function.update_apply]
          split_ifs with hj
          · exact Or.inr ⟨p.datagram, by rw [hj]⟩
          · exact Or.inl rfl
        · simp only [store_broadcast]
          split_ifs with hj
          · exact Or.inr ⟨p.datagram, by rw [hj]⟩
          · exact Or.inl rfl
      · exact Or.inl rfl

/-- The cache of a node after a broadcast: its own, or that of a call of `own_entry`. -/
theorem bc_broadcast (cfg : N → ServeConfig C) (w : Net N C) {i : N} {st : Station C}
    (hst : st.bc = (w.station i).bc) (r : Reading) (j : N) :
    ((w.broadcast cfg i st r).station j).bc = (w.station j).bc ∨
      j = i ∧ ∃ addrs ∈ r.addrs, ((w.broadcast cfg i st r).station j).bc =
        ((w.station j).bc.ownEntry (cfg j).own addrs r.now).2 := by
  rw [Net.broadcast, Station.broadcast]
  simp only [Function.update_apply]
  by_cases hj : j = i
  · subst hj
    cases r.addrs with
    | none => exact Or.inl (by rw [if_pos rfl]; exact hst)
    | some addrs => exact Or.inr ⟨rfl, addrs, rfl, by rw [if_pos rfl, hst]⟩
  · exact Or.inl (by rw [if_neg hj])

/-- The reading of the addresses in a step of a node, when the step can make it broadcast. -/
def readingOf (j : N) : NetOp N → Option Reading
  | .deliver i _ r => if j = i then some r else none
  | .tick i r => if j = i then some r else none
  | _ => none

/-- The cache of a node after a step: its own, or that of a call of `own_entry`. -/
theorem bc_step (cfg : N → ServeConfig C) (w : Net N C) (op : NetOp N) (j : N) :
    ((w.step cfg op).station j).bc = (w.station j).bc ∨
      ∃ r ∈ readingOf j op, ∃ addrs ∈ r.addrs, ((w.step cfg op).station j).bc =
        ((w.station j).bc.ownEntry (cfg j).own addrs r.now).2 := by
  cases op with
  | inject p => exact Or.inl rfl
  | tick i r =>
      rcases bc_broadcast cfg w (i := i) rfl r j with heq | ⟨hj, hcall⟩
      · exact Or.inl heq
      · exact Or.inr ⟨r, if_pos hj, hcall⟩
  | updateTargets i targets =>
      simp only [Net.step, Function.update_apply]
      split_ifs with hj
      · exact Or.inl (by rw [hj])
      · exact Or.inl rfl
  | deliver i p r =>
      rw [Net.step]
      split_ifs with hp
      · simp only
        split
        · simp only [Function.update_apply]
          split_ifs with hj
          · exact Or.inl (by rw [hj])
          · exact Or.inl rfl
        · have hst : ({ w.station i with
              store := (handleDatagram (cfg i).gossip (w.station i).store p.datagram).2 } :
                Station C).bc = (w.station i).bc := rfl
          rcases bc_broadcast cfg w hst r j with heq | ⟨hj, hcall⟩
          · exact Or.inl heq
          · exact Or.inr ⟨r, if_pos hj, hcall⟩
      · exact Or.inl rfl

/-- **A step keeps the invariant**, if what it introduces belongs to the circulation. -/
theorem Sound.step (h : w.Sound cfg E) {op : NetOp N} (hop : w.Introduces cfg E op) :
    (w.step cfg op).Sound cfg E where
  within := h.within.step hop
  vetted j k e he := by
    rcases store_step cfg w op j with heq | ⟨d, heq⟩ <;> rw [heq] at he
    · exact h.vetted j k e he
    · rcases handleDatagram_cases (cfg j).gossip (w.station j).store d with hnone |
        ⟨e', s', hacc, htakes, hmap, hsome⟩
      · rw [hnone] at he
        exact h.vetted j k e he
      · rw [hsome] at he
        simp only [hmap] at he
        by_cases hk : k = e'.key
        · rw [hk, Finmap.lookup_insert] at he
          cases he
          have hdec := Datagram.decode_of_accepted hacc
          exact ⟨((accepted_eq_some_iff hdec).1 hacc).2, htakes.1⟩
        · rw [Finmap.lookup_insert_of_ne _ hk] at he
          exact h.vetted j k e he
  coherent j := by
    rcases bc_step cfg w op j with heq | ⟨r, -, addrs, -, heq⟩ <;> rw [heq]
    · exact h.coherent j
    · exact (h.coherent j).step ⟨addrs, r.now⟩

theorem Sound.along (h : w.Sound cfg E) {ops : List (NetOp N)}
    (hops : Along (Net.step cfg) (Introduces cfg E) w ops) :
    (run (Net.step cfg) w ops).Sound cfg E :=
  hops.invariant (P := Sound cfg E) (fun _ _ hs hop => hs.step hop) h

/-! ### Arrivals -/

/-- The valid entries are of no more keys than a table holds. -/
def Fits (E : Finset (Entry C)) : Prop :=
  ((E.filter fun e => e.isValid = true).image Entry.key).card ≤ maxStoreEntries

omit [DecidableEq N] in
/-- There is room for a valid entry of the circulation, whose keys fit into the table. -/
theorem Within.room (h : w.Within E) (hcap : Fits E) {e : Entry C} (he : e ∈ E)
    (hvalid : e.isValid = true) (i : N) (hnone : (w.station i).store.map.lookup e.key = none) :
    (w.station i).store.len < maxStoreEntries := by
  have hsub : insert e.key (w.station i).store.map.keys ⊆
      (E.filter fun e => e.isValid = true).image Entry.key := by
    intro k hk
    rcases Finset.mem_insert.1 hk with rfl | hk
    · exact Finset.mem_image_of_mem _ (Finset.mem_filter.2 ⟨he, hvalid⟩)
    · obtain ⟨e', he'⟩ := Finmap.mem_iff.1 (Finmap.mem_keys.1 hk)
      obtain ⟨hvalid', hkey⟩ := (w.station i).store.filed k e' he'
      rw [← hkey]
      exact Finset.mem_image_of_mem _ (Finset.mem_filter.2 ⟨h.store i k e' he', hvalid'⟩)
  have hnot : e.key ∉ (w.station i).store.map.keys := by
    rwa [Finmap.mem_keys, ← Finmap.lookup_eq_none]
  have hcard := Finset.card_le_card hsub
  rw [Finset.card_insert_of_notMem hnot] at hcard
  exact Nat.lt_of_succ_le (hcard.trans hcap)

/-- The store of a node after a delivery to it. -/
theorem store_deliver {p : Packet} {j : N} (hp : p ∈ w.wire) (hdst : p.dst = (cfg j).ownAddress)
    (r : Reading) : ((w.step cfg (.deliver j p r)).station j).store =
      (handleDatagram (cfg j).gossip (w.station j).store p.datagram).2 := by
  rw [Net.step, if_pos ⟨hp, hdst⟩]
  simp only
  split
  · simp only [Function.update_self]
  · simp only [store_broadcast, if_true]

/-- The wire keeps its datagrams. -/
theorem mem_wire_step {p : Packet} (h : p ∈ w.wire) (op : NetOp N) :
    p ∈ (w.step cfg op).wire := by
  cases op with
  | inject q => exact Multiset.mem_cons_of_mem h
  | tick i r => exact Multiset.mem_add.2 (Or.inr h)
  | updateTargets i targets => exact h
  | deliver i q r =>
      rw [Net.step]
      split_ifs with hq
      · simp only
        split
        · exact h
        · exact Multiset.mem_add.2 (Or.inr h)
      · exact h

theorem mem_wire_run (cfg : N → ServeConfig C) {p : Packet} (h : p ∈ w.wire)
    (ops : List (NetOp N)) : p ∈ (run (Net.step cfg) w ops).wire :=
  run_invariant (P := fun w : Net N C => p ∈ w.wire) (fun _ op hw => mem_wire_step hw op) h ops

/-- A node covers what it covered. -/
theorem Sound.covers_run (h : w.Sound cfg E) {ops : List (NetOp N)}
    (hops : Along (Net.step cfg) (Introduces cfg E) w ops) {j : N} {e : Entry C}
    (hc : (w.station j).store.Covers e) :
    ((run (Net.step cfg) w ops).station j).store.Covers e := by
  refine (hops.invariant (P := fun w => w.Sound cfg E ∧ (w.station j).store.Covers e) ?_
    ⟨h, hc⟩).2
  rintro w' op ⟨hs, hc'⟩ hop
  exact ⟨hs.step hop, (covers_step cfg hs.within op).1 j e hc'⟩

/-- **What is on the wire and arrives is covered**, if its node takes such entries. -/
theorem Sound.covers_arrived (h : w.Sound cfg E)
    (hcap : Fits E) {ops : List (NetOp N)}
    (hops : Along (Net.step cfg) (Introduces cfg E) w ops) {j : N} {p : Packet} {e : Entry C}
    (hp : p ∈ w.wire) (hdst : p.dst = (cfg j).ownAddress)
    (hacc : p.datagram.accepted (cfg j).gossip = some e)
    (hign : isIgnored (cfg j).gossip e = false) {r : Reading} (harr : .deliver j p r ∈ ops) :
    ((run (Net.step cfg) w ops).station j).store.Covers e := by
  obtain ⟨early, late, rfl⟩ := List.append_of_mem harr
  obtain ⟨hearly, hop, hlate⟩ := Along.append.1 hops
  have hsound : (run (Net.step cfg) w early).Sound cfg E := h.along hearly
  have hwire := mem_wire_run cfg hp early
  have hcov : (((run (Net.step cfg) w early).step cfg (.deliver j p r)).station j).store.Covers
      e := by
    rw [store_deliver hwire hdst]
    have hmem := h.within.wire p hp e (Datagram.decode_of_accepted hacc)
    exact GossipStore.covers_of_accepted hacc hign
      (hsound.within.room hcap hmem (Datagram.isValid_of_accepted hacc) j)
  rw [run_append, run_cons]
  exact (hsound.step hop).covers_run hlate hcov

/-! ### One round -/

/-- **A link carries what there is for a key**: node `i` broadcasts while it sends to `j`, and
what this broadcast holds for `j` under the key arrives afterwards. -/
def Brings (cfg : N → ServeConfig C) (w : Net N C) (ops : List (NetOp N)) (i j : N)
    (k : NodePublicKey C × Kind) : Prop :=
  ∃ before r after, ops = before ++ .tick i r :: after ∧ r.addrs ≠ none ∧
    (cfg j).ownAddress ∈ ((run (step cfg) w before).station i).targets ∧
    ∀ p ∈ (((run (step cfg) w before).station i).broadcast (cfg i) r).1,
      p.dst = (cfg j).ownAddress → ∀ e, Entry.decode C p.datagram.buf = .ok e → e.key = k →
        ∃ r', .deliver j p r' ∈ after

/-- A round: every link carries what there is for any key.  Anything else may happen in it too,
if it introduces nothing from outside the circulation. -/
structure Round (cfg : N → ServeConfig C) (E : Finset (Entry C)) (link : N → N → Prop)
    (w : Net N C) (ops : List (NetOp N)) : Prop where
  introduces : Along (step cfg) (Introduces cfg E) w ops
  brings : ∀ i j, link i j → ∀ k, w.Brings cfg ops i j k

/-- The links on which the entries of a key travel: a node drops its own endpoint. -/
def Carries (cfg : N → ServeConfig C) (link : N → N → Prop) (k : NodePublicKey C × Kind)
    (i j : N) : Prop :=
  link i j ∧ k ≠ ((cfg j).gossip.own, .endpoint)

omit [DecidableEq N] in
/-- What a neighbour holds is dropped only as the own endpoint. -/
theorem OneNetwork.takes (hnet : OneNetwork cfg) (h : w.Sound cfg E) {i j : N} {e : Entry C}
    (he : (w.station i).store.map.lookup e.key = some e)
    (hkey : e.key ≠ ((cfg j).gossip.own, .endpoint)) :
    isUnauthorised (cfg j).gossip.adminKeys e = false ∧ isIgnored (cfg j).gossip e = false := by
  obtain ⟨hauth, hign⟩ := h.vetted i e.key e he
  refine ⟨hnet.admins i j ▸ hauth, Bool.eq_false_iff.2 fun hdrop => ?_⟩
  obtain ⟨hkind, hown | hnil⟩ := (isIgnored_iff (cfg j).gossip e).1 hdrop
  · cases e with
    | endpoint node eps port s g => exact hkey (by rw [← hown]; rfl)
    | member => cases hkind
    | revocation => cases hkind
  · rw [(isIgnored_iff (cfg i).gossip e).2 ⟨hkind, Or.inr hnil⟩] at hign
    cases hign

omit [DecidableEq N] in
/-- The own entry and those of the store are sent to every target. -/
theorem mem_broadcast (cfg : N → ServeConfig C) {i : N} {r : Reading} {addrs : List Ipv6Addr}
    (haddrs : r.addrs = some addrs) {target : Ipv6Addr}
    (htarget : target ∈ (w.station i).targets) {bytes : List UInt8}
    (hbytes : bytes ∈ ((w.station i).bc.ownEntry (cfg i).own addrs r.now).1 ∨
      ∃ e, (w.station i).store.map.lookup e.key = some e ∧ e.encoding = bytes) :
    ⟨target, ⟨bytes, (cfg i).ownAddress⟩⟩ ∈ ((w.station i).broadcast (cfg i) r).1 := by
  rw [Station.broadcast, haddrs]
  dsimp only
  refine Multiset.mem_bind.2 ⟨target, htarget, Multiset.mem_map.2 ⟨bytes, ?_, rfl⟩⟩
  rcases hbytes with hown | ⟨e, he, rfl⟩
  · exact Multiset.mem_add.2 (Or.inl (Option.mem_toList.2 hown))
  · refine Multiset.mem_add.2 (Or.inr ((Multiset.mem_filterMap _ _).2 ⟨⟨e.key, e⟩, ?_, ?_⟩))
    · exact Finmap.lookup_eq_some_iff.1 he
    · rw [Entry.encode_eq_ok_encoding ((w.station i).store.filed _ _ he).1]
      rfl

/-- What is broadcast is on the wire. -/
theorem mem_wire_tick {i : N} {r : Reading} {p : Packet}
    (h : p ∈ ((w.station i).broadcast (cfg i) r).1) : p ∈ (w.step cfg (.tick i r)).wire :=
  Multiset.mem_add.2 (Or.inl h)

/-- **A round takes an entry over a link** that carries its key. -/
theorem Round.passes {link : N → N → Prop} {ops : List (NetOp N)} (hround : w.Round cfg E link ops)
    (hnet : OneNetwork cfg) (hcap : Fits E)
    (h : w.Sound cfg E) {i j : N} {e : Entry C} (hlink : Carries cfg link e.key i j)
    (hc : (w.station i).store.Covers e) :
    ((run (Net.step cfg) w ops).station j).store.Covers e := by
  obtain ⟨before, r, after, rfl, hr, htarget, harrive⟩ := hround.brings i j hlink.1 e.key
  obtain ⟨hbefore, htick, hafter⟩ := Along.append.1 hround.introduces
  have hsound : (run (Net.step cfg) w before).Sound cfg E := h.along hbefore
  -- at the time of the broadcast the sender holds an entry `a` of at least the rank of `e`
  obtain ⟨a, ha, hle⟩ := h.covers_run hbefore hc
  obtain ⟨hvalid, hkey⟩ := ((run (Net.step cfg) w before).station i).store.filed _ _ ha
  rw [← hkey] at ha hlink
  obtain ⟨hauth, hign⟩ := hnet.takes hsound ha hlink.2
  obtain ⟨addrs, haddrs⟩ := Option.ne_none_iff_exists'.1 hr
  have hp := mem_broadcast cfg haddrs htarget (Or.inr ⟨a, ha, rfl⟩)
  have hacc := Datagram.accepted_encoding hvalid (hnet.inside i j) hauth
  obtain ⟨r', harr⟩ := harrive _ hp rfl a (Broadcast.decode_encoding hvalid) hkey
  have hcov :=
    (hsound.step htick).covers_arrived hcap hafter (mem_wire_tick hp) rfl hacc hign harr
  rw [run_append, run_cons]
  exact GossipStore.covers_of_rank_le hcov hkey.symm hle

/-! ### Rounds in sequence -/

variable {link : N → N → Prop} {rounds : List (List (NetOp N))}

/-- Rounds keep the invariant. -/
theorem Sound.of_rounds (h : w.Sound cfg E)
    (hrounds : Along (run (Net.step cfg)) (Round cfg E link) w rounds) :
    (Lib.run (Lib.run (Net.step cfg)) w rounds).Sound cfg E :=
  hrounds.invariant (P := Sound cfg E) (fun _ _ hs hround => hs.along hround.introduces) h

/-- **Enough rounds take an entry wherever the links lead** that carry its key. -/
theorem Sound.reaches [Fintype N] (h : w.Sound cfg E) (hnet : OneNetwork cfg)
    (hcap : Fits E)
    (hrounds : Along (run (Net.step cfg)) (Round cfg E link) w rounds)
    (henough : Fintype.card N ≤ rounds.length + 1) {i j : N} {e : Entry C}
    (hc : (w.station i).store.Covers e)
    (hpath : Relation.ReflTransGen (Carries cfg link e.key) i j) :
    ((run (run (Net.step cfg)) w rounds).station j).store.Covers e := by
  have hcard : Nat.card N ≤ rounds.length + 1 := Nat.card_eq_fintype_card (α := N) ▸ henough
  refine (hrounds.reaches (P := fun w j => w.Sound cfg E ∧ (w.station j).store.Covers e) ?_ ?_
    hcard ⟨h, hc⟩ hpath).2
  · rintro w' ops hround m ⟨hs, hm⟩
    exact ⟨hs.along hround.introduces, hs.covers_run hround.introduces hm⟩
  · rintro w' ops hround m n hlink ⟨hs, hm⟩
    exact ⟨hs.along hround.introduces, hround.passes hnet hcap hs hlink hm⟩

/-- **Gossip reaches everybody.**  In a network of `n` nodes that run from their start, with any
datagrams lost, repeated, reordered or sent by others, an entry that a node holds, or outranks,
is held or outranked `n - 1` rounds later by every node to which links lead, other than through
the node of an endpoint entry; and so a revocation takes effect at all of them. -/
theorem gossip_spreads [Fintype N] (hnet : OneNetwork cfg)
    (hcap : Fits E) (hstart : w.Started)
    (hwire : ∀ p ∈ w.wire, ∀ e, Entry.decode C p.datagram.buf = .ok e → e ∈ E)
    {before : List (NetOp N)} (hbefore : Along (Net.step cfg) (Introduces cfg E) w before)
    (hrounds : Along (run (Net.step cfg)) (Round cfg E link) (run (Net.step cfg) w before) rounds)
    (henough : Fintype.card N ≤ rounds.length + 1) :
    let now := run (Net.step cfg) w before
    let later := run (run (Net.step cfg)) now rounds
    (∀ i j e, Relation.ReflTransGen (Carries cfg link e.key) i j →
      (now.station i).store.Covers e → (later.station j).store.Covers e) ∧
    ∀ i j node, Relation.ReflTransGen link i j →
      (now.station i).store.isRevoked node = true →
        (later.station j).store.isRevoked node = true := by
  have hsound := (hstart.sound hwire).along hbefore
  have hspread (i j : N) (e : Entry C) (hpath : Relation.ReflTransGen (Carries cfg link e.key) i j)
      (hc : ((run (Net.step cfg) w before).station i).store.Covers e) :=
    hsound.reaches hnet hcap hrounds henough hc hpath
  refine ⟨hspread, fun i j node hpath hrevoked => ?_⟩
  obtain ⟨e, he⟩ := Option.isSome_iff_exists.1 hrevoked
  have hkey : e.key = (node, .revocation) :=
    (((run (Net.step cfg) w before).station i).store.filed _ _ he).2
  have hcarried : Relation.ReflTransGen (Carries cfg link e.key) i j :=
    hpath.lift id fun m n hlink => ⟨hlink, fun hown => by rw [hkey] at hown; cases hown⟩
  obtain ⟨a, ha, -⟩ := hspread i j e hcarried ⟨e, hkey ▸ he, le_rfl⟩
  exact Option.isSome_iff_exists.2 ⟨a, hkey ▸ ha⟩

/-- **All come to hold the same.**  If no valid entry that is better than what the nodes hold under
a key comes up during `n - 1` rounds, and links lead from each to each, then every node holds under
this key the valid entry of highest rank in circulation, and nothing if there is none; a node whose
own endpoint it is holds nothing under it and passes nothing on. -/
theorem gossip_agrees [Fintype N] (hnet : OneNetwork cfg)
    (hcap : Fits E) (hstart : w.Started)
    (hwire : ∀ p ∈ w.wire, ∀ e, Entry.decode C p.datagram.buf = .ok e → e ∈ E)
    {before : List (NetOp N)} (hbefore : Along (Net.step cfg) (Introduces cfg E) w before)
    (hrounds : Along (run (Net.step cfg)) (Round cfg E link) (run (Net.step cfg) w before) rounds)
    (henough : Fintype.card N ≤ rounds.length + 1) {k : NodePublicKey C × Kind}
    (hquiet : ∀ e ∈ E, e.key = k → e.isValid = true → ∃ i, k ≠ ((cfg i).gossip.own, .endpoint) ∧
      ((run (Net.step cfg) w before).station i).store.Covers e)
    (hconnected : ∀ i j, k ≠ ((cfg i).gossip.own, .endpoint) →
      k ≠ ((cfg j).gossip.own, .endpoint) → Relation.ReflTransGen (Carries cfg link k) i j) :
    ∀ j, k ≠ ((cfg j).gossip.own, .endpoint) → ∀ e,
      ((run (run (Net.step cfg)) (run (Net.step cfg) w before) rounds).station
          j).store.map.lookup k = some e ↔
        e ∈ E ∧ e.key = k ∧ e.isValid = true ∧
          ∀ e' ∈ E, e'.key = k → e'.isValid = true → e'.rank ≤ e.rank := by
  have hsound := (hstart.sound hwire).along hbefore
  have hend := hsound.of_rounds hrounds
  intro j hj e
  have hcovers (e : Entry C) (he : e ∈ E) (hkey : e.key = k) (hvalid : e.isValid = true) :
      ((run (run (Net.step cfg)) (run (Net.step cfg) w before) rounds).station
        j).store.Covers e := by
    obtain ⟨i, hi, hc⟩ := hquiet e he hkey hvalid
    exact hsound.reaches hnet hcap hrounds henough hc (hkey ▸ hconnected i j hi hj)
  constructor
  · intro hlookup
    obtain ⟨hvalid, hkey⟩ := ((run (run (Net.step cfg)) (run (Net.step cfg) w before)
      rounds).station j).store.filed k e hlookup
    refine ⟨hend.within.store j k e hlookup, hkey, hvalid, fun e' he' hkey' hvalid' => ?_⟩
    obtain ⟨a, ha, hle⟩ := hcovers e' he' hkey' hvalid'
    rw [hkey', hlookup] at ha
    cases ha
    exact hle
  · rintro ⟨he, hkey, hvalid, htop⟩
    obtain ⟨a, ha, hle⟩ := hcovers e he hkey hvalid
    rw [hkey] at ha
    obtain ⟨havalid, hakey⟩ := ((run (run (Net.step cfg)) (run (Net.step cfg) w before)
      rounds).station j).store.filed k a ha
    have hback := htop a (hend.within.store j k a ha) hakey havalid
    rw [ha, Entry.rank_injOn havalid hvalid (le_antisymm hback hle)]

/-! ### The own addresses -/

/-- Wherever the node reads its addresses in these steps, they are the same up to the fourth. -/
def Reads (i : N) (addrs : List Ipv6Addr) (ops : List (NetOp N)) : Prop :=
  ∀ op ∈ ops, ∀ r ∈ readingOf i op, ∀ a ∈ r.addrs, a.take gossipMaxAddrs = addrs

/-- The node sends the entry of these addresses with this number and signature. -/
def Announces (cfg : N → ServeConfig C) (w : Net N C) (i : N) (addrs : List Ipv6Addr)
    (seq : UInt64) (sig : Bytes 64) : Prop :=
  ((cfg i).own.entry addrs seq sig).isValid = true ∧
    (w.station i).bc = ⟨addrs, some ((cfg i).own.entry addrs seq sig).encoding, seq⟩

variable {i : N} {addrs : List Ipv6Addr}

/-- As long as the addresses stay, so does the entry. -/
theorem Announces.run {seq : UInt64} {sig : Bytes 64} (h : w.Announces cfg i addrs seq sig)
    (hne : addrs ≠ []) {ops : List (NetOp N)} (hreads : Reads i addrs ops) :
    (Lib.run (Net.step cfg) w ops).Announces cfg i addrs seq sig := by
  induction ops generalizing w with
  | nil => exact h
  | cons op ops ih =>
      refine ih ⟨h.1, ?_⟩ fun op' hop' => hreads op' (List.mem_cons_of_mem _ hop')
      rcases bc_step cfg w op i with heq | ⟨r, hr, a, ha, heq⟩
      · rw [heq, h.2]
      · have hsame := hreads op (List.mem_cons_self ..) r hr a ha
        rw [heq, h.2, Broadcast.ownEntry, hsame, if_neg hne]
        simp only [if_true]

/-- **A broadcast announces the addresses it reads.** -/
theorem Sound.announces_tick (h : w.Sound cfg E) (hne : addrs ≠ []) {r : Reading}
    {a : List Ipv6Addr} (ha : r.addrs = some a) (htake : a.take gossipMaxAddrs = addrs) :
    ∃ seq sig, (w.step cfg (.tick i r)).Announces cfg i addrs seq sig ∧
      ((cfg i).own.entry addrs seq sig).encoding ∈
        ((w.station i).bc.ownEntry (cfg i).own a r.now).1 := by
  have hbc : ((w.step cfg (.tick i r)).station i).bc =
      ((w.station i).bc.ownEntry (cfg i).own a r.now).2 := by
    simp only [Net.step, Net.broadcast, Station.broadcast, ha, Function.update_self]
  simp only [Announces, hbc]
  rcases Broadcast.ownEntry_cases (cfg i).own (w.station i).bc a r.now with ⟨hnil, -⟩ |
    ⟨-, hsame, heq⟩ | ⟨-, -, sig, hvalid, heq⟩
  · exact absurd (htake ▸ hnil) hne
  · rw [heq]
    rcases h.coherent i with ⟨hnil, -⟩ | ⟨sig, hvalid, hcached⟩
    · exact absurd ((htake.symm.trans hsame).trans hnil) hne
    · have hlast : (w.station i).bc.lastAddrs = addrs := hsame.symm.trans htake
      rw [hlast] at hvalid hcached
      refine ⟨(w.station i).bc.seq, sig, ⟨hvalid, ?_⟩, hcached⟩
      calc (w.station i).bc
          = ⟨(w.station i).bc.lastAddrs, (w.station i).bc.entryBytes, (w.station i).bc.seq⟩ := rfl
        _ = _ := by rw [hlast, hcached]
  · rw [htake] at hvalid heq
    rw [heq]
    exact ⟨_, sig, ⟨hvalid, rfl⟩, rfl⟩

/-- **A round tells the linked nodes where a node is.** -/
theorem Round.announces {ops : List (NetOp N)} (hround : w.Round cfg E link ops)
    (hnet : OneNetwork cfg) (hcap : Fits E)
    (h : w.Sound cfg E) (hreads : Reads i addrs ops) (hport : (cfg i).own.listenPort ≠ 0)
    (husable : ∃ a ∈ addrs, isUsableEndpointAddr a = true) {j : N}
    (hlink : Carries cfg link ((cfg i).gossip.own, .endpoint) i j) :
    ∃ seq sig, (run (Net.step cfg) w ops).Announces cfg i addrs seq sig ∧
      ((run (Net.step cfg) w ops).station j).store.Covers ((cfg i).own.entry addrs seq sig) := by
  obtain ⟨before, r, after, rfl, hr, htarget, harrive⟩ := hround.brings i j hlink.1 _
  obtain ⟨hbefore, htick, hafter⟩ := Along.append.1 hround.introduces
  have hsound : (run (Net.step cfg) w before).Sound cfg E := h.along hbefore
  obtain ⟨a, ha⟩ := Option.ne_none_iff_exists'.1 hr
  have htake := hreads (.tick i r) (by simp) r (if_pos rfl) a ha
  obtain ⟨u, hu, huse⟩ := husable
  have hne : addrs ≠ [] := List.ne_nil_of_mem hu
  obtain ⟨seq, sig, hsigned, hsent⟩ := hsound.announces_tick hne ha htake
  have hkey : ((cfg i).own.entry addrs seq sig).key = ((cfg i).gossip.own, .endpoint) := by
    rw [hnet.own i]
    rfl
  have hign : isIgnored (cfg j).gossip ((cfg i).own.entry addrs seq sig) = false := by
    refine Bool.eq_false_iff.2 fun hdrop => ?_
    obtain ⟨-, hown | hnil⟩ := (isIgnored_iff _ _).1 hdrop
    · exact hlink.2 (by rw [← hown, hnet.own i]; rfl)
    · rw [OwnConfig.entry, Entry.endpointAddrs, if_neg hport, List.map_eq_nil_iff,
        List.filter_eq_nil_iff] at hnil
      exact hnil u hu huse
  have hp := mem_broadcast cfg ha htarget (Or.inl hsent)
  have hacc : Datagram.accepted (cfg j).gossip
      ⟨((cfg i).own.entry addrs seq sig).encoding, (cfg i).ownAddress⟩ = some _ :=
    Datagram.accepted_encoding hsigned.1 (hnet.inside i j) rfl
  obtain ⟨r', harr⟩ := harrive _ hp rfl _ (Broadcast.decode_encoding hsigned.1) hkey
  rw [run_append, run_cons]
  refine ⟨seq, sig, hsigned.run hne fun op hop => hreads op (by simp [hop]), ?_⟩
  exact (hsound.step htick).covers_arrived hcap hafter (mem_wire_tick hp) rfl hacc hign harr

/-- **Everybody learns where a node is.**  If in the first of `n` rounds a node reads the same
usable addresses whenever it reads any, then after the `n` rounds every other node to which
links lead from it, not back through itself, holds for it the entry of these addresses that it
announces, or one that outranks it in circulation. -/
theorem addresses_spread [Fintype N] (hnet : OneNetwork cfg)
    (hcap : Fits E) (hstart : w.Started)
    (hwire : ∀ p ∈ w.wire, ∀ e, Entry.decode C p.datagram.buf = .ok e → e ∈ E)
    {before : List (NetOp N)} (hbefore : Along (Net.step cfg) (Introduces cfg E) w before)
    {first : List (NetOp N)} (hrounds : Along (run (Net.step cfg)) (Round cfg E link)
      (run (Net.step cfg) w before) (first :: rounds))
    (henough : Fintype.card N ≤ rounds.length + 1) (hreads : Reads i addrs first)
    (hport : (cfg i).own.listenPort ≠ 0) (husable : ∃ a ∈ addrs, isUsableEndpointAddr a = true)
    {j : N} (hpath : Relation.TransGen (Carries cfg link ((cfg i).gossip.own, .endpoint)) i j) :
    let told := run (Net.step cfg) (run (Net.step cfg) w before) first
    let later := run (run (Net.step cfg)) told rounds
    ∃ seq sig, told.Announces cfg i addrs seq sig ∧
      ∃ e ∈ E, (later.station j).store.endpointOf (cfg i).gossip.own = some e ∧
        (e = (cfg i).own.entry addrs seq sig ∨
          ((cfg i).own.entry addrs seq sig).rank < e.rank) := by
  have hsound := (hstart.sound hwire).along hbefore
  obtain ⟨m, hlink, hrest⟩ := Relation.TransGen.head'_iff.1 hpath
  obtain ⟨seq, sig, hsigned, hcov⟩ :=
    hrounds.1.announces hnet hcap hsound hreads hport husable hlink
  have hkey : ((cfg i).own.entry addrs seq sig).key = ((cfg i).gossip.own, .endpoint) := by
    rw [hnet.own i]
    rfl
  have htold := hsound.along hrounds.1.introduces
  obtain ⟨e, he, hle⟩ := htold.reaches hnet hcap hrounds.2 henough hcov (hkey ▸ hrest)
  rw [hkey] at he
  have hend := htold.of_rounds hrounds.2
  refine ⟨seq, sig, hsigned, e, hend.within.store j _ e he, he, ?_⟩
  rcases hle.eq_or_lt with heq | hlt
  · exact Or.inl (Entry.rank_injOn (((run (run (Net.step cfg)) _ rounds).station j).store.filed
      _ _ he).1 hsigned.1 heq.symm)
  · exact Or.inr hlt

/-! ### Two nodes -/

local instance neZeroRounds : NeZero 2 := ⟨two_ne_zero⟩

/-- Node 1 hears of an entry. -/
def plainNews (e : Entry Crypto.plain) : List (NetOp (Fin 2)) :=
  [.inject (plainPacket 0 e), .deliver 0 (plainPacket 0 e) ⟨[plainAddr], 90⟩]

/-- Node 1 sends its own entry and the news to node 2, which sends both back. -/
def plainRound (e : Entry Crypto.plain) : List (NetOp (Fin 2)) :=
  [.tick 0 ⟨[plainAddr], 90⟩, .deliver 1 (plainPacket 1 e) ⟨none, 90⟩,
    .deliver 1 (plainPacket 1 plainOwn) ⟨none, 90⟩, .tick 1 ⟨some [], 90⟩,
    .deliver 0 (plainPacket 0 e) ⟨none, 90⟩, .deliver 0 (plainPacket 0 plainOwn) ⟨none, 90⟩]

/-- What the round needs at its two broadcasts: the addresses are those of the last time, and
the table holds the two entries. -/
def PlainReady (e : Entry Crypto.plain) (w : Net (Fin 2) Crypto.plain) (i j : Fin 2)
    (addrs : List Ipv6Addr) : Prop :=
  (w.station i).bc.lastAddrs = addrs ∧ (plainNode j).ownAddress ∈ (w.station i).targets ∧
    ∀ p ∈ ((w.station i).broadcast (plainNode i) ⟨addrs, 90⟩).1,
      p = plainPacket j e ∨ p = plainPacket j plainOwn

instance PlainReady.decidable (e : Entry Crypto.plain) (w : Net (Fin 2) Crypto.plain)
    (i j : Fin 2) (addrs : List Ipv6Addr) : Decidable (PlainReady e w i j addrs) :=
  inferInstanceAs (Decidable (_ ∧ _ ∧ _))

theorem round_plain {e : Entry Crypto.plain} {w : Net (Fin 2) Crypto.plain}
    (hone : PlainReady e w 0 1 [plainAddr])
    (htwo : PlainReady e (run (Net.step plainNode) w ((plainRound e).take 3)) 1 0 []) :
    w.Round plainNode {e, plainOwn} (· ≠ ·) (plainRound e) := by
  have hnone (w : Net (Fin 2) Crypto.plain) (i : Fin 2) :
      w.SignsWithin plainNode {e, plainOwn} i ⟨none, 90⟩ :=
    fun addrs haddrs => absurd haddrs (Option.not_mem_none addrs)
  refine ⟨⟨?_, hnone _ _, hnone _ _, ?_, hnone _ _, hnone _ _, trivial⟩, ?_⟩
  · rintro addrs ⟨⟩ hnew
    exact absurd hone.1.symm hnew
  · rintro addrs ⟨⟩ hnew
    exact absurd htwo.1.symm hnew
  · intro i j hne k
    have hcases : ∀ i j : Fin 2, i ≠ j → i = 0 ∧ j = 1 ∨ i = 1 ∧ j = 0 := by decide
    rcases hcases i j hne with ⟨rfl, rfl⟩ | ⟨rfl, rfl⟩
    · refine ⟨[], ⟨[plainAddr], 90⟩, (plainRound e).tail, rfl, Option.some_ne_none _, hone.2.1, ?_⟩
      rintro p hp - e' - -
      rcases hone.2.2 p hp with rfl | rfl
      · exact ⟨_, List.mem_cons_self ..⟩
      · exact ⟨_, List.mem_cons_of_mem _ (List.mem_cons_self ..)⟩
    · refine ⟨(plainRound e).take 3, ⟨some [], 90⟩, (plainRound e).drop 4, rfl,
        Option.some_ne_none _, htwo.2.1, ?_⟩
      rintro p hp - e' - -
      rcases htwo.2.2 p hp with rfl | rfl
      · exact ⟨_, List.mem_cons_self ..⟩
      · exact ⟨_, List.mem_cons_of_mem _ (List.mem_cons_self ..)⟩

theorem fits_pair (e e' : Entry Crypto.plain) : Fits {e, e'} :=
  Finset.card_image_le.trans ((Finset.card_filter_le ..).trans
    (Finset.card_le_two.trans (by decide)))

theorem oneNetwork_plain : OneNetwork plainNode where
  own i := rfl
  admins i j := rfl
  inside := by decide +kernel

theorem started_plain : plainNet.Started := fun _ => ⟨rfl, 100, rfl⟩

theorem news_plain {e : Entry Crypto.plain} (hvalid : e.isValid = true) :
    Along (Net.step plainNode) (Introduces plainNode {e, plainOwn}) plainNet (plainNews e) := by
  refine ⟨fun e' he => ?_, ?_, trivial⟩
  · have heq : e = e' := Outcome.ok.inj ((Broadcast.decode_encoding hvalid).symm.trans he)
    exact heq ▸ Finset.mem_insert_self _ _
  · intro addrs haddrs _ bytes hbytes e' he
    cases haddrs
    have hown : ((Broadcast.new 100).ownEntry (plainNode 0).own [plainAddr] 90).1 =
        some plainOwn.encoding := by decide +kernel
    have hdec : Entry.decode Crypto.plain plainOwn.encoding = .ok plainOwn := by
      decide +kernel
    obtain rfl : plainOwn.encoding = bytes := Option.some.inj (hown.symm.trans hbytes)
    have heq : plainOwn = e' := Outcome.ok.inj (hdec.symm.trans he)
    exact heq ▸ Finset.mem_insert_of_mem (Finset.mem_singleton_self _)

theorem wire_plain {E : Finset (Entry Crypto.plain)} : ∀ p ∈ plainNet.wire, ∀ e,
    Entry.decode Crypto.plain p.datagram.buf = .ok e → e ∈ E :=
  fun p hp => absurd hp (Multiset.notMem_zero p)

theorem isValid_plainRevoked : plainRevoked.isValid = true := by decide +kernel

theorem rounds_plain : Along (run (Net.step plainNode))
    (Round plainNode {plainRevoked, plainOwn} (· ≠ ·))
    (run (Net.step plainNode) plainNet (plainNews plainRevoked))
    [plainRound plainRevoked, plainRound plainRevoked] :=
  ⟨round_plain (by decide +kernel) (by decide +kernel),
    round_plain (by decide +kernel) (by decide +kernel), trivial⟩

/-- The revocation takes effect at node 2. -/
theorem gossip_spreads_two :
    let now := run (Net.step plainNode) plainNet (plainNews plainRevoked)
    let later := run (run (Net.step plainNode)) now
      [plainRound plainRevoked, plainRound plainRevoked]
    (now.station 1).store.isRevoked (plainKey 3 0) = false ∧
      (later.station 1).store.isRevoked (plainKey 3 0) = true := by
  have hspread := gossip_spreads oneNetwork_plain (fits_pair _ _) started_plain wire_plain
    (news_plain isValid_plainRevoked) rounds_plain (by decide)
  refine ⟨by decide +kernel, hspread.2 0 1 (plainKey 3 0) (.single ?_) (by decide +kernel)⟩
  decide

/-- Both nodes come to hold the revocation. -/
theorem gossip_agrees_two :
    let now := run (Net.step plainNode) plainNet (plainNews plainRevoked)
    let later := run (run (Net.step plainNode)) now
      [plainRound plainRevoked, plainRound plainRevoked]
    (later.station 0).store.map.lookup plainRevoked.key = some plainRevoked ∧
      (later.station 1).store.map.lookup plainRevoked.key = some plainRevoked := by
  have hnot : ∀ i : Fin 2, plainRevoked.key ≠ ((plainNode i).gossip.own, .endpoint) := by decide
  have hagree := gossip_agrees (k := plainRevoked.key) oneNetwork_plain (fits_pair _ _)
    started_plain wire_plain (news_plain isValid_plainRevoked) rounds_plain (by decide)
    (fun e he hkey _ => ?_) (fun i j hi hj => ?_)
  · have htop : plainRevoked ∈ ({plainRevoked, plainOwn} : Finset (Entry Crypto.plain)) ∧
        plainRevoked.key = plainRevoked.key ∧ plainRevoked.isValid = true ∧
        ∀ e' ∈ ({plainRevoked, plainOwn} : Finset (Entry Crypto.plain)),
          e'.key = plainRevoked.key → e'.isValid = true → e'.rank ≤ plainRevoked.rank := by
      refine ⟨by decide, rfl, isValid_plainRevoked, fun e' he' hkey _ => ?_⟩
      rcases Finset.mem_insert.1 he' with rfl | he'
      · exact le_rfl
      · rw [Finset.mem_singleton.1 he'] at hkey
        exact absurd hkey (by decide)
    exact ⟨(hagree 0 (hnot 0) plainRevoked).2 htop, (hagree 1 (hnot 1) plainRevoked).2 htop⟩
  · rcases Finset.mem_insert.1 he with rfl | he
    · exact ⟨0, hnot 0, plainRevoked, by decide +kernel, le_rfl⟩
    · rw [Finset.mem_singleton.1 he] at hkey
      exact absurd hkey (by decide)
  · by_cases hij : i = j
    · exact hij ▸ .refl
    · exact .single ⟨hij, hj⟩

/-- Node 2 learns where node 1 is. -/
theorem addresses_spread_two :
    let now := run (Net.step plainNode) plainNet (plainNews plainRevoked)
    let told := run (Net.step plainNode) now (plainRound plainRevoked)
    let later := run (run (Net.step plainNode)) told [plainRound plainRevoked]
    ∃ seq sig, told.Announces plainNode 0 [plainAddr] seq sig ∧
      ∃ e ∈ ({plainRevoked, plainOwn} : Finset (Entry Crypto.plain)),
        (later.station 1).store.endpointOf (plainNode 0).gossip.own = some e ∧
          (e = (plainNode 0).own.entry [plainAddr] seq sig ∨
            ((plainNode 0).own.entry [plainAddr] seq sig).rank < e.rank) := by
  refine addresses_spread oneNetwork_plain (fits_pair _ _) started_plain wire_plain
    (news_plain isValid_plainRevoked) rounds_plain (by decide) ?_ (by decide)
    ⟨plainAddr, List.mem_singleton_self _, by decide +kernel⟩ (.single ⟨by decide, by decide⟩)
  intro op hop r hr a ha
  have hreads : r.addrs = none ∨ r.addrs = some [plainAddr] := by
    simp only [plainRound, List.mem_cons, List.not_mem_nil, or_false] at hop
    rcases hop with rfl | rfl | rfl | rfl | rfl | rfl <;> cases hr
    · exact Or.inr rfl
    · exact Or.inl rfl
    · exact Or.inl rfl
  rcases hreads with hnone | hsome
  · exact absurd (hnone ▸ ha) (Option.not_mem_none a)
  · obtain rfl : [plainAddr] = a := Option.some.inj (hsome.symm.trans ha)
    rfl

end Net

end Hextet
