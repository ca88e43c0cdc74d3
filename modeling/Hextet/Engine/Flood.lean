/-
# Gossip does not storm

`crates/engine/src/gossip.rs`, `serve` and `broadcast`: when a datagram changes the store and
gives an event, the whole table is sent to every target at once, before the next datagram is
read.  Two connected nodes answer each other's broadcasts in this way, and the comment on
`Broadcast` tells of the endless exchange that a new sequence number for each answer caused.

The network here is a finite family of such nodes over a wire from which any datagram may be
delivered late, often or never.  A store covers an entry when it holds one of at least its
rank under the same key; an entry that is taken up was not covered and is covered for good.
So the entries in circulation that the stores cover are counted up by each answer
(`Net.coverage_step`), and there are at most as many as nodes times entries
(`gossip_cannot_storm`).
-/

import Hextet.Engine.Broadcast
import Hextet.Engine.Gossip
import Mathlib.Algebra.BigOperators.Group.Finset.Basic

namespace Hextet

open Lib

variable {C : Crypto}

/-! ### Merges -/

namespace GossipStore

/-- The entries that are applied in a sequence of merges. -/
def applied (s : GossipStore C) : List (Entry C) → List (Entry C)
  | [] => []
  | e :: es =>
      let (outcome, s') := s.merge e
      if outcome = .applied then e :: s'.applied es else s'.applied es

/-- The store holds an entry of at least this rank. -/
abbrev Covers (s : GossipStore C) (e : Entry C) : Prop :=
  LastWriter.Covers Entry.key Entry.rank s.map e

/-- **What a merge does to the covered entries**: it keeps them, and an entry that is applied
is new among them. -/
theorem covers_merge (s : GossipStore C) (e : Entry C) :
    (∀ e', s.Covers e' → (s.merge e).2.Covers e') ∧
      ((s.merge e).1 = .applied → ¬s.Covers e ∧ (s.merge e).2.Covers e) := by
  by_cases happ : (s.merge e).1 = .applied
  · have hmap := map_of_applied (Prod.ext happ rfl : s.merge e = (.applied, (s.merge e).2))
    have hgt := ((s.merge_eq_applied_iff e).1 happ).2.1
    simp only [Covers, hmap]
    exact ⟨fun e' h => LastWriter.Covers.insert h hgt,
      fun _ => ⟨LastWriter.not_covers hgt, LastWriter.covers_insert_self s.map e⟩⟩
  · rw [merge_eq_self happ]
    exact ⟨fun _ h => h, fun h => absurd h happ⟩

/-- What is applied was not covered. -/
theorem not_covers_of_applied {s : GossipStore C} {es : List (Entry C)} {e : Entry C}
    (h : e ∈ s.applied es) : ¬s.Covers e := by
  induction es generalizing s with
  | nil => cases h
  | cons e' es ih =>
      rw [applied] at h
      simp only at h
      split_ifs at h with happ
      · rcases List.mem_cons.1 h with rfl | h
        · exact ((s.covers_merge e).2 happ).1
        · exact fun hs => ih h ((s.covers_merge e').1 e hs)
      · exact fun hs => ih h ((s.covers_merge e').1 e hs)

/-- **No entry is applied twice.** -/
theorem nodup_applied (s : GossipStore C) (es : List (Entry C)) : (s.applied es).Nodup := by
  induction es generalizing s with
  | nil => exact .nil
  | cons e es ih =>
      rw [applied]
      simp only
      split_ifs with happ
      · refine List.nodup_cons.2 ⟨fun h => ?_, ih _⟩
        exact not_covers_of_applied h ((s.covers_merge e).2 happ).2
      · exact ih _

/-- **What a datagram does to the covered entries**: it keeps them, and if it gives an event it
carries an entry that is new among them. -/
theorem covers_handleDatagram (cfg : GossipConfig C) (s : GossipStore C) (d : Datagram) :
    (∀ e, s.Covers e → (handleDatagram cfg s d).2.Covers e) ∧
      (∀ event, (handleDatagram cfg s d).1 = some event →
        ∃ e, Entry.decode C d.buf = .ok e ∧ ¬s.Covers e ∧ (handleDatagram cfg s d).2.Covers e) := by
  cases hacc : d.accepted cfg with
  | none =>
      rw [handleDatagram_of_none hacc]
      exact ⟨fun _ h => h, fun _ h => by cases h⟩
  | some e =>
      by_cases htakes : Takes cfg s e
      · rw [(handleDatagram_of_takes hacc htakes).1]
        have hmerge := s.covers_merge e
        exact ⟨hmerge.1, fun _ _ => ⟨e, Datagram.decode_of_accepted hacc, hmerge.2 htakes.2⟩⟩
      · rw [handleDatagram_of_not_takes hacc htakes]
        exact ⟨fun _ h => h, fun _ h => by cases h⟩

end GossipStore

/-! ### Nodes -/

/-- `GossipConfig`, as `serve` reads it. -/
structure ServeConfig (C : Crypto) where
  gossip : GossipConfig C
  own : OwnConfig C
  ownAddress : Ipv6Addr

/-- The variables of `serve`. -/
structure Station (C : Crypto) where
  store : GossipStore C
  targets : List Ipv6Addr
  bc : Broadcast

/-- A datagram under way to an address. -/
structure Packet where
  dst : Ipv6Addr
  datagram : Datagram
  deriving DecidableEq

/-- The reading of the own addresses, none if it fails, and of the clock. -/
structure Reading where
  addrs : Option (List Ipv6Addr)
  now : UInt64

namespace Station

/-- `broadcast`: what is sent, and the variables. -/
def broadcast (cfg : ServeConfig C) (st : Station C) (r : Reading) :
    Multiset Packet × Station C :=
  match r.addrs with
  | none => (0, st)
  | some addrs =>
      let (own, bc) := st.bc.ownEntry cfg.own addrs r.now
      let packets := (own.toList : Multiset (List UInt8)) +
        st.store.map.entries.filterMap fun x => x.2.encode.toOption
      ((st.targets : Multiset Ipv6Addr).bind fun target =>
        packets.map fun pkt => ⟨target, ⟨pkt, cfg.ownAddress⟩⟩, { st with bc := bc })

end Station

/-! ### The network -/

/-- The nodes, the wire and the number of broadcasts that an event caused. -/
structure Net (N : Type) (C : Crypto) where
  station : N → Station C
  wire : Multiset Packet
  bursts : ℕ

/-- What happens in the network. -/
inductive NetOp (N : Type) where
  /-- Somebody else sends a datagram. -/
  | inject (p : Packet)
  /-- A datagram of the wire, which keeps it, arrives. -/
  | deliver (i : N) (p : Packet) (r : Reading)
  /-- The ticker or a kick makes a node broadcast. -/
  | tick (i : N) (r : Reading)
  /-- `GossipControl::UpdateTargets`. -/
  | updateTargets (i : N) (targets : List Ipv6Addr)

namespace Net

variable {N : Type} [DecidableEq N]

/-- A node broadcasts. -/
def broadcast (cfg : N → ServeConfig C) (w : Net N C) (i : N) (st : Station C) (r : Reading) :
    Net N C :=
  let (packets, st) := st.broadcast (cfg i) r
  { w with station := Function.update w.station i st, wire := packets + w.wire }

/-- One step of the network. -/
def step (cfg : N → ServeConfig C) (w : Net N C) : NetOp N → Net N C
  | .inject p => { w with wire := p ::ₘ w.wire }
  | .deliver i p r =>
      if p ∈ w.wire ∧ p.dst = (cfg i).ownAddress then
        let st := w.station i
        let (event, store) := handleDatagram (cfg i).gossip st.store p.datagram
        match event with
        | none => { w with station := Function.update w.station i { st with store := store } }
        | some _ =>
            { w.broadcast cfg i { st with store := store } r with bursts := w.bursts + 1 }
      else w
  | .tick i r => w.broadcast cfg i (w.station i) r
  | .updateTargets i targets =>
      { w with station := Function.update w.station i { w.station i with targets := targets } }

/-! ### What is in circulation -/

/-- The entries in the stores, on the wire and in the caches are among some. -/
structure Within (E : Finset (Entry C)) (w : Net N C) : Prop where
  /-- What a store holds. -/
  store : ∀ i k e, (w.station i).store.map.lookup k = some e → e ∈ E
  /-- What is on the wire. -/
  wire : ∀ p ∈ w.wire, ∀ e, Entry.decode C p.datagram.buf = .ok e → e ∈ E
  /-- What a node has signed last. -/
  cache : ∀ i, ∀ bytes ∈ (w.station i).bc.entryBytes, ∀ e,
    Entry.decode C bytes = .ok e → e ∈ E

/-- The entry that a node signs for a broadcast is among some: it signs one when its first
four addresses are others than the last time. -/
def SignsWithin (cfg : N → ServeConfig C) (E : Finset (Entry C)) (w : Net N C) (i : N)
    (r : Reading) : Prop :=
  ∀ addrs ∈ r.addrs, addrs.take gossipMaxAddrs ≠ (w.station i).bc.lastAddrs →
    ∀ bytes ∈ ((w.station i).bc.ownEntry (cfg i).own addrs r.now).1, ∀ e,
      Entry.decode C bytes = .ok e → e ∈ E

/-- The entries that a step puts in circulation are among some: those sent from outside, and
those that a node signs when its addresses have changed. -/
def Introduces (cfg : N → ServeConfig C) (E : Finset (Entry C)) (w : Net N C) : NetOp N → Prop
  | .inject p => ∀ e, Entry.decode C p.datagram.buf = .ok e → e ∈ E
  | .deliver i _ r => w.SignsWithin cfg E i r
  | .tick i r => w.SignsWithin cfg E i r
  | .updateTargets .. => True

variable {cfg : N → ServeConfig C} {E : Finset (Entry C)} {w : Net N C}

omit [DecidableEq N] in
/-- What `own_entry` returns is among the entries that the cache and the signing allow. -/
theorem ownEntry_within (h : w.Within E) {i : N} {r : Reading} (hsigns : w.SignsWithin cfg E i r)
    {addrs : List Ipv6Addr} (haddrs : addrs ∈ r.addrs) :
    (∀ bytes ∈ ((w.station i).bc.ownEntry (cfg i).own addrs r.now).1, ∀ e,
      Entry.decode C bytes = .ok e → e ∈ E) ∧
    ∀ bytes ∈ ((w.station i).bc.ownEntry (cfg i).own addrs r.now).2.entryBytes, ∀ e,
      Entry.decode C bytes = .ok e → e ∈ E := by
  have hnew := hsigns addrs haddrs
  rcases Broadcast.ownEntry_cases (cfg i).own (w.station i).bc addrs r.now with ⟨-, heq⟩ |
    ⟨-, -, heq⟩ | ⟨-, hchanged, sig, -, heq⟩ <;> rw [heq] at hnew ⊢
  · exact ⟨fun bytes hb => absurd hb (Option.not_mem_none bytes), h.cache i⟩
  · exact ⟨h.cache i, h.cache i⟩
  · exact ⟨hnew hchanged, hnew hchanged⟩

/-- Other variables for a node, and another wire. -/
theorem Within.update (h : w.Within E) {i : N} {st : Station C}
    (hstore : ∀ k e, st.store.map.lookup k = some e → e ∈ E)
    (hcache : ∀ bytes ∈ st.bc.entryBytes, ∀ e, Entry.decode C bytes = .ok e → e ∈ E)
    {wire : Multiset Packet} {n : ℕ}
    (hwire : ∀ p ∈ wire, p ∈ w.wire ∨ ∀ e, Entry.decode C p.datagram.buf = .ok e → e ∈ E) :
    Within E ⟨Function.update w.station i st, wire, n⟩ where
  store j k e := by
    simp only [Function.update_apply]
    split_ifs
    · exact hstore k e
    · exact h.store j k e
  wire p hp e := by
    rcases hwire p hp with hold | hnew
    · exact h.wire p hold e
    · exact hnew e
  cache j := by
    simp only [Function.update_apply]
    split_ifs
    · exact hcache
    · exact h.cache j

/-- What is sent of a store is held in it. -/
theorem lookup_of_packet {store : GossipStore C} {pkt : List UInt8} {e : Entry C}
    (hpkt : pkt ∈ store.map.entries.filterMap fun x => x.2.encode.toOption)
    (he : Entry.decode C pkt = .ok e) : store.map.lookup e.key = some e := by
  obtain ⟨x, hx, henc⟩ := (Multiset.mem_filterMap _ _).1 hpkt
  have hlookup : store.map.lookup x.1 = some x.2 := Finmap.lookup_eq_some_iff.2 hx
  obtain ⟨hvalid, hkey⟩ := store.filed _ _ hlookup
  rw [Entry.encode_eq_ok_encoding hvalid] at henc
  cases henc
  rw [Broadcast.decode_encoding hvalid] at he
  cases he
  rw [hkey, hlookup]

/-- **A broadcast keeps the circulation**: what is sent is the own entry and the store. -/
theorem Within.broadcast (h : w.Within E) {i : N} {r : Reading} (hsigns : w.SignsWithin cfg E i r)
    {store : GossipStore C} (hstore : ∀ k e, store.map.lookup k = some e → e ∈ E) (n : ℕ) :
    Within E { w.broadcast cfg i { w.station i with store := store } r with bursts := n } := by
  rw [Net.broadcast, Station.broadcast]
  cases haddrs : r.addrs with
  | none =>
      refine h.update ?_ ?_ fun p hp => Or.inl ?_
      · exact hstore
      · exact h.cache i
      · have hp' : p ∈ 0 + w.wire := hp
        rwa [zero_add] at hp'
  | some addrs =>
      obtain ⟨hown, hcache⟩ := ownEntry_within h hsigns haddrs
      refine h.update ?_ ?_ fun p hp => ?_
      · exact hstore
      · exact hcache
      · rcases Multiset.mem_add.1 hp with hp | hp
        · obtain ⟨target, -, hp⟩ := Multiset.mem_bind.1 hp
          obtain ⟨pkt, hpkt, rfl⟩ := Multiset.mem_map.1 hp
          refine Or.inr fun e he => ?_
          rcases Multiset.mem_add.1 hpkt with hpkt | hpkt
          · exact hown pkt (Option.mem_toList.1 hpkt) e he
          · exact hstore _ _ (lookup_of_packet hpkt he)
        · exact Or.inl hp

/-- A store that has handled a datagram of the circulation is of the circulation. -/
theorem store_within {s : GossipStore C} (h : ∀ k e, s.map.lookup k = some e → e ∈ E)
    {d : Datagram} (hd : ∀ e, Entry.decode C d.buf = .ok e → e ∈ E) (cfg : GossipConfig C)
    (k : NodePublicKey C × Kind) (e : Entry C)
    (he : (handleDatagram cfg s d).2.map.lookup k = some e) : e ∈ E := by
  rcases handleDatagram_cases cfg s d with heq | ⟨e', s', hacc, -, hmap, heq⟩ <;> rw [heq] at he
  · exact h k e he
  · simp only [hmap] at he
    by_cases hk : k = e'.key
    · rw [hk, Finmap.lookup_insert] at he
      cases he
      exact hd _ (Datagram.decode_of_accepted hacc)
    · rw [Finmap.lookup_insert_of_ne _ hk] at he
      exact h k e he

/-- **A step keeps the circulation**, if what it introduces belongs to it. -/
theorem Within.step (h : w.Within E) {op : NetOp N} (hop : w.Introduces cfg E op) :
    (w.step cfg op).Within E := by
  cases op with
  | inject p =>
      refine ⟨h.store, fun q hq => ?_, h.cache⟩
      rcases Multiset.mem_cons.1 hq with rfl | hq
      · exact hop
      · exact h.wire q hq
  | deliver i p r =>
      rw [Net.step]
      split_ifs with hp
      · have hstore := store_within (h.store i) (h.wire p hp.1) (cfg i).gossip
        simp only
        split
        · refine h.update ?_ ?_ fun q hq => Or.inl hq
          · exact hstore
          · exact h.cache i
        · exact h.broadcast hop hstore _
      · exact h
  | tick i r => exact h.broadcast hop (h.store i) w.bursts
  | updateTargets i targets =>
      refine h.update ?_ ?_ fun q hq => Or.inl hq
      · exact h.store i
      · exact h.cache i

/-! ### What the stores cover -/

open Classical in
/-- The entries in circulation that a node covers. -/
noncomputable def covered (E : Finset (Entry C)) (w : Net N C) (i : N) : Finset (Entry C) :=
  E.filter (w.station i).store.Covers

omit [DecidableEq N] in
theorem mem_covered {i : N} {e : Entry C} :
    e ∈ w.covered E i ↔ e ∈ E ∧ (w.station i).store.Covers e := by
  classical
  exact Finset.mem_filter

/-- The number of entries in circulation that the nodes cover. -/
noncomputable def coverage [Fintype N] (E : Finset (Entry C)) (w : Net N C) : ℕ :=
  ∑ i, (w.covered E i).card

/-- A broadcast leaves the store alone. -/
theorem store_broadcast (w : Net N C) (i : N) (st : Station C) (r : Reading) (j : N) :
    ((w.broadcast cfg i st r).station j).store =
      if j = i then st.store else (w.station j).store := by
  have hst : (st.broadcast (cfg i) r).2.store = st.store := by
    unfold Station.broadcast
    split <;> rfl
  rw [Net.broadcast]
  simp only [Function.update_apply]
  split_ifs
  · exact hst
  · rfl

/-- **What a step does to the covered entries**: every node keeps its own, and when a step
counts as a burst some node has covered one more of those in circulation. -/
theorem covers_step (cfg : N → ServeConfig C) (h : w.Within E) (op : NetOp N) :
    (∀ j e, (w.station j).store.Covers e → ((w.step cfg op).station j).store.Covers e) ∧
      ((w.step cfg op).bursts = w.bursts ∨
        (w.step cfg op).bursts = w.bursts + 1 ∧
          ∃ j, ∃ e ∈ E, ¬(w.station j).store.Covers e ∧
            ((w.step cfg op).station j).store.Covers e) := by
  cases op with
  | inject p => exact ⟨fun _ _ hc => hc, Or.inl rfl⟩
  | tick i r =>
      refine ⟨fun j e hc => ?_, Or.inl rfl⟩
      rw [Net.step, store_broadcast]
      split_ifs with hj
      · exact hj ▸ hc
      · exact hc
  | updateTargets i targets =>
      refine ⟨fun j e hc => ?_, Or.inl rfl⟩
      simp only [Net.step, Function.update_apply]
      split_ifs with hj
      · exact hj ▸ hc
      · exact hc
  | deliver i p r =>
      rw [Net.step]
      split_ifs with hp
      · obtain ⟨hkeep, hnew⟩ := (w.station i).store.covers_handleDatagram (cfg i).gossip p.datagram
        simp only
        split
        · refine ⟨fun j e hc => ?_, Or.inl rfl⟩
          simp only [Function.update_apply]
          split_ifs with hj
          · exact hkeep e (hj ▸ hc)
          · exact hc
        · rename_i event hevent
          obtain ⟨e, hdecode, hnot, hcovers⟩ := hnew event hevent
          simp only [store_broadcast]
          refine ⟨fun j e hc => ?_, Or.inr ⟨trivial, i, e, h.wire p hp.1 e hdecode, hnot, ?_⟩⟩
          · split_ifs with hj
            · exact hkeep e (hj ▸ hc)
            · exact hc
          · rw [if_pos rfl]
            exact hcovers
      · exact ⟨fun _ _ hc => hc, Or.inl rfl⟩

/-- **Every burst is paid for by the coverage.** -/
theorem coverage_step [Fintype N] (cfg : N → ServeConfig C) (h : w.Within E) (op : NetOp N) :
    (w.step cfg op).bursts + w.coverage E ≤ w.bursts + (w.step cfg op).coverage E := by
  obtain ⟨hkeep, hburst⟩ := covers_step cfg h op
  have hsub (j : N) : w.covered E j ⊆ (w.step cfg op).covered E j := fun e he =>
    mem_covered.2 ⟨(mem_covered.1 he).1, hkeep j e (mem_covered.1 he).2⟩
  rcases hburst with hnone | ⟨hone, j, e, he, hnot, hcovers⟩
  · rw [hnone]
    exact Nat.add_le_add_left (Finset.sum_le_sum fun j _ => Finset.card_le_card (hsub j)) _
  · have hlt : (w.covered E j).card < ((w.step cfg op).covered E j).card := by
      refine Finset.card_lt_card ⟨hsub j, fun hback => ?_⟩
      exact hnot (mem_covered.1 (hback (mem_covered.2 ⟨he, hcovers⟩))).2
    have hsum : w.coverage E < (w.step cfg op).coverage E :=
      Finset.sum_lt_sum (fun k _ => Finset.card_le_card (hsub k)) ⟨j, Finset.mem_univ j, hlt⟩
    rw [hone]
    omega

/-- The coverage of a run pays for its bursts. -/
theorem coverage_run [Fintype N] (h : w.Within E) {ops : List (NetOp N)}
    (hops : Along (step cfg) (Introduces cfg E) w ops) :
    (run (step cfg) w ops).bursts + w.coverage E ≤
      w.bursts + (run (step cfg) w ops).coverage E := by
  induction ops generalizing w with
  | nil => exact le_rfl
  | cons op ops ih =>
      have hstep := coverage_step cfg h op
      have hrest := ih (h.step hops.1) hops.2
      rw [run_cons]
      omega

omit [DecidableEq N] in
theorem coverage_le [Fintype N] (E : Finset (Entry C)) (w : Net N C) :
    w.coverage E ≤ Fintype.card N * E.card := by
  calc w.coverage E ≤ ∑ _i : N, E.card :=
        Finset.sum_le_sum fun i _ => Finset.card_le_card fun e he => (mem_covered.1 he).1
    _ = Fintype.card N * E.card := Finset.sum_const_nat fun _ _ => rfl

end Net

/-- **Gossip cannot storm.**  No sequence of merges applies an entry twice.  In a finite network
of nodes that answer each event by a broadcast of the whole table, the entries in circulation
cause at most as many such broadcasts as there are nodes times entries, whatever is lost,
repeated or reordered on the wire. -/
theorem gossip_cannot_storm {N : Type} [Fintype N] [DecidableEq N] (cfg : N → ServeConfig C) :
    (∀ (s : GossipStore C) (es : List (Entry C)), (s.applied es).Nodup) ∧
      ∀ (E : Finset (Entry C)) (w : Net N C) (ops : List (NetOp N)), w.Within E →
        Along (Net.step cfg) (Net.Introduces cfg E) w ops →
        (run (Net.step cfg) w ops).bursts ≤ w.bursts + Fintype.card N * E.card := by
  refine ⟨GossipStore.nodup_applied, fun E w ops hw hops => ?_⟩
  have hpaid := Net.coverage_run hw hops
  have hle := Net.coverage_le E (run (Net.step cfg) w ops)
  omega

/-! ### Two nodes -/

local instance neZeroNodes : NeZero 2 := ⟨two_ne_zero⟩

/-- Nodes 1 and 2. -/
def plainNode (i : Fin 2) : ServeConfig Crypto.plain where
  gossip := ⟨plainPrefix, plainKey (i + 1) 0, []⟩
  own := ⟨⟨plainKey (i + 1) 0, fun _ => Entry.zeroSig, fun _ => rfl⟩, 4193⟩
  ownAddress := overlayAddr plainPrefix (UInt16.ofNat (i + 1)) zeroIid

/-- Each sends to the other. -/
def plainNet : Net (Fin 2) Crypto.plain :=
  ⟨fun i => ⟨.new, [(plainNode (1 - i)).ownAddress], .new 100⟩, 0, 0⟩

/-- Node 9 revokes node 3. -/
def plainRevoked : Entry Crypto.plain := .plainRevocation (plainKey 3 0) (plainKey 9 0) 5

/-- Node 1 is at `2001:db8::1`. -/
def plainOwn : Entry Crypto.plain := (plainNode 0).own.entry [plainAddr] 101 Entry.zeroSig

/-- The packet of an entry to a node. -/
def plainPacket (i : Fin 2) (e : Entry Crypto.plain) : Packet :=
  ⟨(plainNode i).ownAddress, ⟨e.encoding, (plainNode (1 - i)).ownAddress⟩⟩

/-- Node 1 hears of the revocation and answers; node 2 gets both packets, the first twice. -/
def plainExchange : List (NetOp (Fin 2)) :=
  [.inject (plainPacket 0 plainRevoked), .deliver 0 (plainPacket 0 plainRevoked) ⟨[plainAddr], 90⟩,
    .deliver 1 (plainPacket 1 plainRevoked) ⟨none, 90⟩,
    .deliver 1 (plainPacket 1 plainRevoked) ⟨none, 90⟩,
    .deliver 1 (plainPacket 1 plainOwn) ⟨none, 90⟩]

/-- Three answers, of at most four. -/
theorem gossip_cannot_storm_two :
    (run (Net.step plainNode) plainNet plainExchange).bursts = 3 ∧
      Along (Net.step plainNode) (Net.Introduces plainNode {plainRevoked, plainOwn}) plainNet
        plainExchange ∧
      (run (Net.step plainNode) plainNet plainExchange).bursts ≤ 0 + 2 * 2 := by
  have hnot (addrs : List Ipv6Addr) : addrs ∉ (none : Option (List Ipv6Addr)) :=
    Option.not_mem_none addrs
  have halong : Along (Net.step plainNode) (Net.Introduces plainNode {plainRevoked, plainOwn})
      plainNet plainExchange := by
    refine ⟨fun e he => ?_, ?_, fun a h => absurd h (hnot a), fun a h => absurd h (hnot a),
      fun a h => absurd h (hnot a), trivial⟩
    · have hdec : Entry.decode Crypto.plain plainRevoked.encoding = .ok plainRevoked := by
        decide +kernel
      have heq : plainRevoked = e := Outcome.ok.inj (hdec.symm.trans he)
      exact heq ▸ by decide
    · intro addrs haddrs _ bytes hbytes e he
      cases haddrs
      have hown : ((Broadcast.new 100).ownEntry (plainNode 0).own [plainAddr] 90).1 =
          some plainOwn.encoding := by decide +kernel
      have hdec : Entry.decode Crypto.plain plainOwn.encoding = .ok plainOwn := by
        decide +kernel
      obtain rfl : plainOwn.encoding = bytes := Option.some.inj (hown.symm.trans hbytes)
      have heq : plainOwn = e := Outcome.ok.inj (hdec.symm.trans he)
      exact heq ▸ by decide
  have hwithin : plainNet.Within {plainRevoked, plainOwn} :=
    { store := fun i k e h => by simp [plainNet, GossipStore.new] at h
      wire := fun p hp => absurd hp (Multiset.notMem_zero p)
      cache := fun i bytes h => absurd h (Option.not_mem_none bytes) }
  have hcard : ({plainRevoked, plainOwn} : Finset (Entry Crypto.plain)).card = 2 := by decide
  have hbound := (gossip_cannot_storm plainNode).2 _ _ _ hwithin halong
  rw [hcard] at hbound
  exact ⟨by decide +kernel, halong, hbound⟩

end Hextet
