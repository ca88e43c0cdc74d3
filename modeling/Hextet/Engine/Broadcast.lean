/-
# The entry of this node

`crates/engine/src/gossip.rs`, `Broadcast`.  A node announces its own addresses in an
endpoint entry that it signs.  While the first `GOSSIP_MAX_ADDRS` addresses stay, the entry
signed last is sent again, byte for byte; once they change, the entry is signed anew under a
sequence number that is larger than the last one, whatever the clock says.

A receiver keeps the entry with the largest sequence number (`GossipStore::merge`), so
whoever merges the last entry ends with the last addresses (`newest_address_wins`).
-/

import Hextet.Core.GossipConvergence
import Hextet.Lib.Run

namespace Hextet

open Lib

variable {C : Crypto}

/-- `Entry::sign_endpoint`. -/
def Entry.signEndpoint (node : NodeIdentity C) (endpoints : List Ipv6Addr) (port : UInt16)
    (seq : UInt64) : Except GossipError (Entry C) :=
  if endpoints.length > gossipMaxAddrs then .error (.tooManyAddrs endpoints.length)
  else
    let e := Entry.endpoint node.publicKey endpoints port seq Entry.zeroSig
    e.signedRegion.map fun region => e.withSig (node.sign region)

/-- **What is signed is valid**, if it has at most `GOSSIP_MAX_ADDRS` addresses. -/
theorem Entry.signEndpoint_eq_ok (node : NodeIdentity C) {endpoints : List Ipv6Addr}
    (h : endpoints.length ≤ gossipMaxAddrs) (port : UInt16) (seq : UInt64) :
    ∃ sig, (Entry.endpoint node.publicKey endpoints port seq sig).isValid = true ∧
      Entry.signEndpoint node endpoints port seq =
        .ok (.endpoint node.publicKey endpoints port seq sig) := by
  obtain ⟨p, hp⟩ : ∃ p, (Entry.endpoint node.publicKey endpoints port seq zeroSig).payload =
      .ok p := ⟨_, if_neg (Nat.not_lt.2 h)⟩
  refine ⟨node.sign ((Entry.endpoint node.publicKey endpoints port seq zeroSig).header ++ p),
    (isValid_iff _).2 ⟨fun hkind => absurd rfl hkind, p, hp, node.verifies _⟩, ?_⟩
  rw [signEndpoint, if_neg (Nat.not_lt.2 h)]
  simp only [signedRegion, hp]
  rfl

/-- `Broadcast`. -/
structure Broadcast where
  lastAddrs : List Ipv6Addr
  entryBytes : Option (List UInt8)
  seq : UInt64

/-- The part of `GossipConfig` that `own_entry` reads. -/
structure OwnConfig (C : Crypto) where
  ownIdentity : NodeIdentity C
  listenPort : UInt16

/-- The entry of this node with some addresses. -/
def OwnConfig.entry (cfg : OwnConfig C) (addrs : List Ipv6Addr) (seq : UInt64) (sig : Bytes 64) :
    Entry C :=
  .endpoint cfg.ownIdentity.publicKey addrs cfg.listenPort seq sig

namespace Broadcast

/-- `Broadcast::new`. -/
def new (now : UInt64) : Broadcast := ⟨[], none, now⟩

/-- `Broadcast::own_entry` at a time: the bytes to send, and the cache. -/
def ownEntry (cfg : OwnConfig C) (b : Broadcast) (addrs : List Ipv6Addr) (now : UInt64) :
    Option (List UInt8) × Broadcast :=
  let addrs := addrs.take gossipMaxAddrs
  if addrs = [] then (none, b)
  else if addrs = b.lastAddrs then (b.entryBytes, b)
  else
    let seq := max (b.seq + 1) now
    match Entry.signEndpoint cfg.ownIdentity addrs cfg.listenPort seq with
    | .error _ => (none, { b with seq := seq })
    | .ok entry =>
        match entry.encode with
        | .error _ => (none, { b with seq := seq })
        | .ok bytes => (some bytes, ⟨addrs, some bytes, seq⟩)

variable {cfg : OwnConfig C} {b : Broadcast}

/-- **The three ends of `own_entry`**: no address, the addresses of the last time, or a new
entry. -/
theorem ownEntry_cases (cfg : OwnConfig C) (b : Broadcast) (addrs : List Ipv6Addr) (now : UInt64) :
    (addrs.take gossipMaxAddrs = [] ∧ b.ownEntry cfg addrs now = (none, b)) ∨
    (addrs.take gossipMaxAddrs ≠ [] ∧ addrs.take gossipMaxAddrs = b.lastAddrs ∧
      b.ownEntry cfg addrs now = (b.entryBytes, b)) ∨
    (addrs.take gossipMaxAddrs ≠ [] ∧ addrs.take gossipMaxAddrs ≠ b.lastAddrs ∧
      ∃ sig, let e := cfg.entry (addrs.take gossipMaxAddrs) (max (b.seq + 1) now) sig
        e.isValid = true ∧ b.ownEntry cfg addrs now =
          (some e.encoding, ⟨addrs.take gossipMaxAddrs, some e.encoding, e.seq⟩)) := by
  by_cases hempty : addrs.take gossipMaxAddrs = []
  · exact Or.inl ⟨hempty, if_pos hempty⟩
  by_cases hsame : addrs.take gossipMaxAddrs = b.lastAddrs
  · exact Or.inr (Or.inl ⟨hempty, hsame, by rw [ownEntry, if_neg hempty, if_pos hsame]⟩)
  obtain ⟨sig, hvalid, hsign⟩ := Entry.signEndpoint_eq_ok cfg.ownIdentity
    (List.length_take_le gossipMaxAddrs addrs) cfg.listenPort (max (b.seq + 1) now)
  refine Or.inr (Or.inr ⟨hempty, hsame, sig, hvalid, ?_⟩)
  rw [ownEntry, if_neg hempty, if_neg hsame]
  simp only [hsign, Entry.encode_eq_ok_encoding hvalid]
  rfl

/-! ### A run of calls -/

/-- A call of `own_entry`: the addresses and the clock. -/
structure Call where
  addrs : List Ipv6Addr
  now : UInt64

/-- The cache after a call. -/
def step (cfg : OwnConfig C) (b : Broadcast) (c : Call) : Broadcast :=
  (b.ownEntry cfg c.addrs c.now).2

/-- What the calls return, each with the addresses it was given up to the fourth. -/
def returned (cfg : OwnConfig C) : Broadcast → List Call → List (List Ipv6Addr × List UInt8)
  | _, [] => []
  | b, c :: calls =>
      (b.ownEntry cfg c.addrs c.now).1.toList.map (c.addrs.take gossipMaxAddrs, ·) ++
        returned cfg (b.step cfg c) calls

/-- The entry in the cache, with its addresses. -/
def cached (b : Broadcast) : List (List Ipv6Addr × List UInt8) :=
  b.entryBytes.toList.map (b.lastAddrs, ·)

/-- The cache is empty, or holds the encoding of a valid entry of the addresses and the
sequence number beside it. -/
def Coherent (cfg : OwnConfig C) (b : Broadcast) : Prop :=
  (b.lastAddrs = [] ∧ b.entryBytes = none) ∨
    ∃ sig, (cfg.entry b.lastAddrs b.seq sig).isValid = true ∧
      b.entryBytes = some (cfg.entry b.lastAddrs b.seq sig).encoding

/-- What may follow an announcement: the same bytes for the same addresses, and else an entry
with a larger sequence number. -/
def Follows (C : Crypto) (x y : List Ipv6Addr × List UInt8) : Prop :=
  (x.1 = y.1 → x.2 = y.2) ∧
    (x.1 ≠ y.1 → ∃ e e', Entry.decode C x.2 = .ok e ∧ Entry.decode C y.2 = .ok e' ∧
      e.seq < e'.seq)

/-- The call can count on. -/
def Counts (b : Broadcast) (_ : Call) : Prop := b.seq.toNat < 2 ^ 64 - 1

instance Counts.decidable (b : Broadcast) (c : Call) : Decidable (b.Counts c) :=
  inferInstanceAs (Decidable (b.seq.toNat < 2 ^ 64 - 1))

theorem coherent_new (cfg : OwnConfig C) (now : UInt64) : (new now).Coherent cfg :=
  Or.inl ⟨rfl, rfl⟩

theorem Coherent.step (h : b.Coherent cfg) (c : Call) : (b.step cfg c).Coherent cfg := by
  rcases ownEntry_cases cfg b c.addrs c.now with ⟨-, heq⟩ | ⟨-, -, heq⟩ |
    ⟨-, -, sig, hvalid, heq⟩ <;> rw [Broadcast.step, heq]
  · exact h
  · exact h
  · exact Or.inr ⟨sig, hvalid, rfl⟩

theorem decode_encoding {e : Entry C} (h : e.isValid = true) :
    Entry.decode C e.encoding = .ok e :=
  Entry.decode_eq_ok_iff.2 ⟨h, Entry.encode_eq_ok_encoding h⟩

/-- A number that is counted on grows, whatever the clock says. -/
theorem lt_max_succ {seq : UInt64} (h : seq.toNat < 2 ^ 64 - 1) (now : UInt64) :
    seq < max (seq + 1) now := by
  have hsucc : seq < seq + 1 := by
    rw [UInt64.lt_iff_toNat_lt, UInt64.toNat_add]
    have hone : (1 : UInt64).toNat = 1 := rfl
    rw [hone, Nat.mod_eq_of_lt (by omega)]
    omega
  show seq < if seq + 1 ≤ now then now else seq + 1
  split_ifs with hnow
  · exact UInt64.lt_of_lt_of_le hsucc hnow
  · exact hsucc

/-- **What is returned is the entry of the addresses** that were given. -/
theorem decode_returned (h : b.Coherent cfg) (calls : List Call) :
    ∀ x ∈ returned cfg b calls, ∃ seq sig, Entry.decode C x.2 = .ok (cfg.entry x.1 seq sig) := by
  induction calls generalizing b with
  | nil => simp [returned]
  | cons c calls ih =>
      intro x hx
      rcases List.mem_append.1 hx with hx | hx
      · obtain ⟨bytes, hbytes, rfl⟩ := List.mem_map.1 hx
        rw [Option.mem_toList] at hbytes
        rcases ownEntry_cases cfg b c.addrs c.now with ⟨-, heq⟩ | ⟨hne, hsame, heq⟩ |
          ⟨-, -, sig, hvalid, heq⟩ <;> rw [heq] at hbytes
        · cases hbytes
        · rcases h with ⟨hnil, -⟩ | ⟨sig, hvalid, hcached⟩
          · exact absurd (hsame.trans hnil) hne
          · rw [hcached] at hbytes
            cases hbytes
            exact ⟨b.seq, sig, by rw [decode_encoding hvalid, hsame]⟩
        · cases hbytes
          exact ⟨_, sig, decode_encoding hvalid⟩
      · exact ih (h.step c) x hx

/-- **Every call with an address returns an entry.** -/
theorem map_fst_returned (h : b.Coherent cfg) (calls : List Call) :
    (returned cfg b calls).map Prod.fst =
      (calls.map fun c => c.addrs.take gossipMaxAddrs).filter (· ≠ []) := by
  induction calls generalizing b with
  | nil => rfl
  | cons c calls ih =>
      rw [returned, List.map_append, ih (h.step c), List.map_cons]
      rcases ownEntry_cases cfg b c.addrs c.now with ⟨hnil, heq⟩ | ⟨hne, hsame, heq⟩ |
        ⟨hne, -, sig, hvalid, heq⟩ <;> rw [heq]
      · rw [List.filter_cons_of_neg (by simp [hnil])]
        rfl
      · rw [List.filter_cons_of_pos (by simpa using hne)]
        rcases h with ⟨hnil, -⟩ | ⟨sig, -, hcached⟩
        · exact absurd (hsame.trans hnil) hne
        · rw [hcached]
          rfl
      · rw [List.filter_cons_of_pos (by simpa using hne)]
        rfl

/-- **Each announcement follows the one before it**; the first one follows the cache. -/
theorem isChain_returned (h : b.Coherent cfg) {calls : List Call}
    (hcounts : Along (step cfg) Counts b calls) :
    (b.cached ++ returned cfg b calls).IsChain (Follows C) := by
  induction calls generalizing b with
  | nil =>
      rw [returned, List.append_nil, cached]
      cases b.entryBytes with
      | none => exact .nil
      | some bytes => exact .singleton _
  | cons c calls ih =>
      have hrest := ih (h.step c) hcounts.2
      rw [returned]
      rcases ownEntry_cases cfg b c.addrs c.now with ⟨-, heq⟩ | ⟨hne, hsame, heq⟩ |
        ⟨-, hnew, sig, hvalid, heq⟩ <;> rw [Broadcast.step, heq] at hrest ⊢
      · exact hrest
      · rcases h with ⟨hnil, -⟩ | ⟨sig, hvalid, hcached⟩
        · exact absurd (hsame.trans hnil) hne
        · rw [cached, hcached] at hrest ⊢
          rw [hsame]
          exact .cons_cons ⟨fun _ => rfl, fun hdiff => absurd rfl hdiff⟩ hrest
      · rw [cached] at hrest ⊢
        rcases h with ⟨-, hnone⟩ | ⟨sig', hvalid', hcached⟩
        · rw [hnone]
          exact hrest
        · rw [hcached]
          refine .cons_cons ⟨fun hsame => absurd hsame.symm hnew, fun _ => ?_⟩ hrest
          exact ⟨_, _, decode_encoding hvalid', decode_encoding hvalid,
            lt_max_succ hcounts.1 c.now⟩

/-! ### The receivers -/

/-- An announcement is the same as a later one, or of a smaller number. -/
def Precedes (C : Crypto) (x y : List Ipv6Addr × List UInt8) : Prop :=
  x.2 = y.2 ∨ ∃ e e', Entry.decode C x.2 = .ok e ∧ Entry.decode C y.2 = .ok e' ∧ e.seq < e'.seq

theorem Follows.precedes {x y : List Ipv6Addr × List UInt8} (h : Follows C x y) :
    Precedes C x y := by
  by_cases hsame : x.1 = y.1
  · exact Or.inl (h.1 hsame)
  · exact Or.inr (h.2 hsame)

instance : Trans (Precedes C) (Precedes C) (Precedes C) where
  trans := by
    rintro x y z (hxy | ⟨e, e', hx, hy, hlt⟩) (hyz | ⟨f, f', hy', hz, hlt'⟩)
    · exact Or.inl (hxy.trans hyz)
    · exact Or.inr ⟨f, f', hxy ▸ hy', hz, hlt'⟩
    · exact Or.inr ⟨e, e', hx, hyz ▸ hy, hlt⟩
    · rw [hy] at hy'
      cases hy'
      exact Or.inr ⟨e, f', hx, hz, UInt64.lt_trans hlt hlt'⟩

/-- Every announcement precedes the last one. -/
theorem precedes_last {xs : List (List Ipv6Addr × List UInt8)} (h : xs.IsChain (Follows C))
    {last : List Ipv6Addr × List UInt8} (hlast : xs.getLast? = some last) :
    ∀ x ∈ xs, Precedes C x last := by
  obtain ⟨init, rfl⟩ := List.getLast?_eq_some_iff.1 hlast
  have hpair : (init ++ [last]).Pairwise (Precedes C) :=
    (h.imp fun _ _ hxy => hxy.precedes).pairwise
  intro x hx
  rcases List.mem_append.1 hx with hx | hx
  · exact (List.pairwise_append.1 hpair).2.2 x hx last (List.mem_singleton_self _)
  · rw [List.mem_singleton.1 hx]
    exact Or.inl rfl

/-- **An entry that no merged one outranks is held** by a store that merged it. -/
theorem lookup_mergeAll_of_top {es : List (Entry C)} {e : Entry C} (he : e ∈ es)
    (hvalid : ∀ e' ∈ es, e'.isValid = true)
    (hcap : (GossipStore.validKeys es).card ≤ maxStoreEntries)
    (htop : ∀ e' ∈ es, e' = e ∨ e'.seq < e.seq) :
    ((GossipStore.new : GossipStore C).mergeAll es).map.lookup e.key = some e := by
  obtain ⟨w, hw, hle⟩ := (GossipStore.summary_mergeAll hcap).top e ⟨he, hvalid e he⟩
  obtain ⟨⟨hwmem, -⟩, -⟩ := (GossipStore.summary_mergeAll hcap).held _ w hw
  rcases htop w hwmem with rfl | hlt
  · exact hw
  · rw [Entry.rank_le_iff] at hle
    rcases hle with hgt | ⟨heq, -⟩
    · exact absurd hgt (UInt64.lt_asymm hlt)
    · exact absurd hlt (heq ▸ UInt64.lt_irrefl _)

/-- **The newest own address wins everywhere.**  For every sequence of calls whose numbers stay
below `u64::MAX`, with any clock: each call with an address returns an entry; a call with the
same first four addresses as the last one returns the same bytes, and any other one an entry
with a larger number; and a store that merged the last entry, and any of the others in any
order and any number of times, holds the last addresses for this node. -/
theorem newest_address_wins (cfg : OwnConfig C) (start : UInt64) (calls : List Call)
    (hcounts : Along (step cfg) Counts (new start) calls) :
    (returned cfg (new start) calls).map Prod.fst =
        (calls.map fun c => c.addrs.take gossipMaxAddrs).filter (· ≠ []) ∧
      (returned cfg (new start) calls).IsChain (Follows C) ∧
      ∀ last ∈ (returned cfg (new start) calls).getLast?, ∀ es : List (Entry C),
        (∀ e ∈ es, ∃ x ∈ returned cfg (new start) calls, Entry.decode C x.2 = .ok e) →
        (∃ e ∈ es, Entry.decode C last.2 = .ok e) →
        ∃ seq sig, ((GossipStore.new : GossipStore C).mergeAll es).endpointOf
          cfg.ownIdentity.publicKey = some (cfg.entry last.1 seq sig) := by
  have hcoherent := coherent_new cfg start
  have hchain : (returned cfg (new start) calls).IsChain (Follows C) :=
    isChain_returned hcoherent hcounts
  have hdecode := decode_returned hcoherent calls
  refine ⟨map_fst_returned hcoherent calls, hchain, ?_⟩
  intro last hlast es hes ⟨e, he, hdec⟩
  obtain ⟨seq, sig, hlast'⟩ := hdecode last (List.mem_of_getLast? hlast)
  rw [hdec] at hlast'
  cases hlast'
  refine ⟨seq, sig, lookup_mergeAll_of_top he (fun e' he' => ?_) ?_ fun e' he' => ?_⟩
  · obtain ⟨x, -, hx⟩ := hes e' he'
    exact (Entry.decode_eq_ok_iff.1 hx).1
  · -- every entry sits under the one key of this node
    refine (Finset.card_le_card (t := {(cfg.ownIdentity.publicKey, .endpoint)}) ?_).trans (by
      simp [maxStoreEntries])
    intro k hk
    rw [GossipStore.validKeys, List.mem_toFinset] at hk
    obtain ⟨e', he', rfl⟩ := List.mem_map.1 hk
    obtain ⟨x, hx, hxe⟩ := hes e' (List.mem_filter.1 he').1
    obtain ⟨seq', sig', hx'⟩ := hdecode x hx
    rw [hxe] at hx'
    cases hx'
    exact Finset.mem_singleton_self _
  · obtain ⟨x, hx, hxe⟩ := hes e' he'
    rcases precedes_last hchain hlast x hx with hsame | ⟨f, f', hf, hf', hlt⟩
    · rw [hsame, hdec] at hxe
      cases hxe
      exact Or.inl rfl
    · rw [hxe] at hf
      rw [hdec] at hf'
      cases hf
      cases hf'
      exact Or.inr hlt

/-- Node 1 and its signatures. -/
def plainOwnConfig : OwnConfig Crypto.plain :=
  ⟨⟨plainKey 1 0, fun _ => Entry.zeroSig, fun _ => rfl⟩, 4193⟩

/-- An address is kept, and then a second one comes up; the clock runs backwards. -/
def plainCalls : List Call := [⟨[plainAddr], 100⟩, ⟨[plainAddr], 90⟩, ⟨[plainAddr, plainAddr], 80⟩]

/-- A store that merges the entry of the third call, and then that of the first. -/
theorem newest_address_wins_clock_back :
    Along (step plainOwnConfig) Counts (new 100) plainCalls ∧
      ∃ seq sig, ((GossipStore.new : GossipStore Crypto.plain).mergeAll
        [plainOwnConfig.entry [plainAddr, plainAddr] 102 Entry.zeroSig,
          plainOwnConfig.entry [plainAddr] 101 Entry.zeroSig]).endpointOf (plainKey 1 0) =
        some (plainOwnConfig.entry [plainAddr, plainAddr] seq sig) := by
  have hcounts : Along (step plainOwnConfig) Counts (new 100) plainCalls := by decide +kernel
  refine ⟨hcounts, (newest_address_wins plainOwnConfig 100 plainCalls hcounts).2.2
    ([plainAddr, plainAddr], (plainOwnConfig.entry [plainAddr, plainAddr] 102
      Entry.zeroSig).encoding) (by decide +kernel) _ ?_ ⟨_, List.mem_cons_self .., by
      decide +kernel⟩⟩
  intro e he
  simp only [List.mem_cons, List.not_mem_nil, or_false] at he
  rcases he with rfl | rfl
  · exact ⟨([plainAddr, plainAddr], (plainOwnConfig.entry [plainAddr, plainAddr] 102
      Entry.zeroSig).encoding), by decide +kernel, by decide +kernel⟩
  · exact ⟨([plainAddr], (plainOwnConfig.entry [plainAddr] 101 Entry.zeroSig).encoding),
      by decide +kernel, by decide +kernel⟩

end Broadcast

end Hextet
