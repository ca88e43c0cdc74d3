/-
# Addresses from gossip

`handle_datagram` in `crates/engine/src/gossip.rs`, `on_discovered` and
`on_membership_event` in `crates/engine/src/daemon.rs`.  Two holders of the
addresses of a node must agree: the store, which returns an endpoint entry once,
when it is applied, and the runtime table, which drops what it is told about a
peer it does not have.  A member that is admitted starts with no addresses, and
what was dropped before is not told again.

A `Book` is the gossip addresses of the nodes in the table.  The daemon's gossip
branch acts on it as the event does (`Daemon.book_onGossip`), and the book that is
left when the channel has been drained is a fold over the accepted entries
(`book_run`).  One node is then in one of four situations: not yet admitted
(`Absent`), in step with the store or out for good (`Tracked`), or admitted too
late for the entry `w` that the store holds (`Behind w`), until a newer one comes.
-/

import Hextet.Engine.PeerRule
import Hextet.Engine.Roster
import Mathlib.Data.List.TakeWhile

namespace Hextet

open Lib

variable {C : Crypto}

/-! ### The part of gossip -/

/-- The endpoints that gossip told about. -/
def PeerRuntime.gossipEndpoints (p : PeerRuntime C) : List SocketAddrV6 :=
  endpointsFrom .gossip p.discovered

/-! ### Books -/

/-- The gossip addresses of the nodes in the table. -/
abbrev Book (C : Crypto) := NodePublicKey C → Option (List SocketAddrV6)

/-- What an event of the gossip task does to the book. -/
def Book.take (b : Book C) : GossipEvent C → Book C
  | .discovered update => fun n =>
      if n.toBase64 = update.peerKey then (b n).map fun _ => update.endpoints else b n
  | .memberAdmitted node _ _ => fun n => if n = node then some ((b n).getD []) else b n
  | .revoked node => fun n => if n = node then none else b n

/-- An event that the gossip task sends: its discoveries are marked as such. -/
def GossipEvent.FromGossip : GossipEvent C → Prop
  | .discovered update => update.source = .gossip
  | _ => True

/-- The first peer with a key. -/
def Daemon.peer (d : Daemon C) (key : String) : Option (PeerRuntime C) :=
  d.peers.find? fun p => p.keyB64 = key

/-- The book of a daemon. -/
def Daemon.book (d : Daemon C) : Book C :=
  fun n => (d.peer n.toBase64).map PeerRuntime.gossipEndpoints

theorem find?_replacePeer {key : String} {p' : PeerRuntime C} (hp' : p'.keyB64 = key)
    (ps : List (PeerRuntime C)) (k : String) :
    (replacePeer key p' ps).find? (fun p => p.keyB64 = k) =
      if k = key then (ps.find? fun p => p.keyB64 = key).map fun _ => p'
      else ps.find? fun p => p.keyB64 = k := by
  induction ps with
  | nil => simp [replacePeer]
  | cons q ps ih =>
      rw [replacePeer]
      by_cases hq : q.keyB64 = key
      · by_cases hk : k = key
        · simp [hq, hk, hp']
        · simp [hq, hk, hp', Ne.symm hk]
      · by_cases hk : k = key
        · simpa [hq, hk] using ih
        · by_cases hqk : q.keyB64 = k
          · simp [hk, hqk]
          · simpa [hq, hk, hqk] using ih

theorem find?_eraseP {ps : List (PeerRuntime C)} (hnodup : (ps.map fun p => p.keyB64).Nodup)
    (key k : String) :
    (ps.eraseP fun p => p.keyB64 = key).find? (fun p => p.keyB64 = k) =
      if k = key then none else ps.find? fun p => p.keyB64 = k := by
  induction ps with
  | nil => simp
  | cons q ps ih =>
      rw [List.map_cons, List.nodup_cons] at hnodup
      by_cases hq : q.keyB64 = key
      · rw [List.eraseP_cons_of_pos (by simpa using hq)]
        by_cases hk : k = key
        · rw [if_pos hk, List.find?_eq_none]
          intro p hp hpk
          exact hnodup.1 (by
            rw [hq, ← hk, ← of_decide_eq_true hpk]
            exact List.mem_map_of_mem hp)
        · rw [if_neg hk, List.find?_cons_of_neg (by simpa [hq] using Ne.symm hk)]
      · rw [List.eraseP_cons_of_neg (by simpa using hq)]
        by_cases hqk : q.keyB64 = k
        · have hk : k ≠ key := fun h => hq (hqk.trans h)
          rw [List.find?_cons_of_pos (by simpa using hqk), if_neg hk,
            List.find?_cons_of_pos (by simpa using hqk)]
        · rw [List.find?_cons_of_neg (by simpa using hqk), ih hnodup.2,
            List.find?_cons_of_neg (by simpa using hqk)]

theorem find?_of_mem {ps : List (PeerRuntime C)} (hnodup : (ps.map fun p => p.keyB64).Nodup)
    {p : PeerRuntime C} (hp : p ∈ ps) : ps.find? (fun q => q.keyB64 = p.keyB64) = some p := by
  induction ps with
  | nil => cases hp
  | cons q ps ih =>
      rw [List.map_cons, List.nodup_cons] at hnodup
      rcases List.mem_cons.1 hp with rfl | hp
      · exact List.find?_cons_of_pos (by simp)
      · have hne : q.keyB64 ≠ p.keyB64 := fun h => hnodup.1 (h ▸ List.mem_map_of_mem hp)
        rw [List.find?_cons_of_neg (by simpa using hne)]
        exact ih hnodup.2 hp

namespace Daemon

variable {d : Daemon C}

theorem peer_eq_none_iff {key : String} : d.peer key = none ↔ key ∉ d.keys := by
  rw [peer, List.find?_eq_none, keys, List.mem_map]
  simp

theorem peer_of_mem (hnodup : d.keys.Nodup) {p : PeerRuntime C} (hp : p ∈ d.peers) :
    d.peer p.keyB64 = some p :=
  find?_of_mem hnodup hp

/-- What a layer has told of a peer in the table. -/
def told (d : Daemon C) (source : Source) (key : String) : Option (List SocketAddrV6) :=
  (d.peer key).map fun p => endpointsFrom source p.discovered

/-- What is recorded, by key. -/
def ledger (ps : List (PeerRuntime C)) : List (String × List (Source × SocketAddrV6)) :=
  ps.map fun p => (p.keyB64, p.discovered)

theorem told_eq_lookup (d : Daemon C) (source : Source) (key : String) :
    d.told source key = ((ledger d.peers).lookup key).map (endpointsFrom source) := by
  rw [told, peer]
  induction d.peers with
  | nil => rfl
  | cons p ps ih =>
      rw [ledger, List.map_cons, List.lookup_cons]
      by_cases hkey : p.keyB64 = key
      · simp [hkey]
      · have hbeq : (key == p.keyB64) = false := by simpa using Ne.symm hkey
        rw [List.find?_cons_of_neg (by simpa using hkey), hbeq]
        exact ih

theorem ledger_kickPeers (cache : EndpointCache) (now : SystemTime) (clocks : ℕ → Clock)
    (ps : List (PeerRuntime C)) : ledger (kickPeers cache now clocks ps).1 = ledger ps := by
  induction ps generalizing cache clocks with
  | nil => rfl
  | cons p ps ih => exact congrArg ((p.keyB64, p.discovered) :: ·) (ih _ _)

/-- What `on_discovered` leaves recorded: the merged endpoints of its peer, if that is in
the table. -/
theorem discovered_onDiscovered (d : Daemon C) (update : DiscoveredEndpoints) (clock : Clock)
    (key : String) :
    ((d.onDiscovered update clock).1.peer key).map PeerRuntime.discovered =
      ((d.peer key).map PeerRuntime.discovered).map fun discovered =>
        if update.peerKey = key then
          PeerRuntime.mergeDiscovered discovered update.source update.endpoints
        else discovered := by
  simp only [onDiscovered, withPeer]
  split
  · rename_i hnone
    by_cases hk : update.peerKey = key
    · subst hk
      rw [peer, hnone]
      rfl
    · simp [hk, Function.comp_def]
  · rename_i p hp
    have hkey : p.keyB64 = update.peerKey := by simpa using List.find?_some hp
    have hkey' : (p.discover d.cache update.source update.endpoints clock).1.keyB64 =
        update.peerKey := by
      rw [(PeerRuntime.tame_discover rfl d.cache update.source update.endpoints clock).info]
      exact hkey
    rw [peer, find?_replacePeer hkey', peer]
    by_cases hk : update.peerKey = key
    · subst hk
      simp [hp, PeerRuntime.discovered_discover]
    · simp [hk, Ne.symm hk, Function.comp_def]

/-- **`on_discovered` replaces what its layer told of its peer**, if that is in the
table. -/
theorem told_onDiscovered (d : Daemon C) (update : DiscoveredEndpoints) (clock : Clock)
    (source : Source) (key : String) :
    (d.onDiscovered update clock).1.told source key =
      if key = update.peerKey ∧ source = update.source then
        (d.told source key).map fun _ => update.endpoints
      else d.told source key := by
  have htold : ∀ d : Daemon C, d.told source key =
      ((d.peer key).map PeerRuntime.discovered).map (endpointsFrom source) := by
    intro d
    rw [told, Option.map_map]
    rfl
  rw [htold, htold, discovered_onDiscovered]
  cases d.peer key with
  | none => simp
  | some p =>
      by_cases hk : key = update.peerKey
      · by_cases hs : source = update.source
        · simp [hk, hs, PeerRuntime.endpointsFrom_mergeDiscovered]
        · simp [hk, hs, PeerRuntime.endpointsFrom_mergeDiscovered_of_ne _ _ _ hs]
      · simp [hk, Ne.symm hk]

/-- A member that is admitted starts with nothing told. -/
theorem told_onMemberAdmitted (d : Daemon C) (ctx : Ctx) (node : NodePublicKey C) (name : String)
    (address : Ipv6Addr) (now : SystemTime) (source : Source) (key : String) :
    (d.onMemberAdmitted ctx node name address now).1.told source key =
      (d.told source key).or (if key = node.toBase64 then some [] else none) := by
  by_cases hmem : node.toBase64 ∈ d.keys
  · rw [onMemberAdmitted_of_mem d ctx node name address now hmem]
    split_ifs with hk
    · subst hk
      obtain ⟨p, hp⟩ := Option.ne_none_iff_exists'.1 fun h => peer_eq_none_iff.1 h hmem
      simp [told, hp]
    · rw [Option.or_none]
  · have hpeer : (d.onMemberAdmitted ctx node name address now).1.peer key =
        (d.peer key).or (if key = node.toBase64 then
          some (memberPeer ctx.keepalive (buildCandidates ⟨none, [], [], [], none⟩) now name
            node.toBase64 node.wgPublicBytes address) else none) := by
      rw [onMemberAdmitted, if_neg hmem, peer, peer, List.find?_append, List.find?_singleton]
      simp [memberPeer, eq_comm]
    rw [told, hpeer, told, Option.map_or]
    split_ifs <;> rfl

/-- Of a node that is revoked nothing is told. -/
theorem told_onRevoked (hnodup : d.keys.Nodup) (node : NodePublicKey C) (source : Source)
    (key : String) :
    (d.onRevoked node).1.told source key =
      if key = node.toBase64 then none else d.told source key := by
  simp only [told, onRevoked, peer]
  rw [find?_eraseP hnodup]
  split_ifs <;> rfl

theorem book_eq_told (d : Daemon C) (n : NodePublicKey C) : d.book n = d.told .gossip n.toBase64 :=
  rfl

/-- **The gossip branch of the daemon acts on the book as the event does.** -/
theorem book_onGossip (hnodup : d.keys.Nodup) (ctx : Ctx) (clock : Clock) {x : GossipEvent C}
    (hx : x.FromGossip) : (d.onGossip ctx clock x).1.book = d.book.take x := by
  funext n
  cases x with
  | discovered update =>
      have hsource : update.source = .gossip := hx
      rw [book_eq_told, onGossip, told_onDiscovered, hsource]
      simp only [and_true]
      rfl
  | memberAdmitted node name address =>
      simp only [onGossip, Book.take, book_eq_told, told_onMemberAdmitted,
        NodePublicKey.toBase64_inj]
      split_ifs
      · cases d.told .gossip n.toBase64 <;> rfl
      · rw [Option.or_none]
  | revoked node =>
      simp only [onGossip, Book.take, book_eq_told, told_onRevoked hnodup,
        NodePublicKey.toBase64_inj]

end Daemon

/-- The gossip task sends no discoveries of other layers. -/
theorem fromGossip_of_mem {cfg : GossipConfig C} {store : GossipStore C} {d : Datagram}
    {x : GossipEvent C} (hx : x ∈ (handleDatagram cfg store d).1.toList) : x.FromGossip := by
  rcases handleDatagram_cases cfg store d with heq | ⟨e, store', -, -, -, heq⟩
  · rw [heq] at hx
    cases hx
  · rw [heq] at hx
    cases e with
    | endpoint =>
        obtain rfl := List.mem_singleton.1 hx
        rfl
    | revocation =>
        obtain rfl := List.mem_singleton.1 hx
        trivial
    | member =>
        cases x with
        | memberAdmitted => trivial
        | revoked => trivial
        | discovered =>
            simp only [eventOf] at hx
            split_ifs at hx
            · cases hx
            · split at hx
              · cases List.mem_singleton.1 hx
              · cases hx

namespace System

/-! ### A run as a fold over the entries -/

/-- The book that is left when the events in flight have been taken. -/
def bookLeft (s : System C) : Book C := s.queue.foldl Book.take s.daemon.book

/-- The store and the book after an accepted entry. -/
def hear (cfg : Config C) (σ : GossipStore C × Book C) (e : Entry C) : GossipStore C × Book C :=
  ((handleEntry cfg.gossip σ.1 e).2,
    (handleEntry cfg.gossip σ.1 e).1.toList.foldl Book.take σ.2)

/-- The input is a datagram, or the taking of an event. -/
def IsGossip : Input → Prop
  | .datagram _ => True
  | .gossip _ _ => True
  | _ => False

/-- **A run of the gossip task and the gossip branch is a fold over the accepted
entries**, in whatever way the two interleave. -/
theorem book_run (cfg : Config C) {s : System C} (hsound : Sound Set.univ s)
    (hqueue : ∀ x ∈ s.queue, x.FromGossip) {is : List Input} (his : ∀ i ∈ is, IsGossip i) :
    ((after cfg s is).store, (after cfg s is).bookLeft) =
      run (hear cfg) (s.store, s.bookLeft) (delivered cfg is) := by
  induction is generalizing s with
  | nil => rfl
  | cons i is ih =>
      have hi := his i List.mem_cons_self
      have his' : ∀ j ∈ is, IsGossip j := fun j hj => his j (List.mem_cons_of_mem _ hj)
      have hstep : Sound Set.univ (s.step cfg i) := hsound.step fun _ _ _ _ => Set.mem_univ _
      cases i with
      | datagram d =>
          have hqueue' : ∀ x ∈ (s.step cfg (.datagram d)).queue, x.FromGossip := by
            intro x hx
            rcases List.mem_append.1 hx with hx | hx
            · exact hqueue x hx
            · exact fromGossip_of_mem hx
          refine (ih hstep hqueue' his').trans ?_
          have hbook : (s.step cfg (.datagram d)).bookLeft =
              (handleDatagram cfg.gossip s.store d).1.toList.foldl Book.take s.bookLeft :=
            List.foldl_append ..
          have hstore : (s.step cfg (.datagram d)).store =
              (handleDatagram cfg.gossip s.store d).2 := rfl
          rw [hbook, hstore, handleDatagram_eq]
          cases hacc : d.accepted cfg.gossip with
          | none => simp [delivered, hacc]
          | some e => simp [delivered, hacc, hear]
      | gossip clock saved =>
          have hqueue' : ∀ x ∈ (s.step cfg (.gossip clock saved)).queue, x.FromGossip := by
            rw [queue_gossip]
            exact fun x hx => hqueue x (List.mem_of_mem_tail hx)
          refine (ih hstep hqueue' his').trans ?_
          have hsame : (s.step cfg (.gossip clock saved)).store = s.store ∧
              (s.step cfg (.gossip clock saved)).bookLeft = s.bookLeft := by
            cases hq : s.queue with
            | nil => simp [step, hq]
            | cons x rest =>
                have hx := hqueue x (by simp [hq])
                simp only [step, hq, bookLeft, perform, List.foldl_cons, true_and]
                rw [Daemon.book_onGossip hsound.keys_nodup _ _ hx]
          rw [hsame.1, hsame.2]
          rfl
      | discovered => exact hi.elim
      | relay => exact hi.elim
      | tick => exact hi.elim
      | kick => exact hi.elim

/-! ### One node -/

section OneNode

variable {cfg : Config C} {σ : GossipStore C × Book C} {n : NodePublicKey C} {e w : Entry C}

/-- The addresses of a node in the store. -/
def addrsOf (store : GossipStore C) (n : NodePublicKey C) : List SocketAddrV6 :=
  ((store.endpointOf n).map Entry.endpointAddrs).getD []

/-- **The two ends of an accepted entry**: nothing, or filed and answered. -/
theorem hear_cases (cfg : Config C) (σ : GossipStore C × Book C) (e : Entry C) :
    (¬Takes cfg.gossip σ.1 e ∧ hear cfg σ e = σ) ∨
      ∃ store', Takes cfg.gossip σ.1 e ∧ store'.map = σ.1.map.insert e.key e ∧
        hear cfg σ e = (store', (eventOf cfg.gossip store' e).toList.foldl Book.take σ.2) := by
  by_cases ht : Takes cfg.gossip σ.1 e
  · refine Or.inr ⟨(σ.1.merge e).2, ht, GossipStore.map_of_applied (Prod.ext ht.2 rfl), ?_⟩
    rw [hear, handleEntry_eq, if_neg (by simp [ht.1]), if_pos ht.2]
  · refine Or.inl ⟨ht, ?_⟩
    rw [hear, handleEntry_eq]
    by_cases hi : isIgnored cfg.gossip e = true
    · rw [if_pos hi]
      rfl
    · rw [if_neg hi, if_neg fun hm => ht ⟨by simpa using hi, hm⟩]
      rfl

/-- The node has left for good, or its addresses are those of the store. -/
def Tracked (n : NodePublicKey C) (σ : GossipStore C × Book C) : Prop :=
  σ.2 n = some (addrsOf σ.1 n) ∨ σ.2 n = none ∧ (n, .revocation) ∈ σ.1.map

/-- The node was not admitted. -/
def Absent (n : NodePublicKey C) (σ : GossipStore C × Book C) : Prop :=
  σ.2 n = none ∧ (n, .member) ∉ σ.1.map

/-- The node was admitted after the endpoint entry that the store holds of it had
been told. -/
def Behind (w : Entry C) (n : NodePublicKey C) (σ : GossipStore C × Book C) : Prop :=
  σ.2 n = some [] ∧ σ.1.endpointOf n = some w

theorem endpointOf_insert_of_ne {store store' : GossipStore C}
    (hmap : store'.map = store.map.insert e.key e) (h : e.key ≠ (n, .endpoint)) :
    store'.endpointOf n = store.endpointOf n := by
  rw [GossipStore.endpointOf, hmap, Finmap.lookup_insert_of_ne _ h.symm]
  rfl

theorem addrsOf_insert_self {store store' : GossipStore C}
    (hmap : store'.map = store.map.insert e.key e) (h : e.key = (n, .endpoint)) :
    addrsOf store' n = e.endpointAddrs := by
  rw [addrsOf, GossipStore.endpointOf, hmap, ← h, Finmap.lookup_insert]
  rfl

/-- What the event of a filed entry does to the book at a node: only an entry of
the node touches it. -/
theorem book_eventOf_of_ne {store' : GossipStore C} (b : Book C) (h : e.node ≠ n) :
    (eventOf cfg.gossip store' e).toList.foldl Book.take b n = b n := by
  cases e with
  | endpoint node =>
      exact if_neg fun hk => h (NodePublicKey.toBase64_injective hk).symm
  | revocation node => exact if_neg (Ne.symm h)
  | member node =>
      simp only [eventOf]
      split_ifs
      · rfl
      · split
        · exact if_neg (Ne.symm h)
        · rfl

/-- An endpoint entry replaces the addresses of its node, if that is in the
book. -/
theorem book_eventOf_endpoint {store' : GossipStore C} (b : Book C) (he : e.key = (n, .endpoint)) :
    (eventOf cfg.gossip store' e).toList.foldl Book.take b n =
      (b n).map fun _ => e.endpointAddrs := by
  cases e with
  | endpoint node =>
      obtain rfl : node = n := congrArg Prod.fst he
      exact if_pos rfl
  | member => cases congrArg Prod.snd he
  | revocation => cases congrArg Prod.snd he

/-- A revocation strikes its node from the book. -/
theorem book_eventOf_revocation {store' : GossipStore C} (b : Book C)
    (he : e.key = (n, .revocation)) :
    (eventOf cfg.gossip store' e).toList.foldl Book.take b n = none := by
  cases e with
  | revocation node =>
      obtain rfl : node = n := congrArg Prod.fst he
      exact if_pos rfl
  | member => cases congrArg Prod.snd he
  | endpoint => cases congrArg Prod.snd he

/-- A member entry enters its node, without addresses, if that is not revoked and
has an address. -/
theorem book_eventOf_member (cfg : Config C) (store' : GossipStore C) (b : Book C)
    (he : e.key = (n, .member)) :
    (store'.isRevoked n = false ∧ (∃ a, deriveNodeAddr cfg.pre n = .ok a) ∧
      (eventOf cfg.gossip store' e).toList.foldl Book.take b n = some ((b n).getD [])) ∨
    ((store'.isRevoked n = true ∨ ¬∃ a, deriveNodeAddr cfg.pre n = .ok a) ∧
      (eventOf cfg.gossip store' e).toList.foldl Book.take b n = b n) := by
  cases e with
  | endpoint => cases congrArg Prod.snd he
  | revocation => cases congrArg Prod.snd he
  | member node =>
      obtain rfl : node = n := congrArg Prod.fst he
      simp only [eventOf]
      split_ifs with hr
      · exact Or.inr ⟨Or.inl hr, rfl⟩
      · split
        · rename_i a ha
          exact Or.inl ⟨by simpa using hr, ⟨a, ha⟩, if_pos rfl⟩
        · rename_i err herr
          refine Or.inr ⟨Or.inr ?_, rfl⟩
          rintro ⟨a, ha⟩
          cases herr.symm.trans ha

/-- The kinds of entries of a node, and the entries of others. -/
theorem key_cases (e : Entry C) (n : NodePublicKey C) :
    e.node ≠ n ∨ e.key = (n, .endpoint) ∨ e.key = (n, .member) ∨ e.key = (n, .revocation) := by
  by_cases hn : e.node = n
  · subst hn
    cases e with
    | endpoint => exact Or.inr (Or.inl rfl)
    | member => exact Or.inr (Or.inr (Or.inl rfl))
    | revocation => exact Or.inr (Or.inr (Or.inr rfl))
  · exact Or.inl hn

/-- **A tracked node stays tracked.** -/
theorem Tracked.hear (h : Tracked n σ) (cfg : Config C) (e : Entry C) :
    Tracked n (hear cfg σ e) := by
  rcases hear_cases cfg σ e with ⟨-, heq⟩ | ⟨store', -, hmap, heq⟩
  · rwa [heq]
  have hmem : ∀ {k}, k ∈ σ.1.map → k ∈ store'.map := fun hk => by
    rw [hmap, Finmap.mem_insert]
    exact Or.inr hk
  rw [heq]
  rcases key_cases e n with hn | he | he | he
  · have hkey : e.key ≠ (n, .endpoint) := fun hk => hn (congrArg Prod.fst hk)
    simp only [Tracked, book_eventOf_of_ne σ.2 hn, addrsOf, endpointOf_insert_of_ne hmap hkey]
    exact h.imp id fun h => ⟨h.1, hmem h.2⟩
  · simp only [Tracked, book_eventOf_endpoint σ.2 he]
    refine h.imp (fun h => ?_) fun h => ⟨by rw [h.1]; rfl, hmem h.2⟩
    rw [h, addrsOf_insert_self hmap he]
    rfl
  · have hkey : e.key ≠ (n, .endpoint) := fun hk => by cases he.symm.trans hk
    simp only [Tracked, addrsOf, endpointOf_insert_of_ne hmap hkey]
    rcases book_eventOf_member cfg store' σ.2 he with ⟨hrev, -, hb⟩ | ⟨-, hb⟩
    · rcases h with h | h
      · rw [hb, h]
        exact Or.inl rfl
      · exact absurd (hmem h.2) ((isRevoked_eq_false_iff _ _).1 hrev)
    · rw [hb]
      exact h.imp id fun h => ⟨h.1, hmem h.2⟩
  · refine Or.inr ⟨book_eventOf_revocation σ.2 he, ?_⟩
    rw [hmap, Finmap.mem_insert]
    exact Or.inl he.symm

theorem Tracked.inStep (h : Tracked n σ) (eps : List SocketAddrV6) (heps : σ.2 n = some eps) :
    eps = addrsOf σ.1 n := by
  rcases h with h | h
  · rw [h] at heps
    exact (Option.some.inj heps).symm
  · rw [h.1] at heps
    cases heps

theorem Tracked.run (h : Tracked n σ) (cfg : Config C) (es : List (Entry C)) :
    Tracked n (run (System.hear cfg) σ es) :=
  run_invariant (fun _ e h => h.hear cfg e) h es

/-- A node stays absent until a member entry of it comes. -/
theorem Absent.hear (h : Absent n σ) (cfg : Config C) (he : e.key ≠ (n, .member)) :
    Absent n (hear cfg σ e) := by
  rcases hear_cases cfg σ e with ⟨-, heq⟩ | ⟨store', -, hmap, heq⟩
  · rwa [heq]
  rw [heq]
  refine ⟨?_, ?_⟩
  · rcases key_cases e n with hn | he' | he' | he'
    · exact (book_eventOf_of_ne σ.2 hn).trans h.1
    · refine (book_eventOf_endpoint σ.2 he').trans ?_
      rw [h.1]
      rfl
    · exact absurd he' he
    · exact book_eventOf_revocation σ.2 he'
  · rw [hmap, Finmap.mem_insert, not_or]
    exact ⟨he.symm, h.2⟩

theorem Absent.run (h : Absent n σ) (cfg : Config C) {es : List (Entry C)}
    (hes : ∀ e ∈ es, e.key ≠ (n, .member)) : Absent n (run (System.hear cfg) σ es) :=
  Along.invariant (fun _ _ h he => h.hear cfg he) h (Along.of_forall hes σ)

/-- A node without an address is never admitted. -/
theorem book_hear_of_underivable (hb : σ.2 n = none)
    (ha : ¬∃ a, deriveNodeAddr cfg.pre n = .ok a) (e : Entry C) : (hear cfg σ e).2 n = none := by
  rcases hear_cases cfg σ e with ⟨-, heq⟩ | ⟨store', -, hmap, heq⟩
  · rwa [heq]
  rw [heq]
  rcases key_cases e n with hn | he | he | he
  · exact (book_eventOf_of_ne σ.2 hn).trans hb
  · refine (book_eventOf_endpoint σ.2 he).trans ?_
    rw [hb]
    rfl
  · rcases book_eventOf_member cfg store' σ.2 he with ⟨-, h, -⟩ | ⟨-, h⟩
    · exact absurd h ha
    · exact h.trans hb
  · exact book_eventOf_revocation σ.2 he

/-- A revoked node is not in the book. -/
theorem book_hear_of_revoked (h : (n, .revocation) ∈ σ.1.map → σ.2 n = none) (cfg : Config C)
    (e : Entry C) (hrev : (n, .revocation) ∈ (hear cfg σ e).1.map) :
    (hear cfg σ e).2 n = none := by
  rcases hear_cases cfg σ e with ⟨-, heq⟩ | ⟨store', -, hmap, heq⟩
  · rw [heq] at hrev ⊢
    exact h hrev
  rw [heq] at hrev ⊢
  have hold : e.key ≠ (n, .revocation) → σ.2 n = none := fun hne => by
    rw [hmap, Finmap.mem_insert] at hrev
    exact h (hrev.resolve_left hne.symm)
  rcases key_cases e n with hn | he | he | he
  · exact (book_eventOf_of_ne σ.2 hn).trans (hold fun hk => hn (congrArg Prod.fst hk))
  · refine (book_eventOf_endpoint σ.2 he).trans ?_
    rw [hold fun hk => by cases he.symm.trans hk]
    rfl
  · rcases book_eventOf_member cfg store' σ.2 he with ⟨hr, -, -⟩ | ⟨-, hb⟩
    · exact absurd hrev ((isRevoked_eq_false_iff _ _).1 hr)
    · exact hb.trans (hold fun hk => by cases he.symm.trans hk)
  · exact book_eventOf_revocation σ.2 he

/-- **A node behind `w` stays so**, unless it is revoked or an endpoint entry of it
that outranks `w` comes. -/
theorem Behind.hear (h : Behind w n σ) (cfg : Config C) (hrev : e.key ≠ (n, .revocation))
    (hend : e.key = (n, .endpoint) → isIgnored cfg.gossip e = false → ¬w.rank < e.rank) :
    Behind w n (hear cfg σ e) := by
  rcases hear_cases cfg σ e with ⟨-, heq⟩ | ⟨store', ht, hmap, heq⟩
  · rwa [heq]
  have hkey : e.key ≠ (n, .endpoint) := fun he =>
    hend he ht.1 (((σ.1.merge_eq_applied_iff e).1 ht.2).2.1 w (he ▸ h.2))
  rw [heq]
  refine ⟨?_, (endpointOf_insert_of_ne hmap hkey).trans h.2⟩
  rcases key_cases e n with hn | he | he | he
  · exact (book_eventOf_of_ne σ.2 hn).trans h.1
  · exact absurd he hkey
  · rcases book_eventOf_member cfg store' σ.2 he with ⟨-, -, hb⟩ | ⟨-, hb⟩
    · refine hb.trans ?_
      rw [h.1]
      rfl
    · exact hb.trans h.1
  · exact absurd he hrev

/-- **An endpoint entry that outranks `w` brings a node behind `w` in step.** -/
theorem Behind.tracked (h : Behind w n σ) (cfg : Config C) (he : e.key = (n, .endpoint))
    (hv : e.isValid = true) (hign : isIgnored cfg.gossip e = false) (hrank : w.rank < e.rank) :
    Tracked n (System.hear cfg σ e) := by
  have hw : σ.1.map.lookup e.key = some w := he ▸ h.2
  have htakes : Takes cfg.gossip σ.1 e := by
    refine ⟨hign, (σ.1.merge_eq_applied_iff e).2 ⟨hv, fun old hold => ?_, fun hnone => ?_⟩⟩
    · rw [hw] at hold
      exact Option.some.inj hold ▸ hrank
    · rw [hw] at hnone
      cases hnone
  rcases hear_cases cfg σ e with ⟨hnot, -⟩ | ⟨store', -, hmap, heq⟩
  · exact absurd htakes hnot
  · rw [heq]
    refine Or.inl ((book_eventOf_endpoint σ.2 he).trans ?_)
    rw [h.1, addrsOf_insert_self hmap he]
    rfl

/-- An endpoint entry of the node that `handle_datagram` merges. -/
def IsAddressOf (cfg : Config C) (n : NodePublicKey C) (e : Entry C) : Prop :=
  e.key = (n, .endpoint) ∧ isIgnored cfg.gossip e = false

theorem Behind.run (h : Behind w n σ) (cfg : Config C) {es : List (Entry C)}
    (hrev : ∀ e ∈ es, e.key ≠ (n, .revocation))
    (hes : ∀ e ∈ es, IsAddressOf cfg n e → ¬w.rank < e.rank) :
    Behind w n (run (System.hear cfg) σ es) := by
  have hok : Along (System.hear cfg) (fun _ e => e.key ≠ (n, .revocation) ∧
      (IsAddressOf cfg n e → ¬w.rank < e.rank)) σ es :=
    Along.of_forall (fun e he => ⟨hrev e he, hes e he⟩) σ
  exact Along.invariant (fun _ _ h he => h.hear cfg he.1 fun hk hi => he.2 ⟨hk, hi⟩) h hok

theorem Behind.run_tracked (h : Behind w n σ) (cfg : Config C) {es : List (Entry C)}
    (hvalid : ∀ e ∈ es, e.isValid = true) (hrev : ∀ e ∈ es, e.key ≠ (n, .revocation))
    (hes : ∃ e ∈ es, IsAddressOf cfg n e ∧ w.rank < e.rank) :
    Tracked n (Lib.run (System.hear cfg) σ es) := by
  induction es generalizing σ with
  | nil =>
      obtain ⟨e, he, -⟩ := hes
      cases he
  | cons e es ih =>
      rw [run_cons]
      by_cases he : IsAddressOf cfg n e ∧ w.rank < e.rank
      · exact (h.tracked cfg he.1.1 (hvalid e List.mem_cons_self) he.1.2 he.2).run cfg es
      · obtain ⟨e', he', hup⟩ := hes
        have hrest : e' ∈ es := by
          rcases List.mem_cons.1 he' with rfl | he'
          · exact absurd hup he
          · exact he'
        exact ih (h.hear cfg (hrev e List.mem_cons_self) fun hk hi hr => he ⟨⟨hk, hi⟩, hr⟩)
          (fun x hx => hvalid x (List.mem_cons_of_mem _ hx))
          (fun x hx => hrev x (List.mem_cons_of_mem _ hx)) ⟨e', hrest, hup⟩

/-- **The first member entry of a node that is not revoked and has an address**
enters it without addresses. -/
theorem Absent.entered (h : Absent n σ) (cfg : Config C) (he : e.key = (n, .member))
    (hv : e.isValid = true) (hroom : σ.1.len < maxStoreEntries)
    (ha : ∃ a, deriveNodeAddr cfg.pre n = .ok a) (hrev : (n, .revocation) ∉ σ.1.map) :
    (System.hear cfg σ e).2 n = some [] ∧
      (System.hear cfg σ e).1.endpointOf n = σ.1.endpointOf n := by
  have hnone : σ.1.map.lookup e.key = none := he ▸ Finmap.lookup_eq_none.2 h.2
  have hign : isIgnored cfg.gossip e = false :=
    isIgnored_of_kind ((show e.kind = .member from congrArg Prod.snd he) ▸ by decide)
  have htakes : Takes cfg.gossip σ.1 e := takes_of_fresh hv hign hnone hroom
  rcases hear_cases cfg σ e with ⟨hnot, -⟩ | ⟨store', -, hmap, heq⟩
  · exact absurd htakes hnot
  have hrev' : store'.isRevoked n = false := by
    rw [isRevoked_eq_false_iff, hmap, Finmap.mem_insert, not_or]
    exact ⟨fun hk => (by cases hk.trans he), hrev⟩
  rw [heq]
  constructor
  · rcases book_eventOf_member cfg store' σ.2 he with ⟨-, -, hb⟩ | ⟨hor, -⟩
    · refine hb.trans ?_
      rw [h.1]
      rfl
    · rcases hor with hr | hr
      · rw [hrev'] at hr
        cases hr
      · exact absurd ha hr
  · exact endpointOf_insert_of_ne hmap fun hk => (by cases he.symm.trans hk)

theorem store_run_hear (cfg : Config C) (σ : GossipStore C × Book C) (es : List (Entry C)) :
    (run (System.hear cfg) σ es).1 =
      σ.1.mergeAll (es.filter fun e => !isIgnored cfg.gossip e) := by
  induction es generalizing σ with
  | nil => rfl
  | cons e es ih =>
      rw [run_cons, ih, hear, snd_handleEntry]
      by_cases hi : isIgnored cfg.gossip e = true
      · simp [hi, GossipStore.mergeAll]
      · simp [hi, GossipStore.mergeAll]

/-- The store of a run summarizes the valid entries that it heard and that are not
ignored, as long as they fit. -/
theorem summarizes_run_hear (cfg : Config C) (b : Book C) {es : List (Entry C)}
    (hvalid : ∀ e ∈ es, e.isValid = true)
    (hcap : (es.map Entry.key).toFinset.card ≤ maxStoreEntries) :
    (run (System.hear cfg) (GossipStore.new, b) es).1.Summarizes
      {e | e ∈ es ∧ isIgnored cfg.gossip e = false} := by
  rw [store_run_hear]
  exact summarizes_mergeAll_filter cfg.gossip hvalid hcap

end OneNode

/-! ### When the order does not matter -/

/-- The entries before the first member entry of the node. -/
def early (n : NodePublicKey C) (es : List (Entry C)) : List (Entry C) :=
  es.takeWhile fun e => e.key ≠ (n, .member)

/-- The entries from the first member entry of the node on. -/
def late (n : NodePublicKey C) (es : List (Entry C)) : List (Entry C) :=
  es.dropWhile fun e => e.key ≠ (n, .member)

/-- Every endpoint entry of the node that came before its first member entry is
followed, after that one, by an endpoint entry that wins over it. -/
def Overtaken (cfg : Config C) (n : NodePublicKey C) (es : List (Entry C)) : Prop :=
  ∀ e ∈ early n es, IsAddressOf cfg n e →
    ∃ e' ∈ late n es, IsAddressOf cfg n e' ∧ lwwCompare e' e = .gt

section Final

variable {cfg : Config C} {n : NodePublicKey C} {b : Book C} {es : List (Entry C)}

/-- An endpoint entry that is not ignored has a usable address. -/
theorem endpointAddrs_ne_nil {w : Entry C} (hkey : w.key = (n, .endpoint))
    (hign : isIgnored cfg.gossip w = false) : w.endpointAddrs ≠ [] := by
  cases w with
  | endpoint => simpa [isIgnored] using (Bool.or_eq_false_iff.1 hign).2
  | member => cases congrArg Prod.snd hkey
  | revocation => cases congrArg Prod.snd hkey

/-- **A node behind an address entry** ends in step exactly when a later one overtakes it. -/
theorem Behind.inStep_iff {σ : GossipStore C × Book C} {w : Entry C} (h : Behind w n σ)
    (hw : IsAddressOf cfg n w) (hvalid : ∀ e ∈ es, e.isValid = true)
    (hrev : ∀ e ∈ es, e.key ≠ (n, .revocation)) :
    (∀ eps, (Lib.run (System.hear cfg) σ es).2 n = some eps →
      eps = addrsOf (Lib.run (System.hear cfg) σ es).1 n) ↔
        ∃ e ∈ es, IsAddressOf cfg n e ∧ w.rank < e.rank := by
  by_cases hup : ∃ e ∈ es, IsAddressOf cfg n e ∧ w.rank < e.rank
  · exact iff_of_true (h.run_tracked cfg hvalid hrev hup).inStep hup
  · have hfinal := h.run cfg hrev fun e he hadd hrank => hup ⟨e, he, hadd, hrank⟩
    refine iff_of_false (fun hin => ?_) hup
    have haddrs := hin [] hfinal.1
    rw [addrsOf, hfinal.2] at haddrs
    exact endpointAddrs_ne_nil hw.1 hw.2 haddrs.symm

/-- The early address entries are overtaken exactly when the best of them is. -/
theorem overtaken_iff_of_best (hvalid : ∀ e ∈ es, e.isValid = true) {m w : Entry C}
    {rest : List (Entry C)} (hlate : late n es = m :: rest) (hm : m.key = (n, .member))
    (hearly : w ∈ early n es) (hw : IsAddressOf cfg n w)
    (hbest : ∀ e ∈ early n es, IsAddressOf cfg n e → e.rank ≤ w.rank) :
    Overtaken cfg n es ↔ ∃ e ∈ rest, IsAddressOf cfg n e ∧ w.rank < e.rank := by
  have hvalidEarly : ∀ e ∈ early n es, e.isValid = true := fun e he =>
    hvalid e ((List.takeWhile_prefix _).subset he)
  have hvalidLate : ∀ e ∈ late n es, e.isValid = true := fun e he =>
    hvalid e ((List.dropWhile_suffix _).subset he)
  constructor
  · intro hover
    obtain ⟨e, he, hadd, hgt⟩ := hover w hearly hw
    rw [lwwCompare_eq_gt_iff (hvalidLate e he) (hvalidEarly w hearly)] at hgt
    rw [hlate] at he
    rcases List.mem_cons.1 he with rfl | he
    · cases hm.symm.trans hadd.1
    · exact ⟨e, he, hadd, hgt⟩
  · rintro ⟨e, he, hadd, hrank⟩ old hold haddOld
    have helate : e ∈ late n es := hlate ▸ List.mem_cons_of_mem _ he
    refine ⟨e, helate, hadd, ?_⟩
    rw [lwwCompare_eq_gt_iff (hvalidLate e helate) (hvalidEarly old hold)]
    exact lt_of_le_of_lt (hbest old hold haddOld) hrank

/-- The first member entry. -/
theorem exists_late_eq_cons (h : ∃ e ∈ es, e.key = (n, .member)) :
    ∃ m rest, late n es = m :: rest ∧ m.key = (n, .member) := by
  obtain ⟨e, he, hk⟩ := h
  cases hl : late n es with
  | nil =>
      have := List.dropWhile_eq_nil_iff.1 hl e he
      simp [hk] at this
  | cons m rest =>
      refine ⟨m, rest, rfl, ?_⟩
      have hhead := List.head?_dropWhile_not (fun e => decide (e.key ≠ (n, Kind.member))) es
      rw [show es.dropWhile (fun e => decide (e.key ≠ (n, Kind.member))) = m :: rest from hl]
        at hhead
      simpa using hhead

/-- The entries split at the first member entry of the node. -/
theorem eq_early_append {m : Entry C} {rest : List (Entry C)} (hlate : late n es = m :: rest) :
    es = early n es ++ m :: rest := by
  rw [← hlate]
  exact List.takeWhile_append_dropWhile.symm

/-- What was heard before the first member entry of a node that is not in the table:
the store holds the best of it, and the node is still absent. -/
theorem heard_early (cfg : Config C) (hb : b n = none) (hvalid : ∀ e ∈ es, e.isValid = true)
    (hcap : (es.map Entry.key).toFinset.card ≤ maxStoreEntries) :
    let σ := run (hear cfg) (GossipStore.new, b) (early n es)
    Absent n σ ∧ σ.1.Summarizes {e | e ∈ early n es ∧ isIgnored cfg.gossip e = false} := by
  have hmem : ∀ e ∈ early n es, e ∈ es := fun e he => (List.takeWhile_prefix _).subset he
  constructor
  · refine Absent.run ⟨hb, Finmap.notMem_empty⟩ cfg fun e he => ?_
    simpa using List.mem_takeWhile_imp he
  · refine summarizes_run_hear cfg b (fun e he => hvalid e (hmem e he))
      (le_trans (Finset.card_le_card fun k hk => ?_) hcap)
    obtain ⟨e, he, rfl⟩ := List.mem_map.1 (List.mem_toFinset.1 hk)
    exact List.mem_toFinset.2 (List.mem_map_of_mem (hmem e he))

/-- **The first member entry lets the node in**, with no addresses whatever the store
holds of it. -/
theorem heard_member (cfg : Config C) (hb : b n = none) (hvalid : ∀ e ∈ es, e.isValid = true)
    (hcap : (es.map Entry.key).toFinset.card ≤ maxStoreEntries)
    (ha : ∃ a, deriveNodeAddr cfg.pre n = .ok a) (hrev : ∀ e ∈ es, e.key ≠ (n, .revocation))
    {m : Entry C} {rest : List (Entry C)} (hlate : late n es = m :: rest)
    (hm : m.key = (n, .member)) :
    let σ := run (hear cfg) (GossipStore.new, b) (early n es)
    (hear cfg σ m).2 n = some [] ∧ (hear cfg σ m).1.endpointOf n = σ.1.endpointOf n := by
  intro σ
  obtain ⟨habsent, hsum⟩ := heard_early cfg hb hvalid hcap
  have hsplit := eq_early_append hlate
  have hearly : ∀ e ∈ early n es, e ∈ es := fun e he => (List.takeWhile_prefix _).subset he
  have hmes : m ∈ es := by
    rw [hsplit]
    exact List.mem_append_right _ List.mem_cons_self
  have hroom : σ.1.len < maxStoreEntries := by
    refine hsum.room hcap (fun e he => ?_) (e := m) ?_ (hm ▸ Finmap.lookup_eq_none.2 habsent.2)
    · exact List.mem_toFinset.2 (List.mem_map_of_mem (hearly e he.1))
    · exact List.mem_toFinset.2 (List.mem_map_of_mem hmes)
  have hnot : (n, Kind.revocation) ∉ σ.1.map := by
    rw [← Finmap.mem_keys, hsum.mem_keys_iff]
    rintro ⟨e, he, hk⟩
    exact hrev e (hearly e he.1) hk
  exact habsent.entered cfg hm (hvalid m hmes) hroom ha hnot

/-- **A node that is admitted during the run** ends in step with the store exactly
when its early endpoint entries are overtaken. -/
theorem inStep_iff_of_admitted (hb : b n = none) (hvalid : ∀ e ∈ es, e.isValid = true)
    (hcap : (es.map Entry.key).toFinset.card ≤ maxStoreEntries)
    (ha : ∃ a, deriveNodeAddr cfg.pre n = .ok a) (hmember : ∃ e ∈ es, e.key = (n, .member))
    (hrev : ∀ e ∈ es, e.key ≠ (n, .revocation)) :
    let σ := run (hear cfg) (GossipStore.new, b) es
    (∀ eps, σ.2 n = some eps → eps = addrsOf σ.1 n) ↔ Overtaken cfg n es := by
  intro σ
  obtain ⟨m, rest, hlate, hm⟩ := exists_late_eq_cons hmember
  have hsplit := eq_early_append hlate
  have hrest : ∀ e ∈ rest, e ∈ es := fun e he => by
    rw [hsplit]
    exact List.mem_append_right _ (List.mem_cons_of_mem _ he)
  -- the state when the member entry comes
  set σ₁ := run (hear cfg) (GossipStore.new, b) (early n es) with hσ₁
  obtain ⟨-, hsum⟩ := heard_early cfg hb hvalid hcap
  obtain ⟨hbook, hend⟩ := heard_member cfg hb hvalid hcap ha hrev hlate hm
  rw [← hσ₁] at hsum hbook hend
  have hσ : σ = run (hear cfg) (hear cfg σ₁ m) rest := by
    change run (hear cfg) (GossipStore.new, b) es = _
    rw [hsplit, run_append]
    rfl
  have hvalid' : ∀ e ∈ rest, e.isValid = true := fun e he => hvalid e (hrest e he)
  have hrev' : ∀ e ∈ rest, e.key ≠ (n, .revocation) := fun e he => hrev e (hrest e he)
  cases hw : σ₁.1.endpointOf n with
  | none =>
      -- nothing was told before: the node starts in step
      refine iff_of_true (Tracked.inStep ?_) fun e he hadd => ?_
      · rw [hσ]
        refine Tracked.run (Or.inl ?_) cfg rest
        rw [hbook, addrsOf, hend, hw]
        rfl
      · obtain ⟨w, hw', -⟩ := hsum.top e ⟨he, hadd.2⟩
        rw [hadd.1] at hw'
        exact absurd (hw.symm.trans hw') (by simp)
  | some w =>
      have hbehind : Behind w n (hear cfg σ₁ m) := ⟨hbook, hend.trans hw⟩
      obtain ⟨⟨hearly, hign⟩, hkey⟩ := hsum.held _ w hw
      have hbest : ∀ e ∈ early n es, IsAddressOf cfg n e → e.rank ≤ w.rank := by
        intro e he hadd
        obtain ⟨w', hw', hle⟩ := hsum.top e ⟨he, hadd.2⟩
        rw [hadd.1, show σ₁.1.map.lookup (n, Kind.endpoint) = some w from hw] at hw'
        exact Option.some.inj hw' ▸ hle
      rw [hσ, hbehind.inStep_iff ⟨hkey, hign⟩ hvalid' hrev',
        overtaken_iff_of_best hvalid hlate hm hearly ⟨hkey, hign⟩ hbest]

/-- **A node ends in step with the store** exactly when it was there from the
start, never stood in the table at the end, or its early endpoint entries are
overtaken. -/
theorem inStep_iff (hb : b n = none ∨ b n = some []) (hvalid : ∀ e ∈ es, e.isValid = true)
    (hcap : (es.map Entry.key).toFinset.card ≤ maxStoreEntries) :
    let σ := run (hear cfg) (GossipStore.new, b) es
    (∀ eps, σ.2 n = some eps → eps = addrsOf σ.1 n) ↔
      (b n = none → (∃ a, deriveNodeAddr cfg.pre n = .ok a) → (∃ e ∈ es, e.key = (n, .member)) →
        (∀ e ∈ es, e.key ≠ (n, .revocation)) → Overtaken cfg n es) := by
  intro σ
  have hout : σ.2 n = none → ∀ eps, σ.2 n = some eps → eps = addrsOf σ.1 n := by
    intro h eps heps
    rw [h] at heps
    cases heps
  rcases hb with hb | hb
  · by_cases ha : ∃ a, deriveNodeAddr cfg.pre n = .ok a
    · by_cases hmember : ∃ e ∈ es, e.key = (n, .member)
      · by_cases hrev : ∀ e ∈ es, e.key ≠ (n, .revocation)
        · exact (inStep_iff_of_admitted hb hvalid hcap ha hmember hrev).trans
            ⟨fun h _ _ _ _ => h, fun h => h hb ha hmember hrev⟩
        · refine iff_of_true (hout ?_) fun _ _ _ h => absurd h hrev
          have hheld : (n, Kind.revocation) ∈ σ.1.map := by
            have hsum : σ.1.Summarizes _ := summarizes_run_hear cfg b hvalid hcap
            rw [← Finmap.mem_keys, hsum.mem_keys_iff]
            push Not at hrev
            obtain ⟨e, he, hk⟩ := hrev
            have hkind : e.kind = .revocation := congrArg Prod.snd hk
            exact ⟨e, ⟨he, isIgnored_of_kind (hkind ▸ by decide)⟩, hk⟩
          exact run_invariant
            (P := fun σ : GossipStore C × Book C => (n, .revocation) ∈ σ.1.map → σ.2 n = none)
            (fun _ e h => book_hear_of_revoked h cfg e) (fun _ => hb) es hheld
      · refine iff_of_true (hout ?_) fun _ _ h => absurd h hmember
        refine (Absent.run ⟨hb, Finmap.notMem_empty⟩ cfg fun e he hk => ?_).1
        exact hmember ⟨e, he, hk⟩
    · refine iff_of_true (hout ?_) fun _ h => absurd h ha
      exact run_invariant (P := fun σ : GossipStore C × Book C => σ.2 n = none)
        (fun _ e h => book_hear_of_underivable h ha e) hb es
  · refine iff_of_true ?_ fun h => absurd (h.symm.trans hb) (by simp)
    exact (Tracked.run (Or.inl hb) cfg es).inStep

/-! ### The daemon -/

/-- For every peer in the table, the endpoints from gossip are the addresses that
the store holds of it. -/
def InStep (s : System C) : Prop :=
  ∀ node, ∀ p ∈ s.daemon.peers, p.keyB64 = node.toBase64 →
    p.gossipEndpoints = addrsOf s.store node

theorem inStep_iff_book {s : System C} (hnodup : s.daemon.keys.Nodup) :
    s.InStep ↔ ∀ n eps, s.daemon.book n = some eps → eps = addrsOf s.store n := by
  constructor
  · intro h n eps heps
    obtain ⟨p, hp, rfl⟩ := Option.map_eq_some_iff.1 heps
    exact h n p (List.mem_of_find?_eq_some hp) (by simpa using List.find?_some hp)
  · intro h n p hp hkey
    refine h n _ ?_
    rw [Daemon.book, ← hkey, Daemon.peer_of_mem hnodup hp]
    rfl

/-- At startup nothing has been told. -/
theorem discovered_boot {cfg : Config C} {u : Startup} {p : PeerRuntime C}
    (hp : p ∈ (boot cfg u).daemon.peers) : p.discovered = [] := by
  have hmem : (p.keyB64, p.discovered) ∈
      Daemon.ledger (startupPeers cfg u.cache u.members u.start) := by
    rw [← Daemon.ledger_kickPeers u.cache u.now u.clocks]
    exact List.mem_map_of_mem hp
  obtain ⟨q, hq, hqp⟩ := List.mem_map.1 hmem
  have hsame : q.discovered = p.discovered := congrArg Prod.snd hqp
  rw [← hsame]
  exact (entering_of_mem_startupPeers hq).discovered

/-- At startup no peer has endpoints from gossip. -/
theorem book_boot (cfg : Config C) {u : Startup} (hw : MembersFile.Written C u.members)
    (n : NodePublicKey C) :
    (n ∈ initial cfg u ∧ (boot cfg u).daemon.book n = some []) ∨
      (n ∉ initial cfg u ∧ (boot cfg u).daemon.book n = none) := by
  have hkeys : n ∈ initial cfg u ↔ n.toBase64 ∈ (boot cfg u).daemon.keys := by
    rw [keys_boot]
    exact (mem_keys_startup hw).symm
  cases hp : (boot cfg u).daemon.peer n.toBase64 with
  | none =>
      refine Or.inr ⟨fun h => Daemon.peer_eq_none_iff.1 hp (hkeys.1 h), ?_⟩
      rw [Daemon.book, hp]
      rfl
  | some p =>
      refine Or.inl ⟨hkeys.2 ?_, ?_⟩
      · by_contra hnot
        rw [Daemon.peer_eq_none_iff.2 hnot] at hp
        cases hp
      · rw [Daemon.book, hp, Option.map_some, PeerRuntime.gossipEndpoints,
          discovered_boot (List.mem_of_find?_eq_some hp)]
        rfl

/-- The daemon is in step when the fold over the entries is. -/
theorem inStep_after_iff (cfg : Config C) {u : Startup} (hw : MembersFile.Written C u.members)
    {is : List Input} (his : ∀ i ∈ is, IsGossip i)
    (hdone : (after cfg (boot cfg u) is).queue = []) :
    let σ := run (hear cfg) (GossipStore.new, (boot cfg u).daemon.book) (delivered cfg is)
    (after cfg (boot cfg u) is).InStep ↔ ∀ n eps, σ.2 n = some eps → eps = addrsOf σ.1 n := by
  intro σ
  have hsound : ∀ js, Sound Set.univ (after cfg (boot cfg u) js) := fun js =>
    Sound.after cfg u hw (fun _ _ => Set.mem_univ _) (fun _ _ => Set.mem_univ _)
      fun _ _ _ _ _ _ => Set.mem_univ _
  have hrun := book_run cfg (hsound []) (fun x hx => by cases hx) his
  have hbook : (after cfg (boot cfg u) is).daemon.book = σ.2 := by
    refine Eq.trans ?_ (congrArg Prod.snd hrun)
    rw [bookLeft, show (after cfg (after cfg (boot cfg u) []) is).queue = [] from hdone]
    rfl
  have hstore : (after cfg (boot cfg u) is).store = σ.1 := congrArg Prod.fst hrun
  rw [inStep_iff_book (hsound is).keys_nodup, hbook, hstore]

/-- **When discovery does not depend on the order of delivery.**  After any
interleaving of datagrams and of the taking of their events, with the channel
drained, the endpoints from gossip of every peer are those the store holds of it
exactly when, for every node that was admitted during the run, the endpoint
entries before its first member entry are overtaken by later ones. -/
theorem gossip_addresses_in_step_iff (cfg : Config C) (u : Startup)
    (hw : MembersFile.Written C u.members) (is : List Input) (his : ∀ i ∈ is, IsGossip i)
    (hcap : ((delivered cfg is).map Entry.key).toFinset.card ≤ maxStoreEntries)
    (hdone : (after cfg (boot cfg u) is).queue = []) :
    (after cfg (boot cfg u) is).InStep ↔
      ∀ node, node ∉ initial cfg u → (∃ a, deriveNodeAddr cfg.pre node = .ok a) →
        (∃ e ∈ delivered cfg is, e.key = (node, .member)) →
        (∀ e ∈ delivered cfg is, e.key ≠ (node, .revocation)) →
        Overtaken cfg node (delivered cfg is) := by
  refine (inStep_after_iff cfg hw his hdone).trans (forall_congr' fun n => ?_)
  have hboot := book_boot cfg hw n
  refine (inStep_iff (hboot.symm.imp And.right And.right)
    (fun _ he => isValid_of_mem_delivered he) hcap).trans ?_
  rcases hboot with ⟨hin, hb⟩ | ⟨hout, hb⟩
  · exact iff_of_true (fun h => absurd (h.symm.trans hb) (by simp)) fun h => absurd hin h
  · exact ⟨fun h _ => h hb, fun h _ => h hout⟩

end Final

/-! ### Two orders -/

/-- Node 2 announces itself. -/
def announceTwo : Datagram := Datagram.ofEntry plainPrefix (.plainEndpoint (plainKey 2 0) 5)

theorem accepted_announceTwo :
    announceTwo.accepted plainOpenConfig = some (.plainEndpoint (plainKey 2 0) 5) :=
  Datagram.accepted_ofEntry plainOpenConfig (Entry.isValid_plainEndpoint (plainKey 2 0) 5) rfl

theorem isGossip_twoThenTake (d d' : Datagram) : ∀ i ∈ twoThenTake d d', IsGossip i := by
  simp [twoThenTake, IsGossip]

/-- First the member entry of node 2, then its endpoint entry: the daemon knows the
address. -/
theorem gossip_addresses_in_step_admitted_first :
    (after plainConfig (boot plainConfig plainStartup)
      (twoThenTake (admission (plainKey 2 0)) announceTwo)).InStep := by
  have hdelivered := delivered_twoThenTake accepted_admission_two accepted_announceTwo
  refine (gossip_addresses_in_step_iff plainConfig plainStartup .new _
    (isGossip_twoThenTake _ _) ?_ (queue_twoThenTake ..)).2 fun node _ _ hmember _ => ?_
  · rw [hdelivered]
    exact (List.toFinset_card_le _).trans (by simp [maxStoreEntries])
  · rw [hdelivered] at hmember ⊢
    intro e he
    obtain rfl : node = plainKey 2 0 := by
      obtain ⟨m, hm, hk⟩ := hmember
      rcases List.mem_pair.1 hm with rfl | rfl
      · exact (congrArg Prod.fst hk).symm
      · cases congrArg Prod.snd hk
    rw [early, List.takeWhile_cons_of_neg (by simp [Entry.plainMember, Entry.key, Entry.kind,
      Entry.node])] at he
    cases he

/-- **First the endpoint entry of node 2, then its member entry**: the events are
taken, and the daemon does not know the address that the store holds. -/
theorem gossip_address_lost :
    let s := after plainConfig (boot plainConfig plainStartup)
      (twoThenTake announceTwo (admission (plainKey 2 0)))
    s.queue = [] ∧ ¬s.InStep := by
  refine ⟨queue_twoThenTake .., fun h => ?_⟩
  have hdelivered := delivered_twoThenTake accepted_announceTwo accepted_admission_two
  have hnew : MembersFile.Written Crypto.plain plainStartup.members := .new
  have hout : plainKey 2 0 ∉ initial plainConfig plainStartup := by
    have hne : plainKey 2 0 ≠ plainKey 1 0 := plainKey_ne (by omega) (by omega) (by omega) 0 0
    simp [initial, plainStartup, Startup.members, Config.keys, plainConfig, plainPeer,
      NodePublicKey.toBase64_inj, hne]
  have hb : (boot plainConfig plainStartup).daemon.book (plainKey 2 0) = none :=
    ((book_boot plainConfig hnew (plainKey 2 0)).resolve_left fun h => hout h.1).2
  have hfold := (inStep_after_iff plainConfig hnew (isGossip_twoThenTake _ _)
    (queue_twoThenTake ..)).1 h
  rw [hdelivered] at hfold
  have hkind : ∀ e ∈ [Entry.plainEndpoint (plainKey 2 0) 5,
      Entry.plainMember (plainKey 2 0) (plainKey 9 0) 5], e.key ≠ (plainKey 2 0, .revocation) := by
    intro e he hk
    rcases List.mem_pair.1 he with rfl | rfl
    · cases congrArg Prod.snd hk
    · cases congrArg Prod.snd hk
  have hvalid : ∀ e ∈ [Entry.plainEndpoint (plainKey 2 0) 5,
      Entry.plainMember (plainKey 2 0) (plainKey 9 0) 5], e.isValid = true := by
    rw [← hdelivered]
    exact fun e he => isValid_of_mem_delivered he
  have hover := (inStep_iff_of_admitted hb hvalid
    ((List.toFinset_card_le _).trans (by simp [maxStoreEntries]))
    ⟨_, deriveNodeAddr_plainKey plainPrefix (by omega) (by omega) 0⟩
    ⟨_, List.mem_cons_of_mem _ List.mem_cons_self, rfl⟩ hkind).1 (hfold (plainKey 2 0))
  have hign : isIgnored plainConfig.gossip (.plainEndpoint (plainKey 2 0) 5) = false :=
    isIgnored_plainEndpoint (plainKey_ne (by omega) (by omega) (by omega) 0 0) 5
  obtain ⟨e', he', hadd, -⟩ := hover (.plainEndpoint (plainKey 2 0) 5)
    (by simp [early, Entry.plainEndpoint, Entry.plainMember, Entry.key, Entry.kind, Entry.node])
    ⟨rfl, hign⟩
  have hlate : late (plainKey 2 0) [Entry.plainEndpoint (plainKey 2 0) 5,
      Entry.plainMember (plainKey 2 0) (plainKey 9 0) 5] =
      [Entry.plainMember (plainKey 2 0) (plainKey 9 0) 5] := by
    simp [late, Entry.plainEndpoint, Entry.plainMember, Entry.key, Entry.kind, Entry.node]
  rw [hlate, List.mem_singleton] at he'
  subst he'
  cases congrArg Prod.snd hadd.1

end System

end Hextet
