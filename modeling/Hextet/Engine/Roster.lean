/-
# The set of runtime peers does not depend on the order of delivery

`handle_datagram` in `crates/engine/src/gossip.rs` and `on_membership_event` in
`crates/engine/src/daemon.rs`.  Member and revocation entries live under different
keys of the store, stale ones are swallowed, and a node is admitted on the edge of
an applied merge; yet the table ends as if the entries had been read as a set.

A `Roster` is who is in the two tables, and what an event does to it.  Events in
flight make the tables lag behind the store, so the invariant is about the roster
that is left when the channel has been drained (`System.settled`): only a datagram
moves it (`settled_step`), and it is a function of the store alone
(`settled_after`).  What the store holds is a matter of the set of entries
delivered, as long as they fit (`mem_store_after`).
-/

import Hextet.Engine.Revocation

namespace Hextet

open Lib

variable {C : Crypto}

/-! ### Rosters -/

/-- Who is in the runtime table and in the member table. -/
@[ext]
structure Roster (C : Crypto) where
  peers : Set (NodePublicKey C)
  members : Set (NodePublicKey C)

/-- What an event does to the roster. -/
def Roster.take (r : Roster C) : GossipEvent C → Roster C
  | .discovered _ => r
  | .memberAdmitted node _ _ => ⟨insert node r.peers, r.members ∪ ({node} \ r.peers)⟩
  | .revoked node => ⟨r.peers \ {node}, r.members \ {node}⟩

/-- The roster of a daemon. -/
def Daemon.roster (d : Daemon C) : Roster C :=
  ⟨{node | node.toBase64 ∈ d.keys}, {node | node.toBase64 ∈ d.members.keys}⟩

theorem Daemon.roster_congr {d d' : Daemon C} (hkeys : d'.keys = d.keys)
    (hmembers : d'.members = d.members) : d'.roster = d.roster := by
  rw [roster, roster, hkeys, hmembers]

theorem Daemon.roster_of_quiet {d : Daemon C} {r : Daemon C × List (Effect C)} (h : d.Quiet r) :
    r.1.roster = d.roster :=
  roster_congr h.keys h.members

/-- **The gossip branch of the daemon acts on the roster as the event does**, when
the table holds no key twice. -/
theorem Daemon.roster_onGossip {d : Daemon C} (hnodup : d.keys.Nodup) (ctx : Ctx) (clock : Clock)
    (x : GossipEvent C) : (d.onGossip ctx clock x).1.roster = d.roster.take x := by
  cases x with
  | discovered update => exact roster_of_quiet (d.quiet_onDiscovered update clock)
  | memberAdmitted node name address =>
      by_cases hmem : node.toBase64 ∈ d.keys
      · have hsame := d.onMemberAdmitted_of_mem ctx node name address (clock 0) hmem
        have hin : node ∈ d.roster.peers := hmem
        rw [onGossip, hsame, Roster.take, Set.insert_eq_of_mem hin,
          Set.sdiff_eq_empty.2 (Set.singleton_subset_iff.2 hin), Set.union_empty]
      · have henters := d.enters_onMemberAdmitted ctx node name address (clock 0) hmem
        have hout : node ∉ d.roster.peers := hmem
        ext n
        · simp [onGossip, roster, Roster.take, henters.keys, NodePublicKey.toBase64_inj, or_comm]
        · simp only [onGossip, roster, henters.members, MembersFile.mem_keys_upsert, Roster.take,
            NodePublicKey.toBase64_inj, Set.mem_ofPred_eq, Set.mem_union, Set.mem_sdiff,
            Set.mem_singleton_iff]
          exact or_congr Iff.rfl ⟨fun h => ⟨h, h ▸ hout⟩, And.left⟩
  | revoked node =>
      have hleaves := d.leaves_onRevoked node
      ext n
      · simp only [onGossip, roster, hleaves.keys, hnodup.mem_erase_iff, Roster.take, ne_eq,
          NodePublicKey.toBase64_inj, Set.mem_ofPred_eq, Set.mem_sdiff, Set.mem_singleton_iff]
        exact and_comm
      · simp [onGossip, roster, hleaves.members, MembersFile.mem_keys_remove, Roster.take,
          NodePublicKey.toBase64_inj]

namespace System

variable {cfg : Config C} {s : System C}

/-! ### The drained channel -/

/-- The roster that is left when the events in flight have been taken. -/
def settled (s : System C) : Roster C := s.queue.foldl Roster.take s.daemon.roster

/-- **Only a datagram moves the settled roster**, by its event. -/
theorem settled_step (cfg : Config C) (hnodup : s.daemon.keys.Nodup) (i : Input) :
    (∃ d, i = .datagram d ∧ (s.step cfg i).store = (handleDatagram cfg.gossip s.store d).2 ∧
      (s.step cfg i).settled =
        (handleDatagram cfg.gossip s.store d).1.toList.foldl Roster.take s.settled) ∨
    ((∀ d, i ≠ .datagram d) ∧ (s.step cfg i).store = s.store ∧
      (s.step cfg i).settled = s.settled) := by
  cases i with
  | datagram d =>
      refine Or.inl ⟨d, rfl, rfl, ?_⟩
      rw [settled, step_datagram, List.foldl_append]
      rfl
  | discovered update clock =>
      refine Or.inr ⟨by simp, rfl, congrArg (s.queue.foldl Roster.take) ?_⟩
      exact Daemon.roster_of_quiet (s.daemon.quiet_onDiscovered update clock)
  | relay done now clock =>
      refine Or.inr ⟨by simp, rfl, congrArg (s.queue.foldl Roster.take) ?_⟩
      exact Daemon.roster_of_quiet (s.daemon.quiet_onRelayRegistered done now clock)
  | tick statuses now ts =>
      refine Or.inr ⟨by simp, rfl, congrArg (s.queue.foldl Roster.take) ?_⟩
      exact Daemon.roster_of_quiet (s.daemon.quiet_tickOnce statuses now ts)
  | kick now clocks =>
      refine Or.inr ⟨by simp, rfl, congrArg (s.queue.foldl Roster.take) ?_⟩
      exact Daemon.roster_of_quiet (s.daemon.quiet_onKick now clocks)
  | gossip clock saved =>
      refine Or.inr ⟨by simp, ?_⟩
      cases hq : s.queue with
      | nil => simp [step, hq]
      | cons x rest =>
          simp only [step, hq, settled, perform, List.foldl_cons, true_and]
          rw [Daemon.roster_onGossip hnodup]

/-! ### What the store says -/

/-- A member entry of the node is held, and the node has an address. -/
def Admissible (cfg : Config C) (store : GossipStore C) (node : NodePublicKey C) : Prop :=
  (node, .member) ∈ store.map ∧ ∃ a, deriveNodeAddr cfg.pre node = .ok a

/-- The nodes that a store leaves in the table, from given ones at startup. -/
def standing (cfg : Config C) (init : Set (NodePublicKey C)) (store : GossipStore C) :
    Set (NodePublicKey C) :=
  {node | (node ∈ init ∨ Admissible cfg store node) ∧ store.isRevoked node = false}

/-- A roster whose members are the peers that are not configured. -/
def rosterOf (cfg : Config C) (peers : Set (NodePublicKey C)) : Roster C :=
  ⟨peers, peers \ {node | node.toBase64 ∈ cfg.keys}⟩

theorem take_memberAdmitted_rosterOf {peers : Set (NodePublicKey C)} {node : NodePublicKey C}
    (h : node.toBase64 ∈ cfg.keys → node ∈ peers) (name : String) (address : Ipv6Addr) :
    (rosterOf cfg peers).take (.memberAdmitted node name address) =
      rosterOf cfg (insert node peers) := by
  ext n
  · rfl
  · simp only [rosterOf, Roster.take, Set.mem_union, Set.mem_sdiff, Set.mem_ofPred_eq,
      Set.mem_singleton_iff, Set.mem_insert_iff]
    grind

theorem take_revoked_rosterOf (peers : Set (NodePublicKey C)) (node : NodePublicKey C) :
    (rosterOf cfg peers).take (.revoked node) = rosterOf cfg (peers \ {node}) := by
  ext n
  · rfl
  · simp only [rosterOf, Roster.take, Set.mem_sdiff, Set.mem_ofPred_eq, Set.mem_singleton_iff]
    tauto

theorem isRevoked_eq_false_iff (store : GossipStore C) (node : NodePublicKey C) :
    store.isRevoked node = false ↔ (node, Kind.revocation) ∉ store.map := by
  rw [← GossipStore.isRevoked_iff, Bool.not_eq_true]

section Filing

variable {store store' : GossipStore C} {init : Set (NodePublicKey C)}

/-- Who stands after an entry was filed. -/
theorem mem_standing_insert {e : Entry C} (hmap : store'.map = store.map.insert e.key e)
    (n : NodePublicKey C) :
    n ∈ standing cfg init store' ↔
      (n ∈ init ∨ (n = e.node ∧ .member = e.kind ∨ (n, .member) ∈ store.map) ∧
        ∃ a, deriveNodeAddr cfg.pre n = .ok a) ∧
      ¬(n = e.node ∧ .revocation = e.kind) ∧ (n, .revocation) ∉ store.map := by
  simp only [standing, Admissible, isRevoked_eq_false_iff, Set.mem_ofPred_eq, hmap,
    Finmap.mem_insert, Entry.key, Prod.mk.injEq, not_or]

theorem mem_standing (store : GossipStore C) (n : NodePublicKey C) :
    n ∈ standing cfg init store ↔
      (n ∈ init ∨ (n, .member) ∈ store.map ∧ ∃ a, deriveNodeAddr cfg.pre n = .ok a) ∧
        (n, .revocation) ∉ store.map := by
  simp only [standing, Admissible, isRevoked_eq_false_iff, Set.mem_ofPred_eq]

/-- **The event of an entry that was filed moves the roster to the nodes that now
stand.** -/
theorem take_eventOf (hinit : ∀ node : NodePublicKey C, node.toBase64 ∈ cfg.keys → node ∈ init)
    {e : Entry C} (hmap : store'.map = store.map.insert e.key e) :
    (eventOf cfg.gossip store' e).toList.foldl Roster.take
        (rosterOf cfg (standing cfg init store)) =
      rosterOf cfg (standing cfg init store') := by
  cases e with
  | endpoint =>
      refine congrArg (rosterOf cfg) (Set.ext fun n => ?_)
      simp [mem_standing_insert hmap, mem_standing, Entry.kind]
  | revocation node =>
      refine (take_revoked_rosterOf _ node).trans (congrArg (rosterOf cfg) (Set.ext fun n => ?_))
      simp only [mem_standing_insert hmap, mem_standing, Entry.kind, Entry.node, Set.mem_sdiff,
        Set.mem_singleton_iff, reduceCtorEq, and_false, false_or, and_true]
      tauto
  | member node name =>
      have hrev : store'.isRevoked node = false ↔ (node, Kind.revocation) ∉ store.map := by
        rw [isRevoked_eq_false_iff, hmap, Finmap.mem_insert]
        simp [Entry.key, Entry.kind]
      have hstands : ∀ n, n ∈ standing cfg init store' ↔
          (n ∈ init ∨ (n = node ∨ (n, Kind.member) ∈ store.map) ∧
            ∃ a, deriveNodeAddr cfg.pre n = .ok a) ∧ (n, Kind.revocation) ∉ store.map := by
        intro n
        simp [mem_standing_insert hmap, Entry.kind, Entry.node]
      simp only [eventOf]
      split_ifs with hr
      · -- revoked before: the entry is filed and nobody enters
        refine congrArg (rosterOf cfg) (Set.ext fun n => ?_)
        rw [hstands, mem_standing]
        have hin : (node, Kind.revocation) ∈ store.map := by
          by_contra hnot
          rw [hrev.2 hnot] at hr
          cases hr
        grind
      · have hnot := hrev.1 (by simpa using hr)
        split
        · rename_i a ha
          refine (take_memberAdmitted_rosterOf (fun hcfg => ?_) name a.address).trans
            (congrArg (rosterOf cfg) (Set.ext fun n => ?_))
          · exact (mem_standing store node).2 ⟨Or.inl (hinit node hcfg), hnot⟩
          · have hok : ∃ a, deriveNodeAddr cfg.pre node = .ok a := ⟨a, ha⟩
            rw [hstands, Set.mem_insert_iff, mem_standing]
            grind
        · rename_i err herr
          refine congrArg (rosterOf cfg) (Set.ext fun n => ?_)
          have hok : ¬∃ a, deriveNodeAddr cfg.pre node = .ok a := by
            rintro ⟨a, ha⟩
            cases herr.symm.trans ha
          rw [hstands, mem_standing]
          grind

end Filing

/-- The nodes in the table at startup: the configured ones and the members of the
file. -/
def initial (cfg : Config C) (u : Startup) : Set (NodePublicKey C) :=
  {node | node.toBase64 ∈ cfg.keys ∨ node.toBase64 ∈ u.members.keys}

theorem roster_boot {u : Startup} (hw : MembersFile.Written C u.members)
    (hdisj : ∀ k ∈ cfg.keys, k ∉ u.members.keys) :
    (boot cfg u).daemon.roster = rosterOf cfg (initial cfg u) := by
  refine Roster.ext (Set.ext fun n => ?_) (Set.ext fun n => ?_)
  · rw [Daemon.roster, keys_boot]
    exact mem_keys_startup hw
  · have hmem := hdisj n.toBase64
    simp only [rosterOf, initial, Set.mem_sdiff, Set.mem_ofPred_eq]
    change n.toBase64 ∈ u.members.keys ↔ _
    tauto

/-- **The settled roster is a function of the store**, in every state of a run. -/
theorem settled_after {u : Startup} (hw : MembersFile.Written C u.members)
    (hdisj : ∀ k ∈ cfg.keys, k ∉ u.members.keys) (is : List Input) :
    (after cfg (boot cfg u) is).settled =
      rosterOf cfg (standing cfg (initial cfg u) (after cfg (boot cfg u) is).store) := by
  refine (run_invariant (P := fun s => Sound Set.univ s ∧
    s.settled = rosterOf cfg (standing cfg (initial cfg u) s.store)) ?_ ⟨?_, ?_⟩ is).2
  · rintro s i ⟨hsound, hs⟩
    refine ⟨hsound.step fun _ _ _ _ => trivial, ?_⟩
    rcases settled_step cfg hsound.keys_nodup i with ⟨d, -, hst, heq⟩ | ⟨-, hst, heq⟩
    · rw [heq, hst, hs]
      rcases handleDatagram_cases cfg.gossip s.store d with hd | ⟨e, store', -, -, hmap, hd⟩
      · rw [hd]
        rfl
      · rw [hd]
        exact take_eventOf (fun node hnode => Or.inl hnode) hmap
    · rw [heq, hst, hs]
  · have his : ∀ i ∈ ([] : List Input), Within cfg Set.univ i := fun _ h => (by cases h)
    exact Sound.after cfg u hw (fun _ _ => Set.mem_univ _) (fun _ _ => Set.mem_univ _) his
  · rw [settled, queue_boot, List.foldl_nil, roster_boot hw hdisj, store_boot]
    refine congrArg (rosterOf cfg) (Set.ext fun n => ?_)
    have hempty : ∀ k, k ∉ (GossipStore.new : GossipStore C).map := fun k => Finmap.notMem_empty
    simp [mem_standing, hempty]

/-! ### What was delivered -/

/-- The accepted entries among some inputs, in order. -/
def delivered (cfg : Config C) (is : List Input) : List (Entry C) :=
  is.filterMap fun i => match i with
    | .datagram d => d.accepted cfg.gossip
    | _ => none

theorem store_step (s : System C) (i : Input) :
    (s.step cfg i).store =
      s.store.mergeAll ((delivered cfg [i]).filter fun e => !isIgnored cfg.gossip e) := by
  cases i with
  | datagram d =>
      refine (snd_handleDatagram cfg.gossip s.store d).trans ?_
      cases h : d.accepted cfg.gossip with
      | none => simp [delivered, h]
      | some e => simp [delivered, h]
  | gossip clock saved =>
      cases hq : s.queue with
      | nil => simp [step, hq, delivered, GossipStore.mergeAll]
      | cons x rest => simp [step, hq, delivered, GossipStore.mergeAll, perform]
  | discovered => rfl
  | relay => rfl
  | tick => rfl
  | kick => rfl

/-- A run merges the entries delivered, except the endpoint entries that are
ignored. -/
theorem store_after (s : System C) (is : List Input) :
    (after cfg s is).store =
      s.store.mergeAll ((delivered cfg is).filter fun e => !isIgnored cfg.gossip e) := by
  induction is generalizing s with
  | nil => rfl
  | cons i is ih =>
      have hcons : delivered cfg (i :: is) = delivered cfg [i] ++ delivered cfg is := by
        rw [← List.singleton_append, delivered, List.filterMap_append]
        rfl
      rw [hcons, List.filter_append, GossipStore.mergeAll, List.foldl_append]
      refine (ih _).trans ?_
      rw [store_step]
      rfl

theorem isValid_of_mem_delivered {is : List Input} {e : Entry C} (h : e ∈ delivered cfg is) :
    e.isValid = true := by
  obtain ⟨i, -, hi⟩ := List.mem_filterMap.1 h
  cases i with
  | datagram d => exact Datagram.isValid_of_accepted hi
  | gossip => cases hi
  | discovered => cases hi
  | relay => cases hi
  | tick => cases hi
  | kick => cases hi

/-- Merging valid entries that fit, except those ignored, summarizes them. -/
theorem summarizes_mergeAll_filter (cfg : GossipConfig C) {es : List (Entry C)}
    (hvalid : ∀ e ∈ es, e.isValid = true)
    (hcap : (es.map Entry.key).toFinset.card ≤ maxStoreEntries) :
    (GossipStore.new.mergeAll (es.filter fun e => !isIgnored cfg e)).Summarizes
      {e | e ∈ es ∧ isIgnored cfg e = false} := by
  have hset : {e | e ∈ es ∧ isIgnored cfg e = false} =
      {e | e ∈ es.filter (fun e => !isIgnored cfg e) ∧ e.isValid = true} := by
    ext e
    simp only [Set.mem_ofPred_eq, List.mem_filter, Bool.not_eq_true']
    exact ⟨fun h => ⟨h, hvalid e h.1⟩, And.left⟩
  rw [hset]
  refine GossipStore.summary_mergeAll (le_trans (Finset.card_le_card ?_) hcap)
  intro k hk
  obtain ⟨e, he, rfl⟩ := List.mem_map.1 (List.mem_toFinset.1 hk)
  rw [List.mem_toFinset]
  exact List.mem_map_of_mem (List.mem_filter.1 (List.mem_filter.1 he).1).1

/-- The store of a run summarizes what was delivered and not ignored, as long as
that fits. -/
theorem summarizes_after (cfg : Config C) (u : Startup) {is : List Input}
    (hcap : ((delivered cfg is).map Entry.key).toFinset.card ≤ maxStoreEntries) :
    (after cfg (boot cfg u) is).store.Summarizes
      {e | e ∈ delivered cfg is ∧ isIgnored cfg.gossip e = false} := by
  rw [store_after, store_boot]
  exact summarizes_mergeAll_filter cfg.gossip (fun _ he => isValid_of_mem_delivered he) hcap

/-- **What the store holds is a matter of the set of entries delivered.** -/
theorem mem_store_after {u : Startup} {is : List Input}
    (hcap : ((delivered cfg is).map Entry.key).toFinset.card ≤ maxStoreEntries)
    (node : NodePublicKey C) {kind : Kind} (hkind : kind ≠ .endpoint) :
    (node, kind) ∈ (after cfg (boot cfg u) is).store.map ↔
      ∃ e ∈ delivered cfg is, e.kind = kind ∧ e.node = node := by
  rw [← Finmap.mem_keys, (summarizes_after cfg u hcap).mem_keys_iff]
  constructor
  · rintro ⟨e, he, hk⟩
    exact ⟨e, he.1, congrArg Prod.snd hk, congrArg Prod.fst hk⟩
  · rintro ⟨e, he, rfl, rfl⟩
    exact ⟨e, ⟨he, isIgnored_of_kind hkind⟩, rfl⟩

/-! ### Independence of the order -/

/-- The nodes in the table when the entries `es` have been read as a set. -/
def finalPeers (cfg : Config C) (u : Startup) (es : List (Entry C)) : Set (NodePublicKey C) :=
  {node | (node ∈ initial cfg u ∨ (∃ e ∈ es, e.kind = .member ∧ e.node = node) ∧
      ∃ a, deriveNodeAddr cfg.pre node = .ok a) ∧
    ¬∃ e ∈ es, e.kind = .revocation ∧ e.node = node}

/-- **The set of runtime peers does not depend on the order of delivery.**  Once
the events have been taken, the runtime table holds the nodes of the startup and
those with a member entry and an address, less those with a revocation, and the
member table holds the same without the configured ones. -/
theorem runtime_peers_of_set (cfg : Config C) (u : Startup)
    (hw : MembersFile.Written C u.members) (hdisj : ∀ k ∈ cfg.keys, k ∉ u.members.keys)
    (is : List Input)
    (hcap : ((delivered cfg is).map Entry.key).toFinset.card ≤ maxStoreEntries)
    (hdone : (after cfg (boot cfg u) is).queue = []) :
    let s := after cfg (boot cfg u) is
    {k | k ∈ s.daemon.keys} =
        NodePublicKey.toBase64 '' finalPeers cfg u (delivered cfg is) ∧
      {k | k ∈ s.daemon.members.keys} = NodePublicKey.toBase64 ''
        (finalPeers cfg u (delivered cfg is) \ {node | node.toBase64 ∈ cfg.keys}) := by
  intro s
  have hsound : Sound Set.univ s := Sound.after cfg u hw (fun _ _ => Set.mem_univ _)
    (fun _ _ => Set.mem_univ _) fun _ _ _ _ _ _ => Set.mem_univ _
  have hstanding : standing cfg (initial cfg u) s.store = finalPeers cfg u (delivered cfg is) := by
    ext n
    rw [mem_standing, mem_store_after hcap n (by decide), mem_store_after hcap n (by decide)]
    rfl
  have hroster : s.daemon.roster = rosterOf cfg (finalPeers cfg u (delivered cfg is)) := by
    have h : s.settled = _ := settled_after hw hdisj is
    rw [settled, hdone, List.foldl_nil] at h
    rw [h, ← hstanding]
  constructor
  · have hpeers := congrArg Roster.peers hroster
    ext k
    rw [← show _ = finalPeers cfg u (delivered cfg is) from hpeers]
    constructor
    · intro hk
      obtain ⟨i, hi, rfl⟩ := List.mem_map.1 (s.daemon.keys_eq ▸ hk : k ∈ _)
      obtain ⟨node, -, hkey, -⟩ := hsound.table.named i hi
      refine ⟨node, ?_, hkey.symm⟩
      change node.toBase64 ∈ s.daemon.keys
      rwa [← hkey]
    · rintro ⟨node, hnode, rfl⟩
      exact hnode
  · have hmembers := congrArg Roster.members hroster
    ext k
    rw [← show _ = finalPeers cfg u (delivered cfg is) \ _ from hmembers]
    constructor
    · intro hk
      obtain ⟨node, rfl⟩ := MembersFile.Written.canonical_iff.1 hsound.written.canonical k hk
      exact ⟨node, hk, rfl⟩
    · rintro ⟨node, hnode, rfl⟩
      exact hnode

/-- Taking an event from the channel. -/
theorem queue_gossip (cfg : Config C) (s : System C) (clock : Clock) (saved : Bool) :
    (s.step cfg (.gossip clock saved)).queue = s.queue.tail := by
  cases hq : s.queue with
  | nil => simp [step, hq]
  | cons x rest => simp [step, hq]

/-- Two datagrams, then their events. -/
def twoThenTake (d d' : Datagram) : List Input :=
  [.datagram d, .datagram d', .gossip (fun _ => 0) true, .gossip (fun _ => 0) true]

theorem queue_twoThenTake (d d' : Datagram) :
    (after plainConfig (boot plainConfig plainStartup) (twoThenTake d d')).queue = [] := by
  have htwo : ∀ o o' : Option (GossipEvent Crypto.plain),
      (([] ++ o.toList) ++ o'.toList).tail.tail = [] := by
    rintro (_ | x) (_ | y) <;> rfl
  simp only [twoThenTake, after, run_cons, run_nil, queue_gossip, step_datagram, queue_boot]
  exact htwo _ _

theorem delivered_twoThenTake {d d' : Datagram} {e e' : Entry Crypto.plain}
    (h : d.accepted plainOpenConfig = some e) (h' : d'.accepted plainOpenConfig = some e') :
    delivered plainConfig (twoThenTake d d') = [e, e'] := by
  have h₁ : d.accepted plainConfig.gossip = some e := h
  have h₂ : d'.accepted plainConfig.gossip = some e' := h'
  simp [twoThenTake, delivered, h₁, h₂]

theorem accepted_admission_two :
    (admission (plainKey 2 0)).accepted plainOpenConfig =
      some (.plainMember (plainKey 2 0) (plainKey 9 0) 5) :=
  accepted_admission (plainKey_ne (by omega) (by omega) (by omega) 0 0)

theorem accepted_revokeOne :
    revokeOne.accepted plainOpenConfig =
      some (.plainRevocation (plainKey 1 0) (plainKey 9 0) 5) := by
  have hne : plainKey 9 0 ≠ plainKey 1 0 := plainKey_ne (by omega) (by omega) (by omega) 0 0
  exact Datagram.accepted_ofEntry plainOpenConfig (Entry.isValid_plainRevocation hne 5) rfl

/-- Node 1 is configured and revoked, node 2 is admitted: node 2 is left. -/
theorem runtime_peers_of_set_two :
    {k | k ∈ (after plainConfig (boot plainConfig plainStartup)
      (twoThenTake (admission (plainKey 2 0)) revokeOne)).daemon.keys} =
      {(plainKey 2 0).toBase64} := by
  have hdelivered := delivered_twoThenTake accepted_admission_two accepted_revokeOne
  have hcap : ((delivered plainConfig (twoThenTake (admission (plainKey 2 0)) revokeOne)).map
      Entry.key).toFinset.card ≤ maxStoreEntries := by
    refine (List.toFinset_card_le _).trans ?_
    simp [hdelivered, maxStoreEntries]
  obtain ⟨hkeys, -⟩ := runtime_peers_of_set plainConfig plainStartup .new
    (by simp [plainStartup, Startup.members]) _ hcap (queue_twoThenTake ..)
  have hinitial : ∀ n, n ∈ initial plainConfig plainStartup ↔ n = plainKey 1 0 := by
    intro n
    simp [initial, plainStartup, Startup.members, Config.keys, plainConfig, plainPeer,
      NodePublicKey.toBase64_inj]
  have hne : plainKey 2 0 ≠ plainKey 1 0 := plainKey_ne (by omega) (by omega) (by omega) 0 0
  have haddr := deriveNodeAddr_plainKey plainPrefix (show 2 < 65536 by omega) (by omega) 0
  rw [hkeys, ← Set.image_singleton]
  refine congrArg _ (Set.ext fun n => ?_)
  simp only [finalPeers, hdelivered, hinitial, Set.mem_ofPred_eq, Set.mem_singleton_iff,
    List.mem_cons, List.not_mem_nil, or_false, exists_eq_or_imp, exists_eq_left]
  simp only [Entry.plainMember, Entry.plainRevocation, Entry.kind, Entry.node, reduceCtorEq,
    false_and, or_false, false_or, true_and]
  constructor
  · rintro ⟨h | h, hnot⟩
    · exact absurd h.symm hnot
    · exact h.1.symm
  · rintro rfl
    exact ⟨Or.inr ⟨rfl, _, haddr⟩, fun h => hne h.symm⟩

end System

end Hextet
