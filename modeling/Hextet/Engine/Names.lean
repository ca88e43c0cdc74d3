/-
# The name of a member

`on_membership_event` in `crates/engine/src/daemon.rs` ignores an admission of a node that is
in the runtime table already, so the name under which a node is listed, in that table and in
`members.json`, is the one of the first entry that was delivered about it.  The store keeps the
entry that wins by sequence number, which may have another name: names do not converge.

The events in flight carry the names ahead of the tables, so the invariant is about the name
that a node will have when the channel has been drained (`settledName`): an input other than a
datagram leaves it alone, and a datagram only gives one to a node without
(`settledName_step`).
-/

import Hextet.Engine.Roster

namespace Hextet

open Lib

variable {C : Crypto}

/-- The name in a member entry. -/
def Entry.memberName? : Entry C → Option String
  | .member _ name .. => some name
  | _ => none

/-- The name that an event gives to a node. -/
def GossipEvent.nameFor? (node : NodePublicKey C) : GossipEvent C → Option String
  | .memberAdmitted n name _ => if n = node then some name else none
  | _ => none

/-- The name of a node in the runtime table. -/
def Daemon.nameOf (d : Daemon C) (node : NodePublicKey C) : Option String :=
  (d.infos.find? fun i => i.keyB64 = node.toBase64).map PeerInfo.name

/-- The name of a node in the member table. -/
def MembersFile.nameOf (file : MembersFile) (node : NodePublicKey C) : Option String :=
  (file.members.find? fun m => m.publicKey = node.toBase64).map MemberRecord.name

/-- The name in the first entry about a node. -/
def firstName (es : List (Entry C)) (node : NodePublicKey C) : Option String :=
  (es.find? fun e => e.node = node).bind Entry.memberName?

namespace Daemon

variable {d : Daemon C} {node : NodePublicKey C}

/-- A node has a name in the table exactly if it is there. -/
theorem nameOf_eq_none_iff : d.nameOf node = none ↔ node.toBase64 ∉ d.keys := by
  rw [nameOf, Option.map_eq_none_iff, List.find?_eq_none, keys_eq]
  simp [eq_comm]

/-- The names after a peer was appended. -/
theorem nameOf_append {d' : Daemon C} {i : PeerInfo} (h : d'.infos = d.infos ++ [i]) :
    d'.nameOf node =
      (d.nameOf node).or (if i.keyB64 = node.toBase64 then some i.name else none) := by
  rw [nameOf, nameOf, h, List.find?_append]
  cases d.infos.find? fun i => i.keyB64 = node.toBase64 with
  | some j => rfl
  | none =>
      by_cases hi : i.keyB64 = node.toBase64
      · simp [hi]
      · simp [hi]

end Daemon

namespace MembersFile

/-- The names after a new record was written. -/
theorem nameOf_upsert {file : MembersFile} {record : MemberRecord}
    (h : record.publicKey ∉ file.keys) (node : NodePublicKey C) :
    (file.upsert record).1.nameOf node = (file.nameOf node).or
      (if record.publicKey = node.toBase64 then some record.name else none) := by
  rw [nameOf, nameOf, upsert, if_neg h, List.find?_append]
  cases file.members.find? fun m => m.publicKey = node.toBase64 with
  | some m => rfl
  | none =>
      by_cases hr : record.publicKey = node.toBase64
      · simp [hr]
      · simp [hr]

theorem nameOf_eq_none_iff {file : MembersFile} {node : NodePublicKey C} :
    file.nameOf node = none ↔ node.toBase64 ∉ file.keys := by
  rw [nameOf, Option.map_eq_none_iff, List.find?_eq_none, keys]
  simp [eq_comm]

end MembersFile

namespace System

variable {cfg : Config C} {s : System C} {node : NodePublicKey C}

/-- The name that a node has when the events in flight have been taken. -/
def settledName (s : System C) (node : NodePublicKey C) : Option String :=
  (s.daemon.nameOf node).or (s.queue.findSome? (GossipEvent.nameFor? node))

/-- No revocation is in flight. -/
def NoRevocations (s : System C) : Prop := ∀ n, .revoked n ∉ s.queue

theorem settledName_datagram (s : System C) (d : Datagram) :
    (s.step cfg (.datagram d)).settledName node = (s.settledName node).or
      ((handleDatagram cfg.gossip s.store d).1.bind (GossipEvent.nameFor? node)) := by
  rw [settledName, step_datagram, settledName, List.findSome?_append, Option.or_assoc]
  cases (handleDatagram cfg.gossip s.store d).1 with
  | none => rfl
  | some x =>
      rw [Option.toList_some, List.findSome?_cons, List.findSome?_nil, Option.bind_some]
      cases GossipEvent.nameFor? node x <;> rfl

/-- **An input other than a datagram leaves the settled name alone**, unless it is the taking
of a revocation. -/
theorem settledName_step (hnone : s.NoRevocations) {i : Input} (hi : ∀ d, i ≠ .datagram d) :
    (s.step cfg i).settledName node = s.settledName node := by
  rcases step_cases cfg s i with ⟨d, rfl, -⟩ | ⟨hquiet, hqueue⟩ |
    ⟨n, name, address, clock, saved, rest, rfl, hqueue, heq⟩ | ⟨n, clock, saved, rest, -, hqueue, -⟩
  · exact absurd rfl (hi d)
  · have hname : (s.step cfg i).daemon.nameOf node = s.daemon.nameOf node := by
      rw [Daemon.nameOf, Daemon.nameOf, hquiet.infos]
    rw [settledName, settledName, hname]
    rcases hqueue with hsame | ⟨update, hhead⟩
    · rw [hsame]
    · rw [hhead, List.findSome?_cons]
      rfl
  · rw [heq, settledName, settledName, hqueue, List.findSome?_cons]
    change ((s.daemon.onMemberAdmitted cfg.ctx n name address (clock 0)).1.nameOf node).or
      (rest.findSome? _) = _
    by_cases hmem : n.toBase64 ∈ s.daemon.keys
    · -- the node is there already: only the event is gone, and it named nobody
      rw [s.daemon.onMemberAdmitted_of_mem cfg.ctx n name address (clock 0) hmem]
      by_cases hn : n = node
      · have hsome : s.daemon.nameOf node ≠ none :=
          fun h => Daemon.nameOf_eq_none_iff.1 h (hn ▸ hmem)
        obtain ⟨name', hname'⟩ := Option.ne_none_iff_exists'.1 hsome
        rw [hname']
        rfl
      · simp [GossipEvent.nameFor?, hn]
    · have henters := s.daemon.enters_onMemberAdmitted cfg.ctx n name address (clock 0) hmem
      rw [Daemon.nameOf_append henters.infos, Option.or_assoc]
      by_cases hn : n = node
      · simp [GossipEvent.nameFor?, hn, memberInfo]
      · simp [GossipEvent.nameFor?, hn, memberInfo, NodePublicKey.toBase64_inj]
  · exact absurd (hqueue ▸ List.mem_cons_self ..) (hnone n)

/-! ### Member entries -/

/-- The node has an overlay address. -/
def hasAddr (cfg : Config C) (node : NodePublicKey C) : Bool :=
  (deriveNodeAddr cfg.pre node).toOption.isSome

/-- The node is neither configured nor in the member file. -/
def Fresh (cfg : Config C) (u : Startup) (node : NodePublicKey C) : Prop :=
  node.toBase64 ∉ cfg.keys ∧ node.toBase64 ∉ u.members.keys

/-- **The name that a member entry gives when it is taken up.** -/
theorem nameFor_eventOf {store : GossipStore C} {e : Entry C} (hkind : e.kind = .member)
    (hrevoked : store.isRevoked e.node = false) (node : NodePublicKey C) :
    (eventOf cfg.gossip store e).bind (GossipEvent.nameFor? node) =
      if hasAddr cfg e.node = true ∧ e.node = node then e.memberName? else none := by
  cases e with
  | endpoint => cases hkind
  | revocation => cases hkind
  | member n name site seq sig issuer inviteId =>
      have hr : store.isRevoked n = false := hrevoked
      have haddr : hasAddr cfg (Entry.member n name site seq sig issuer inviteId).node =
          (deriveNodeAddr cfg.pre n).toOption.isSome := rfl
      rw [haddr]
      simp only [eventOf, hr, Bool.false_eq_true, if_false, Config.gossip]
      cases deriveNodeAddr cfg.pre n with
      | error err => rfl
      | ok a =>
          by_cases hn : n = node
          · simp [GossipEvent.nameFor?, Entry.node, Entry.memberName?, Except.toOption, hn]
          · simp [GossipEvent.nameFor?, Entry.node, hn]

/-- The event of a member entry admits its node. -/
theorem memberAdmitted_of_accepted {store : GossipStore C} {d : Datagram} {e : Entry C}
    (hacc : d.accepted cfg.gossip = some e) (hkind : e.kind = .member) {x : GossipEvent C}
    (hx : (handleDatagram cfg.gossip store d).1 = some x) :
    ∃ name address, x = .memberAdmitted e.node name address := by
  rcases handleDatagram_cases cfg.gossip store d with heq | ⟨e', s', hacc', -, -, heq⟩
  · rw [heq] at hx
    cases hx
  · rw [heq] at hx
    cases hacc.symm.trans hacc'
    cases e with
    | endpoint => cases hkind
    | revocation => cases hkind
    | member n name =>
        simp only [eventOf] at hx
        split_ifs at hx
        split at hx
        · cases hx
          exact ⟨_, _, rfl⟩
        · cases hx

/-- A later entry does not change the first one. -/
theorem firstName_append {es : List (Entry C)} (hes : ∀ e ∈ es, e.kind = .member) (e : Entry C)
    (node : NodePublicKey C) :
    firstName (es ++ [e]) node =
      (firstName es node).or (if e.node = node then e.memberName? else none) := by
  rw [firstName, firstName, List.find?_append]
  cases hfind : es.find? fun e => e.node = node with
  | none =>
      by_cases he : e.node = node
      · simp [he]
      · simp [he]
  | some e' =>
      have hkind := hes e' (List.mem_of_find?_eq_some hfind)
      cases e' with
      | endpoint => cases hkind
      | revocation => cases hkind
      | member => rfl

/-- No entry about the node. -/
theorem firstName_eq_none_iff {es : List (Entry C)} (hes : ∀ e ∈ es, e.kind = .member) :
    firstName es node = none ↔ ∀ e ∈ es, e.node ≠ node := by
  induction es with
  | nil => simp [firstName]
  | cons e es ih =>
      rw [List.forall_mem_cons] at hes
      rw [List.forall_mem_cons, ← ih hes.2, firstName, firstName, List.find?_cons]
      by_cases he : e.node = node
      · have hname : e.memberName? ≠ none := by
          cases e with
          | endpoint => cases hes.1
          | revocation => cases hes.1
          | member => simp [Entry.memberName?]
        simp [he, hname]
      · simp [he]

/-- The tables and the events in flight, after some member entries were delivered: fresh nodes
are admitted, both tables hold the same names, and those will be the first ones. -/
structure Named (cfg : Config C) (u : Startup) (es : List (Entry C)) (s : System C) : Prop where
  queue : ∀ x ∈ s.queue, ∃ n name address, x = .memberAdmitted n name address ∧ Fresh cfg u n
  agree : ∀ n, Fresh cfg u n → s.daemon.members.nameOf n = s.daemon.nameOf n
  settled : ∀ n, Fresh cfg u n →
    s.settledName n = if hasAddr cfg n then firstName es n else none

theorem Named.noRevocations {u : Startup} {es : List (Entry C)} (h : Named cfg u es s) :
    s.NoRevocations := by
  intro n hn
  obtain ⟨_, _, _, hx, -⟩ := h.queue _ hn
  cases hx

/-- At a start no fresh node has a name. -/
theorem Named.boot (cfg : Config C) (u : Startup) : Named cfg u [] (boot cfg u) := by
  have hkeys : ∀ n : NodePublicKey C, Fresh cfg u n →
      (System.boot cfg u).daemon.nameOf n = none := by
    intro n hn
    rw [Daemon.nameOf_eq_none_iff, keys_boot, keys_startup, List.mem_append]
    rintro (hcfg | hmem)
    · exact hn.1 hcfg
    · exact hn.2 ((keys_persisted_sublist cfg u.cache u.members u.start).subset hmem)
  refine ⟨by simp, fun n hn => ?_, fun n hn => ?_⟩
  · rw [hkeys n hn, members_boot, MembersFile.nameOf_eq_none_iff]
    exact hn.2
  · rw [settledName, hkeys n hn, queue_boot]
    simp [firstName]

variable {u : Startup} {es : List (Entry C)}

/-- **An input other than a datagram keeps the names.** -/
theorem Named.local (h : Named cfg u es s) {i : Input} (hi : ∀ d, i ≠ .datagram d) :
    Named cfg u es (s.step cfg i) := by
  refine ⟨?_, ?_, fun n hn => ?_⟩
  · intro x hx
    rcases mem_queue_step hx with hx | ⟨d, hd, -⟩
    · exact h.queue x hx
    · exact absurd hd (hi d)
  · intro n hn
    rcases table_step cfg s i with hstays |
      ⟨n', name, address, clock, saved, rest, -, hqueue, henters⟩ |
      ⟨n', clock, saved, rest, -, hqueue, -⟩
    · rw [hstays.members, Daemon.nameOf, hstays.infos]
      exact h.agree n hn
    · obtain ⟨_, _, _, hx, hfresh⟩ := h.queue _ (hqueue ▸ List.mem_cons_self ..)
      cases hx
      have hmem : n'.toBase64 ∉ s.daemon.members.keys := by
        rw [← MembersFile.nameOf_eq_none_iff, h.agree n' hfresh, Daemon.nameOf_eq_none_iff]
        exact henters.fresh
      rw [henters.members, MembersFile.nameOf_upsert hmem, Daemon.nameOf_append henters.infos,
        h.agree n hn]
      rfl
    · exact absurd (hqueue ▸ List.mem_cons_self ..) (h.noRevocations n')
  · rw [settledName_step h.noRevocations hi]
    exact h.settled n hn

/-- A member entry revokes nobody. -/
theorem isRevoked_merge_of_member {store : GossipStore C} {e : Entry C} (hkind : e.kind = .member)
    {n : NodePublicKey C} (h : store.isRevoked n = false) :
    (store.merge e).2.isRevoked n = false := by
  have hkey : e.key = (e.node, .member) := by rw [Entry.key, hkind]
  rcases store.merge_cases e with ⟨-, hm⟩ | ⟨-, -, -, -, hm⟩ | ⟨-, -, -, hm⟩ |
    ⟨-, -, -, s', hm, hmap⟩ <;> rw [hm]
  · exact h
  · exact h
  · exact h
  · rw [isRevoked_eq_false_iff] at h ⊢
    rw [hmap, Finmap.mem_insert, hkey]
    simpa using h

/-- The event of a datagram with a member entry names the node of the entry, or there is
none and the store holds an entry about the node already. -/
theorem nameFor_handleDatagram {store : GossipStore C} {d : Datagram} {e : Entry C}
    (hacc : d.accepted cfg.gossip = some e) (hkind : e.kind = .member)
    (hrevoked : store.isRevoked e.node = false)
    (hroom : store.map.lookup e.key = none → store.len < maxStoreEntries) (n : NodePublicKey C) :
    (handleDatagram cfg.gossip store d).1.bind (GossipEvent.nameFor? n) =
        (if hasAddr cfg e.node = true ∧ e.node = n then e.memberName? else none) ∨
      (handleDatagram cfg.gossip store d).1 = none ∧ (e.node, Kind.member) ∈ store.map := by
  have hkey : e.key = (e.node, .member) := by rw [Entry.key, hkind]
  by_cases htakes : Takes cfg.gossip store e
  · rw [(handleDatagram_of_takes hacc htakes).1]
    exact .inl (nameFor_eventOf hkind (isRevoked_merge_of_member hkind hrevoked) n)
  · refine .inr ⟨by rw [handleDatagram_of_not_takes hacc htakes], ?_⟩
    by_contra hnot
    have hnone : store.map.lookup e.key = none := by rwa [hkey, Finmap.lookup_eq_none]
    exact htakes (takes_of_fresh (Datagram.isValid_of_accepted hacc)
      (isIgnored_of_kind (by simp [hkind])) hnone (hroom hnone))

/-- **A datagram with a member entry keeps the names**, if the store knows the entries before
it and has room. -/
theorem Named.datagram (h : Named cfg u es s) (hes : ∀ e ∈ es, e.kind = .member) {d : Datagram}
    {e : Entry C} (hacc : d.accepted cfg.gossip = some e) (hkind : e.kind = .member)
    (hfresh : Fresh cfg u e.node)
    (hstore : (e.node, Kind.member) ∈ s.store.map ↔ ∃ e' ∈ es, e'.node = e.node)
    (hrevoked : s.store.isRevoked e.node = false)
    (hroom : s.store.map.lookup e.key = none → s.store.len < maxStoreEntries) :
    Named cfg u (es ++ [e]) (s.step cfg (.datagram d)) := by
  refine ⟨?_, h.agree, fun n hn => ?_⟩
  · intro x hx
    rw [step_datagram] at hx
    rcases List.mem_append.1 hx with hx | hx
    · exact h.queue x hx
    · obtain ⟨name, address, rfl⟩ := memberAdmitted_of_accepted hacc hkind (Option.mem_toList.1 hx)
      exact ⟨e.node, name, address, rfl, hfresh⟩
  · rw [settledName_datagram, h.settled n hn, firstName_append hes]
    rcases nameFor_handleDatagram hacc hkind hrevoked hroom n with hname | ⟨hnone, hmem⟩
    · rw [hname]
      by_cases hn : e.node = n
      · subst hn
        cases hasAddr cfg e.node <;> simp
      · cases hasAddr cfg n <;> simp [hn]
    · rw [hnone, Option.bind_none, Option.or_none]
      by_cases hn : e.node = n
      · -- an entry about the node came before, so its name stands
        obtain ⟨e', he', hnode⟩ := hstore.1 hmem
        have hsome : firstName es n ≠ none :=
          fun hno => (firstName_eq_none_iff hes).1 hno e' he' (hnode.trans hn)
        obtain ⟨name, hname⟩ := Option.ne_none_iff_exists'.1 hsome
        rw [hname]
        rfl
      · rw [if_neg hn, Option.or_none]

/-- The entries delivered by one more input. -/
theorem delivered_append (cfg : Config C) (is : List Input) (i : Input) :
    delivered cfg (is ++ [i]) = delivered cfg is ++ delivered cfg [i] := List.filterMap_append ..

/-- **The names after a run of member entries.** -/
theorem Named.after (cfg : Config C) (u : Startup) (is : List Input)
    (hkind : ∀ e ∈ delivered cfg is, e.kind = .member)
    (hfresh : ∀ e ∈ delivered cfg is, Fresh cfg u e.node)
    (hcap : ((delivered cfg is).map Entry.key).toFinset.card ≤ maxStoreEntries) :
    Named cfg u (delivered cfg is) (System.after cfg (System.boot cfg u) is) := by
  induction is using List.reverseRecOn with
  | nil => exact Named.boot cfg u
  | append_singleton is i ih =>
      have hsub : ∀ e ∈ delivered cfg is, e ∈ delivered cfg (is ++ [i]) := fun e he => by
        rw [delivered_append]
        exact List.mem_append_left _ he
      have hkeys : ∀ e ∈ delivered cfg (is ++ [i]),
          e.key ∈ ((delivered cfg (is ++ [i])).map Entry.key).toFinset :=
        fun e he => List.mem_toFinset.2 (List.mem_map_of_mem he)
      have hcap' : ((delivered cfg is).map Entry.key).toFinset.card ≤ maxStoreEntries := by
        refine (Finset.card_le_card fun k hk => ?_).trans hcap
        obtain ⟨e, he, rfl⟩ := List.mem_map.1 (List.mem_toFinset.1 hk)
        exact hkeys e (hsub e he)
      have hkind' : ∀ e ∈ delivered cfg is, e.kind = .member := fun e he => hkind e (hsub e he)
      have hnamed := ih hkind' (fun e he => hfresh e (hsub e he)) hcap'
      rw [System.after, run_append]
      change Named cfg u _ ((System.after cfg (System.boot cfg u) is).step cfg i)
      by_cases hi : ∃ d, i = .datagram d
      · obtain ⟨d, rfl⟩ := hi
        cases hacc : d.accepted cfg.gossip with
        | none =>
            have hsame : delivered cfg (is ++ [.datagram d]) = delivered cfg is := by
              rw [delivered_append]
              simp [delivered, hacc]
            rw [hsame, step_datagram, handleDatagram_of_none hacc]
            simpa using hnamed
        | some e =>
            have hmore : delivered cfg (is ++ [.datagram d]) = delivered cfg is ++ [e] := by
              rw [delivered_append]
              simp [delivered, hacc]
            have he : e ∈ delivered cfg (is ++ [.datagram d]) := by simp [hmore]
            rw [hmore]
            refine hnamed.datagram hkind' hacc (hkind e he) (hfresh e he) ?_ ?_ fun hnone => ?_
            · rw [mem_store_after hcap' e.node (by decide)]
              exact exists_congr fun e' => and_congr_right fun he' =>
                ⟨And.right, fun hnode => ⟨hkind' e' he', hnode⟩⟩
            · rw [isRevoked_eq_false_iff, mem_store_after hcap' e.node (by decide)]
              rintro ⟨e', he', hrev, -⟩
              rw [hkind' e' he'] at hrev
              cases hrev
            · exact (summarizes_after cfg u hcap').room hcap
                (fun e' he' => hkeys e' (hsub e' he'.1)) (hkeys e he) hnone
      · have hsame : delivered cfg (is ++ [i]) = delivered cfg is := by
          rw [delivered_append]
          cases i with
          | datagram d => exact absurd ⟨d, rfl⟩ hi
          | _ => simp [delivered]
        rw [hsame]
        exact hnamed.local fun d hd => hi ⟨d, hd⟩

/-- **The name of a member is that of the first entry.**  For every sequence of member entries
about nodes that are neither configured nor persisted, of at most 512 keys, in any order and
with the events taken in order: once the channel is empty, each node that has an address is
listed, in the runtime table and in the member table, under the name of the first entry that
was delivered about it; so its name is that of the entry in the store exactly if the first
entry has that name. -/
theorem name_of_first_entry (cfg : Config C) (u : Startup) (is : List Input)
    (hkind : ∀ e ∈ delivered cfg is, e.kind = .member)
    (hfresh : ∀ e ∈ delivered cfg is, Fresh cfg u e.node)
    (hcap : ((delivered cfg is).map Entry.key).toFinset.card ≤ maxStoreEntries)
    (hdone : (after cfg (boot cfg u) is).queue = []) :
    let s := after cfg (boot cfg u) is
    ∀ e ∈ delivered cfg is, hasAddr cfg e.node = true →
      s.daemon.nameOf e.node = firstName (delivered cfg is) e.node ∧
      s.daemon.members.nameOf e.node = firstName (delivered cfg is) e.node ∧
      ∃ w, s.store.memberOf e.node = some w ∧
        (s.daemon.nameOf e.node = w.memberName? ↔
          firstName (delivered cfg is) e.node = w.memberName?) := by
  intro s e he haddr
  have hnamed := Named.after cfg u is hkind hfresh hcap
  have hname : s.daemon.nameOf e.node = firstName (delivered cfg is) e.node := by
    have hsettled := hnamed.settled e.node (hfresh e he)
    rw [settledName, hdone, List.findSome?_nil, Option.or_none, if_pos haddr] at hsettled
    exact hsettled
  obtain ⟨w, hw⟩ := Finmap.mem_iff.1 ((mem_store_after hcap e.node (by decide)).2
    ⟨e, he, hkind e he, rfl⟩)
  refine ⟨hname, ?_, w, hw, by rw [hname]⟩
  rw [hnamed.agree e.node (hfresh e he)]
  exact hname

/-- Node 9 admits node 2 once more, under another name. -/
def plainRenamed : Entry Crypto.plain :=
  .member (plainKey 2 0) "n" 0 6 Entry.zeroSig (plainKey 9 0) (zeros 16)

/-- Node 2 is admitted as `m` and then as `n`, and both events are taken. -/
def admittedTwice : List Input :=
  twoThenTake (admission (plainKey 2 0)) (.ofEntry plainPrefix plainRenamed)

theorem delivered_admittedTwice : delivered plainConfig admittedTwice =
    [.plainMember (plainKey 2 0) (plainKey 9 0) 5, plainRenamed] := by
  decide +kernel

/-- It is called `m`. -/
theorem name_of_first_entry_m :
    let s := after plainConfig (boot plainConfig plainStartup) admittedTwice
    s.daemon.nameOf (plainKey 2 0) = some "m" ∧
      s.daemon.members.nameOf (plainKey 2 0) = some "m" := by
  have hfresh : Fresh plainConfig plainStartup (plainKey 2 0) := ⟨by decide +kernel, by decide⟩
  obtain ⟨hpeers, hmembers, -⟩ := name_of_first_entry plainConfig plainStartup admittedTwice
    (by simp [delivered_admittedTwice, Entry.plainMember, plainRenamed, Entry.kind])
    (by simpa [delivered_admittedTwice, Entry.plainMember, plainRenamed, Entry.node] using hfresh)
    (by decide +kernel) (queue_twoThenTake ..) plainRenamed (by simp [delivered_admittedTwice])
    (by decide +kernel)
  rw [delivered_admittedTwice] at hpeers hmembers
  exact ⟨hpeers, hmembers⟩

/-- **The store calls it `n`**: the later entry wins there. -/
theorem name_differs_from_store :
    let s := after plainConfig (boot plainConfig plainStartup) admittedTwice
    s.queue = [] ∧ (s.store.memberOf (plainKey 2 0)).bind Entry.memberName? = some "n" ∧
      s.daemon.nameOf (plainKey 2 0) ≠ some "n" ∧
      s.daemon.members.nameOf (plainKey 2 0) ≠ some "n" := by
  refine ⟨queue_twoThenTake .., ?_, ?_, ?_⟩ <;> decide +kernel

end System

end Hextet
