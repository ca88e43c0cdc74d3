/-
# What the rendezvous layers have told

`on_discovered` in `crates/engine/src/daemon.rs` and `Source::priority` in
`crates/engine/src/candidates.rs`.  An update replaces the endpoints of its layer, and
the list is sorted by layer afterwards, so what is recorded of a peer is the last word
of each layer, one layer after the other (`layered`).  That holds of every peer in every
run, whatever else the daemon does in between, and it stays when updates of different
layers change places or one that a later one supersedes is left out
(`discovered_eq_layered`).
-/

import Hextet.Engine.Chronicle
import Hextet.Engine.Discovery

namespace Hextet

open Lib

variable {C : Crypto}

/-- An update as the handler of one peer gets it: a layer and its endpoints. -/
abbrev LayerUpdate := Source × List SocketAddrV6

/-- What a layer told last, and nothing if it never did. -/
def lastTold (us : List LayerUpdate) (source : Source) : List SocketAddrV6 :=
  ((us.filter fun u => u.1 = source).getLast?.map Prod.snd).getD []

/-- The last word of each layer: LAN, gossip, DHT, DDNS. -/
def layered (us : List LayerUpdate) : List (Source × SocketAddrV6) :=
  [Source.lan, .gossip, .dht, .ddns].flatMap fun source =>
    (lastTold us source).map fun e => (source, e)

/-! ### One update more -/

theorem lastTold_concat (us : List LayerUpdate) (u : LayerUpdate) (source : Source) :
    lastTold (us ++ [u]) source = if source = u.1 then u.2 else lastTold us source := by
  unfold lastTold
  rw [List.filter_append]
  by_cases h : u.1 = source
  · rw [List.filter_cons_of_pos (by simpa using h), List.filter_nil, if_pos h.symm]
    simp
  · rw [List.filter_cons_of_neg (by simpa using h), List.filter_nil, List.append_nil,
      if_neg (Ne.symm h)]

theorem inLayers_layered (us : List LayerUpdate) : InLayers (layered us) := by
  have hpart : ∀ s t : Source, s.priority ≤ t.priority →
      ∀ a ∈ (lastTold us s).map (fun e => (s, e)), ∀ b ∈ (lastTold us t).map fun e => (t, e),
        a.1.priority ≤ b.1.priority := by
    intro s t hst a ha b hb
    obtain ⟨x, -, rfl⟩ := List.mem_map.1 ha
    obtain ⟨y, -, rfl⟩ := List.mem_map.1 hb
    exact hst
  have hself : ∀ s : Source, ((lastTold us s).map fun e => (s, e)).Pairwise
      fun a b => a.1.priority ≤ b.1.priority :=
    fun s => List.pairwise_of_forall_mem_list (hpart s s le_rfl)
  rw [InLayers, InOrder, layered, List.pairwise_flatMap]
  refine ⟨fun s _ => hself s, ?_⟩
  refine List.Pairwise.imp (fun {s t} h => hpart s t h) ?_
  decide

theorem filter_layered (us : List LayerUpdate) (source : Source) :
    ((layered us).filter fun x => x.1 = source) =
      (lastTold us source).map fun e => (source, e) := by
  have hpart : ∀ s : Source, (((lastTold us s).map fun e => (s, e)).filter
      fun x => x.1 = source) =
        if s = source then (lastTold us s).map (fun e => (s, e)) else [] := by
    intro s
    split_ifs with h
    · exact List.filter_eq_self.2 fun x hx => by
        obtain ⟨e, -, rfl⟩ := List.mem_map.1 hx
        exact decide_eq_true h
    · refine List.filter_eq_nil_iff.2 fun x hx => ?_
      obtain ⟨e, -, rfl⟩ := List.mem_map.1 hx
      simpa using h
  rw [layered, List.filter_flatMap]
  simp only [hpart, List.flatMap_cons, List.flatMap_nil]
  cases source <;> simp

/-- **One update more replaces the word of its layer.** -/
theorem layered_concat (us : List LayerUpdate) (u : LayerUpdate) :
    layered (us ++ [u]) = PeerRuntime.mergeDiscovered (layered us) u.1 u.2 := by
  refine (inLayers_layered _).ext (PeerRuntime.inLayers_mergeDiscovered _ _ _) fun source => ?_
  rw [filter_layered, lastTold_concat, PeerRuntime.filter_mergeDiscovered, filter_layered]
  split_ifs with h
  · rw [h]
  · rfl

theorem layered_append (us us' : List LayerUpdate) :
    layered (us ++ us') =
      us'.foldl (fun discovered u => PeerRuntime.mergeDiscovered discovered u.1 u.2)
        (layered us) := by
  induction us' generalizing us with
  | nil => rw [List.append_nil, List.foldl_nil]
  | cons u us' ih => rw [List.foldl_cons, ← layered_concat, ← ih, List.append_assoc,
      List.singleton_append]

/-! ### Updates that change places -/

/-- The updates for one peer, among those for any. -/
def updatesFor (key : String) (us : List DiscoveredEndpoints) : List LayerUpdate :=
  (us.filter fun u => u.peerKey = key).map fun u => (u.source, u.endpoints)

/-- Two neighbours of different layers change places, or an update goes that a later one
of its layer for the same peer supersedes. -/
inductive Rearranged : List DiscoveredEndpoints → List DiscoveredEndpoints → Prop where
  | swap (before after : List DiscoveredEndpoints) {u v : DiscoveredEndpoints}
      (h : u.source ≠ v.source) :
      Rearranged (before ++ u :: v :: after) (before ++ v :: u :: after)
  | drop (before after : List DiscoveredEndpoints) {u : DiscoveredEndpoints}
      (h : ∃ v ∈ after, v.source = u.source ∧ v.peerKey = u.peerKey) :
      Rearranged (before ++ u :: after) (before ++ after)

theorem filter_updatesFor (key : String) (us : List DiscoveredEndpoints) (source : Source) :
    ((updatesFor key us).filter fun u => u.1 = source) =
      (us.filter fun u => u.peerKey = key ∧ u.source = source).map
        fun u => (u.source, u.endpoints) := by
  rw [updatesFor, List.filter_map, List.filter_filter]
  refine congrArg (List.map _) (List.filter_congr fun u _ => ?_)
  simp [Bool.and_comm]

/-- The last update of a layer for a peer stays the last. -/
theorem Rearranged.getLast? {us us' : List DiscoveredEndpoints} (h : Rearranged us us')
    (key : String) (source : Source) :
    (us'.filter fun u => u.peerKey = key ∧ u.source = source).getLast? =
      (us.filter fun u => u.peerKey = key ∧ u.source = source).getLast? := by
  cases h with
  | swap before after h =>
      rename_i u v
      rw [List.filter_append, List.filter_append]
      by_cases hu : u.peerKey = key ∧ u.source = source
      · have hv : ¬(v.peerKey = key ∧ v.source = source) := fun hv => h (hu.2.trans hv.2.symm)
        rw [List.filter_cons_of_neg (by simpa using hv),
          List.filter_cons_of_pos (by simpa using hu), List.filter_cons_of_pos (by simpa using hu),
          List.filter_cons_of_neg (by simpa using hv)]
      · simp only [List.filter_cons, decide_eq_true_eq, if_neg hu]
  | drop before after h =>
      rename_i u
      rw [List.filter_append, List.filter_append]
      by_cases hu : u.peerKey = key ∧ u.source = source
      · obtain ⟨v, hv, hsource, hkey⟩ := h
        have hmem : v ∈ after.filter fun u => u.peerKey = key ∧ u.source = source :=
          List.mem_filter.2 ⟨hv, by simpa [hsource, hkey] using hu⟩
        have hne := List.ne_nil_of_mem hmem
        rw [List.filter_cons_of_pos (by simpa using hu), List.getLast?_append_of_ne_nil _ hne,
          List.getLast?_append_of_ne_nil _ (List.cons_ne_nil _ _), List.getLast?_cons_of_ne_nil hne]
      · rw [List.filter_cons_of_neg (by simpa using hu)]

theorem lastTold_append (us us' : List LayerUpdate) (source : Source) :
    lastTold (us ++ us') source =
      (((us'.filter fun u => u.1 = source).getLast?.or
        (us.filter fun u => u.1 = source).getLast?).map Prod.snd).getD [] := by
  rw [lastTold, List.filter_append, List.getLast?_append]

/-- **Rearranged updates leave the same word of every layer**, after any others. -/
theorem Rearranged.layered_eq {us us' : List DiscoveredEndpoints} (h : Rearranged us us')
    (key : String) (earlier : List LayerUpdate) :
    layered (earlier ++ updatesFor key us') = layered (earlier ++ updatesFor key us) := by
  have htold : lastTold (earlier ++ updatesFor key us') =
      lastTold (earlier ++ updatesFor key us) := by
    funext source
    rw [lastTold_append, lastTold_append, filter_updatesFor, filter_updatesFor, List.getLast?_map,
      List.getLast?_map, h.getLast? key source]
  rw [layered, htold, layered]

/-! ### Every run -/

/-- The update that a call for a peer brings, if it is one. -/
def PeerEvent.update? : PeerEvent → Option LayerUpdate
  | .discover _ source endpoints _ => some (source, endpoints)
  | .kick .. | .relay .. | .tick .. => none

/-- The updates for a peer since it entered the table. -/
def Chronicle.updates (c : Chronicle C) : List LayerUpdate := c.events.filterMap PeerEvent.update?

/-- What is recorded of a peer after one call more. -/
theorem PeerRuntime.discovered_next (p : PeerRuntime C) (e : PeerEvent) :
    (p.next e).discovered =
      match e.update? with
      | some u => mergeDiscovered p.discovered u.1 u.2
      | none => p.discovered := by
  cases e with
  | kick cache now clock => rfl
  | discover cache source endpoints clock => exact discovered_discover ..
  | relay cache session? now clock => exact discovered_relayRegistered ..
  | tick cache mgr obs now t => exact discovered_tick ..

/-- **What is recorded of a peer is the last word of each layer** since it entered. -/
theorem Chronicle.discovered_eq (c : Chronicle C) (h : c.first.Fresh) :
    c.peer.discovered = layered c.updates := by
  obtain ⟨p, es⟩ := c
  induction es using List.reverseRecOn with
  | nil => exact h.discovered
  | append_singleton es e ih =>
      have hpeer : (⟨p, es ++ [e]⟩ : Chronicle C).peer = (⟨p, es⟩ : Chronicle C).peer.next e :=
        peer_add ⟨p, es⟩ e
      rw [hpeer, PeerRuntime.discovered_next, ih h, updates, updates, List.filterMap_append]
      cases hu : e.update? with
      | none => simp [hu]
      | some u => simp [hu, layered_concat]

/-- The daemon after some calls of `on_discovered`. -/
def Daemon.hear (d : Daemon C) (us : List (DiscoveredEndpoints × Clock)) : Daemon C :=
  us.foldl (fun d u => (d.onDiscovered u.1 u.2).1) d

theorem Daemon.discovered_hear (d : Daemon C) (us : List (DiscoveredEndpoints × Clock))
    (key : String) :
    ((d.hear us).peer key).map PeerRuntime.discovered =
      ((d.peer key).map PeerRuntime.discovered).map fun discovered =>
        (updatesFor key (us.map Prod.fst)).foldl
          (fun discovered u => PeerRuntime.mergeDiscovered discovered u.1 u.2) discovered := by
  induction us generalizing d with
  | nil => simp [hear, updatesFor, Function.comp_def]
  | cons u us ih =>
      have hstep : d.hear (u :: us) = (d.onDiscovered u.1 u.2).1.hear us := rfl
      rw [hstep, ih, discovered_onDiscovered, Option.map_map]
      refine congrArg (fun f => Option.map f _) (funext fun discovered => ?_)
      rw [Function.comp_apply, List.map_cons, updatesFor, updatesFor]
      split_ifs with hk
      · rw [List.filter_cons_of_pos (by simpa using hk), List.map_cons, List.foldl_cons]
      · rw [List.filter_cons_of_neg (by simpa using hk)]

/-- **Updates of different layers commute.**  In every state of every run and after every
further sequence of updates, for any peers, what is recorded of a peer in the table is
the last word of each layer since the peer entered, in the order LAN, gossip, DHT, DDNS;
and updates that are rearranged, at whatever times they come, leave the same. -/
theorem discovered_eq_layered (cfg : Config C) (u : System.Startup) (is : List Input)
    (key : String) (us : List (DiscoveredEndpoints × Clock)) :
    let d := (System.after cfg (System.boot cfg u) is).daemon
    ((d.hear us).peer key).map PeerRuntime.discovered =
        ((chronicledAfter cfg u is).2.find? fun c => c.peer.keyB64 = key).map
          (fun c => layered (c.updates ++ updatesFor key (us.map Prod.fst))) ∧
      ∀ us' : List (DiscoveredEndpoints × Clock),
        Relation.ReflTransGen Rearranged (us.map Prod.fst) (us'.map Prod.fst) →
        ((d.hear us').peer key).map PeerRuntime.discovered =
          ((d.hear us).peer key).map PeerRuntime.discovered := by
  intro d
  obtain ⟨hsystem, htable⟩ := chronicled cfg u is
  rw [hsystem] at htable
  have hnow : ∀ us : List (DiscoveredEndpoints × Clock),
      ((d.hear us).peer key).map PeerRuntime.discovered =
        ((chronicledAfter cfg u is).2.find? fun c => c.peer.keyB64 = key).map
          fun c => layered (c.updates ++ updatesFor key (us.map Prod.fst)) := by
    intro us
    have hpeer : d.peer key =
        ((chronicledAfter cfg u is).2.find? fun c => c.peer.keyB64 = key).map Chronicle.peer := by
      rw [Daemon.peer, htable, List.find?_map]
      rfl
    rw [Daemon.discovered_hear, hpeer]
    cases hfind : (chronicledAfter cfg u is).2.find? fun c => c.peer.keyB64 = key with
    | none => rfl
    | some c =>
        have hfresh := fresh_first cfg u is c (List.mem_of_find?_eq_some hfind)
        simp only [Option.map_some, layered_append, c.discovered_eq hfresh]
  refine ⟨hnow us, fun us' hus' => ?_⟩
  rw [hnow us', hnow us]
  refine congrArg (fun f => Option.map f _) (funext fun c => ?_)
  generalize us'.map Prod.fst = ws at hus'
  induction hus' with
  | refl => rfl
  | tail _ hlast ih => exact (hlast.layered_eq key c.updates).trans ih

end Hextet
