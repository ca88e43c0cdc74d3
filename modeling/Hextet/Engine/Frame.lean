/-
# What a handler leaves alone

Every handler of `crates/engine/src/daemon.rs` except `on_membership_event` works
on the peers that are there.  It keeps what identifies them, it keeps the member
table, and what it asks of the WireGuard backend are the calls of the actions of
peers in the table: an endpoint set for one of them, or one of them removed and
added again with its own AllowedIPs and keepalive.  `Quiet` is that statement,
proved once per peer function and lifted to the handlers.
-/

import Hextet.Engine.Daemon

namespace Hextet

open Lib

variable {C : Crypto}

/-- The backend calls of an action of a peer. -/
def PeerInfo.calls (i : PeerInfo) : Action → List WgCall
  | .setEndpoint ep => [.setPeerEndpoint i.wgPublic ep]
  | .rehandshake ep => [.removePeer i.wgPublic, .addPeer (i.specAt ep)]
  | .nudge => []
  | .markGood _ => []

/-- The calls are those of actions of peers in a list. -/
def ActsFor (infos : List PeerInfo) (cs : List WgCall) : Prop :=
  ∃ l : List (PeerInfo × Action), (∀ x ∈ l, x.1 ∈ infos) ∧ cs = l.flatMap fun x => x.1.calls x.2

namespace ActsFor

variable {infos infos' : List PeerInfo} {cs cs' : List WgCall}

theorem nil : ActsFor infos [] := ⟨[], by simp, rfl⟩

theorem append (h : ActsFor infos cs) (h' : ActsFor infos cs') : ActsFor infos (cs ++ cs') := by
  obtain ⟨l, hl, rfl⟩ := h
  obtain ⟨l', hl', rfl⟩ := h'
  refine ⟨l ++ l', fun x hx => ?_, List.flatMap_append.symm⟩
  rcases List.mem_append.1 hx with hx | hx
  · exact hl x hx
  · exact hl' x hx

theorem mono (h : ActsFor infos cs) (hsub : ∀ i ∈ infos, i ∈ infos') : ActsFor infos' cs := by
  obtain ⟨l, hl, rfl⟩ := h
  exact ⟨l, fun x hx => hsub x.1 (hl x hx), rfl⟩

/-- **What every action of a peer in the list keeps, the calls keep.** -/
theorem invariant {P : Device → Prop}
    (haction : ∀ i ∈ infos, ∀ a dev, P dev → P (dev.calls (i.calls a))) (h : ActsFor infos cs)
    {dev : Device} (hdev : P dev) : P (dev.calls cs) := by
  obtain ⟨l, hl, rfl⟩ := h
  induction l generalizing dev with
  | nil => exact hdev
  | cons x l ih =>
      rw [List.flatMap_cons, Device.calls_append]
      exact ih (haction x.1 (hl x List.mem_cons_self) x.2 dev hdev)
        fun y hy => hl y (List.mem_cons_of_mem _ hy)

end ActsFor

/-- The member file that an effect saves. -/
def Effect.savedMembers? : Effect C → Option MembersFile
  | .saveMembers file => some file
  | _ => none

/-- Effects of peers in a list: backend calls of their actions, and no save of
the member table. -/
structure Local (infos : List PeerInfo) (effects : List (Effect C)) : Prop where
  acts : ActsFor infos (wgCalls effects)
  unsaved : ∀ e ∈ effects, e.savedMembers? = none

namespace Local

variable {infos infos' : List PeerInfo} {es es' : List (Effect C)}

theorem nil : Local infos ([] : List (Effect C)) := ⟨.nil, by simp⟩

theorem append (h : Local infos es) (h' : Local infos es') : Local infos (es ++ es') where
  acts := by
    rw [wgCalls_append]
    exact h.acts.append h'.acts
  unsaved e he := by
    rcases List.mem_append.1 he with he | he
    · exact h.unsaved e he
    · exact h'.unsaved e he

theorem mono (h : Local infos es) (hsub : ∀ i ∈ infos, i ∈ infos') : Local infos' es :=
  ⟨h.acts.mono hsub, h.unsaved⟩

/-- Effects that are neither backend calls nor saves of the member table. -/
theorem of_silent (h : ∀ e ∈ es, e.wgCall? = none ∧ e.savedMembers? = none) :
    Local infos es := by
  refine ⟨?_, fun e he => (h e he).2⟩
  rw [wgCalls, List.filterMap_eq_nil_iff.2 fun e he => (h e he).1]
  exact .nil

end Local

/-! ### One peer -/

namespace PeerRuntime

-- stated for any peer with the identity `i`: a handler passes through several
-- peer records that differ in the other fields, and `by exact h` lets the goal
-- choose which one is meant
variable {p : PeerRuntime C} {i : PeerInfo}

theorem wgCalls_applyAction (p : PeerRuntime C) (now : SystemTime) (cache : EndpointCache)
    (a : Action) : wgCalls (p.applyAction now cache a).2 = p.toPeerInfo.calls a := by
  cases a with
  | setEndpoint ep => rfl
  | rehandshake ep => rfl
  | nudge =>
      simp only [applyAction]
      split_ifs
      · rfl
      · rfl
  | markGood ep =>
      simp only [applyAction]
      split_ifs
      · rfl
      · rfl

/-- **What a peer's actions ask of the backend**, one after another. -/
theorem wgCalls_applyActions (p : PeerRuntime C) (clock : Clock) (cache : EndpointCache)
    (as : List Action) :
    wgCalls (p.applyActions clock cache as).2 = as.flatMap p.toPeerInfo.calls := by
  induction as generalizing clock cache with
  | nil => rfl
  | cons a as ih =>
      simp only [applyActions, wgCalls_append, List.flatMap_cons, wgCalls_applyAction, ih]

theorem unsaved_applyAction (p : PeerRuntime C) (now : SystemTime) (cache : EndpointCache)
    (a : Action) : ∀ e ∈ (p.applyAction now cache a).2, e.savedMembers? = none := by
  cases a with
  | setEndpoint ep => simp [applyAction, Effect.savedMembers?]
  | rehandshake ep => simp [applyAction, Effect.savedMembers?]
  | nudge =>
      simp only [applyAction]
      split_ifs <;> simp [Effect.savedMembers?]
  | markGood ep =>
      simp only [applyAction]
      split_ifs <;> simp [Effect.savedMembers?]

theorem local_applyAction (h : p.toPeerInfo = i) (now : SystemTime) (cache : EndpointCache)
    (a : Action) : Local [i] (p.applyAction now cache a).2 := by
  subst h
  refine ⟨⟨[(p.toPeerInfo, a)], by simp, ?_⟩, p.unsaved_applyAction now cache a⟩
  rw [wgCalls_applyAction, List.flatMap_singleton]

/-- **The effects of a peer's actions are its own.** -/
theorem local_applyActions (h : p.toPeerInfo = i) (clock : Clock) (cache : EndpointCache)
    (as : List Action) : Local [i] (p.applyActions clock cache as).2 := by
  induction as generalizing clock cache with
  | nil => exact .nil
  | cons a as ih => exact (local_applyAction h _ _ a).append (ih _ _)

/-- The result of a peer function: the identity is kept and the effects are
local. -/
structure Tame (i : PeerInfo) (r : PeerRuntime C × EndpointCache × List (Effect C)) : Prop where
  info : r.1.toPeerInfo = i
  isLocal : Local [i] r.2.2

theorem tame_leave (h : p.toPeerInfo = i) (cache : EndpointCache) (avoid : SocketAddrV6)
    (flush : Bool) (clock : Clock) : Tame i (p.leave cache avoid flush clock) :=
  ⟨h, local_applyActions (by exact h) _ _ _⟩

theorem tame_refresh (h : p.toPeerInfo = i) (cache : EndpointCache) (clock : Clock) :
    Tame i (p.refresh cache clock) :=
  ⟨h, local_applyActions (by exact h) _ _ _⟩

theorem tame_kick (h : p.toPeerInfo = i) (cache : EndpointCache) (now : SystemTime)
    (clock : Clock) : Tame i (p.kick cache now clock) :=
  ⟨h, local_applyActions (by exact h) _ _ _⟩

/-- More silent effects in front. -/
theorem Tame.cons_silent {r : PeerRuntime C × EndpointCache × List (Effect C)} (h : Tame i r)
    {es : List (Effect C)} (hes : ∀ e ∈ es, e.wgCall? = none ∧ e.savedMembers? = none) :
    Tame i (r.1, r.2.1, es ++ r.2.2) :=
  ⟨h.info, (Local.of_silent hes).append h.isLocal⟩

theorem tame_discover (h : p.toPeerInfo = i) (cache : EndpointCache) (source : Source)
    (endpoints : List SocketAddrV6) (clock : Clock) :
    Tame i (p.discover cache source endpoints clock) := by
  unfold discover
  simp only
  split
  · exact tame_leave (by exact h) cache _ true clock
  · split
    · refine Tame.cons_silent ?_ fun e he => ?_
      · split_ifs
        · exact tame_leave (by exact h) _ _ false clock
        · exact tame_leave (by exact h) _ _ false clock
        · exact tame_refresh (by exact h) _ clock
        · exact tame_refresh (by exact h) _ clock
      · split_ifs at he
        · obtain rfl := List.mem_singleton.1 he
          exact ⟨rfl, rfl⟩
        · cases he
    · exact tame_refresh (by exact h) cache clock

theorem tame_relayRegistered (h : p.toPeerInfo = i) (cache : EndpointCache)
    (session? : Option RelaySession) (now : Instant) (clock : Clock) :
    Tame i (p.relayRegistered cache session? now clock) := by
  unfold relayRegistered
  split
  · exact ⟨h, .nil⟩
  · split
    · exact ⟨h, .nil⟩
    · simp only
      split_ifs
      · exact ⟨h, .nil⟩
      · split
        · split_ifs
          · exact ⟨h, (local_applyActions (by exact h) _ _ _).append
              (local_applyActions (by exact h) _ _ _)⟩
          · exact ⟨h, local_applyActions (by exact h) _ _ _⟩
        · exact ⟨h, local_applyActions (by exact h) _ _ _⟩

/-- `drive_relay` keeps the identity and has no effect on the data plane of its
own. -/
theorem driveRelay_frame (h : p.toPeerInfo = i) (cache : EndpointCache) (now : Instant)
    (clock : Clock) :
    (p.driveRelay cache now clock).1.toPeerInfo = i ∧
      Local [i] (p.driveRelay cache now clock).2.2 := by
  have hregister : ∀ (link : RelayLink C) (b : Bool),
      Local [i] (if b then [link.register] else []) := by
    intro link b
    refine Local.of_silent fun e he => ?_
    cases b
    · cases he
    · obtain rfl := List.mem_singleton.1 he
      exact ⟨rfl, rfl⟩
  unfold driveRelay
  split
  · exact ⟨h, .nil⟩
  · rename_i link hlink
    split_ifs
    · exact ⟨h, .nil⟩
    · split
      · unfold driveProbing
        simp only
        split_ifs
        · exact ⟨h, .nil⟩
        · exact ⟨h, hregister link true⟩
        · exact ⟨h, .nil⟩
        · exact ⟨h, .nil⟩
        · exact ⟨h, hregister link true⟩
      · split
        · exact ⟨h, .nil⟩
        · split_ifs
          · refine ⟨h, Local.of_silent fun e he => ?_⟩
            obtain rfl := List.mem_singleton.1 he
            exact ⟨rfl, rfl⟩
          · unfold driveRelayed
            simp only
            split
            · exact ⟨h, hregister _ _⟩
            · split
              · exact ⟨h, hregister _ _⟩
              · exact ⟨h, hregister _ _⟩

theorem tick_frame (h : p.toPeerInfo = i) (cache : EndpointCache) (mgr : RouteManager)
    (obs : Observation) (now : SystemTime) (t : PeerTick) :
    (p.tick cache mgr obs now t).1.toPeerInfo = i ∧
      Local [i] (p.tick cache mgr obs now t).2.2.2.2 := by
  unfold tick
  simp only
  refine ⟨(driveRelay_frame (by exact h) _ _ _).1, ((Local.append ?_ ?_).append ?_).append ?_⟩
  · exact local_applyActions (by exact h) _ _ _
  · exact (driveRelay_frame (by exact h) _ _ _).2
  · exact local_applyActions (driveRelay_frame (by exact h) _ _ _).1 _ _ _
  · refine Local.of_silent fun e he => ?_
    obtain ⟨c, -, rfl⟩ := List.mem_map.1 he
    exact ⟨rfl, rfl⟩

end PeerRuntime

/-! ### The daemon -/

namespace Daemon

/-- The identities in the runtime table. -/
def infos (d : Daemon C) : List PeerInfo := d.peers.map PeerRuntime.toPeerInfo

theorem keys_eq (d : Daemon C) : d.keys = d.infos.map PeerInfo.keyB64 := by
  simp [keys, infos]

theorem keyB64_mem_keys {d : Daemon C} {i : PeerInfo} (hi : i ∈ d.infos) : i.keyB64 ∈ d.keys := by
  rw [keys_eq]
  exact List.mem_map_of_mem hi

/-- A handler that leaves the identities and the members alone and acts for the
peers in the table. -/
structure Quiet (d : Daemon C) (r : Daemon C × List (Effect C)) : Prop where
  infos : r.1.infos = d.infos
  members : r.1.members = d.members
  isLocal : Local d.infos r.2

theorem Quiet.keys {d : Daemon C} {r : Daemon C × List (Effect C)} (h : d.Quiet r) :
    r.1.keys = d.keys := by
  rw [keys_eq, keys_eq, h.infos]

theorem map_replacePeer {key : String} {p p' : PeerRuntime C} (h : p'.toPeerInfo = p.toPeerInfo)
    {ps : List (PeerRuntime C)} (hp : ps.find? (fun p => p.keyB64 = key) = some p) :
    (replacePeer key p' ps).map PeerRuntime.toPeerInfo = ps.map PeerRuntime.toPeerInfo := by
  induction ps with
  | nil => cases hp
  | cons q ps ih =>
      unfold replacePeer
      by_cases hq : q.keyB64 = key
      · rw [List.find?_cons_of_pos (by simpa using hq), Option.some.injEq] at hp
        subst hp
        rw [if_pos hq, List.map_cons, List.map_cons, h]
      · rw [List.find?_cons_of_neg (by simpa using hq)] at hp
        rw [if_neg hq, List.map_cons, List.map_cons, ih hp]

theorem quiet_withPeer (d : Daemon C) (key : String)
    {f : PeerRuntime C → EndpointCache → PeerRuntime C × EndpointCache × List (Effect C)}
    (hf : ∀ p cache, PeerRuntime.Tame p.toPeerInfo (f p cache)) : d.Quiet (d.withPeer key f) := by
  unfold withPeer
  split
  · exact ⟨rfl, rfl, .nil⟩
  · rename_i p hp
    have h := hf p d.cache
    refine ⟨map_replacePeer h.info hp, rfl, h.isLocal.mono fun i hi => ?_⟩
    obtain rfl := List.mem_singleton.1 hi
    exact List.mem_map_of_mem (List.mem_of_find?_eq_some hp)

theorem quiet_onDiscovered (d : Daemon C) (update : DiscoveredEndpoints) (clock : Clock) :
    d.Quiet (d.onDiscovered update clock) :=
  d.quiet_withPeer _ fun _ cache => PeerRuntime.tame_discover rfl cache _ _ clock

theorem quiet_onRelayRegistered (d : Daemon C) (done : RelayRegistered) (now : Instant)
    (clock : Clock) : d.Quiet (d.onRelayRegistered done now clock) :=
  d.quiet_withPeer _ fun _ cache => PeerRuntime.tame_relayRegistered rfl cache _ now clock

theorem kickPeers_frame (ps : List (PeerRuntime C)) (cache : EndpointCache) (now : SystemTime)
    (clocks : ℕ → Clock) :
    (kickPeers cache now clocks ps).1.map PeerRuntime.toPeerInfo =
        ps.map PeerRuntime.toPeerInfo ∧
      Local (ps.map PeerRuntime.toPeerInfo) (kickPeers cache now clocks ps).2.2 := by
  induction ps generalizing cache clocks with
  | nil => exact ⟨rfl, .nil⟩
  | cons p ps ih =>
      have h := PeerRuntime.tame_kick (rfl : p.toPeerInfo = _) cache now (clocks 0)
      obtain ⟨hmap, hloc⟩ := ih (p.kick cache now (clocks 0)).2.1 fun i => clocks (i + 1)
      refine ⟨?_, (h.isLocal.mono ?_).append (hloc.mono ?_)⟩
      · simp only [kickPeers, List.map_cons, hmap, h.info]
      · simp
      · exact fun i hi => List.mem_cons_of_mem _ hi

theorem quiet_onKick (d : Daemon C) (now : SystemTime) (clocks : ℕ → Clock) :
    d.Quiet (d.onKick now clocks) :=
  ⟨(kickPeers_frame _ _ now clocks).1, rfl, (kickPeers_frame _ _ now clocks).2⟩

theorem tickPeers_frame (statuses : List PeerStatus) (now : SystemTime)
    (ps : List (PeerRuntime C)) (cache : EndpointCache) (mgr : RouteManager)
    (ts : ℕ → PeerTick) :
    (tickPeers statuses now cache mgr ts ps).1.map PeerRuntime.toPeerInfo =
        ps.map PeerRuntime.toPeerInfo ∧
      Local (ps.map PeerRuntime.toPeerInfo) (tickPeers statuses now cache mgr ts ps).2.2.2.2 := by
  induction ps generalizing cache mgr ts with
  | nil => exact ⟨rfl, .nil⟩
  | cons p ps ih =>
      obtain ⟨hinfo, hp⟩ := PeerRuntime.tick_frame (rfl : p.toPeerInfo = _) cache mgr
        (observe statuses p.wgPublic) now (ts 0)
      obtain ⟨hmap, hloc⟩ := ih (p.tick cache mgr (observe statuses p.wgPublic) now (ts 0)).2.1
        (p.tick cache mgr (observe statuses p.wgPublic) now (ts 0)).2.2.1 fun i => ts (i + 1)
      refine ⟨?_, (hp.mono ?_).append (hloc.mono ?_)⟩
      · simp only [tickPeers, List.map_cons, hmap, hinfo]
      · simp
      · exact fun i hi => List.mem_cons_of_mem _ hi

theorem quiet_tickOnce (d : Daemon C) (statuses : Option (List PeerStatus)) (now : SystemTime)
    (ts : ℕ → PeerTick) :
    d.Quiet ((d.tickOnce statuses now ts).1, (d.tickOnce statuses now ts).2.2) := by
  unfold tickOnce
  split
  · exact ⟨rfl, rfl, .nil⟩
  · rename_i statuses
    obtain ⟨hmap, hloc⟩ := tickPeers_frame statuses now d.peers d.cache d.routes ts
    exact ⟨hmap, rfl, hloc⟩

end Daemon

end Hextet
