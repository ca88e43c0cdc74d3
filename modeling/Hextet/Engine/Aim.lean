/-
# The kernel is pointed where the state machine is

`crates/engine/src/daemon.rs` hands the actions of `crates/engine/src/fsm.rs` to
`apply_actions`, in many places, and throws some lists away.  The kernel keeps one
endpoint per peer and never says why it holds it, so the daemon relies on an
agreement that no line of it checks: while a peer is probed, the last endpoint
that was commanded for it is the machine's current candidate.

The *aim* of a peer is that last command.  Aims stand beside the runtime table,
one per entry, and follow it through every handler (`aimedStep`); `Aimed` is the
agreement, kept by each operation of the machine, by each handler for one peer,
and so by every input (`kernel_pointed`).
-/

import Hextet.Engine.PeerRule

namespace Hextet

open Lib

variable {C : Crypto}

/-- The endpoint that an effect of `apply_actions` commands. -/
def Effect.aim? : Effect C → Option SocketAddrV6
  | .setPeerEndpoint _ ep => some ep
  | .addPeer spec => spec.endpoint
  | _ => none

/-- The last endpoint that some actions command, or the one before them. -/
def lastTarget (aim : Option SocketAddrV6) (actions : List Action) : Option SocketAddrV6 :=
  ((actions.filterMap Action.target?).getLast?).or aim

/-- The last endpoint that some effects command, or the one before them. -/
def aimAfter (aim : Option SocketAddrV6) (effects : List (Effect C)) : Option SocketAddrV6 :=
  ((effects.filterMap Effect.aim?).getLast?).or aim

@[simp] theorem lastTarget_nil (aim : Option SocketAddrV6) : lastTarget aim [] = aim := rfl

@[simp] theorem aimAfter_nil (aim : Option SocketAddrV6) :
    aimAfter aim ([] : List (Effect C)) = aim := rfl

theorem getLast?_append_or {α : Type*} (l l' : List α) (x : Option α) :
    ((l ++ l').getLast?).or x = (l'.getLast?).or ((l.getLast?).or x) := by
  rw [List.getLast?_append, Option.or_assoc]

theorem lastTarget_append (aim : Option SocketAddrV6) (as as' : List Action) :
    lastTarget aim (as ++ as') = lastTarget (lastTarget aim as) as' := by
  rw [lastTarget, List.filterMap_append, getLast?_append_or]
  rfl

theorem aimAfter_append (aim : Option SocketAddrV6) (es es' : List (Effect C)) :
    aimAfter aim (es ++ es') = aimAfter (aimAfter aim es) es' := by
  rw [aimAfter, List.filterMap_append, getLast?_append_or]
  rfl

/-- Effects that command no endpoint leave the aim. -/
theorem aimAfter_of_silent {es : List (Effect C)} (h : ∀ e ∈ es, e.aim? = none)
    (aim : Option SocketAddrV6) : aimAfter aim es = aim := by
  rw [aimAfter, List.filterMap_eq_nil_iff.2 h]
  rfl

/-- **`apply_actions` commands what the actions say.** -/
theorem aimAfter_applyActions (p : PeerRuntime C) (clock : Clock) (cache : EndpointCache)
    (aim : Option SocketAddrV6) (as : List Action) :
    aimAfter aim (p.applyActions clock cache as).2 = lastTarget aim as := by
  have hone : ∀ now cache a,
      (p.applyAction now cache a).2.filterMap Effect.aim? = a.target?.toList := by
    intro now cache a
    cases a with
    | setEndpoint ep => rfl
    | rehandshake ep => rfl
    | nudge =>
        rw [PeerRuntime.applyAction]
        split_ifs <;> rfl
    | markGood ep =>
        rw [PeerRuntime.applyAction]
        split_ifs <;> rfl
  have hall : (p.applyActions clock cache as).2.filterMap Effect.aim? =
      as.filterMap Action.target? := by
    induction as generalizing clock cache with
    | nil => rfl
    | cons a as ih =>
        rw [PeerRuntime.applyActions]
        simp only [List.filterMap_append, hone, ih, List.filterMap_cons]
        cases a.target? <;> rfl
  rw [aimAfter, hall]
  rfl

/-! ### The machine -/

namespace PeerFsm

variable {fsm fsm' : PeerFsm} {aim : Option SocketAddrV6} {actions : List Action}

/-- While probing, a list that is not empty has a current candidate. -/
def Ready (fsm : PeerFsm) : Prop :=
  fsm.state.isProbing = true → fsm.candidates ≠ [] → fsm.currentCandidate.isSome = true

/-- While probing with candidates, the aim is the current one. -/
def Aimed (fsm : PeerFsm) (aim : Option SocketAddrV6) : Prop :=
  fsm.state.isProbing = true → fsm.candidates ≠ [] →
    ∃ ep, fsm.currentCandidate = some ep ∧ aim = some ep

theorem ready_new (candidates : List SocketAddrV6) (now : SystemTime) :
    Ready (new candidates now) := by
  intro _ hne
  simpa [currentCandidate, new, List.length_pos_iff] using hne

theorem aimed_of_connected {ep : SocketAddrV6} (h : fsm.state = .connected ep) :
    fsm.Aimed aim := by
  intro hp
  rw [h] at hp
  cases hp

theorem aimed_of_quiet (h : fsm.Aimed aim) (hq : Quiet fsm fsm' actions) :
    fsm'.Aimed (lastTarget aim actions) := by
  have hsilent : lastTarget aim actions = aim := by
    rw [lastTarget, List.filterMap_eq_nil_iff.2 fun a ha => by rw [hq.actions a ha]; rfl]
    rfl
  intro hp hne
  rcases hq.state with ⟨hstate, hc⟩ | ⟨hp', -, hcur⟩
  · rw [hstate, hc] at hp
    cases hp
  · obtain ⟨hne', hcur⟩ := hcur hne
    rw [hcur, hsilent]
    exact h hp' hne'

theorem aimed_of_points {now : SystemTime} {flush : Bool} (h : Points fsm' now flush actions) :
    fsm'.Aimed (lastTarget aim actions) := by
  obtain ⟨ep, hcur, rfl⟩ := h.target
  exact fun _ _ => ⟨ep, hcur, by cases flush <;> rfl⟩

theorem Aimed.setCandidates (h : fsm.Aimed aim) (candidates : List SocketAddrV6)
    (now : SystemTime) : (fsm.setCandidates candidates now).1.Aimed
      (lastTarget aim (fsm.setCandidates candidates now).2) := by
  rcases setCandidates_cases fsm candidates now with hq | ⟨-, hp⟩
  · exact aimed_of_quiet h hq
  · exact aimed_of_points hp

theorem Aimed.retryFromImpl (h : fsm.Aimed aim) (avoid : Option SocketAddrV6) (now : SystemTime)
    (flush : Bool) : (fsm.retryFromImpl avoid now flush).1.Aimed
      (lastTarget aim (fsm.retryFromImpl avoid now flush).2) := by
  rcases retryFromImpl_cases fsm avoid now flush with hq | ⟨-, hp⟩
  · exact aimed_of_quiet h hq
  · exact aimed_of_points hp

theorem Aimed.tick (h : fsm.Aimed aim) (now : SystemTime) (obs : Observation) :
    (fsm.tick now obs).1.Aimed (lastTarget aim (fsm.tick now obs).2) := by
  cases hstate : fsm.state with
  | probing i rounds =>
      rcases tickProbing_cases hstate now obs with
        ⟨t, ep, -, -, -, -, heq⟩ | ⟨-, heq⟩ | ⟨-, hq | hp⟩
      · rw [heq]
        exact aimed_of_connected rfl
      · rw [heq]
        exact h
      · exact aimed_of_quiet h hq
      · exact aimed_of_points hp
  | connected endpoint =>
      rcases tickConnected_cases hstate now obs with
        ⟨-, ke, -, -, heq⟩ | ⟨-, heq⟩ | ⟨-, hp | ⟨-, heq⟩⟩
      · rw [heq]
        exact aimed_of_connected rfl
      · rw [heq]
        exact h
      · exact aimed_of_points hp
      · rw [heq]
        exact fun _ hne => absurd rfl hne

/-- A kick aims, whatever was commanded before. -/
theorem Ready.kick (h : fsm.Ready) (now : SystemTime) (aim : Option SocketAddrV6) :
    (fsm.kick now).1.Aimed (lastTarget aim (fsm.kick now).2) := by
  intro hp hne
  obtain ⟨ep, hep⟩ := Option.isSome_iff_exists.1 (h hp hne)
  refine ⟨ep, hep, ?_⟩
  have hp : fsm.state.isProbing = true := hp
  cases hstate : fsm.state with
  | connected e => rw [hstate] at hp; cases hp
  | probing i rounds =>
      rw [currentCandidate, hstate] at hep
      have hactions : (fsm.kick now).2 = point fsm.candidates i := by rw [PeerFsm.kick, hstate]
      rw [hactions, point_of_getElem? hep]
      rfl

theorem Aimed.ready (h : fsm.Aimed aim) : fsm.Ready := by
  intro hp hne
  obtain ⟨ep, hep, -⟩ := h hp hne
  rw [hep]
  rfl

end PeerFsm

/-! ### One peer -/

namespace PeerRuntime

variable {p : PeerRuntime C} {aim : Option SocketAddrV6}

/-- The result of a handler for one peer is aimed. -/
def Keeps (aim : Option SocketAddrV6) (r : PeerRuntime C × EndpointCache × List (Effect C)) :
    Prop :=
  r.1.fsm.Aimed (aimAfter aim r.2.2)

theorem keeps_kick (h : p.fsm.Ready) (cache : EndpointCache) (now : SystemTime) (clock : Clock)
    (aim : Option SocketAddrV6) : Keeps aim (p.kick cache now clock) := by
  rw [Keeps, kick, aimAfter_applyActions]
  exact h.kick now aim

theorem keeps_refresh (h : p.fsm.Aimed aim) (cache : EndpointCache) (clock : Clock) :
    Keeps aim (p.refresh cache clock) := by
  rw [Keeps, refresh, aimAfter_applyActions]
  exact h.setCandidates _ _

theorem keeps_leave (h : p.fsm.Aimed aim) (cache : EndpointCache) (avoid : SocketAddrV6)
    (flush : Bool) (clock : Clock) : Keeps aim (p.leave cache avoid flush clock) := by
  rw [Keeps, leave, aimAfter_applyActions, lastTarget_append]
  exact (h.setCandidates _ _).retryFromImpl _ _ _

/-- More effects in front that command nothing. -/
theorem Keeps.cons_silent {r : PeerRuntime C × EndpointCache × List (Effect C)} (h : Keeps aim r)
    {es : List (Effect C)} (hes : ∀ e ∈ es, e.aim? = none) :
    Keeps aim (r.1, r.2.1, es ++ r.2.2) := by
  rw [Keeps, aimAfter_append, aimAfter_of_silent hes]
  exact h

/-- **`on_discovered` keeps the aim.** -/
theorem keeps_discover (h : p.fsm.Aimed aim) (cache : EndpointCache) (source : Source)
    (endpoints : List SocketAddrV6) (clock : Clock) :
    Keeps aim (p.discover cache source endpoints clock) := by
  unfold discover
  simp only
  split
  · exact keeps_leave (by exact h) cache _ true clock
  · split
    · refine Keeps.cons_silent ?_ fun e he => ?_
      · split_ifs
        · exact keeps_leave (by exact h) _ _ false clock
        · exact keeps_leave (by exact h) _ _ false clock
        · exact keeps_refresh (by exact h) _ clock
        · exact keeps_refresh (by exact h) _ clock
      · split_ifs at he
        · obtain rfl := List.mem_singleton.1 he
          rfl
        · cases he
    · exact keeps_refresh (by exact h) cache clock

/-- **`on_relay_registered` keeps the aim.** -/
theorem keeps_relayRegistered (h : p.fsm.Aimed aim) (cache : EndpointCache)
    (session? : Option RelaySession) (now : Instant) (clock : Clock) :
    Keeps aim (p.relayRegistered cache session? now clock) := by
  unfold relayRegistered
  split
  · exact h
  · split
    · exact h
    · simp only
      split
      · exact h
      · split
        · split_ifs
          · rw [Keeps, aimAfter_append, aimAfter_applyActions, aimAfter_applyActions]
            exact (h.setCandidates _ _).retryFromImpl _ _ _
          · rw [Keeps, aimAfter_applyActions]
            exact h.setCandidates _ _
        · rw [Keeps, aimAfter_applyActions]
          exact h.setCandidates _ _

/-- New candidates for a peer that is connected, without their actions. -/
theorem refreshed_connected {ep : SocketAddrV6} (h : p.fsm.state = .connected ep)
    (cache : EndpointCache) (now : SystemTime) :
    p.refreshed cache now =
      ({ p.fsm with candidates := dedupNormalized (p.candidatesFor cache) }, []) :=
  PeerFsm.setCandidates_connected h _ _

/-- The actions that `drive_relay` throws away: those of `set_candidates`, called
with the link already changed when a direct connection works or an upgrade is
open. -/
def dropped (p : PeerRuntime C) (cache : EndpointCache) (now : Instant) (clock : Clock) :
    List Action :=
  match p.relay, p.fsm.state with
  | some link, .connected endpoint =>
      match link.session with
      | none => []
      | some session =>
          if link.control.isEmpty then []
          else if endpoint ≠ session.endpoint ∨ link.upgradePending = true then
            ({ p with relay := (p.driveRelay cache now clock).1.relay }.refreshed cache
              (clock 0)).2
          else []
  | _, _ => []

/-- **What `drive_relay` throws away is empty.** -/
theorem dropped_eq_nil (p : PeerRuntime C) (cache : EndpointCache) (now : Instant)
    (clock : Clock) : p.dropped cache now clock = [] := by
  unfold dropped
  split
  · rename_i link endpoint hrelay hstate
    split
    · rfl
    · split_ifs
      · rfl
      · rw [refreshed_connected (by exact hstate)]
      · rfl
  · rfl

/-- A registration commands nothing. -/
theorem aim?_register (link : RelayLink C) (b : Bool) :
    ∀ e ∈ (if b then [link.register] else []), e.aim? = none := by
  intro e he
  cases b with
  | false => cases he
  | true =>
      obtain rfl := List.mem_singleton.1 he
      rfl

/-- A probed peer that is driven keeps its aim. -/
theorem aimed_driveProbing (h : p.fsm.Aimed aim) (link : RelayLink C) (rounds : ℕ)
    (now : Instant) :
    (p.driveProbing link rounds now).1.fsm.Aimed
        (lastTarget aim (p.driveProbing link rounds now).2.1) ∧
      ∀ e ∈ (p.driveProbing link rounds now).2.2, e.aim? = none := by
  unfold driveProbing
  simp only
  split_ifs
  · exact ⟨h, by simp⟩
  · exact ⟨h, aim?_register link true⟩
  · exact ⟨h, by simp⟩
  · exact ⟨h, by simp⟩
  · exact ⟨h, aim?_register link true⟩

/-- A peer connected through the relay that is driven tries a direct path and is aimed
there, or stays as it is. -/
theorem aimed_driveRelayed {endpoint : SocketAddrV6} (hstate : p.fsm.state = .connected endpoint)
    (link : RelayLink C) (session : RelaySession) (cache : EndpointCache) (now : Instant)
    (clock : Clock) :
    (p.driveRelayed link session cache now clock).1.fsm.Aimed
        (lastTarget aim (p.driveRelayed link session cache now clock).2.1) ∧
      ∀ e ∈ (p.driveRelayed link session cache now clock).2.2, e.aim? = none := by
  unfold driveRelayed
  simp only
  split
  · refine ⟨?_, aim?_register _ _⟩
    simp only
    rw [refreshed_connected (by exact hstate)]
    exact PeerFsm.Aimed.retryFromImpl (PeerFsm.aimed_of_connected (by exact hstate)) _ _ true
  · split
    · refine ⟨?_, aim?_register _ _⟩
      simp only
      rw [refreshed_connected (by exact hstate)]
      exact PeerFsm.aimed_of_connected hstate
    · exact ⟨PeerFsm.aimed_of_connected hstate, aim?_register _ _⟩

/-- `drive_relay` keeps the aim, and what it starts itself commands nothing. -/
theorem aimed_driveRelay (h : p.fsm.Aimed aim) (cache : EndpointCache) (now : Instant)
    (clock : Clock) :
    (p.driveRelay cache now clock).1.fsm.Aimed
        (lastTarget aim (p.driveRelay cache now clock).2.1) ∧
      ∀ e ∈ (p.driveRelay cache now clock).2.2, e.aim? = none := by
  unfold driveRelay
  split
  · exact ⟨h, by simp⟩
  · rename_i link hlink
    split_ifs
    · exact ⟨h, by simp⟩
    · split
      · exact aimed_driveProbing h link _ now
      · rename_i endpoint hstate
        split
        · exact ⟨h, by simp⟩
        · split_ifs
          · refine ⟨?_, fun e he => ?_⟩
            · simp only
              rw [refreshed_connected (by exact hstate)]
              exact PeerFsm.aimed_of_connected hstate
            · obtain rfl := List.mem_singleton.1 he
              rfl
          · exact aimed_driveRelayed hstate link _ cache now clock

/-- **`tick_once` keeps the aim of a peer.** -/
theorem aimed_tick (h : p.fsm.Aimed aim) (cache : EndpointCache) (mgr : RouteManager)
    (obs : Observation) (now : SystemTime) (t : PeerTick) :
    (p.tick cache mgr obs now t).1.fsm.Aimed
      (aimAfter aim (p.tick cache mgr obs now t).2.2.2.2) := by
  have hfsm := h.tick now obs
  unfold tick
  simp only
  obtain ⟨haimed, hsilent⟩ := aimed_driveRelay
    (p := { p with fsm := (p.fsm.tick now obs).1 }) (by exact hfsm)
    ({ p with fsm := (p.fsm.tick now obs).1 }.applyActions t.clock cache
      (p.fsm.tick now obs).2).1 t.instant (t.clock.after (p.fsm.tick now obs).2.length)
  rw [aimAfter_append, aimAfter_append, aimAfter_append, aimAfter_applyActions,
    aimAfter_of_silent hsilent, aimAfter_applyActions, aimAfter_of_silent]
  · exact haimed
  · intro e he
    obtain ⟨c, -, rfl⟩ := List.mem_map.1 he
    rfl

end PeerRuntime

/-! ### The table -/

/-- The aims after a handler for the first peer with a key. -/
def aimsWith (key : String) (effects : List (Effect C)) :
    List (PeerRuntime C) → List (Option SocketAddrV6) → List (Option SocketAddrV6)
  | p :: ps, aim :: aims =>
      if p.keyB64 = key then aimAfter aim effects :: aims
      else aim :: aimsWith key effects ps aims
  | _, aims => aims

/-- The aims without that of the first peer with a key. -/
def aimsWithout (key : String) :
    List (PeerRuntime C) → List (Option SocketAddrV6) → List (Option SocketAddrV6)
  | p :: ps, aim :: aims => if p.keyB64 = key then aims else aim :: aimsWithout key ps aims
  | _, aims => aims

/-- The aims after every peer was kicked. -/
def kickAims (cache : EndpointCache) (now : SystemTime) (clocks : ℕ → Clock) :
    List (PeerRuntime C) → List (Option SocketAddrV6) → List (Option SocketAddrV6)
  | p :: ps, aim :: aims =>
      let (_, cache, effects) := p.kick cache now (clocks 0)
      aimAfter aim effects :: kickAims cache now (fun i => clocks (i + 1)) ps aims
  | _, aims => aims

/-- The aims after the loop of `tick_once`. -/
def tickAims (statuses : List PeerStatus) (now : SystemTime) (cache : EndpointCache)
    (mgr : RouteManager) (ts : ℕ → PeerTick) :
    List (PeerRuntime C) → List (Option SocketAddrV6) → List (Option SocketAddrV6)
  | p :: ps, aim :: aims =>
      let (_, cache, mgr, _, effects) :=
        p.tick cache mgr (observe statuses p.wgPublic) now (ts 0)
      aimAfter aim effects :: tickAims statuses now cache mgr (fun i => ts (i + 1)) ps aims
  | _, aims => aims

/-- The aims after an event of the gossip task: a peer that enters has none. -/
def gossipAims (d : Daemon C) (clock : Clock) (aims : List (Option SocketAddrV6)) :
    GossipEvent C → List (Option SocketAddrV6)
  | .discovered update =>
      aimsWith update.peerKey (d.onDiscovered update clock).2 d.peers aims
  | .memberAdmitted node _ _ => if node.toBase64 ∈ d.keys then aims else aims ++ [none]
  | .revoked node => aimsWithout node.toBase64 d.peers aims

/-- The aims after an input. -/
def aimsStep (s : System C) (aims : List (Option SocketAddrV6)) :
    Input → List (Option SocketAddrV6)
  | .datagram _ => aims
  | .gossip clock _ =>
      match s.queue with
      | [] => aims
      | event :: _ => gossipAims s.daemon clock aims event
  | .discovered update clock =>
      aimsWith update.peerKey (s.daemon.onDiscovered update clock).2 s.daemon.peers aims
  | .relay done now clock =>
      aimsWith done.peerKey (s.daemon.onRelayRegistered done now clock).2 s.daemon.peers aims
  | .tick statuses now ts =>
      match statuses with
      | none => aims
      | some statuses =>
          tickAims statuses now s.daemon.cache s.daemon.routes ts s.daemon.peers aims
  | .kick now clocks => kickAims s.daemon.cache now clocks s.daemon.peers aims

/-- A system with the aims of its peers, one input. -/
def aimedStep (cfg : Config C) (x : System C × List (Option SocketAddrV6)) (i : Input) :
    System C × List (Option SocketAddrV6) :=
  (x.1.step cfg i, aimsStep x.1 x.2 i)

/-- The system at the entry of the main loop: nothing was commanded before the
first kick. -/
def aimedBoot (cfg : Config C) (u : System.Startup) : System C × List (Option SocketAddrV6) :=
  let peers := startupPeers cfg u.cache u.members u.start
  (System.boot cfg u, kickAims u.cache u.now u.clocks peers (peers.map fun _ => none))

/-- Each peer of a table is aimed. -/
abbrev AllAimed (ps : List (PeerRuntime C)) (aims : List (Option SocketAddrV6)) : Prop :=
  List.Forall₂ (fun p aim => p.fsm.Aimed aim) ps aims

theorem allAimed_replacePeer {key : String} {ps : List (PeerRuntime C)}
    {aims : List (Option SocketAddrV6)} (h : AllAimed ps aims) {p : PeerRuntime C}
    (hp : ps.find? (fun q => q.keyB64 = key) = some p)
    {r : PeerRuntime C × EndpointCache × List (Effect C)}
    (hr : ∀ aim, p.fsm.Aimed aim → PeerRuntime.Keeps aim r) :
    AllAimed (replacePeer key r.1 ps) (aimsWith key r.2.2 ps aims) := by
  induction h with
  | nil => cases hp
  | @cons q aim ps aims hq hrest ih =>
      rw [replacePeer, aimsWith]
      by_cases hkey : q.keyB64 = key
      · rw [List.find?_cons_of_pos (by simpa using hkey), Option.some.injEq] at hp
        subst hp
        rw [if_pos hkey, if_pos hkey]
        exact .cons (hr aim hq) hrest
      · rw [List.find?_cons_of_neg (by simpa using hkey)] at hp
        rw [if_neg hkey, if_neg hkey]
        exact .cons hq (ih hp)

theorem aimsWith_of_find?_eq_none {key : String} {ps : List (PeerRuntime C)}
    (hp : ps.find? (fun q => q.keyB64 = key) = none) (effects : List (Effect C))
    (aims : List (Option SocketAddrV6)) : aimsWith key effects ps aims = aims := by
  induction ps generalizing aims with
  | nil => rw [aimsWith]; simp
  | cons q ps ih =>
      have hkey : q.keyB64 ≠ key := by simpa using List.find?_eq_none.1 hp q List.mem_cons_self
      rw [List.find?_cons_of_neg (by simpa using hkey)] at hp
      cases aims with
      | nil => rw [aimsWith]; simp
      | cons aim aims => rw [aimsWith, if_neg hkey, ih hp]

/-- A handler for one peer keeps the table aimed. -/
theorem allAimed_withPeer {d : Daemon C} {aims : List (Option SocketAddrV6)}
    (h : AllAimed d.peers aims) (key : String)
    {f : PeerRuntime C → EndpointCache → PeerRuntime C × EndpointCache × List (Effect C)}
    (hf : ∀ p aim, p.fsm.Aimed aim → PeerRuntime.Keeps aim (f p d.cache)) :
    AllAimed (d.withPeer key f).1.peers (aimsWith key (d.withPeer key f).2 d.peers aims) := by
  unfold Daemon.withPeer
  split
  · rename_i hp
    rw [aimsWith_of_find?_eq_none hp]
    exact h
  · rename_i p hp
    exact allAimed_replacePeer h hp fun aim => hf p aim

theorem allAimed_onDiscovered {d : Daemon C} {aims : List (Option SocketAddrV6)}
    (h : AllAimed d.peers aims) (update : DiscoveredEndpoints) (clock : Clock) :
    AllAimed (d.onDiscovered update clock).1.peers
      (aimsWith update.peerKey (d.onDiscovered update clock).2 d.peers aims) :=
  allAimed_withPeer h _ fun _ _ hp => PeerRuntime.keeps_discover hp _ _ _ clock

theorem allAimed_kickPeers {ps : List (PeerRuntime C)} (h : ∀ p ∈ ps, p.fsm.Ready)
    (cache : EndpointCache) (now : SystemTime) (clocks : ℕ → Clock)
    {aims : List (Option SocketAddrV6)} (hlen : aims.length = ps.length) :
    AllAimed (Daemon.kickPeers cache now clocks ps).1 (kickAims cache now clocks ps aims) := by
  induction ps generalizing cache clocks aims with
  | nil =>
      obtain rfl := List.length_eq_zero_iff.1 hlen
      exact .nil
  | cons p ps ih =>
      cases aims with
      | nil => cases hlen
      | cons aim aims =>
          refine .cons (PeerRuntime.keeps_kick (h p List.mem_cons_self) cache now (clocks 0) aim) ?_
          exact ih (fun q hq => h q (List.mem_cons_of_mem _ hq)) _ _ (Nat.succ.inj hlen)

theorem allAimed_tickPeers (statuses : List PeerStatus) (now : SystemTime)
    {ps : List (PeerRuntime C)} {aims : List (Option SocketAddrV6)} (h : AllAimed ps aims)
    (cache : EndpointCache) (mgr : RouteManager) (ts : ℕ → PeerTick) :
    AllAimed (Daemon.tickPeers statuses now cache mgr ts ps).1
      (tickAims statuses now cache mgr ts ps aims) := by
  induction h generalizing cache mgr ts with
  | nil => exact .nil
  | cons hp _ ih => exact .cons (PeerRuntime.aimed_tick hp _ _ _ _ _) (ih _ _ _)

theorem ready_of_allAimed {ps : List (PeerRuntime C)} {aims : List (Option SocketAddrV6)}
    (h : AllAimed ps aims) : ∀ p ∈ ps, p.fsm.Ready := by
  induction h with
  | nil => simp
  | cons hp _ ih => exact List.forall_mem_cons.2 ⟨hp.ready, ih⟩

theorem allAimed_eraseP {ps : List (PeerRuntime C)} {aims : List (Option SocketAddrV6)}
    (h : AllAimed ps aims) (key : String) :
    AllAimed (ps.eraseP fun p => p.keyB64 = key) (aimsWithout key ps aims) := by
  induction h with
  | nil => exact .nil
  | @cons q aim ps aims hq hrest ih =>
      rw [aimsWithout]
      by_cases hkey : q.keyB64 = key
      · rw [List.eraseP_cons_of_pos (by simpa using hkey), if_pos hkey]
        exact hrest
      · rw [List.eraseP_cons_of_neg (by simpa using hkey), if_neg hkey]
        exact .cons hq ih

theorem allAimed_onGossip {d : Daemon C} {aims : List (Option SocketAddrV6)}
    (h : AllAimed d.peers aims) (ctx : Ctx) (clock : Clock) (event : GossipEvent C) :
    AllAimed (d.onGossip ctx clock event).1.peers (gossipAims d clock aims event) := by
  cases event with
  | discovered update => exact allAimed_onDiscovered h update clock
  | memberAdmitted node name address =>
      simp only [Daemon.onGossip, Daemon.onMemberAdmitted, gossipAims]
      split_ifs
      · exact h
      · refine List.rel_append h (.cons ?_ .nil)
        -- a member enters without candidates
        exact fun _ hne => absurd rfl hne
  | revoked node => exact allAimed_eraseP h node.toBase64

/-- **Every input keeps the table aimed.** -/
theorem allAimed_step (cfg : Config C) {x : System C × List (Option SocketAddrV6)}
    (h : AllAimed x.1.daemon.peers x.2) (i : Input) :
    AllAimed (aimedStep cfg x i).1.daemon.peers (aimedStep cfg x i).2 := by
  cases i with
  | datagram d => exact h
  | gossip clock saved =>
      cases hq : x.1.queue with
      | nil => simpa [aimedStep, aimsStep, System.step, hq] using h
      | cons event rest =>
          have hstep := allAimed_onGossip h cfg.ctx clock event
          simpa [aimedStep, aimsStep, System.step, System.perform, hq] using hstep
  | discovered update clock => exact allAimed_onDiscovered h update clock
  | relay done now clock =>
      exact allAimed_withPeer h _ fun _ _ hp => PeerRuntime.keeps_relayRegistered hp _ _ now clock
  | tick statuses now ts =>
      cases statuses with
      | none => exact h
      | some statuses => exact allAimed_tickPeers statuses now h _ _ ts
  | kick now clocks =>
      exact allAimed_kickPeers (ready_of_allAimed h) _ now clocks h.length_eq.symm

/-- A new state machine is ready. -/
theorem ready_of_entering {p : PeerRuntime C} (h : p.Entering) : p.fsm.Ready := by
  obtain ⟨candidates, now, hfsm⟩ := h.fsm
  rw [hfsm]
  exact PeerFsm.ready_new candidates now

/-- The aims do not change what the system does. -/
theorem fst_aimed_run (cfg : Config C) (x : System C × List (Option SocketAddrV6))
    (is : List Input) : (run (aimedStep cfg) x is).1 = System.after cfg x.1 is := by
  induction is generalizing x with
  | nil => rfl
  | cons i is ih => exact ih _

/-- **The kernel is always pointed where the state machine is.**  After any inputs,
for every peer that is probed with candidates, the last endpoint handed to
`apply_actions` for it is its current candidate; and what `drive_relay` would throw
away in the state reached is empty for every peer. -/
theorem kernel_pointed (cfg : Config C) (u : System.Startup) (is : List Input) :
    let x := run (aimedStep cfg) (aimedBoot cfg u) is
    x.1 = System.after cfg (System.boot cfg u) is ∧
      List.Forall₂ (fun p aim => p.fsm.state.isProbing = true → p.fsm.candidates ≠ [] →
        ∃ ep, p.fsm.currentCandidate = some ep ∧ aim = some ep) x.1.daemon.peers x.2 ∧
      ∀ p ∈ x.1.daemon.peers, ∀ cache now clock, p.dropped cache now clock = [] := by
  have hboot : AllAimed (aimedBoot cfg u).1.daemon.peers (aimedBoot cfg u).2 :=
    allAimed_kickPeers (fun p hp => ready_of_entering (entering_of_mem_startupPeers hp)) _ _ _
      (List.length_map ..)
  refine ⟨fst_aimed_run cfg _ is, ?_, fun p _ => p.dropped_eq_nil⟩
  exact run_invariant (P := fun x : System C × List (Option SocketAddrV6) =>
    AllAimed x.1.daemon.peers x.2) (fun _ i h => allAimed_step cfg h i) hboot is

end Hextet
