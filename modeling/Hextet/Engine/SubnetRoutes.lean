/-
# Subnet routes and the peers behind them

`sync_peer_routes` and `tick_once` in `crates/engine/src/daemon.rs`: at every tick the
routes of each peer of the runtime table are made to be those it announces, if it is
connected, and none otherwise.  The loop is over the table, so the routes of a peer that
has left the table are nobody's: `on_membership_event` erases a revoked peer without a
call of `RouteManager::remove_peer`, and its routes stay.

After a tick that reads the kernel, what is installed is backed by the table exactly if
every key with routes is in the table (`backed_tick_iff`).  A run keeps that up as long
as no node is revoked while routes of it are installed (`routes_backed`).
-/

import Hextet.Engine.Relay
import Hextet.Engine.RouteTracking

namespace Hextet

open Lib

variable {C : Crypto}

/-- Being connected. -/
def PunchState.isConnected : PunchState → Bool
  | .connected _ => true
  | .probing .. => false

/-! ### One peer -/

namespace RouteManager

variable {mgr : RouteManager} {ok : ℕ → Bool} {peerKey : String} {desired : List Ipv6Route}

theorem mem_installed_setRoutes {routes : List Ipv6Route} {e : String × List Ipv6Route} :
    e ∈ (mgr.setRoutes peerKey routes).installed ↔
      e = (peerKey, routes) ∨ (e ∈ mgr.installed ∧ e.1 ≠ peerKey) := by
  simp [setRoutes]

/-- A `sync` whose backend calls succeed installs what is wanted and nothing else. -/
theorem sync_of_ok (hok : ∀ n, ok n = true) :
    ∃ routes, (mgr.sync ok peerKey desired).1 = mgr.setRoutes peerKey routes ∧
      ∀ r, r ∈ routes ↔ r ∈ desired := by
  have hplanned : ∀ i < (RouteOp.sync ok peerKey desired).planned mgr, ok i = true :=
    fun i _ => hok i
  have h := RouteWorld.sync_of_forall (w := ⟨mgr, ∅⟩) hplanned
  exact ⟨_, congrArg RouteWorld.mgr h, fun r => RouteWorld.mem_synced⟩

end RouteManager

/-- The routes a peer is to have: its own while it is connected. -/
def PeerRuntime.wanted (p : PeerRuntime C) : List Ipv6Route :=
  if p.fsm.state.isConnected then p.routes else []

/-- `sync_peer_routes` comes last, for the peer as it then is. -/
theorem PeerRuntime.tick_eq_sync (p : PeerRuntime C) (cache : EndpointCache) (mgr : RouteManager)
    (obs : Observation) (now : SystemTime) (t : PeerTick) :
    (p.tick cache mgr obs now t).2.2.1 = (mgr.sync t.routeOk (p.tick cache mgr obs now t).1.keyB64
      (p.tick cache mgr obs now t).1.wanted).1 := by
  unfold tick
  simp only
  generalize (driveRelay _ _ _ _).1 = q
  unfold wanted
  cases q.fsm.state <;> rfl

/-- After a tick the peer has the routes it is to have. -/
theorem PeerRuntime.routes_tick (p : PeerRuntime C) (cache : EndpointCache) (mgr : RouteManager)
    (obs : Observation) (now : SystemTime) {t : PeerTick} (hok : ∀ n, t.routeOk n = true) :
    ∃ routes, (p.tick cache mgr obs now t).2.2.1 = mgr.setRoutes p.keyB64 routes ∧
      ∀ r, r ∈ routes ↔ r ∈ (p.tick cache mgr obs now t).1.wanted := by
  have hkey : (p.tick cache mgr obs now t).1.keyB64 = p.keyB64 :=
    congrArg PeerInfo.keyB64 (tick_frame rfl cache mgr obs now t).1
  rw [tick_eq_sync, hkey]
  exact RouteManager.sync_of_ok hok

/-! ### The table -/

/-- A route is backed by a table: a peer with the key is connected and announces it. -/
def Backed (ps : List (PeerRuntime C)) (key : String) (r : Ipv6Route) : Prop :=
  ∃ p ∈ ps, p.keyB64 = key ∧ p.fsm.state.isConnected = true ∧ r ∈ p.routes

theorem mem_wanted {p : PeerRuntime C} {r : Ipv6Route} :
    r ∈ p.wanted ↔ p.fsm.state.isConnected = true ∧ r ∈ p.routes := by
  unfold PeerRuntime.wanted
  split_ifs with h
  · simp [h]
  · simp [h]

namespace Daemon

theorem tickPeers_cons (statuses : List PeerStatus) (now : SystemTime) (cache : EndpointCache)
    (mgr : RouteManager) (ts : ℕ → PeerTick) (p : PeerRuntime C) (ps : List (PeerRuntime C)) :
    tickPeers statuses now cache mgr ts (p :: ps) =
      let r := p.tick cache mgr (observe statuses p.wgPublic) now (ts 0)
      let rest := tickPeers statuses now r.2.1 r.2.2.1 (fun i => ts (i + 1)) ps
      (r.1 :: rest.1, rest.2.1, rest.2.2.1, r.2.2.2.1 || rest.2.2.2.1,
        r.2.2.2.2 ++ rest.2.2.2.2) := rfl

/-- **What the loop of a tick installs**: the routes of an entry are backed by the table, or
no peer of the table has its key and it was there before. -/
theorem installed_tickPeers (statuses : List PeerStatus) (now : SystemTime) (cache : EndpointCache)
    (mgr : RouteManager) {ts : ℕ → PeerTick} (hok : ∀ k n, (ts k).routeOk n = true)
    (ps : List (PeerRuntime C)) {e : String × List Ipv6Route}
    (he : e ∈ (tickPeers statuses now cache mgr ts ps).2.2.1.installed) :
    (∀ r ∈ e.2, Backed (tickPeers statuses now cache mgr ts ps).1 e.1 r) ∨
      (e ∈ mgr.installed ∧ e.1 ∉ ps.map fun p => p.keyB64) := by
  induction ps generalizing cache mgr ts with
  | nil => exact Or.inr ⟨he, by simp⟩
  | cons p ps ih =>
      obtain ⟨routes, hmgr, hroutes⟩ :=
        p.routes_tick cache mgr (observe statuses p.wgPublic) now (hok 0)
      have hkey : (p.tick cache mgr (observe statuses p.wgPublic) now (ts 0)).1.keyB64 =
          p.keyB64 :=
        congrArg PeerInfo.keyB64 (PeerRuntime.tick_frame rfl cache mgr _ now (ts 0)).1
      rw [tickPeers_cons] at he ⊢
      generalize p.tick cache mgr (observe statuses p.wgPublic) now (ts 0) = ticked
        at hmgr hroutes hkey he ⊢
      have hrest := ih ticked.2.1 ticked.2.2.1 (fun k => hok (k + 1)) he
      rw [hmgr, RouteManager.mem_installed_setRoutes, ← hmgr] at hrest
      rcases hrest with hbacked | ⟨rfl | ⟨hmem, hne⟩, hnot⟩
      · refine Or.inl fun r hr => ?_
        obtain ⟨q, hq, hpeer⟩ := hbacked r hr
        exact ⟨q, List.mem_cons_of_mem _ hq, hpeer⟩
      · refine Or.inl fun r hr => ⟨_, List.mem_cons_self, hkey, ?_⟩
        exact mem_wanted.1 ((hroutes r).1 hr)
      · refine Or.inr ⟨hmem, ?_⟩
        rw [List.map_cons, List.mem_cons, not_or]
        exact ⟨hne, hnot⟩

/-- An entry that no peer of the table has the key of is left alone by a tick. -/
theorem mem_installed_tickPeers (statuses : List PeerStatus) (now : SystemTime)
    (cache : EndpointCache) (mgr : RouteManager) {ts : ℕ → PeerTick}
    (hok : ∀ k n, (ts k).routeOk n = true) (ps : List (PeerRuntime C))
    {e : String × List Ipv6Route} (he : e ∈ mgr.installed)
    (hnot : e.1 ∉ ps.map fun p => p.keyB64) :
    e ∈ (tickPeers statuses now cache mgr ts ps).2.2.1.installed := by
  induction ps generalizing cache mgr ts with
  | nil => exact he
  | cons p ps ih =>
      obtain ⟨routes, hmgr, -⟩ :=
        p.routes_tick cache mgr (observe statuses p.wgPublic) now (hok 0)
      rw [List.map_cons, List.mem_cons, not_or] at hnot
      refine ih _ (p.tick cache mgr (observe statuses p.wgPublic) now (ts 0)).2.2.1
        (fun k => hok (k + 1)) ?_ hnot.2
      rw [hmgr, RouteManager.mem_installed_setRoutes]
      exact Or.inr ⟨he, hnot.1⟩

/-- Every installed route is backed by the table. -/
def RoutesBacked (d : Daemon C) : Prop :=
  ∀ e ∈ d.routes.installed, ∀ r ∈ e.2, Backed d.peers e.1 r

/-- **A tick that reads the kernel leaves only backed routes exactly if every key with
routes is in the table.** -/
theorem backed_tick_iff (d : Daemon C) (statuses : List PeerStatus) (now : SystemTime)
    {ts : ℕ → PeerTick} (hok : ∀ k n, (ts k).routeOk n = true) :
    (d.tickOnce (some statuses) now ts).1.RoutesBacked ↔
      ∀ e ∈ d.routes.installed, e.2 ≠ [] → e.1 ∈ d.keys := by
  have hkeys : (d.tickOnce (some statuses) now ts).1.keys = d.keys :=
    (d.quiet_tickOnce (some statuses) now ts).keys
  constructor
  · intro hbacked e he hne
    by_contra hnot
    have hstays := mem_installed_tickPeers statuses now d.cache d.routes hok d.peers he hnot
    obtain ⟨r, hr⟩ := List.exists_mem_of_ne_nil e.2 hne
    obtain ⟨p, hp, hkey, -⟩ := hbacked e hstays r hr
    rw [← hkeys] at hnot
    exact hnot (List.mem_map.2 ⟨p, hp, hkey⟩)
  · intro hin e he r hr
    rcases installed_tickPeers statuses now d.cache d.routes hok d.peers he with hbacked |
      ⟨hmem, hnot⟩
    · exact hbacked r hr
    · exact absurd (hin e hmem (List.ne_nil_of_mem hr)) hnot

end Daemon

/-! ### Runs -/

/-- The node that an event revokes. -/
def GossipEvent.revokes? : GossipEvent C → Option (NodePublicKey C)
  | .revoked node => some node
  | _ => none

/-- The calls of the route backend in an input succeed. -/
def Input.RoutesSucceed : Input → Prop
  | .tick _ _ ts => ∀ k n, (ts k).routeOk n = true
  | _ => True

namespace System

/-- Every installed route is announced by a peer of the table, connected or not. -/
def RoutesPlaced (s : System C) : Prop :=
  ∀ e ∈ s.daemon.routes.installed, ∀ r ∈ e.2, ∃ i ∈ s.daemon.infos, i.keyB64 = e.1 ∧ r ∈ i.routes

/-- An input leaves no route behind: a node that is revoked has none installed, and a tick
that cannot read the kernel finds the peers that have some connected. -/
def KeepsRoutes (s : System C) : Input → Prop
  | .gossip _ _ =>
      ∀ node ∈ s.queue.head?.bind GossipEvent.revokes?, ∀ e ∈ s.daemon.routes.installed,
        e.1 = node.toBase64 → e.2 = []
  | .tick none _ _ =>
      ∀ p ∈ s.daemon.peers, ∀ e ∈ s.daemon.routes.installed, e.1 = p.keyB64 → e.2 ≠ [] →
        p.fsm.state.isConnected = true
  | _ => True

instance (s : System C) : (i : Input) → Decidable (s.KeepsRoutes i)
  | .datagram _ | .discovered .. | .relay .. | .kick .. | .tick (some _) _ _ => .isTrue trivial
  | .tick none _ _ => inferInstanceAs (Decidable (∀ p ∈ _, ∀ e ∈ _, _ → _ → _))
  | .gossip _ _ => inferInstanceAs (Decidable (∀ node ∈ Option.bind _ _, ∀ e ∈ _, _ → _))

/-- Only a tick touches the routes. -/
theorem routes_step (cfg : Config C) (s : System C) {i : Input}
    (hi : ∀ statuses now ts, i ≠ .tick statuses now ts) :
    (s.step cfg i).daemon.routes = s.daemon.routes := by
  have hwith : ∀ (d : Daemon C) (key : String)
      (f : PeerRuntime C → EndpointCache → PeerRuntime C × EndpointCache × List (Effect C)),
      (d.withPeer key f).1.routes = d.routes := by
    intro d key f
    unfold Daemon.withPeer
    split <;> rfl
  cases i with
  | datagram d => rfl
  | discovered update clock => exact hwith ..
  | relay done now clock => exact hwith ..
  | tick statuses now ts => exact absurd rfl (hi statuses now ts)
  | kick now clocks => rfl
  | gossip clock saved =>
      unfold step
      cases hq : s.queue with
      | nil => rfl
      | cons event rest =>
          cases event with
          | discovered update => exact hwith ..
          | revoked node => rfl
          | memberAdmitted node name address =>
              simp only [perform, Daemon.onGossip, Daemon.onMemberAdmitted]
              split_ifs <;> rfl

variable {cfg : Config C} {s : System C}

theorem RoutesPlaced.of_infos {s' : System C} (h : s.RoutesPlaced)
    (hroutes : s'.daemon.routes = s.daemon.routes)
    (hinfos : ∀ e ∈ s.daemon.routes.installed, e.2 ≠ [] → ∀ i ∈ s.daemon.infos,
      i.keyB64 = e.1 → i ∈ s'.daemon.infos) : s'.RoutesPlaced := by
  intro e he r hr
  rw [hroutes] at he
  obtain ⟨i, hi, hkey, hmem⟩ := h e he r hr
  exact ⟨i, hinfos e he (List.ne_nil_of_mem hr) i hi hkey, hkey, hmem⟩

/-- A tick leaves only routes that are backed. -/
theorem RoutesPlaced.backed (h : s.RoutesPlaced) {statuses : Option (List PeerStatus)}
    {now : SystemTime} {ts : ℕ → PeerTick} (hok : ∀ k n, (ts k).routeOk n = true)
    (hkeep : s.KeepsRoutes (.tick statuses now ts)) :
    (s.step cfg (.tick statuses now ts)).daemon.RoutesBacked := by
  cases statuses with
  | some statuses =>
      refine (s.daemon.backed_tick_iff statuses now hok).2 fun e he hne => ?_
      obtain ⟨r, hr⟩ := List.exists_mem_of_ne_nil e.2 hne
      obtain ⟨i, hi, hkey, -⟩ := h e he r hr
      rw [← hkey]
      exact Daemon.keyB64_mem_keys hi
  | none =>
      intro e he r hr
      obtain ⟨i, hi, hkey, hmem⟩ := h e he r hr
      obtain ⟨p, hp, rfl⟩ := List.mem_map.1 hi
      exact ⟨p, hp, hkey, hkeep p hp e he hkey.symm (List.ne_nil_of_mem hr), hmem⟩

theorem placed_of_backed (h : s.daemon.RoutesBacked) : s.RoutesPlaced := by
  intro e he r hr
  obtain ⟨p, hp, hkey, -, hmem⟩ := h e he r hr
  exact ⟨p.toPeerInfo, List.mem_map_of_mem hp, hkey, hmem⟩

/-- **An input that leaves no route behind keeps the routes placed.** -/
theorem RoutesPlaced.step (h : s.RoutesPlaced) {i : Input} (hok : i.RoutesSucceed)
    (hkeep : s.KeepsRoutes i) : (s.step cfg i).RoutesPlaced := by
  by_cases htick : ∃ statuses now ts, i = .tick statuses now ts
  · obtain ⟨statuses, now, ts, rfl⟩ := htick
    exact placed_of_backed (h.backed hok hkeep)
  have hroutes : (s.step cfg i).daemon.routes = s.daemon.routes :=
    s.routes_step cfg fun statuses now ts hi => htick ⟨statuses, now, ts, hi⟩
  refine h.of_infos hroutes fun e he hne j hj hkey => ?_
  rcases table_step cfg s i with hstays |
    ⟨node, name, address, clock, saved, rest, rfl, -, henters⟩ |
    ⟨node, clock, saved, rest, rfl, hqueue, hleaves⟩
  · rw [hstays.infos]
    exact hj
  · rw [henters.infos]
    exact List.mem_append_left _ hj
  · rw [hleaves.infos]
    -- the node that leaves has no routes, so it is not the one with this entry
    refine (List.mem_eraseP_of_neg ?_).2 hj
    have hclean : ∀ e ∈ s.daemon.routes.installed, e.1 = node.toBase64 → e.2 = [] := by
      refine hkeep node ?_
      rw [hqueue]
      rfl
    simpa [hkey] using fun heq => hne (hclean e he heq)

theorem placed_boot (cfg : Config C) (u : Startup) : (boot cfg u).RoutesPlaced := by
  intro e he
  cases he

/-- **Routes do not outlive the connection of their peer**, in every run in which the calls
of the route backend succeed, no node is revoked while routes of it are installed, and a
tick that cannot read the kernel finds the peers with routes connected: after every tick
each route that is tracked belongs to a connected peer of the table that announces it. -/
theorem routes_backed (cfg : Config C) (u : Startup) {is : List Input}
    (hok : ∀ i ∈ is, i.RoutesSucceed)
    (hkeep : Along (step cfg) KeepsRoutes (boot cfg u) is) :
    ∀ before statuses now ts rest, is = before ++ .tick statuses now ts :: rest →
      (after cfg (boot cfg u) (before ++ [.tick statuses now ts])).daemon.RoutesBacked := by
  rintro before statuses now ts rest rfl
  obtain ⟨hbefore, htick, -⟩ := Along.append.1 hkeep
  have hplaced : (after cfg (boot cfg u) before).RoutesPlaced :=
    Along.invariant (fun s i h hi => h.step hi.1 hi.2) (placed_boot cfg u)
      ((Along.of_forall (fun i hi => hok i (List.mem_append_left _ hi)) _).and hbefore)
  have hbacked : ((after cfg (boot cfg u) before).step cfg
      (.tick statuses now ts)).daemon.RoutesBacked :=
    hplaced.backed (hok _ (List.mem_append_right _ List.mem_cons_self)) htick
  rw [after, run_append]
  exact hbacked

end System

/-- Node 1 with a subnet behind it. -/
def plainSitePeer : Peer Crypto.plain := { plainPeer with routes := [docRoute 1] }

theorem valid_plainSite : Config.Valid plainConfig.pre plainConfig.own plainConfig.ownAddr
    [plainSitePeer] where
  own_addr := plainConfig.valid.own_addr
  addr := by
    intro p hp
    obtain rfl := List.mem_singleton.1 hp
    exact deriveNodeAddr_plainKey plainPrefix (by omega) (by omega) 0
  keys := List.pairwise_singleton _ _
  subnets := by decide
  clear := by decide
  apart := List.pairwise_singleton _ _

/-- Node 600 with node 1 and the subnet behind it. -/
def plainSiteConfig : Config Crypto.plain :=
  { plainConfig with
    peers := [plainSitePeer]
    valid := valid_plainSite }

namespace System

/-- Node 9 revokes node 2, which has no routes. -/
def revokeTwo : Datagram :=
  Datagram.ofEntry plainPrefix (.plainRevocation (plainKey 2 0) (plainKey 9 0) 5)

/-- Node 1 is reached and its route installed, and a node without routes is revoked. -/
theorem routes_backed_two :
    let is := [tickAt 5 [plainStatus 7 4], .datagram revokeTwo, .gossip (fun _ => secs 6) true,
      tickAt 7 [plainStatus 7 4]]
    let s := after plainSiteConfig (boot plainSiteConfig plainStartup) is
    s.daemon.routes.installed = [((plainKey 1 0).toBase64, [docRoute 1])] ∧
      s.daemon.RoutesBacked := by
  intro is s
  have hok : ∀ i ∈ is, i.RoutesSucceed := by simp [is, tickAt, Input.RoutesSucceed]
  have hkeep : Along (step plainSiteConfig) KeepsRoutes (boot plainSiteConfig plainStartup) is := by
    decide +kernel
  exact ⟨by decide +kernel, routes_backed plainSiteConfig plainStartup hok hkeep
    [tickAt 5 [plainStatus 7 4], .datagram revokeTwo, .gossip (fun _ => secs 6) true] _ _ _ [] rfl⟩

/-- **A route that outlives its peer**: node 1 is reached, its route is installed, and node 1
is revoked; the next tick finds nobody in the table, and the route stays. -/
theorem route_outlives_peer :
    let is := [tickAt 5 [plainStatus 7 4], .datagram revokeOne, .gossip (fun _ => secs 6) true,
      tickAt 7 []]
    let s := after plainSiteConfig (boot plainSiteConfig plainStartup) is
    (∀ i ∈ is, i.RoutesSucceed) ∧ s.daemon.keys = [] ∧
      s.daemon.routes.installed = [((plainKey 1 0).toBase64, [docRoute 1])] ∧
      ¬s.daemon.RoutesBacked := by
  intro is s
  have hok : ∀ i ∈ is, i.RoutesSucceed := by simp [is, tickAt, Input.RoutesSucceed]
  have hkeys : s.daemon.keys = [] := by decide +kernel
  have hroutes : s.daemon.routes.installed = [((plainKey 1 0).toBase64, [docRoute 1])] := by
    decide +kernel
  refine ⟨hok, hkeys, hroutes, fun hbacked => ?_⟩
  obtain ⟨p, hp, -⟩ := hbacked _ (by rw [hroutes]; exact List.mem_cons_self) (docRoute 1)
    List.mem_cons_self
  rw [List.map_eq_nil_iff.1 hkeys] at hp
  cases hp

end System

end Hextet
