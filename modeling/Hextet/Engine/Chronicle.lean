/-
# The history of a peer

The daemon of `crates/engine/src/daemon.rs` remembers of a peer what its runtime
holds and nothing else.  How often something was tried for it since some event,
what is still in flight for it and when it was last told about are facts about the
past, so they are read off the peer's *chronicle*: the runtime with which it
entered the table and the handler calls made for it since, each with what the call
read of the outside.

Chronicles stand beside the runtime table, one per entry, and follow it through
every input (`chronicledStep`).  The runtime in the table is what the calls of the
chronicle make of the first one (`chronicled`), so what is proved by induction on
the calls holds of every peer in every run (`ChronicleRule.after`).
-/

import Hextet.Engine.PeerRule

namespace Hextet

open Lib

variable {C : Crypto}

/-- A call of a handler for one peer, with what it reads of the outside. -/
inductive PeerEvent where
  | kick (cache : EndpointCache) (now : SystemTime) (clock : Clock)
  | discover (cache : EndpointCache) (source : Source) (endpoints : List SocketAddrV6)
      (clock : Clock)
  | relay (cache : EndpointCache) (session? : Option RelaySession) (now : Instant) (clock : Clock)
  | tick (cache : EndpointCache) (mgr : RouteManager) (obs : Observation) (now : SystemTime)
      (t : PeerTick)

namespace PeerRuntime

/-- The peer after a call. -/
def next (p : PeerRuntime C) : PeerEvent → PeerRuntime C
  | .kick cache now clock => (p.kick cache now clock).1
  | .discover cache source endpoints clock => (p.discover cache source endpoints clock).1
  | .relay cache session? now clock => (p.relayRegistered cache session? now clock).1
  | .tick cache mgr obs now t => (p.tick cache mgr obs now t).1

/-- What a call asks of the outside. -/
def asks (p : PeerRuntime C) : PeerEvent → List (Effect C)
  | .kick cache now clock => (p.kick cache now clock).2.2
  | .discover cache source endpoints clock => (p.discover cache source endpoints clock).2.2
  | .relay cache session? now clock => (p.relayRegistered cache session? now clock).2.2
  | .tick cache mgr obs now t => (p.tick cache mgr obs now t).2.2.2.2

/-- The peer after some calls. -/
abbrev after (p : PeerRuntime C) (es : List PeerEvent) : PeerRuntime C := run next p es

/-- What some calls ask of the outside, counted. -/
def tally (count : List (Effect C) → ℕ) : PeerRuntime C → List PeerEvent → ℕ
  | _, [] => 0
  | p, e :: es => count (p.asks e) + tally count (p.next e) es

theorem tally_append (count : List (Effect C) → ℕ) (p : PeerRuntime C) (es es' : List PeerEvent) :
    tally count p (es ++ es') = tally count p es + tally count (p.after es) es' := by
  induction es generalizing p with
  | nil => exact (Nat.zero_add _).symm
  | cons e es ih =>
      rw [List.cons_append, tally, tally, ih, Nat.add_assoc]
      rfl

end PeerRuntime

/-- The runtime with which a peer entered the table, and the calls for it since. -/
structure Chronicle (C : Crypto) where
  first : PeerRuntime C
  events : List PeerEvent

namespace Chronicle

/-- The runtime that the calls lead to. -/
def peer (c : Chronicle C) : PeerRuntime C := c.first.after c.events

/-- One more call. -/
def add (c : Chronicle C) (e : PeerEvent) : Chronicle C := ⟨c.first, c.events ++ [e]⟩

@[simp] theorem peer_add (c : Chronicle C) (e : PeerEvent) : (c.add e).peer = c.peer.next e :=
  run_append ..

end Chronicle

/-! ### The table -/

/-- The chronicles after a call for the first peer with a key. -/
def chroniclesWith (key : String) (e : PeerEvent) : List (Chronicle C) → List (Chronicle C)
  | [] => []
  | c :: cs => if c.peer.keyB64 = key then c.add e :: cs else c :: chroniclesWith key e cs

/-- The chronicles after every peer was kicked. -/
def kickChronicles (cache : EndpointCache) (now : SystemTime) (clocks : ℕ → Clock) :
    List (Chronicle C) → List (Chronicle C)
  | [] => []
  | c :: cs =>
      c.add (.kick cache now (clocks 0)) ::
        kickChronicles (c.peer.kick cache now (clocks 0)).2.1 now (fun i => clocks (i + 1)) cs

/-- The chronicles after the loop of `tick_once`. -/
def tickChronicles (statuses : List PeerStatus) (now : SystemTime) (cache : EndpointCache)
    (mgr : RouteManager) (ts : ℕ → PeerTick) : List (Chronicle C) → List (Chronicle C)
  | [] => []
  | c :: cs =>
      let obs := observe statuses c.peer.wgPublic
      let (_, cache', mgr', _, _) := c.peer.tick cache mgr obs now (ts 0)
      c.add (.tick cache mgr obs now (ts 0)) ::
        tickChronicles statuses now cache' mgr' (fun i => ts (i + 1)) cs

/-- The chronicles after `on_discovered`. -/
def discoverChronicles (d : Daemon C) (update : DiscoveredEndpoints) (clock : Clock)
    (cs : List (Chronicle C)) : List (Chronicle C) :=
  chroniclesWith update.peerKey (.discover d.cache update.source update.endpoints clock) cs

/-- The chronicles after an event of the gossip task: one more for a peer that
enters, one less for a peer that leaves. -/
def gossipChronicles (d : Daemon C) (ctx : Ctx) (clock : Clock) (cs : List (Chronicle C)) :
    GossipEvent C → List (Chronicle C)
  | .discovered update => discoverChronicles d update clock cs
  | .memberAdmitted node name address =>
      if node.toBase64 ∈ d.keys then cs
      else cs ++ [⟨memberPeer ctx.keepalive (buildCandidates ⟨none, [], [], [], none⟩) (clock 0)
        name node.toBase64 node.wgPublicBytes address, []⟩]
  | .revoked node => cs.eraseP fun c => c.peer.keyB64 = node.toBase64

/-- The chronicles after an input. -/
def chroniclesStep (cfg : Config C) (s : System C) (cs : List (Chronicle C)) :
    Input → List (Chronicle C)
  | .datagram _ => cs
  | .gossip clock _ =>
      match s.queue with
      | [] => cs
      | event :: _ => gossipChronicles s.daemon cfg.ctx clock cs event
  | .discovered update clock => discoverChronicles s.daemon update clock cs
  | .relay done now clock =>
      chroniclesWith done.peerKey (.relay s.daemon.cache done.session now clock) cs
  | .tick statuses now ts =>
      match statuses with
      | none => cs
      | some statuses => tickChronicles statuses now s.daemon.cache s.daemon.routes ts cs
  | .kick now clocks => kickChronicles s.daemon.cache now clocks cs

/-- A system with the chronicles of its peers, one input. -/
def chronicledStep (cfg : Config C) (x : System C × List (Chronicle C)) (i : Input) :
    System C × List (Chronicle C) :=
  (x.1.step cfg i, chroniclesStep cfg x.1 x.2 i)

/-- The system at the entry of the main loop: the peers of the startup, kicked. -/
def chronicledBoot (cfg : Config C) (u : System.Startup) : System C × List (Chronicle C) :=
  (System.boot cfg u, kickChronicles u.cache u.now u.clocks
    ((startupPeers cfg u.cache u.members u.start).map fun p => ⟨p, []⟩))

/-- A system with its chronicles after some inputs. -/
abbrev chronicledAfter (cfg : Config C) (u : System.Startup) (is : List Input) :
    System C × List (Chronicle C) :=
  run (chronicledStep cfg) (chronicledBoot cfg u) is

/-! ### The chronicles tell the table -/

section

variable {cs : List (Chronicle C)}

theorem chroniclesWith_of_find?_eq_none {key : String}
    (h : (cs.map Chronicle.peer).find? (fun p => p.keyB64 = key) = none) (e : PeerEvent) :
    chroniclesWith key e cs = cs := by
  induction cs with
  | nil => rfl
  | cons c cs ih =>
      rw [List.map_cons] at h
      have hkey : c.peer.keyB64 ≠ key := by
        simpa using List.find?_eq_none.1 h c.peer List.mem_cons_self
      rw [List.find?_cons_of_neg (by simpa using hkey)] at h
      rw [chroniclesWith, if_neg hkey, ih h]

theorem map_peer_chroniclesWith {key : String} {p : PeerRuntime C}
    (h : (cs.map Chronicle.peer).find? (fun q => q.keyB64 = key) = some p) (e : PeerEvent) :
    (chroniclesWith key e cs).map Chronicle.peer =
      replacePeer key (p.next e) (cs.map Chronicle.peer) := by
  induction cs with
  | nil => cases h
  | cons c cs ih =>
      rw [List.map_cons] at h
      rw [chroniclesWith, List.map_cons, replacePeer]
      by_cases hkey : c.peer.keyB64 = key
      · rw [List.find?_cons_of_pos (by simpa using hkey), Option.some.injEq] at h
        rw [if_pos hkey, if_pos hkey, List.map_cons, Chronicle.peer_add, h]
      · rw [List.find?_cons_of_neg (by simpa using hkey)] at h
        rw [if_neg hkey, if_neg hkey, List.map_cons, ih h]

/-- A handler for one peer, told by one more call. -/
theorem map_peer_withPeer {d : Daemon C} (h : d.peers = cs.map Chronicle.peer) {key : String}
    {f : PeerRuntime C → EndpointCache → PeerRuntime C × EndpointCache × List (Effect C)}
    {e : PeerEvent} (hf : ∀ p : PeerRuntime C, (f p d.cache).1 = p.next e) :
    (d.withPeer key f).1.peers = (chroniclesWith key e cs).map Chronicle.peer := by
  unfold Daemon.withPeer
  split
  · rename_i hnone
    rw [h] at hnone
    rw [chroniclesWith_of_find?_eq_none hnone, h]
  · rename_i p hp
    rw [h] at hp
    simp only
    rw [map_peer_chroniclesWith hp, hf, h]

theorem map_peer_kickChronicles (cache : EndpointCache) (now : SystemTime) (clocks : ℕ → Clock)
    (cs : List (Chronicle C)) : (kickChronicles cache now clocks cs).map Chronicle.peer =
      (Daemon.kickPeers cache now clocks (cs.map Chronicle.peer)).1 := by
  induction cs generalizing cache clocks with
  | nil => rfl
  | cons c cs ih =>
      rw [kickChronicles, List.map_cons, ih, Chronicle.peer_add]
      rfl

theorem map_peer_tickChronicles (statuses : List PeerStatus) (now : SystemTime)
    (cache : EndpointCache) (mgr : RouteManager) (ts : ℕ → PeerTick) (cs : List (Chronicle C)) :
    (tickChronicles statuses now cache mgr ts cs).map Chronicle.peer =
      (Daemon.tickPeers statuses now cache mgr ts (cs.map Chronicle.peer)).1 := by
  induction cs generalizing cache mgr ts with
  | nil => rfl
  | cons c cs ih =>
      rw [tickChronicles, List.map_cons, ih, Chronicle.peer_add]
      rfl

theorem map_peer_gossipChronicles {d : Daemon C} (h : d.peers = cs.map Chronicle.peer) (ctx : Ctx)
    (clock : Clock) (event : GossipEvent C) : (d.onGossip ctx clock event).1.peers =
      (gossipChronicles d ctx clock cs event).map Chronicle.peer := by
  cases event with
  | discovered update => exact map_peer_withPeer h fun _ => rfl
  | memberAdmitted node name address =>
      simp only [Daemon.onGossip, Daemon.onMemberAdmitted, gossipChronicles]
      split_ifs
      · exact h
      · rw [List.map_append, ← h]
        rfl
  | revoked node =>
      simp only [Daemon.onGossip, Daemon.onRevoked, gossipChronicles, h]
      rw [List.eraseP_map]
      rfl

end

/-- **Every input keeps the table and the chronicles in step.** -/
theorem map_peer_step (cfg : Config C) {x : System C × List (Chronicle C)}
    (h : x.1.daemon.peers = x.2.map Chronicle.peer) (i : Input) :
    (chronicledStep cfg x i).1.daemon.peers = (chronicledStep cfg x i).2.map Chronicle.peer := by
  cases i with
  | datagram d => exact h
  | gossip clock saved =>
      cases hq : x.1.queue with
      | nil => simpa [chronicledStep, chroniclesStep, System.step, hq] using h
      | cons event rest =>
          have hstep := map_peer_gossipChronicles h cfg.ctx clock event
          simpa [chronicledStep, chroniclesStep, System.step, System.perform, hq] using hstep
  | discovered update clock => exact map_peer_withPeer h fun _ => rfl
  | relay done now clock => exact map_peer_withPeer h fun _ => rfl
  | tick statuses now ts =>
      cases statuses with
      | none => exact h
      | some statuses =>
          have htick :=
            map_peer_tickChronicles statuses now x.1.daemon.cache x.1.daemon.routes ts x.2
          rw [← h] at htick
          exact htick.symm
  | kick now clocks =>
      have hkick := map_peer_kickChronicles x.1.daemon.cache now clocks x.2
      rw [← h] at hkick
      exact hkick.symm

/-- The chronicles do not change what the system does. -/
theorem fst_chronicled_run (cfg : Config C) (x : System C × List (Chronicle C))
    (is : List Input) : (run (chronicledStep cfg) x is).1 = System.after cfg x.1 is := by
  induction is generalizing x with
  | nil => rfl
  | cons i is ih => exact ih _

/-- **The runtime table is what the chronicles tell**, in every state of every run. -/
theorem chronicled (cfg : Config C) (u : System.Startup) (is : List Input) :
    (chronicledAfter cfg u is).1 = System.after cfg (System.boot cfg u) is ∧
      (chronicledAfter cfg u is).1.daemon.peers =
        (chronicledAfter cfg u is).2.map Chronicle.peer := by
  refine ⟨fst_chronicled_run cfg _ is, ?_⟩
  refine run_invariant (P := fun x : System C × List (Chronicle C) =>
    x.1.daemon.peers = x.2.map Chronicle.peer) (fun _ i h => map_peer_step cfg h i) ?_ is
  rw [chronicledBoot, map_peer_kickChronicles, List.map_map]
  exact congrArg (fun ps => (Daemon.kickPeers u.cache u.now u.clocks ps).1) (List.map_id _).symm

/-! ### The rule -/

/-- A relay link as `run_async` builds it: no session, nothing under way. -/
structure RelayLink.Unused (link : RelayLink C) : Prop where
  session : link.session = none
  pending : link.pending = false
  upgradePending : link.upgradePending = false
  upgradeRetries : link.upgradeRetries = 0
  lastRegister : link.lastRegister = none
  retryAfter : link.retryAfter = none

/-- A peer as it enters the table, with a link that was never used if it has one. -/
structure PeerRuntime.Fresh (p : PeerRuntime C) : Prop extends p.Entering where
  link : ∀ link, p.relay = some link → link.Unused

theorem fresh_memberPeer (keepalive : UInt16) (candidates : List SocketAddrV6)
    (now : SystemTime) (name keyB64 : String) (wgPublic : Bytes 32) (overlay : Ipv6Addr) :
    (memberPeer keepalive candidates now name keyB64 wgPublic overlay : PeerRuntime C).Fresh :=
  ⟨entering_memberPeer .., fun _ h => by cases h⟩

/-- The peers of a startup are fresh. -/
theorem fresh_of_mem_startupPeers {cfg : Config C} {cache : EndpointCache}
    {members : MembersFile} {start : SystemTime} {p : PeerRuntime C}
    (hp : p ∈ startupPeers cfg cache members start) : p.Fresh := by
  refine ⟨entering_of_mem_startupPeers hp, fun link hlink => ?_⟩
  obtain ⟨q, -, rfl⟩ | ⟨candidates, name, keyB64, wgPublic, overlay, rfl⟩ :=
    mem_startupPeers_cases hp
  · obtain ⟨r, -, rfl⟩ := Option.map_eq_some_iff.1 hlink
    exact ⟨rfl, rfl, rfl, rfl, rfl, rfl⟩
  · cases hlink

/-- A property of chronicles that every call keeps, if the results of registrations
meet a condition on the system they come to. -/
structure ChronicleRule (side : System C × List (Chronicle C) → Input → Prop)
    (P : Chronicle C → Prop) : Prop where
  enter : ∀ {p}, p.Fresh → P ⟨p, []⟩
  kick : ∀ {c}, P c → ∀ cache now clock, P (c.add (.kick cache now clock))
  discover : ∀ {c}, P c → ∀ cache source endpoints clock,
    P (c.add (.discover cache source endpoints clock))
  relay : ∀ {c x done now clock}, P c → side x (.relay done now clock) → c ∈ x.2 →
    c.peer.keyB64 = done.peerKey → ∀ cache, P (c.add (.relay cache done.session now clock))
  tick : ∀ {c}, P c → ∀ cache mgr obs now t, P (c.add (.tick cache mgr obs now t))

namespace ChronicleRule

variable {side : System C × List (Chronicle C) → Input → Prop} {P : Chronicle C → Prop}
  {cs : List (Chronicle C)}

theorem chroniclesWith {key : String} {e : PeerEvent} (hcs : ∀ c ∈ cs, P c)
    (he : ∀ c ∈ cs, c.peer.keyB64 = key → P (c.add e)) :
    ∀ c ∈ chroniclesWith key e cs, P c := by
  induction cs with
  | nil => exact hcs
  | cons c cs ih =>
      rw [List.forall_mem_cons] at hcs he
      rw [Hextet.chroniclesWith]
      split_ifs with hkey
      · exact List.forall_mem_cons.2 ⟨he.1 hkey, hcs.2⟩
      · exact List.forall_mem_cons.2 ⟨hcs.1, ih hcs.2 he.2⟩

theorem kickChronicles (h : ChronicleRule side P) (hcs : ∀ c ∈ cs, P c) (cache : EndpointCache)
    (now : SystemTime) (clocks : ℕ → Clock) : ∀ c ∈ kickChronicles cache now clocks cs, P c := by
  induction cs generalizing cache clocks with
  | nil => exact hcs
  | cons c cs ih =>
      rw [List.forall_mem_cons] at hcs
      exact List.forall_mem_cons.2 ⟨h.kick hcs.1 cache now (clocks 0), ih hcs.2 _ _⟩

theorem tickChronicles (h : ChronicleRule side P) (statuses : List PeerStatus) (now : SystemTime)
    (hcs : ∀ c ∈ cs, P c) (cache : EndpointCache) (mgr : RouteManager) (ts : ℕ → PeerTick) :
    ∀ c ∈ tickChronicles statuses now cache mgr ts cs, P c := by
  induction cs generalizing cache mgr ts with
  | nil => exact hcs
  | cons c cs ih =>
      rw [List.forall_mem_cons] at hcs
      exact List.forall_mem_cons.2 ⟨h.tick hcs.1 cache mgr _ now (ts 0), ih hcs.2 _ _ _⟩

theorem discoverChronicles (h : ChronicleRule side P) (hcs : ∀ c ∈ cs, P c) (d : Daemon C)
    (update : DiscoveredEndpoints) (clock : Clock) :
    ∀ c ∈ discoverChronicles d update clock cs, P c :=
  chroniclesWith hcs fun _ hc _ => h.discover (hcs _ hc) ..

theorem gossipChronicles (h : ChronicleRule side P) (hcs : ∀ c ∈ cs, P c) (d : Daemon C)
    (ctx : Ctx) (clock : Clock) (event : GossipEvent C) :
    ∀ c ∈ gossipChronicles d ctx clock cs event, P c := by
  cases event with
  | discovered update => exact h.discoverChronicles hcs d update clock
  | memberAdmitted node name address =>
      rw [Hextet.gossipChronicles]
      split_ifs
      · exact hcs
      · intro c hc
        rcases List.mem_append.1 hc with hc | hc
        · exact hcs c hc
        · obtain rfl := List.mem_singleton.1 hc
          exact h.enter (fresh_memberPeer ..)
  | revoked node => exact fun c hc => hcs c (List.mem_of_mem_eraseP hc)

/-- **Every input keeps what the calls keep.** -/
theorem step (h : ChronicleRule side P) (cfg : Config C) {x : System C × List (Chronicle C)}
    (hx : ∀ c ∈ x.2, P c) {i : Input} (hi : side x i) :
    ∀ c ∈ (chronicledStep cfg x i).2, P c := by
  cases i with
  | datagram d => exact hx
  | gossip clock saved =>
      simp only [chronicledStep, chroniclesStep]
      split
      · exact hx
      · exact h.gossipChronicles hx _ _ _ _
  | discovered update clock => exact h.discoverChronicles hx _ update clock
  | relay done now clock =>
      exact chroniclesWith hx fun c hc hkey => h.relay (hx c hc) hi hc hkey _
  | tick statuses now ts =>
      cases statuses with
      | none => exact hx
      | some statuses => exact h.tickChronicles statuses now hx _ _ ts
  | kick now clocks => exact h.kickChronicles hx _ now clocks

/-- **What the calls keep of one chronicle holds of every chronicle in every state of
a run.** -/
theorem after (h : ChronicleRule side P) (cfg : Config C) (u : System.Startup) {is : List Input}
    (his : Along (chronicledStep cfg) side (chronicledBoot cfg u) is) :
    ∀ c ∈ (chronicledAfter cfg u is).2, P c := by
  have hboot : ∀ c ∈ (chronicledBoot cfg u).2, P c := by
    refine h.kickChronicles (fun c hc => ?_) _ u.now u.clocks
    obtain ⟨p, hp, rfl⟩ := List.mem_map.1 hc
    exact h.enter (fresh_of_mem_startupPeers hp)
  exact Along.invariant (P := fun x : System C × List (Chronicle C) => ∀ c ∈ x.2, P c)
    (fun x i hx hi => h.step cfg hx hi) hboot his

end ChronicleRule

/-- **Every chronicle starts with a fresh peer.** -/
theorem fresh_first (cfg : Config C) (u : System.Startup) (is : List Input) :
    ∀ c ∈ (chronicledAfter cfg u is).2, c.first.Fresh := by
  have hrule : ChronicleRule (fun _ _ => True) fun c : Chronicle C => c.first.Fresh :=
    ⟨fun h => h, fun h _ _ _ => h, fun h _ _ _ _ => h, fun h _ _ _ _ => h, fun h _ _ _ _ _ => h⟩
  exact hrule.after cfg u (Along.of_forall (fun _ _ => trivial) _)

end Hextet
