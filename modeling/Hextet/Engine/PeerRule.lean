/-
# What every peer keeps

The daemon of `crates/engine/src/daemon.rs` goes through its peers one at a time, so
what each handler keeps of one peer holds of every peer in every state of a run
(`PeerRule.after`).  Two such properties are used later: the recorded endpoints
stand in the order of their layers (`inLayers_after`), and what the state machine
and the relay session hold is without flow info and scope (`plain_after`).
-/

import Hextet.Engine.CandidateList
import Hextet.Engine.Handlers
import Hextet.Engine.System

namespace Hextet

open Lib

variable {C : Crypto}

/-! ### The rule -/

/-- The sessions that an input brings meet a condition. -/
def Input.Brings (ok : RelaySession → Prop) : Input → Prop
  | .relay done _ _ => ∀ session ∈ done.session, ok session
  | _ => True

/-- A peer as it enters the table: nothing discovered, no session, a new state
machine. -/
structure PeerRuntime.Entering (p : PeerRuntime C) : Prop where
  discovered : p.discovered = []
  session : p.sessionEndpoint = none
  fsm : ∃ candidates now, p.fsm = .new candidates now

/-- A property of peers that every handler keeps, if the relay hands out sessions
that meet `ok`. -/
structure PeerRule (ok : RelaySession → Prop) (P : PeerRuntime C → Prop) : Prop where
  enter : ∀ {p}, p.Entering → P p
  kick : ∀ {p}, P p → ∀ cache now clock, P (p.kick cache now clock).1
  discover : ∀ {p}, P p → ∀ cache source endpoints clock,
    P (p.discover cache source endpoints clock).1
  relayRegistered : ∀ {p}, P p → ∀ cache session?, (∀ s ∈ session?, ok s) → ∀ now clock,
    P (p.relayRegistered cache session? now clock).1
  tick : ∀ {p}, P p → ∀ cache mgr obs now t, P (p.tick cache mgr obs now t).1

theorem entering_memberPeer (keepalive : UInt16) (candidates : List SocketAddrV6)
    (now : SystemTime) (name keyB64 : String) (wgPublic : Bytes 32) (overlay : Ipv6Addr) :
    (memberPeer keepalive candidates now name keyB64 wgPublic overlay :
      PeerRuntime C).Entering :=
  ⟨rfl, rfl, candidates, now, rfl⟩

/-- **The peers of a startup** are those of the configuration and admitted members. -/
theorem mem_startupPeers_cases {cfg : Config C} {cache : EndpointCache} {members : MembersFile}
    {start : SystemTime} {p : PeerRuntime C} (hp : p ∈ startupPeers cfg cache members start) :
    (∃ q ∈ cfg.peers, p = configuredPeer cfg cache start q) ∨
      ∃ candidates name keyB64 wgPublic overlay,
        p = memberPeer cfg.node.keepalive candidates start name keyB64 wgPublic overlay := by
  rcases List.mem_append.1 hp with hp | hp
  · obtain ⟨q, hq, rfl⟩ := List.mem_map.1 hp
    exact Or.inl ⟨q, hq, rfl⟩
  · obtain ⟨m, -, hm⟩ := List.mem_filterMap.1 hp
    unfold persistedPeer at hm
    split_ifs at hm
    split at hm
    · cases hm
    · obtain rfl := Option.some.inj hm
      exact Or.inr ⟨_, _, _, _, _, rfl⟩

theorem entering_of_mem_startupPeers {cfg : Config C} {cache : EndpointCache}
    {members : MembersFile} {start : SystemTime} {p : PeerRuntime C}
    (hp : p ∈ startupPeers cfg cache members start) : p.Entering := by
  obtain ⟨q, -, rfl⟩ | ⟨candidates, name, keyB64, wgPublic, overlay, rfl⟩ :=
    mem_startupPeers_cases hp
  · refine ⟨rfl, ?_, _, _, rfl⟩
    simp only [PeerRuntime.sessionEndpoint, configuredPeer, relayLinkFor]
    cases (cfg.peers.filter Peer.relay).find? fun r => r.publicKey ≠ q.publicKey <;> rfl
  · exact entering_memberPeer ..

theorem mem_replacePeer {key : String} {p' q : PeerRuntime C} {ps : List (PeerRuntime C)}
    (h : q ∈ replacePeer key p' ps) : q = p' ∨ q ∈ ps := by
  induction ps with
  | nil => cases h
  | cons p ps ih =>
      rw [replacePeer] at h
      split_ifs at h
      · exact (List.mem_cons.1 h).imp_right (List.mem_cons_of_mem p)
      · rcases List.mem_cons.1 h with rfl | h
        · exact Or.inr List.mem_cons_self
        · exact (ih h).imp_right (List.mem_cons_of_mem p)

namespace PeerRule

variable {ok : RelaySession → Prop} {P : PeerRuntime C → Prop}

theorem kickPeers (h : PeerRule ok P) {ps : List (PeerRuntime C)} (hps : ∀ p ∈ ps, P p)
    (cache : EndpointCache) (now : SystemTime) (clocks : ℕ → Clock) :
    ∀ p ∈ (Daemon.kickPeers cache now clocks ps).1, P p := by
  induction ps generalizing cache clocks with
  | nil => exact hps
  | cons p ps ih =>
      rw [List.forall_mem_cons] at hps
      exact List.forall_mem_cons.2 ⟨h.kick hps.1 cache now (clocks 0), ih hps.2 _ _⟩

theorem tickPeers (h : PeerRule ok P) (statuses : List PeerStatus) (now : SystemTime)
    {ps : List (PeerRuntime C)} (hps : ∀ p ∈ ps, P p) (cache : EndpointCache)
    (mgr : RouteManager) (ts : ℕ → PeerTick) :
    ∀ p ∈ (Daemon.tickPeers statuses now cache mgr ts ps).1, P p := by
  induction ps generalizing cache mgr ts with
  | nil => exact hps
  | cons p ps ih =>
      rw [List.forall_mem_cons] at hps
      exact List.forall_mem_cons.2 ⟨h.tick hps.1 cache mgr _ now (ts 0), ih hps.2 _ _ _⟩

theorem withPeer {d : Daemon C} (hd : ∀ p ∈ d.peers, P p) (key : String)
    {f : PeerRuntime C → EndpointCache → PeerRuntime C × EndpointCache × List (Effect C)}
    (hf : ∀ p, P p → P (f p d.cache).1) : ∀ p ∈ (d.withPeer key f).1.peers, P p := by
  unfold Daemon.withPeer
  split
  · exact hd
  · rename_i q hq
    intro p hp
    rcases mem_replacePeer hp with rfl | hp
    · exact hf q (hd q (List.mem_of_find?_eq_some hq))
    · exact hd p hp

theorem onGossip (h : PeerRule ok P) {d : Daemon C} (hd : ∀ p ∈ d.peers, P p) (ctx : Ctx)
    (clock : Clock) (event : GossipEvent C) : ∀ p ∈ (d.onGossip ctx clock event).1.peers, P p := by
  cases event with
  | discovered update => exact withPeer hd _ fun p hp => h.discover hp ..
  | memberAdmitted node name address =>
      simp only [Daemon.onGossip, Daemon.onMemberAdmitted]
      split_ifs
      · exact hd
      · intro p hp
        rcases List.mem_append.1 hp with hp | hp
        · exact hd p hp
        · obtain rfl := List.mem_singleton.1 hp
          exact h.enter (entering_memberPeer ..)
  | revoked node => exact fun p hp => hd p (List.mem_of_mem_eraseP hp)

/-- **Every input keeps what the handlers keep.** -/
theorem step (h : PeerRule ok P) (cfg : Config C) {s : System C} (hs : ∀ p ∈ s.daemon.peers, P p)
    {i : Input} (hi : i.Brings ok) : ∀ p ∈ (s.step cfg i).daemon.peers, P p := by
  cases i with
  | datagram d => exact hs
  | gossip clock saved =>
      cases hq : s.queue with
      | nil => simpa only [System.step, hq] using hs
      | cons event rest =>
          simpa only [System.step, hq, System.perform] using h.onGossip hs cfg.ctx clock event
  | discovered update clock => exact withPeer hs _ fun p hp => h.discover hp ..
  | relay done now clock =>
      exact withPeer hs _ fun p hp => h.relayRegistered hp _ done.session hi now clock
  | tick statuses now ts =>
      cases statuses with
      | none => exact hs
      | some statuses => exact h.tickPeers statuses now hs _ _ ts
  | kick now clocks => exact h.kickPeers hs _ now clocks

/-- **What the handlers keep of one peer holds of every peer in every state of a
run.** -/
theorem after (h : PeerRule ok P) (cfg : Config C) (u : System.Startup) {is : List Input}
    (his : ∀ i ∈ is, i.Brings ok) :
    ∀ p ∈ (System.after cfg (System.boot cfg u) is).daemon.peers, P p := by
  have hboot : ∀ p ∈ (System.boot cfg u).daemon.peers, P p :=
    h.kickPeers (fun p hp => h.enter (entering_of_mem_startupPeers hp)) _ u.now u.clocks
  exact Along.invariant (P := fun s : System C => ∀ p ∈ s.daemon.peers, P p)
    (fun s i hs hi => h.step cfg hs hi) hboot (Along.of_forall his _)

end PeerRule

/-! ### Recorded endpoints -/

namespace PeerRuntime

/-- `on_discovered` leaves a peer with the merged endpoints. -/
theorem discovered_discover (p : PeerRuntime C) (cache : EndpointCache)
    (source : Source) (endpoints : List SocketAddrV6) (clock : Clock) :
    (p.discover cache source endpoints clock).1.discovered =
      mergeDiscovered p.discovered source endpoints := by
  unfold discover
  simp only
  split
  · rfl
  · split
    · split_ifs <;> rfl
    · rfl

theorem discovered_relayRegistered (p : PeerRuntime C) (cache : EndpointCache)
    (session? : Option RelaySession) (now : Instant) (clock : Clock) :
    (p.relayRegistered cache session? now clock).1.discovered = p.discovered := by
  unfold relayRegistered
  split
  · rfl
  · split
    · rfl
    · simp only
      split
      · rfl
      · split
        · split <;> rfl
        · rfl

theorem discovered_driveRelay (p : PeerRuntime C) (cache : EndpointCache) (now : Instant)
    (clock : Clock) : (p.driveRelay cache now clock).1.discovered = p.discovered := by
  unfold driveRelay
  split
  · rfl
  · split
    · rfl
    · split
      · unfold driveProbing
        simp only
        split_ifs <;> rfl
      · split
        · rfl
        · split
          · rfl
          · unfold driveRelayed
            simp only
            split
            · rfl
            · split <;> rfl

theorem discovered_tick (p : PeerRuntime C) (cache : EndpointCache) (mgr : RouteManager)
    (obs : Observation) (now : SystemTime) (t : PeerTick) :
    (p.tick cache mgr obs now t).1.discovered = p.discovered := by
  unfold tick
  simp only
  rw [discovered_driveRelay]

end PeerRuntime

theorem peerRule_inLayers :
    PeerRule (fun _ => True) fun p : PeerRuntime C => InLayers p.discovered where
  enter h := by
    rw [h.discovered]
    exact List.Pairwise.nil
  kick h _ _ _ := h
  discover _ _ _ _ _ := by
    rw [PeerRuntime.discovered_discover]
    exact PeerRuntime.inLayers_mergeDiscovered ..
  relayRegistered h _ _ _ _ _ := by
    rw [PeerRuntime.discovered_relayRegistered]
    exact h
  tick h _ _ _ _ _ := by
    rw [PeerRuntime.discovered_tick]
    exact h

/-- **The recorded endpoints of every peer stand in the order of their layers.** -/
theorem inLayers_after (cfg : Config C) (u : System.Startup) (is : List Input) :
    ∀ p ∈ (System.after cfg (System.boot cfg u) is).daemon.peers, InLayers p.discovered :=
  peerRule_inLayers.after cfg u fun i _ => by cases i <;> simp [Input.Brings]

/-! ### Plain addresses -/

namespace PeerFsm

variable {fsm : PeerFsm}

/-- What the machine holds is without flow info and scope. -/
structure Plain (fsm : PeerFsm) : Prop where
  candidates : ∀ ep ∈ fsm.candidates, normalize ep = ep
  connected : ∀ ep, fsm.state = .connected ep → normalize ep = ep

theorem plain_new (candidates : List SocketAddrV6) (now : SystemTime) :
    (new candidates now).Plain := by
  refine ⟨fun ep hep => ?_, fun ep hep => by cases hep⟩
  obtain ⟨x, -, rfl⟩ := List.mem_map.1 hep
  rfl

theorem Plain.setCandidates (h : fsm.Plain) (candidates : List SocketAddrV6)
    (now : SystemTime) : (fsm.setCandidates candidates now).1.Plain := by
  have hnext : ∀ ep ∈ dedupNormalized candidates, normalize ep = ep :=
    fun ep => normalize_of_mem_dedupNormalized
  unfold PeerFsm.setCandidates
  simp only
  split
  · exact h
  · split
    · exact ⟨hnext, h.connected⟩
    · split_ifs
      · exact ⟨hnext, fun ep hep => by cases hep⟩
      · exact ⟨hnext, fun ep hep => by cases hep⟩
      · exact ⟨hnext, fun ep hep => by cases hep⟩

theorem Plain.retryFromImpl (h : fsm.Plain) (avoid : Option SocketAddrV6) (now : SystemTime)
    (flush : Bool) : (fsm.retryFromImpl avoid now flush).1.Plain := by
  unfold PeerFsm.retryFromImpl
  split
  · exact h
  · simp only
    split
    · exact h
    · exact ⟨h.candidates, fun ep hep => by cases hep⟩

/-- A tick leaves the candidates. -/
theorem candidates_tick (fsm : PeerFsm) (now : SystemTime) (obs : Observation) :
    (fsm.tick now obs).1.candidates = fsm.candidates := by
  unfold PeerFsm.tick
  split
  · unfold tickProbing
    simp only
    split_ifs
    · split <;> rfl
    all_goals rfl
  · unfold tickConnected
    split_ifs
    · split
      · split_ifs <;> rfl
      · rfl
    · rfl

theorem Plain.tick (h : fsm.Plain) (now : SystemTime) (obs : Observation) :
    (fsm.tick now obs).1.Plain := by
  have hkernel : ∀ ep, obs.kernelEndpoint.map normalize = some ep → normalize ep = ep := by
    intro ep hep
    obtain ⟨x, -, rfl⟩ := Option.map_eq_some_iff.1 hep
    rfl
  have hprobing : ∀ {ep}, (fsm.tick now obs).1.state.isProbing = true →
      (fsm.tick now obs).1.state = .connected ep → normalize ep = ep := by
    intro ep hp hep
    rw [hep] at hp
    cases hp
  refine ⟨(fsm.candidates_tick now obs).symm ▸ h.candidates, fun ep hep => ?_⟩
  cases hstate : fsm.state with
  | probing i rounds =>
      rcases tickProbing_cases hstate now obs with
        ⟨t, e, -, -, -, he, heq⟩ | ⟨-, heq⟩ | ⟨-, hq | hp⟩
      · rw [heq] at hep
        obtain rfl := PunchState.connected.inj hep
        rcases Option.or_eq_some_iff.1 he with he | ⟨-, he⟩
        · exact hkernel _ he
        · rw [currentCandidate, hstate] at he
          exact h.candidates _ (List.mem_of_getElem? he)
      · rw [heq] at hep
        exact h.connected ep hep
      · refine hprobing (hq.state.resolve_left fun hs => ?_).2.1 hep
        rw [hstate] at hs
        cases hs.2
      · exact hprobing hp.state hep
  | connected e =>
      rcases tickConnected_cases hstate now obs with
        ⟨-, ke, hke, -, heq⟩ | ⟨-, heq⟩ | ⟨-, hp | ⟨-, heq⟩⟩
      · rw [heq] at hep
        obtain rfl := PunchState.connected.inj hep
        exact hkernel _ hke
      · rw [heq] at hep
        exact h.connected ep hep
      · exact hprobing hp.state hep
      · rw [heq] at hep
        cases hep

end PeerFsm

namespace PeerRuntime

variable {p : PeerRuntime C}

/-- So is what the peer holds of its relay. -/
structure Plain (p : PeerRuntime C) : Prop where
  fsm : p.fsm.Plain
  session : ∀ ep, p.sessionEndpoint = some ep → normalize ep = ep

theorem Plain.driveRelay (h : p.Plain) (cache : EndpointCache) (now : Instant) (clock : Clock) :
    (p.driveRelay cache now clock).1.Plain := by
  obtain ⟨hfsm, hsession⟩ := h
  unfold PeerRuntime.driveRelay
  split
  · exact ⟨hfsm, hsession⟩
  · rename_i link hlink
    split
    · exact ⟨hfsm, hsession⟩
    · have hkept : ∀ ep, link.session.map RelaySession.endpoint = some ep → normalize ep = ep := by
        simpa [sessionEndpoint, hlink] using hsession
      split
      · unfold driveProbing
        simp only
        split_ifs
        · exact ⟨hfsm, hsession⟩
        · exact ⟨hfsm, hkept⟩
        · exact ⟨hfsm, hsession⟩
        · exact ⟨hfsm, hsession⟩
        · exact ⟨hfsm, hkept⟩
      · split
        · exact ⟨hfsm, hsession⟩
        · split
          · exact ⟨hfsm.setCandidates _ _, fun ep hep => by cases hep⟩
          · unfold driveRelayed
            simp only
            split
            · refine ⟨(hfsm.setCandidates _ _).retryFromImpl _ _ _, ?_⟩
              exact hkept
            · split
              · exact ⟨hfsm.setCandidates _ _, hkept⟩
              · exact ⟨hfsm, hkept⟩

theorem Plain.leave (h : p.Plain) (cache : EndpointCache) (avoid : SocketAddrV6) (flush : Bool)
    (clock : Clock) : (p.leave cache avoid flush clock).1.Plain :=
  ⟨(h.fsm.setCandidates _ _).retryFromImpl _ _ _, h.session⟩

theorem Plain.refresh (h : p.Plain) (cache : EndpointCache) (clock : Clock) :
    (p.refresh cache clock).1.Plain :=
  ⟨h.fsm.setCandidates _ _, h.session⟩

theorem Plain.merged (h : p.Plain) (source : Source) (endpoints : List SocketAddrV6) :
    (p.merged source endpoints).Plain :=
  ⟨h.fsm, h.session⟩

theorem Plain.discover (h : p.Plain) (cache : EndpointCache) (source : Source)
    (endpoints : List SocketAddrV6) (clock : Clock) :
    (p.discover cache source endpoints clock).1.Plain := by
  have hm := h.merged source endpoints
  rcases discover_cases p with ⟨link, session, hlink, hsession, hstate⟩ | ⟨e, hstate, hdirect⟩ |
    ⟨i, rounds, hstate⟩
  · rw [discover_relayed source endpoints clock hlink hsession hstate]
    have hup : ((p.merged source endpoints).upgrading link).Plain := by
      refine ⟨hm.fsm, ?_⟩
      simpa [sessionEndpoint, hlink, upgrading] using h.session
    exact hup.leave cache _ true clock
  · rw [discover_connected source endpoints clock hstate hdirect]
    simp only [settle]
    split
    · exact hm.leave _ e false clock
    · exact hm.refresh _ clock
  · rw [discover_probing source endpoints clock hstate]
    exact hm.refresh cache clock

theorem Plain.relayRegistered (h : p.Plain) (cache : EndpointCache)
    {session? : Option RelaySession} (hs : ∀ s ∈ session?, normalize s.endpoint = s.endpoint)
    (now : Instant) (clock : Clock) : (p.relayRegistered cache session? now clock).1.Plain := by
  unfold PeerRuntime.relayRegistered
  split
  · exact h
  · rename_i link hlink
    have hkept : ∀ ep, link.session.map RelaySession.endpoint = some ep → normalize ep = ep := by
      simpa [sessionEndpoint, hlink] using h.session
    split
    · exact ⟨h.fsm, hkept⟩
    · rename_i session
      have hnew : ∀ ep, (some session).map RelaySession.endpoint = some ep → normalize ep = ep := by
        rintro ep ⟨⟩
        exact hs session rfl
      simp only
      split
      · exact ⟨h.fsm, hkept⟩
      · split
        · split
          · exact ⟨(h.fsm.setCandidates _ _).retryFromImpl _ _ _, hnew⟩
          · exact ⟨h.fsm.setCandidates _ _, hnew⟩
        · exact ⟨h.fsm.setCandidates _ _, hnew⟩

end PeerRuntime

/-- The relay client returns endpoints without flow info and scope. -/
def RelaySession.Plain (s : RelaySession) : Prop := normalize s.endpoint = s.endpoint

theorem peerRule_plain : PeerRule RelaySession.Plain (PeerRuntime.Plain (C := C)) where
  enter h := by
    obtain ⟨candidates, now, hfsm⟩ := h.fsm
    refine ⟨hfsm ▸ PeerFsm.plain_new candidates now, fun ep hep => ?_⟩
    rw [h.session] at hep
    cases hep
  kick h _ _ _ := ⟨⟨h.fsm.candidates, h.fsm.connected⟩, h.session⟩
  discover h := h.discover
  relayRegistered h cache _ hs := h.relayRegistered cache hs
  tick {p} h _ _ obs now t := by
    have htick : ({ p with fsm := (p.fsm.tick now obs).1 } : PeerRuntime C).Plain :=
      ⟨h.fsm.tick now obs, h.session⟩
    exact htick.driveRelay _ t.instant _

/-- **What every peer holds is without flow info and scope**, if the relay hands out
such sessions. -/
theorem plain_after (cfg : Config C) (u : System.Startup) {is : List Input}
    (his : ∀ i ∈ is, i.Brings RelaySession.Plain) :
    ∀ p ∈ (System.after cfg (System.boot cfg u) is).daemon.peers, p.Plain :=
  peerRule_plain.after cfg u his

end Hextet
