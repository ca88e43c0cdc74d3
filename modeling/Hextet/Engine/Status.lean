/-
# Status reports

`crates/engine/src/status.rs`, the state file of `crates/engine/src/state.rs` and
`peer_state_of` of `crates/engine/src/daemon.rs`.  A report is built from the WireGuard
backend, or without it from what the daemon last wrote.  The daemon writes how many whole
seconds ago the last handshake was, so each of the state machine, the first and the second
report has a comparison of its own against three minutes.

They agree on every handshake that is not in the future (`status_agrees`): cutting a duration
to seconds does not move it across a threshold in whole seconds.  A handshake in the future is
fresh for the state machine, and no report calls it connected.
-/

import Hextet.Core.AddrText
import Hextet.Engine.Explain

namespace Hextet

open Lib

variable {C : Crypto}

/-- `STATE_VERSION`. -/
def stateVersion : ℕ := 7

/-- `PeerState`, with the type of its routes: a route is its text in the file. -/
structure PeerStateOf (ρ : Type) where
  name : String
  publicKey : String
  address : Ipv6Addr
  punchState : String
  endpoint : Option SocketAddrV6
  endpointSource : String
  lanEndpoints : ℕ
  gossipEndpoints : ℕ
  ddnsEndpoints : ℕ
  relayVia : Option String
  routes : List ρ
  lastHandshakeSecs : Option ℕ
  rxBytes : UInt64
  txBytes : UInt64
  candidates : ℕ
  candidateIndex : ℕ
  rounds : ℕ
  deriving DecidableEq

/-- `PeerState`. -/
abbrev PeerState := PeerStateOf Ipv6Route

/-- `EngineState`, with the type of routes. -/
structure EngineStateOf (ρ : Type) where
  version : ℕ
  updatedUnix : ℕ
  interface : String
  nodeAddress : Ipv6Addr
  nodePublicKey : String
  peers : List (PeerStateOf ρ)
  deriving DecidableEq

/-- `EngineState`. -/
abbrev EngineState := EngineStateOf Ipv6Route

/-- `PeerStatus`, with the counters. -/
structure PeerStats extends PeerStatus where
  rxBytes : UInt64
  txBytes : UInt64
  deriving DecidableEq

/-- Whole seconds since a handshake; `duration_since` fails on one in the future. -/
def lastHandshakeSecs (lastHandshake : Option SystemTime) (now : SystemTime) : Option ℕ :=
  lastHandshake.bind fun t => if t ≤ now then some ((now - t).toNat / 1000000000) else none

/-- `peer_state_of`; `now` is the clock when it is called. -/
def peerStateOf (peer : PeerRuntime C) (cache : EndpointCache) (mgr : RouteManager)
    (observed : Option PeerStats) (now : SystemTime) : PeerState :=
  let (punchState, candidateIndex, rounds) :=
    match peer.fsm.state with
    | .connected endpoint =>
        if peer.sessionEndpoint = some endpoint then ("relayed", 0, 0) else ("connected", 0, 0)
    | .probing i rounds => ("probing", i, rounds)
  let count := fun source => peer.discovered.countP fun x => decide (x.1 = source)
  { name := peer.name
    publicKey := peer.keyB64
    address := peer.overlay
    punchState := punchState
    endpoint := peer.fsm.currentCandidate
    endpointSource := endpointSource peer.fsm.currentCandidate (peer.sourcesFor cache)
    lanEndpoints := count .lan
    gossipEndpoints := count .gossip
    ddnsEndpoints := count .ddns
    relayVia := if punchState = "relayed" then peer.relay.map RelayLink.viaName else none
    routes := mgr.routesOf peer.keyB64
    lastHandshakeSecs := lastHandshakeSecs (observed.bind fun s => s.lastHandshake) now
    rxBytes := (observed.map PeerStats.rxBytes).getD 0
    txBytes := (observed.map PeerStats.txBytes).getD 0
    candidates := peer.fsm.candidates.length
    candidateIndex := candidateIndex
    rounds := rounds }

/-- The states of a row. -/
inductive RowState where
  | connected
  | stale
  | noHandshake
  deriving DecidableEq

/-- The words of the report. -/
def RowState.asStr : RowState → String
  | .connected => "connected"
  | .stale => "stale"
  | .noHandshake => "no-handshake"

/-- `classify`. -/
def classify (lastHandshake : Option SystemTime) (now : SystemTime) : RowState :=
  match lastHandshake with
  | some t => if t ≤ now ∧ now - t < 180000000000 then .connected else .stale
  | none => .noHandshake

/-- The state that `build_report_from_state` gives the seconds of the file. -/
def classifySecs : Option ℕ → RowState
  | some secs => if secs < 180 then .connected else .stale
  | none => .noHandshake

/-- `DaemonInfo`. -/
structure DaemonInfo where
  running : Bool
  updatedSecsAgo : ℕ
  stateFile : String

/-- `StatusRow`; of the endpoint the report has the text. -/
structure StatusRow where
  peer : String
  address : String
  endpoint : Option SocketAddr
  lastHandshakeSecs : Option ℕ
  rxBytes : UInt64
  txBytes : UInt64
  state : String
  endpointSource : Option String
  punchState : Option String
  candidates : Option ℕ
  candidateIndex : Option ℕ
  lanEndpoints : Option ℕ
  gossipEndpoints : Option ℕ
  ddnsEndpoints : Option ℕ
  relayVia : Option String
  routes : List String

/-- `StatusReport`. -/
structure StatusReport where
  daemon : Option DaemonInfo
  peers : List StatusRow

/-- `DAEMON_FRESH_SECS`. -/
def daemonFreshSecs : ℕ := 10

/-- `daemon_freshness`. -/
def daemonFreshness (updatedUnix nowUnix : ℕ) : Bool × ℕ :=
  let secsAgo := nowUnix - updatedUnix
  (decide (secsAgo ≤ daemonFreshSecs), secsAgo)

/-- The daemon of a report: a state file of another version counts as none. -/
def daemonInfo (stateFile : String) (state : Option EngineState) (now : SystemTime) :
    Option DaemonInfo :=
  state.map fun s =>
    let (running, updatedSecsAgo) := daemonFreshness s.updatedUnix (unixSecs now)
    ⟨running, updatedSecsAgo, stateFile⟩

/-- The text of an address. -/
def Ipv6Addr.text (a : Ipv6Addr) : String := String.ofList a.display

/-- The texts of routes. -/
def routeTexts (routes : List Ipv6Route) : List String :=
  routes.map fun r => String.ofList r.display

/-- A row of `build_report`. -/
def statusRow (cfg : Config C) (state : Option EngineState) (now : SystemTime) (s : PeerStats) :
    StatusRow :=
  let peer := cfg.peers.find? fun p => p.publicKey.wgPublicBytes = s.wgPublic
  let enginePeer := state.bind fun st => peer.bind fun p =>
    st.peers.find? fun ps => ps.publicKey = p.publicKey.toBase64
  { peer := (peer.map Peer.name).getD "<unknown>"
    address := (peer.map fun p => p.addr.address.text).getD ""
    endpoint := s.endpoint
    lastHandshakeSecs := Hextet.lastHandshakeSecs s.lastHandshake now
    rxBytes := s.rxBytes
    txBytes := s.txBytes
    state := (classify s.lastHandshake now).asStr
    endpointSource := enginePeer.map PeerStateOf.endpointSource
    punchState := enginePeer.map PeerStateOf.punchState
    candidates := enginePeer.map PeerStateOf.candidates
    candidateIndex := enginePeer.map PeerStateOf.candidateIndex
    lanEndpoints := enginePeer.map PeerStateOf.lanEndpoints
    gossipEndpoints := enginePeer.map PeerStateOf.gossipEndpoints
    ddnsEndpoints := enginePeer.map PeerStateOf.ddnsEndpoints
    relayVia := enginePeer.bind PeerStateOf.relayVia
    routes := (enginePeer.map fun p => routeTexts p.routes).getD [] }

/-- `build_report`, of what the backend and the state file say. -/
def buildReport (cfg : Config C) (stateFile : String) (statuses : List PeerStats)
    (file : Option EngineState) (now : SystemTime) : StatusReport :=
  let state := file.filter fun s => s.version == stateVersion
  ⟨daemonInfo stateFile state now, statuses.map (statusRow cfg state now)⟩

/-- A row of `build_report_from_state`. -/
def stateRow (cfg : Config C) (ps : PeerState) : StatusRow :=
  let peer := cfg.peers.find? fun p => p.publicKey.toBase64 = ps.publicKey
  { peer := (peer.map Peer.name).getD ps.name
    address := (peer.map fun p => p.addr.address.text).getD ps.address.text
    endpoint := ps.endpoint.map SocketAddr.v6
    lastHandshakeSecs := ps.lastHandshakeSecs
    rxBytes := ps.rxBytes
    txBytes := ps.txBytes
    state := (classifySecs ps.lastHandshakeSecs).asStr
    endpointSource := some ps.endpointSource
    punchState := some ps.punchState
    candidates := some ps.candidates
    candidateIndex := some ps.candidateIndex
    lanEndpoints := some ps.lanEndpoints
    gossipEndpoints := some ps.gossipEndpoints
    ddnsEndpoints := some ps.ddnsEndpoints
    relayVia := ps.relayVia
    routes := routeTexts ps.routes }

/-- `build_report_from_state`. -/
def buildReportFromState (cfg : Config C) (stateFile : String) (file : Option EngineState)
    (now : SystemTime) : StatusReport :=
  let state := file.filter fun s => s.version == stateVersion
  ⟨daemonInfo stateFile state now, ((state.map EngineStateOf.peers).getD []).map (stateRow cfg)⟩

/-! ### One threshold -/

/-- Cutting a duration to seconds does not move it across a threshold in whole seconds. -/
theorem secs_lt_iff {d : ℤ} (h : 0 ≤ d) (n : ℕ) :
    d.toNat / 1000000000 < n ↔ d < n * 1000000000 := by
  omega

theorem RowState.asStr_inj {a b : RowState} : a.asStr = b.asStr ↔ a = b := by
  refine ⟨fun h => ?_, congrArg _⟩
  cases a <;> cases b <;> first | rfl | exact absurd h (by decide)

/-- **The reports agree** on a handshake that is not in the future. -/
theorem classifySecs_eq_classify {lastHandshake : Option SystemTime} {now : SystemTime}
    (h : ∀ t, lastHandshake = some t → t ≤ now) :
    classifySecs (lastHandshakeSecs lastHandshake now) = classify lastHandshake now := by
  cases lastHandshake with
  | none => rfl
  | some t =>
      have hle : t ≤ now := h t rfl
      have hsecs := secs_lt_iff (sub_nonneg.2 hle) 180
      have hnum : ((180 : ℕ) : ℤ) * 1000000000 = 180000000000 := by norm_num
      have hlast : lastHandshakeSecs (some t) now = some ((now - t).toNat / 1000000000) :=
        if_pos hle
      rw [hnum] at hsecs
      rw [hlast]
      simp only [classifySecs, classify, hsecs, hle, true_and]

/-- **The state machine agrees with the reports** on a handshake that is not in the
future. -/
theorem handshakeIsFresh_iff_classify {lastHandshake : Option SystemTime} {now : SystemTime}
    (h : ∀ t, lastHandshake = some t → t ≤ now) :
    handshakeIsFresh lastHandshake now = true ↔ classify lastHandshake now = .connected := by
  cases lastHandshake with
  | none => simp [handshakeIsFresh, classify]
  | some t =>
      have hle : t ≤ now := h t rfl
      have hfresh : handshakeIsFresh (some t) now = decide (now - t < 180000000000) := if_pos hle
      rw [hfresh, decide_eq_true_eq]
      simp only [classify, hle, true_and]
      split_ifs with hlt
      · exact iff_of_true hlt rfl
      · exact iff_of_false hlt (by decide)

theorem statusRow_state (cfg : Config C) (state : Option EngineState) (now : SystemTime)
    (s : PeerStats) :
    (statusRow cfg state now s).state = (classify s.lastHandshake now).asStr := rfl

theorem stateRow_peerStateOf_state (cfg : Config C) (peer : PeerRuntime C) (cache : EndpointCache)
    (mgr : RouteManager) (s : PeerStats) (now : SystemTime) :
    (stateRow cfg (peerStateOf peer cache mgr (some s) now)).state =
      (classifySecs (lastHandshakeSecs s.lastHandshake now)).asStr := rfl

/-- What `tick_once` writes: the record of this version, each peer with what the kernel reports
of it. -/
def writtenState (head : EngineState) (cache : EndpointCache) (mgr : RouteManager)
    (observed : List (PeerRuntime C × PeerStats)) (now : SystemTime) : EngineState :=
  { head with
    version := stateVersion
    peers := observed.map fun x => peerStateOf x.1 cache mgr (some x.2) now }

/-- The rows of the report from the backend. -/
theorem buildReport_getElem? (cfg : Config C) (stateFile : String)
    {observed : List (PeerRuntime C × PeerStats)} {i : ℕ} {x : PeerRuntime C × PeerStats}
    (hx : observed[i]? = some x) (file : Option EngineState) (now : SystemTime) :
    (buildReport cfg stateFile (observed.map Prod.snd) file now).peers[i]? =
      some (statusRow cfg (file.filter fun s => s.version == stateVersion) now x.2) := by
  simp [buildReport, hx]

/-- The rows of the report from what the daemon writes. -/
theorem buildReportFromState_getElem? (cfg : Config C) (stateFile : String) (head : EngineState)
    (cache : EndpointCache) (mgr : RouteManager) {observed : List (PeerRuntime C × PeerStats)}
    {i : ℕ} {x : PeerRuntime C × PeerStats} (hx : observed[i]? = some x) (now : SystemTime) :
    (buildReportFromState cfg stateFile (some (writtenState head cache mgr observed now))
      now).peers[i]? = some (stateRow cfg (peerStateOf x.1 cache mgr (some x.2) now)) := by
  have hversion : (some (writtenState head cache mgr observed now)).filter
      (fun s => s.version == stateVersion) = some (writtenState head cache mgr observed now) := by
    simp [writtenState]
  rw [buildReportFromState, hversion]
  simp [writtenState, hx]

/-- **The rows agree** about a handshake that is not in the future; one in the future is connected
in neither. -/
theorem rows_agree (cfg : Config C) (state : Option EngineState) (peer : PeerRuntime C)
    (cache : EndpointCache) (mgr : RouteManager) (s : PeerStats) (now : SystemTime) :
    ((∀ t, s.lastHandshake = some t → t ≤ now) →
      (handshakeIsFresh s.lastHandshake now = true ↔
          (statusRow cfg state now s).state = "connected") ∧
        (handshakeIsFresh s.lastHandshake now = true ↔
          (stateRow cfg (peerStateOf peer cache mgr (some s) now)).state = "connected") ∧
        (statusRow cfg state now s).state =
          (stateRow cfg (peerStateOf peer cache mgr (some s) now)).state) ∧
      ∀ t, s.lastHandshake = some t → now < t →
        handshakeIsFresh s.lastHandshake now = true ∧
          (statusRow cfg state now s).state = "stale" ∧
          (stateRow cfg (peerStateOf peer cache mgr (some s) now)).state ≠ "connected" := by
  have hword : ∀ a : RowState, a.asStr = "connected" ↔ a = .connected := fun a =>
    RowState.asStr_inj (b := .connected)
  rw [statusRow_state, stateRow_peerStateOf_state, hword, hword]
  constructor
  · intro hpast
    rw [classifySecs_eq_classify hpast]
    exact ⟨handshakeIsFresh_iff_classify hpast, handshakeIsFresh_iff_classify hpast, rfl⟩
  · intro t ht hfuture
    have hnot : ¬t ≤ now := not_le.2 hfuture
    rw [ht]
    refine ⟨by simp [handshakeIsFresh, hnot], by simp [classify, hnot, RowState.asStr], ?_⟩
    rw [Ne, hword]
    simp [lastHandshakeSecs, hnot, classifySecs]

/-- **One judgement of a handshake that is not in the future.**  Of each peer, whatever the
kernel reports of it, the report from the backend and the report from what the daemon writes at
that time have a row.  With no handshake or one at the time of the report or before: the state
machine takes it for fresh, the first row says `connected` and the second row says `connected`,
all or none of them, and both rows say the same word.  A handshake in the future is fresh for
the state machine, `stale` in the first report and not `connected` in the second. -/
theorem status_agrees (cfg : Config C) (stateFile : String) (file : Option EngineState)
    (head : EngineState) (cache : EndpointCache) (mgr : RouteManager)
    (observed : List (PeerRuntime C × PeerStats)) (now : SystemTime) :
    let report := buildReport cfg stateFile (observed.map Prod.snd) file now
    let fromState := buildReportFromState cfg stateFile
      (some (writtenState head cache mgr observed now)) now
    ∀ (i : ℕ) (x : PeerRuntime C × PeerStats), observed[i]? = some x →
      ∃ row row' : StatusRow, report.peers[i]? = some row ∧ fromState.peers[i]? = some row' ∧
        ((∀ t, x.2.lastHandshake = some t → t ≤ now) →
          (handshakeIsFresh x.2.lastHandshake now = true ↔ row.state = "connected") ∧
            (handshakeIsFresh x.2.lastHandshake now = true ↔ row'.state = "connected") ∧
            row.state = row'.state) ∧
        ∀ t, x.2.lastHandshake = some t → now < t →
          handshakeIsFresh x.2.lastHandshake now = true ∧ row.state = "stale" ∧
            row'.state ≠ "connected" := by
  intro report fromState i x hx
  exact ⟨_, _, buildReport_getElem? cfg stateFile hx file now,
    buildReportFromState_getElem? cfg stateFile head cache mgr hx now,
    rows_agree cfg _ x.1 cache mgr x.2 now⟩

/-- A handshake ten seconds in the future: the state machine holds the peer for connected and
the report does not. -/
theorem future_handshake_disagrees :
    ¬∀ (lastHandshake : Option SystemTime) (now : SystemTime),
      (handshakeIsFresh lastHandshake now = true ↔ classify lastHandshake now = .connected) ∧
        (handshakeIsFresh lastHandshake now = true ↔
          classifySecs (lastHandshakeSecs lastHandshake now) = .connected) ∧
        (classify lastHandshake now).asStr =
          (classifySecs (lastHandshakeSecs lastHandshake now)).asStr := by
  intro h
  have hfresh : handshakeIsFresh (some 1010000000000) 1000000000000 = true := by decide
  have hstale : classify (some 1010000000000) 1000000000000 = .stale := by decide
  have hboth := (h (some 1010000000000) 1000000000000).1.1 hfresh
  rw [hstale] at hboth
  cases hboth

end Hextet
