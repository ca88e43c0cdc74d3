/-
# The channels between the gossip task and the main loop

`serve` in `crates/engine/src/gossip.rs` and the main loop of `run_async` in
`crates/engine/src/daemon.rs` as two processes.  Events go from the gossip task to
the main loop through a channel of 64 places; targets go back through one of 4.
Both senders wait for room: the gossip task in `tx.send` and the main loop in
`ctl.gossip.send`, and neither takes anything from its own channel meanwhile.

`Tasks` adds the positions of the two processes and the control channel to the
`System`, whose `queue` is here the event channel.  A move of a process that is not
ready does nothing, so a list of moves is a schedule and any ready branch of a
`select` may be taken.  With the event that a gossip task holds counted as in
flight, every schedule is a run of the unbounded `System` that takes the same
datagrams (`schedules_are_runs`), so what holds in every run of that holds under
every schedule.

The two processes wait for each other exactly if more than 64 events come after the
fifth announcement: `never_deadlocked_iff` says so for every sequence of datagrams.
-/

import Hextet.Engine.Revocation

namespace Hextet

open Lib

variable {C : Crypto}

/-! ### Two processes -/

/-- The places of the event channel. -/
def eventCapacity : ℕ := 64

/-- The places of the control channel. -/
def controlCapacity : ℕ := 4

/-- A message that `on_membership_event` sends to a rendezvous task. -/
inductive Control where
  | gossip (targets : List Ipv6Addr)
  | dht (peers : List String)
  | ddns (peers : List (String × Option String))
  deriving DecidableEq

/-- A message for the gossip task. -/
def Control.isGossip : Control → Bool
  | .gossip _ => true
  | _ => false

/-- The message that an effect sends. -/
def Effect.control? : Effect C → Option Control
  | .updateTargets targets => some (.gossip targets)
  | .updateDhtPeers peers => some (.dht peers)
  | .updateDdnsPeers peers => some (.ddns peers)
  | _ => none

/-- What the gossip branch of the main loop has to send, in order; `on_discovered`
is not given the channels. -/
def Daemon.controls (d : Daemon C) (ctx : Ctx) (clock : Clock) : GossipEvent C → List Control
  | .discovered _ => []
  | event => (d.onGossip ctx clock event).2.filterMap Effect.control?

/-- Where the gossip task is. -/
inductive GossipTask (C : Crypto) where
  | select
  | broadcasting (event : Option (GossipEvent C))
  | sending (event : GossipEvent C)

/-- The event that the gossip task holds. -/
def GossipTask.pending : GossipTask C → List (GossipEvent C)
  | .select => []
  | .broadcasting event => event.toList
  | .sending event => [event]

/-- The two processes and what is between them. -/
structure Tasks (C : Crypto) where
  /-- The states of the tasks; its `queue` is the event channel. -/
  sys : System C
  /-- The datagrams that the gossip task has still to receive. -/
  socket : List Datagram
  /-- Where the gossip task is. -/
  gossip : GossipTask C
  /-- The targets that it broadcasts to. -/
  targets : List Ipv6Addr
  /-- The control channel to the gossip task. -/
  ctl : List (List Ipv6Addr)
  /-- What the main loop has still to send before it selects again. -/
  main : List Control

/-- What moves next. -/
inductive Move where
  | broadcast
  | takeControl
  | receive
  | broadcasted
  | sendEvent
  | takeEvent (clock : Clock) (saved : Bool)
  | handle (i : Input)
  | sendControl

/-- A branch of the main loop other than that of the event channel. -/
def Input.IsLocal : Input → Prop
  | .datagram _ => False
  | .gossip _ _ => False
  | _ => True

/-- The datagram that an input takes. -/
def Input.datagram? : Input → Option Datagram
  | .datagram d => some d
  | _ => none

theorem Input.IsLocal.datagram? {i : Input} (h : i.IsLocal) : i.datagram? = none := by
  cases i with
  | datagram d => exact h.elim
  | gossip | discovered | relay | tick | kick => rfl

theorem Input.isLocal_of_ne {i : Input} (hd : ∀ d, i = .datagram d → False)
    (hg : ∀ clock saved, i = .gossip clock saved → False) : i.IsLocal := by
  cases i with
  | datagram d => exact hd d rfl
  | gossip clock saved => exact hg clock saved rfl
  | discovered => trivial
  | relay => trivial
  | tick => trivial
  | kick => trivial

/-- Such a branch does not look at the event channel. -/
theorem Input.IsLocal.step_queue {i : Input} (h : i.IsLocal) (cfg : Config C) (s : System C)
    (queue : List (GossipEvent C)) :
    System.step cfg { s with queue := queue } i = { s.step cfg i with queue := queue } := by
  cases i with
  | datagram d => exact h.elim
  | gossip clock saved => exact h.elim
  | discovered => rfl
  | relay => rfl
  | tick => rfl
  | kick => rfl

/-- Such a branch leaves the store, the event channel and the keys alone. -/
theorem Input.IsLocal.frame {i : Input} (h : i.IsLocal) (cfg : Config C) (s : System C) :
    (s.step cfg i).store = s.store ∧ (s.step cfg i).queue = s.queue ∧
      (s.step cfg i).daemon.keys = s.daemon.keys := by
  cases i with
  | datagram d => exact h.elim
  | gossip clock saved => exact h.elim
  | discovered update clock =>
      exact ⟨rfl, rfl, (s.daemon.quiet_onDiscovered update clock).keys⟩
  | relay done now clock =>
      exact ⟨rfl, rfl, (s.daemon.quiet_onRelayRegistered done now clock).keys⟩
  | tick statuses now ts => exact ⟨rfl, rfl, (s.daemon.quiet_tickOnce statuses now ts).keys⟩
  | kick now clocks => exact ⟨rfl, rfl, (s.daemon.quiet_onKick now clocks).keys⟩

namespace Tasks

/-- One move; nothing happens if it is not ready. -/
def step (cfg : Config C) (t : Tasks C) : Move → Tasks C
  -- the gossip task: its timer or a kick, the control channel, the socket
  | .broadcast =>
      match t.gossip with
      | .select => { t with gossip := .broadcasting none }
      | _ => t
  | .takeControl =>
      match t.gossip, t.ctl with
      | .select, targets :: ctl => { t with targets := targets, ctl := ctl }
      | _, _ => t
  | .receive =>
      match t.gossip, t.socket with
      | .select, d :: socket =>
          let (event, store) := handleDatagram cfg.gossip t.sys.store d
          { t with
            sys := { t.sys with store := store }
            socket := socket
            gossip := if event.isSome then .broadcasting event else .select }
      | _, _ => t
  | .broadcasted =>
      match t.gossip with
      | .broadcasting none => { t with gossip := .select }
      | .broadcasting (some event) => { t with gossip := .sending event }
      | _ => t
  | .sendEvent =>
      match t.gossip with
      | .sending event =>
          if t.sys.queue.length < eventCapacity then
            { t with sys := { t.sys with queue := t.sys.queue ++ [event] }, gossip := .select }
          else t
      | _ => t
  -- the main loop: the event channel, its other branches, a send
  | .takeEvent clock saved =>
      match t.main, t.sys.queue with
      | [], event :: _ =>
          { t with
            sys := t.sys.step cfg (.gossip clock saved)
            main := t.sys.daemon.controls cfg.ctx clock event }
      | _, _ => t
  | .handle i =>
      match t.main, i with
      | _ :: _, _ => t
      | [], .datagram _ => t
      | [], .gossip _ _ => t
      | [], i => { t with sys := t.sys.step cfg i }
  | .sendControl =>
      match t.main with
      | [] => t
      | .gossip targets :: rest =>
          if t.ctl.length < controlCapacity then
            { t with ctl := t.ctl ++ [targets], main := rest }
          else t
      -- the DHT and DDNS tasks take theirs whenever they like
      | _ :: rest => { t with main := rest }

/-- The state after some moves. -/
abbrev after (cfg : Config C) (t : Tasks C) (ms : List Move) : Tasks C := run (step cfg) t ms

/-- Both processes at their `select`, and datagrams to come. -/
def boot (cfg : Config C) (u : System.Startup) (ds : List Datagram) : Tasks C where
  sys := System.boot cfg u
  socket := ds
  gossip := .select
  targets := (System.boot cfg u).daemon.peers.map fun p => p.overlay
  ctl := []
  main := []

/-- The gossip task waits for room in the event channel. -/
def GossipWaits (t : Tasks C) : Prop :=
  ∃ event, t.gossip = .sending event ∧ eventCapacity ≤ t.sys.queue.length

/-- The main loop waits for room in the control channel. -/
def MainWaits (t : Tasks C) : Prop :=
  ∃ targets rest, t.main = .gossip targets :: rest ∧ controlCapacity ≤ t.ctl.length

/-- The two processes wait for each other. -/
def Deadlocked (t : Tasks C) : Prop := t.MainWaits ∧ t.GossipWaits

/-- **Nothing moves any more** once the two processes wait for each other. -/
theorem Deadlocked.step {t : Tasks C} (h : t.Deadlocked) (cfg : Config C) (m : Move) :
    t.step cfg m = t := by
  obtain ⟨⟨targets, rest, hmain, hctl⟩, event, hgossip, hqueue⟩ := h
  cases m with
  | broadcast => simp only [Tasks.step, hgossip]
  | takeControl => simp only [Tasks.step, hgossip]
  | receive => simp only [Tasks.step, hgossip]
  | broadcasted => simp only [Tasks.step, hgossip]
  | sendEvent => simp only [Tasks.step, hgossip, if_neg (not_lt.2 hqueue)]
  | takeEvent clock saved => simp only [Tasks.step, hmain]
  | handle i => simp only [Tasks.step, hmain]
  | sendControl => simp only [Tasks.step, hmain, if_neg (not_lt.2 hctl)]

/-! ### What one move can do -/

/-- The messages for the gossip task that it has not taken. -/
def untaken (t : Tasks C) : ℕ := t.ctl.length + t.main.countP Control.isGossip

/-- A step that no event and no state of the tasks shows. -/
structure Silent (t t' : Tasks C) : Prop where
  sys : t'.sys = t.sys
  socket : t'.socket = t.socket
  pending : t'.gossip.pending = t.gossip.pending
  untaken : t'.untaken ≤ t.untaken
  main : t'.main.countP Control.isGossip ≤ t.main.countP Control.isGossip

theorem Silent.refl (t : Tasks C) : Silent t t := ⟨rfl, rfl, rfl, le_rfl, le_rfl⟩

/-- The gossip task has received a datagram. -/
def received (cfg : Config C) (t : Tasks C) (d : Datagram) (socket : List Datagram) : Tasks C :=
  let (event, store) := handleDatagram cfg.gossip t.sys.store d
  { t with
    sys := { t.sys with store := store }
    socket := socket
    gossip := if event.isSome then .broadcasting event else .select }

/-- The gossip task has sent its event. -/
def sent (t : Tasks C) (event : GossipEvent C) : Tasks C :=
  { t with sys := { t.sys with queue := t.sys.queue ++ [event] }, gossip := .select }

/-- The main loop has taken an event. -/
def taken (cfg : Config C) (t : Tasks C) (event : GossipEvent C) (clock : Clock) (saved : Bool) :
    Tasks C :=
  { t with
    sys := t.sys.step cfg (.gossip clock saved)
    main := t.sys.daemon.controls cfg.ctx clock event }

/-- A send to a rendezvous task is silent. -/
theorem silent_sendControl (cfg : Config C) (t : Tasks C) :
    Silent t (t.step cfg .sendControl) := by
  simp only [step]
  split
  · exact .refl t
  · rename_i targets rest hmain
    have hcount : (Control.gossip targets :: rest).countP Control.isGossip =
        rest.countP Control.isGossip + 1 := List.countP_cons_of_pos rfl
    split_ifs
    · refine ⟨rfl, rfl, rfl, ?_, ?_⟩
      · simp only [Tasks.untaken, hmain, List.length_append, List.length_singleton, hcount]
        omega
      · simp only [hmain, hcount]
        omega
    · exact .refl t
  · rename_i c rest hnot hmain
    have hcount : rest.countP Control.isGossip ≤ (c :: rest).countP Control.isGossip :=
      (List.sublist_cons_self c rest).countP_le
    refine ⟨rfl, rfl, rfl, ?_, ?_⟩
    · simp only [Tasks.untaken, hmain]
      omega
    · rwa [hmain]

/-- **What one move can do**: a datagram is received, an event is sent or taken,
another branch of the main loop runs, or the step is silent. -/
theorem step_cases (cfg : Config C) (t : Tasks C) (m : Move) :
    Silent t (t.step cfg m) ∨
    (∃ d socket, t.gossip = .select ∧ t.socket = d :: socket ∧
      t.step cfg m = t.received cfg d socket) ∨
    (∃ event, t.gossip = .sending event ∧ t.step cfg m = t.sent event) ∨
    (∃ event rest clock saved, t.main = [] ∧ t.sys.queue = event :: rest ∧
      t.step cfg m = t.taken cfg event clock saved) ∨
    ∃ i, i.IsLocal ∧ t.step cfg m = { t with sys := t.sys.step cfg i } := by
  cases m with
  | broadcast =>
      refine Or.inl ?_
      simp only [step]
      split
      · rename_i h
        exact ⟨rfl, rfl, by rw [h]; rfl, le_rfl, le_rfl⟩
      · exact .refl t
  | takeControl =>
      refine Or.inl ?_
      simp only [step]
      split
      · rename_i hctl
        exact ⟨rfl, rfl, rfl, by simp [Tasks.untaken, hctl], le_rfl⟩
      · exact .refl t
  | receive =>
      simp only [step]
      split
      · rename_i d socket hgossip hsocket
        exact Or.inr (Or.inl ⟨d, socket, hgossip, hsocket, rfl⟩)
      · exact Or.inl (.refl t)
  | broadcasted =>
      refine Or.inl ?_
      simp only [step]
      split
      · rename_i h
        exact ⟨rfl, rfl, by rw [h]; rfl, le_rfl, le_rfl⟩
      · rename_i h
        exact ⟨rfl, rfl, by rw [h]; rfl, le_rfl, le_rfl⟩
      · exact .refl t
  | sendEvent =>
      simp only [step]
      split
      · rename_i event h
        split_ifs
        · exact Or.inr (Or.inr (Or.inl ⟨event, h, rfl⟩))
        · exact Or.inl (.refl t)
      · exact Or.inl (.refl t)
  | takeEvent clock saved =>
      simp only [step]
      split
      · rename_i event rest hmain hqueue
        exact Or.inr (Or.inr (Or.inr (Or.inl ⟨event, rest, clock, saved, hmain, hqueue, rfl⟩)))
      · exact Or.inl (.refl t)
  | handle i =>
      simp only [step]
      split
      · exact Or.inl (.refl t)
      · exact Or.inl (.refl t)
      · exact Or.inl (.refl t)
      · rename_i hmain hd hg
        exact Or.inr (Or.inr (Or.inr (Or.inr ⟨_, Input.isLocal_of_ne hd hg, rfl⟩)))
  | sendControl => exact Or.inl (silent_sendControl cfg t)

/-! ### Schedules are runs -/

/-- The unbounded system of a state: the event that the gossip task holds counts as
in flight. -/
def abs (t : Tasks C) : System C := { t.sys with queue := t.sys.queue ++ t.gossip.pending }

/-- What the gossip task holds after it received a datagram. -/
theorem pending_received (cfg : Config C) (t : Tasks C) (d : Datagram) (socket : List Datagram) :
    (t.received cfg d socket).gossip.pending =
      (handleDatagram cfg.gossip t.sys.store d).1.toList := by
  simp only [received]
  cases (handleDatagram cfg.gossip t.sys.store d).1 <;> rfl

/-- **A move is an input of the unbounded system, or none.** -/
theorem abs_step (cfg : Config C) (t : Tasks C) (m : Move) :
    ((t.step cfg m).abs = t.abs ∧ (t.step cfg m).socket = t.socket) ∨
      ∃ i, (t.step cfg m).abs = t.abs.step cfg i ∧
        t.socket = i.datagram?.toList ++ (t.step cfg m).socket := by
  rcases step_cases cfg t m with hsilent | ⟨d, socket, hgossip, hsocket, heq⟩ |
    ⟨event, hgossip, heq⟩ | ⟨event, rest, clock, saved, -, hqueue, heq⟩ | ⟨i, hi, heq⟩
  · exact Or.inl ⟨by rw [abs, abs, hsilent.sys, hsilent.pending], hsilent.socket⟩
  · refine Or.inr ⟨.datagram d, ?_, ?_⟩
    · rw [heq, abs, pending_received, System.step_datagram]
      simp only [abs, hgossip, GossipTask.pending, List.append_nil]
      rfl
    · rw [heq]
      exact hsocket
  · rw [heq]
    exact Or.inl ⟨by simp [abs, sent, hgossip, GossipTask.pending], rfl⟩
  · refine Or.inr ⟨.gossip clock saved, ?_, by rw [heq]; rfl⟩
    rw [heq]
    simp only [abs, taken, System.step, hqueue, List.cons_append]
    rfl
  · refine Or.inr ⟨i, ?_, ?_⟩
    · simp only [heq, abs, (hi.frame cfg t.sys).2.1]
      exact (hi.step_queue cfg t.sys _).symm
    · rw [heq, hi.datagram?]
      rfl

/-- **A schedule is a run of the unbounded system**, which takes the datagrams that the gossip
task received, in their order. -/
theorem exists_inputs (cfg : Config C) (t : Tasks C) (ms : List Move) :
    ∃ is, (t.after cfg ms).abs = System.after cfg t.abs is ∧
      t.socket = is.filterMap Input.datagram? ++ (t.after cfg ms).socket := by
  induction ms generalizing t with
  | nil => exact ⟨[], rfl, rfl⟩
  | cons m ms ih =>
      obtain ⟨is, his, hsocket⟩ := ih (t.step cfg m)
      rcases abs_step cfg t m with ⟨heq, hsame⟩ | ⟨i, heq, hsame⟩
      · exact ⟨is, by rw [← heq]; exact his, hsame ▸ hsocket⟩
      · refine ⟨i :: is, by rw [after, run_cons, his, heq]; rfl, ?_⟩
        rw [hsame, hsocket]
        cases hd : i.datagram? <;> simp [hd]

/-- **The two processes refine the system.**  From every startup, whatever the schedule and
however long either waits for room: with the event that the gossip task holds counted as in
flight, the tasks are where a run of the unbounded system is, and that run took the datagrams
that were received, each once and in their order. -/
theorem schedules_are_runs (cfg : Config C) (u : System.Startup) (ds : List Datagram)
    (ms : List Move) :
    let t := (boot cfg u ds).after cfg ms
    ∃ is, t.abs = System.after cfg (System.boot cfg u) is ∧
      ds = is.filterMap Input.datagram? ++ t.socket := by
  obtain ⟨is, his, hsocket⟩ := exists_inputs cfg (boot cfg u ds) ms
  have hboot : (boot cfg u ds).abs = System.boot cfg u := by
    rw [abs, boot, GossipTask.pending, List.append_nil]
  exact ⟨is, hboot ▸ his, hsocket⟩

end Tasks

/-! ### Announcements -/

/-- The event changes the table, so that the main loop announces it. -/
def GossipEvent.announces (keys : List String) : GossipEvent C → Bool
  | .discovered _ => false
  | .memberAdmitted node _ _ => node.toBase64 ∉ keys
  | .revoked _ => true

/-- The keys of the table after the event. -/
def GossipEvent.keysAfter (keys : List String) : GossipEvent C → List String
  | .discovered _ => keys
  | .memberAdmitted node _ _ => if node.toBase64 ∈ keys then keys else keys ++ [node.toBase64]
  | .revoked node => keys.erase node.toBase64

/-- No announcement after the first four is followed by more than 64 events; `sent`
have been made before. -/
def Relieved (keys : List String) (sent : ℕ) : List (GossipEvent C) → Prop
  | [] => True
  | e :: es =>
      (e.announces keys = true → controlCapacity ≤ sent → es.length ≤ eventCapacity) ∧
        Relieved (e.keysAfter keys) (sent + (e.announces keys).toNat) es

namespace Daemon

variable (d : Daemon C) (ctx : Ctx) (clock : Clock) (e : GossipEvent C)

/-- The messages about a table. -/
def announcement : List Control :=
  [.gossip (d.peers.map fun p => p.overlay), .dht (d.peers.map fun p => p.keyB64),
    .ddns (d.peers.map fun p => (p.keyB64, p.ddns))]

/-- The gossip branch acts on the keys as the event does. -/
theorem keys_onGossip : (d.onGossip ctx clock e).1.keys = e.keysAfter d.keys := by
  cases e with
  | discovered update => exact (d.quiet_onDiscovered update clock).keys
  | memberAdmitted node name address =>
      by_cases hmem : node.toBase64 ∈ d.keys
      · rw [onGossip, d.onMemberAdmitted_of_mem ctx node name address (clock 0) hmem,
          GossipEvent.keysAfter, if_pos hmem]
      · rw [GossipEvent.keysAfter, if_neg hmem]
        exact (d.enters_onMemberAdmitted ctx node name address (clock 0) hmem).keys
  | revoked node => exact (d.leaves_onRevoked node).keys

/-- **An announcement sends the new table to each rendezvous task.** -/
theorem controls_of_announces (h : e.announces d.keys = true) :
    d.controls ctx clock e = (d.onGossip ctx clock e).1.announcement := by
  cases e with
  | discovered => cases h
  | memberAdmitted node name address =>
      have hmem : node.toBase64 ∉ d.keys := of_decide_eq_true h
      simp only [controls, onGossip, onMemberAdmitted, if_neg hmem]
      rfl
  | revoked node =>
      simp only [controls, onGossip, onRevoked]
      split_ifs <;> rfl

/-- Any other event sends none. -/
theorem controls_of_not_announces (h : e.announces d.keys = false) :
    d.controls ctx clock e = [] := by
  cases e with
  | discovered => rfl
  | memberAdmitted node name address =>
      have hmem : node.toBase64 ∈ d.keys := by simpa [GossipEvent.announces] using h
      simp only [controls, onGossip, d.onMemberAdmitted_of_mem ctx node name address (clock 0) hmem,
        List.filterMap_nil]
  | revoked => cases h

end Daemon

@[simp] theorem Daemon.countP_announcement (d : Daemon C) :
    d.announcement.countP Control.isGossip = 1 := rfl

namespace Tasks

/-! ### No deadlock while the channel is relieved -/

/-- The events that the main loop has still to take. -/
def ahead (cfg : Config C) (t : Tasks C) : List (GossipEvent C) :=
  t.sys.queue ++ t.gossip.pending ++ (handleAll cfg.gossip t.sys.store t.socket).1

/-- What a move does to the events ahead and the messages not taken: the main loop
takes an event, or nothing is added. -/
theorem ahead_step (cfg : Config C) (t : Tasks C) (m : Move) :
    ((t.step cfg m).ahead cfg = t.ahead cfg ∧
      (t.step cfg m).sys.daemon.keys = t.sys.daemon.keys ∧
      (t.step cfg m).untaken ≤ t.untaken ∧
      (t.step cfg m).main.countP Control.isGossip ≤ t.main.countP Control.isGossip) ∨
    ∃ e clock, t.main = [] ∧ t.ahead cfg = e :: (t.step cfg m).ahead cfg ∧
      (t.step cfg m).sys.daemon.keys = e.keysAfter t.sys.daemon.keys ∧
      (t.step cfg m).ctl = t.ctl ∧
      (t.step cfg m).main = t.sys.daemon.controls cfg.ctx clock e := by
  rcases step_cases cfg t m with hsilent | ⟨d, socket, hgossip, hsocket, heq⟩ |
    ⟨event, hgossip, heq⟩ | ⟨event, rest, clock, saved, hmain, hqueue, heq⟩ | ⟨i, hi, heq⟩
  · refine Or.inl ⟨?_, by rw [hsilent.sys], hsilent.untaken, hsilent.main⟩
    rw [ahead, ahead, hsilent.sys, hsilent.socket, hsilent.pending]
  · rw [heq]
    refine Or.inl ⟨?_, rfl, le_rfl, le_rfl⟩
    rw [ahead, pending_received, ahead, hgossip, hsocket, handleAll_cons]
    simp only [received, GossipTask.pending, List.append_nil, List.append_assoc]
  · rw [heq]
    exact Or.inl ⟨by simp [ahead, sent, hgossip, GossipTask.pending], rfl, le_rfl, le_rfl⟩
  · rw [heq]
    refine Or.inr ⟨event, clock, hmain, ?_, ?_, rfl, rfl⟩
    · simp only [ahead, taken, hqueue, System.step, List.cons_append]
      rfl
    · simp only [taken, System.step, hqueue]
      exact t.sys.daemon.keys_onGossip cfg.ctx clock event
  · obtain ⟨hstore, hqueue, hkeys⟩ := hi.frame cfg t.sys
    rw [heq]
    exact Or.inl ⟨by simp only [ahead, hstore, hqueue], hkeys, le_rfl, le_rfl⟩

/-- What keeps the two processes from waiting for each other: the messages for the
gossip task that it has not taken are among those `sent`, and while one of more than
four waits, the events ahead fit the channel. -/
structure Flow (cfg : Config C) (sent : ℕ) (t : Tasks C) : Prop where
  untaken : t.untaken ≤ sent
  relieved : Relieved t.sys.daemon.keys sent (t.ahead cfg)
  fits : 0 < t.main.countP Control.isGossip → controlCapacity < sent →
    (t.ahead cfg).length ≤ eventCapacity

/-- **Every move keeps the flow**, with one more message sent if it takes an event
that announces. -/
theorem Flow.step {cfg : Config C} {sent : ℕ} {t : Tasks C} (h : Flow cfg sent t) (m : Move) :
    ∃ sent', Flow cfg sent' (t.step cfg m) := by
  rcases ahead_step cfg t m with ⟨hahead, hkeys, huntaken, hmain⟩ |
    ⟨e, clock, hmain, hahead, hkeys, hctl, hmain'⟩
  · refine ⟨sent, huntaken.trans h.untaken, ?_, fun hpos hsent => ?_⟩
    · rw [hahead, hkeys]
      exact h.relieved
    · rw [hahead]
      exact h.fits (hpos.trans_le hmain) hsent
  · have hrelieved := h.relieved
    rw [hahead, Relieved, ← hkeys] at hrelieved
    have hsent : t.ctl.length ≤ sent := by simpa [Tasks.untaken, hmain] using h.untaken
    refine ⟨_, ?_, hrelieved.2, ?_⟩
    · cases hann : e.announces t.sys.daemon.keys with
      | false =>
          rw [t.sys.daemon.controls_of_not_announces cfg.ctx clock e hann] at hmain'
          simpa [Tasks.untaken, hmain', hctl] using hsent
      | true =>
          rw [t.sys.daemon.controls_of_announces cfg.ctx clock e hann] at hmain'
          simpa [Tasks.untaken, hmain', hctl] using hsent
    · intro hpos hfull
      cases hann : e.announces t.sys.daemon.keys with
      | false =>
          rw [hmain', t.sys.daemon.controls_of_not_announces cfg.ctx clock e hann] at hpos
          cases hpos
      | true =>
          rw [hann, Bool.toNat_true] at hfull
          exact hrelieved.1 hann (Nat.le_of_lt_succ hfull)

/-- Where the flow is kept, the two processes do not wait for each other. -/
theorem Flow.not_deadlocked {cfg : Config C} {sent : ℕ} {t : Tasks C} (h : Flow cfg sent t) :
    ¬t.Deadlocked := by
  rintro ⟨⟨targets, rest, hmain, hctl⟩, event, hgossip, hqueue⟩
  have hcount : t.main.countP Control.isGossip = rest.countP Control.isGossip + 1 := by
    rw [hmain]
    exact List.countP_cons_of_pos rfl
  have hsent := h.untaken
  rw [Tasks.untaken] at hsent
  have hfits := h.fits (by omega) (by omega)
  simp only [ahead, hgossip, GossipTask.pending, List.length_append, List.length_singleton]
    at hfits
  omega

/-! ### A schedule that ends in deadlock -/

/-- The gossip task receives until it holds the next event. -/
theorem exists_receive (cfg : Config C) {e : GossipEvent C} {es : List (GossipEvent C)}
    (t : Tasks C) (hgossip : t.gossip = .select)
    (hes : (handleAll cfg.gossip t.sys.store t.socket).1 = e :: es) :
    ∃ ms store socket, t.after cfg ms = { t with
        sys := { t.sys with store := store }, socket := socket, gossip := .sending e } ∧
      (handleAll cfg.gossip store socket).1 = es := by
  obtain ⟨sys, socket, gossip, targets, ctl, main⟩ := t
  obtain rfl := hgossip
  induction socket generalizing sys with
  | nil => cases hes
  | cons d socket ih =>
      simp only [handleAll_cons] at hes
      cases hd : (handleDatagram cfg.gossip sys.store d).1 with
      | none =>
          rw [hd] at hes
          obtain ⟨ms, store, socket', hafter, hes'⟩ :=
            ih { sys with store := (handleDatagram cfg.gossip sys.store d).2 } hes
          refine ⟨.receive :: ms, store, socket', ?_, hes'⟩
          rw [after, run_cons]
          simp only [step, hd]
          exact hafter
      | some x =>
          rw [hd] at hes
          obtain ⟨rfl, htail⟩ := List.cons.inj hes
          refine ⟨[.receive, .broadcasted], (handleDatagram cfg.gossip sys.store d).2, socket, ?_,
            htail⟩
          simp only [after, run_cons, run_nil, step, hd, Option.isSome_some, if_true]

/-- While the main loop waits, the event channel fills up. -/
theorem exists_fill (cfg : Config C) {es : List (GossipEvent C)} (t : Tasks C)
    (hgossip : t.gossip = .select) (hmain : t.MainWaits)
    (hes : (handleAll cfg.gossip t.sys.store t.socket).1 = es)
    (hroom : t.sys.queue.length ≤ eventCapacity)
    (hmany : eventCapacity < t.sys.queue.length + es.length) :
    ∃ ms, (t.after cfg ms).Deadlocked := by
  induction es generalizing t with
  | nil =>
      rw [List.length_nil] at hmany
      omega
  | cons e es ih =>
      obtain ⟨ms, store, socket, hafter, hes'⟩ := exists_receive cfg t hgossip hes
      by_cases hfull : t.sys.queue.length = eventCapacity
      · refine ⟨ms, ?_⟩
        rw [hafter]
        exact ⟨hmain, e, rfl, hfull.ge⟩
      · have hlt : t.sys.queue.length < eventCapacity := lt_of_le_of_ne hroom hfull
        have hlen : (t.sys.queue ++ [e]).length = t.sys.queue.length + 1 := List.length_append
        rw [List.length_cons] at hmany
        obtain ⟨ms', hdead⟩ := ih { t with
            sys := { t.sys with store := store, queue := t.sys.queue ++ [e] }
            socket := socket
            gossip := .select } rfl hmain hes' (hlen.trans_le hlt)
          (by simp only [hlen]; omega)
        refine ⟨ms ++ .sendEvent :: ms', ?_⟩
        rw [after, run_append, show run (step cfg) t ms = _ from hafter, run_cons]
        simpa only [step, if_pos hlt] using hdead

/-- The main loop takes the next event while nothing else waits. -/
theorem exists_take (cfg : Config C) {e : GossipEvent C} {es : List (GossipEvent C)} (t : Tasks C)
    (hgossip : t.gossip = .select) (hqueue : t.sys.queue = []) (hmain : t.main = [])
    (hes : (handleAll cfg.gossip t.sys.store t.socket).1 = e :: es) :
    ∃ ms sys socket, t.after cfg ms = { t with
        sys := sys, socket := socket, main := t.sys.daemon.controls cfg.ctx (fun _ => 0) e } ∧
      sys.queue = [] ∧ sys.daemon.keys = e.keysAfter t.sys.daemon.keys ∧
      (handleAll cfg.gossip sys.store socket).1 = es := by
  obtain ⟨ms, store, socket, hafter, hes'⟩ := exists_receive cfg t hgossip hes
  obtain ⟨sys, socket₀, gossip, targets, ctl, main⟩ := t
  obtain rfl := hgossip
  obtain rfl := hmain
  simp only at hqueue
  refine ⟨ms ++ [.sendEvent, .takeEvent (fun _ => 0) true],
    System.step cfg { sys with store := store, queue := [e] } (.gossip (fun _ => 0) true), socket,
    ?_, rfl, ?_, hes'⟩
  · rw [after, run_append, show run (step cfg) _ ms = _ from hafter]
    simp only [run_cons, run_nil, step, hqueue, List.length_nil, eventCapacity, Nat.zero_lt_succ,
      if_true, List.nil_append]
  · exact sys.daemon.keys_onGossip cfg.ctx _ e

/-- The main loop announces a table, after the gossip task has made room if it
must. -/
theorem exists_announce (cfg : Config C) (t : Tasks C) (hgossip : t.gossip = .select)
    (d : Daemon C) (hmain : t.main = d.announcement) {sent : ℕ}
    (hctl : t.ctl.length = min controlCapacity sent) :
    ∃ ms targets ctl, t.after cfg ms = { t with targets := targets, ctl := ctl, main := [] } ∧
      ctl.length = min controlCapacity (sent + 1) := by
  obtain ⟨sys, socket, gossip, targets, ctl, main⟩ := t
  obtain rfl := hgossip
  obtain rfl := hmain
  simp only at hctl
  by_cases hroom : ctl.length < controlCapacity
  · refine ⟨[.sendControl, .sendControl, .sendControl], targets,
      ctl ++ [d.peers.map fun p => p.overlay], ?_, ?_⟩
    · simp only [after, run_cons, run_nil, step, Daemon.announcement, if_pos hroom]
    · rw [List.length_append, List.length_singleton]
      omega
  · cases ctl with
    | nil => exact (hroom (by decide)).elim
    | cons c rest =>
        rw [List.length_cons] at hctl hroom
        have hrest : rest.length < controlCapacity := by omega
        refine ⟨[.takeControl, .sendControl, .sendControl, .sendControl], c,
          rest ++ [d.peers.map fun p => p.overlay], ?_, ?_⟩
        · simp only [after, run_cons, run_nil, step, Daemon.announcement, if_pos hrest]
        · rw [List.length_append, List.length_singleton]
          omega

/-- **The two processes can come to wait for each other** where an announcement after
the first four is followed by more than 64 events. -/
theorem exists_deadlocked (cfg : Config C) {es : List (GossipEvent C)} {sent : ℕ} (t : Tasks C)
    (hgossip : t.gossip = .select) (hqueue : t.sys.queue = []) (hmain : t.main = [])
    (hctl : t.ctl.length = min controlCapacity sent)
    (hes : (handleAll cfg.gossip t.sys.store t.socket).1 = es)
    (hnot : ¬Relieved t.sys.daemon.keys sent es) : ∃ ms, (t.after cfg ms).Deadlocked := by
  induction es generalizing t sent with
  | nil => exact (hnot trivial).elim
  | cons e es ih =>
      obtain ⟨ms, sys, socket, hafter, hqueue', hkeys, hes'⟩ :=
        exists_take cfg t hgossip hqueue hmain hes
      -- a schedule from the state after the event was taken is one from `t`
      have hprepend : ∀ ms', ((t.after cfg ms).after cfg ms').Deadlocked →
          ∃ ms, (t.after cfg ms).Deadlocked := fun ms' h => ⟨ms ++ ms', by rwa [after, run_append]⟩
      rw [Relieved, ← hkeys] at hnot
      cases hann : e.announces t.sys.daemon.keys with
      | false =>
          rw [t.sys.daemon.controls_of_not_announces _ _ e hann] at hafter
          rw [hann] at hnot
          have hnot' : ¬Relieved sys.daemon.keys sent es := fun h => hnot ⟨nofun, h⟩
          obtain ⟨ms', hdead⟩ := ih { t with sys := sys, socket := socket, main := [] } hgossip
            hqueue' rfl hctl hes' hnot'
          exact hprepend ms' (by rw [hafter]; exact hdead)
      | true =>
          rw [t.sys.daemon.controls_of_announces _ _ e hann] at hafter
          rw [hann] at hnot
          set t' : Tasks C := { t with
            sys := sys
            socket := socket
            main := (t.sys.daemon.onGossip cfg.ctx (fun _ => 0) e).1.announcement } with ht'
          by_cases hstuck : controlCapacity ≤ sent ∧ eventCapacity < es.length
          · have hfull : controlCapacity ≤ t'.ctl.length := by
              rw [show t'.ctl.length = _ from hctl]
              exact le_min le_rfl hstuck.1
            obtain ⟨ms', hdead⟩ := exists_fill cfg t' hgossip ⟨_, _, rfl, hfull⟩ hes'
              (by simp [ht', hqueue']) (by simpa [ht', hqueue'] using hstuck.2)
            exact hprepend ms' (by rw [hafter]; exact hdead)
          · have hnot' : ¬Relieved sys.daemon.keys (sent + 1) es := by
              refine fun h => hnot ⟨fun _ hsent => ?_, h⟩
              by_contra hlen
              exact hstuck ⟨hsent, not_le.1 hlen⟩
            obtain ⟨ms₁, targets, ctl, hafter₁, hctl'⟩ := exists_announce cfg t' hgossip _ rfl hctl
            obtain ⟨ms₂, hdead⟩ := ih { t' with targets := targets, ctl := ctl, main := [] }
              hgossip hqueue' rfl hctl' hes' hnot'
            refine hprepend (ms₁ ++ ms₂) ?_
            rw [hafter, after, run_append, show run (step cfg) t' ms₁ = _ from hafter₁]
            exact hdead

theorem exists_deadlocked_boot (cfg : Config C) (u : System.Startup) (ds : List Datagram)
    (hnot : ¬Relieved (System.boot cfg u).daemon.keys 0 (handleAll cfg.gossip .new ds).1) :
    ∃ ms, ((boot cfg u ds).after cfg ms).Deadlocked :=
  exists_deadlocked cfg (boot cfg u ds) rfl rfl rfl rfl rfl hnot

/-- **The gossip task and the main loop never wait for each other exactly if no
announcement after the first four is followed by more than 64 events**: for every
configuration, every startup and every sequence of datagrams, over all schedules. -/
theorem never_deadlocked_iff (cfg : Config C) (u : System.Startup) (ds : List Datagram) :
    (∀ ms, ¬((boot cfg u ds).after cfg ms).Deadlocked) ↔
      Relieved (System.boot cfg u).daemon.keys 0 (handleAll cfg.gossip .new ds).1 := by
  constructor
  · intro h
    by_contra hnot
    obtain ⟨ms, hdead⟩ := exists_deadlocked_boot cfg u ds hnot
    exact h ms hdead
  · intro h ms
    have hboot : ∃ sent, Flow cfg sent (boot cfg u ds) :=
      ⟨0, le_rfl, h, fun hpos => absurd hpos (lt_irrefl 0)⟩
    obtain ⟨sent, hflow⟩ := run_invariant (P := fun t => ∃ sent, Flow cfg sent t)
      (fun _ m h => h.elim fun _ h => h.step m) hboot ms
    exact hflow.not_deadlocked

end Tasks

/-! ### Seventy revocations -/

/-- Revocations of node 1 by node 9, one newer than the other. -/
def revocations (first n : ℕ) : List Datagram :=
  (List.range' first n).map fun i =>
    Datagram.ofEntry plainPrefix (.plainRevocation (plainKey 1 0) (plainKey 9 0) (UInt64.ofNat i))

/-- Each of them is taken up and reported. -/
theorem handleAll_revocations (first n : ℕ) (hmax : first + n ≤ 2 ^ 64)
    {s : GossipStore Crypto.plain}
    (hroom : s.map.lookup (plainKey 1 0, .revocation) = none → s.len < maxStoreEntries)
    (hold : ∀ old, s.map.lookup (plainKey 1 0, .revocation) = some old → old.seq.toNat < first) :
    (handleAll plainOpenConfig s (revocations first n)).1 =
      List.replicate n (.revoked (plainKey 1 0)) := by
  have hne : plainKey 9 0 ≠ plainKey 1 0 := plainKey_ne (by omega) (by omega) (by omega) 0 0
  induction n generalizing first s with
  | zero => rfl
  | succ n ih =>
      set e := Entry.plainRevocation (plainKey 1 0) (plainKey 9 0) (UInt64.ofNat first) with he
      have hv : e.isValid = true := Entry.isValid_plainRevocation hne _
      have hseq : e.seq.toNat = first := UInt64.toNat_ofNat_of_lt (by
        change first < 2 ^ 64
        omega)
      have htakes : Takes plainOpenConfig s e := by
        refine ⟨rfl, (s.merge_eq_applied_iff e).2 ⟨hv, fun old hl => ?_, hroom⟩⟩
        exact Prod.Lex.toLex_lt_toLex.2 (Or.inl ((hold old hl).trans_eq hseq.symm))
      obtain ⟨heq, hmap⟩ := handleDatagram_of_takes
        (Datagram.accepted_ofEntry plainOpenConfig hv rfl) htakes
      have hlookup : (s.merge e).2.map.lookup (plainKey 1 0, .revocation) = some e := by
        rw [hmap]
        exact Finmap.lookup_insert s.map
      rw [revocations, List.range'_succ, List.map_cons, handleAll_cons,
        show handleDatagram plainOpenConfig s (Datagram.ofEntry plainPrefix e) = _ from heq,
        List.replicate_succ]
      refine congrArg (List.cons _) (ih (first + 1) (by omega) (fun hnone => ?_) fun old hl => ?_)
      · rw [hlookup] at hnone
        cases hnone
      · obtain rfl := Option.some.inj (hlookup.symm.trans hl)
        omega

/-- After seventy revocations of node 1, the gossip task and the main loop can wait
for each other: the main loop with the fifth table to announce, the gossip task with
the seventieth event. -/
theorem gossip_and_main_deadlock :
    ∃ ms, ((Tasks.boot plainConfig plainStartup (revocations 1 70)).after plainConfig
      ms).Deadlocked := by
  refine Tasks.exists_deadlocked_boot plainConfig plainStartup _ ?_
  rw [show plainConfig.gossip = plainOpenConfig from rfl,
    handleAll_revocations 1 70 (by norm_num) (fun _ => by decide) fun old hl => (by cases hl)]
  rintro ⟨-, -, -, -, hfifth, -⟩
  exact absurd (hfifth rfl (by decide)) (by decide)

end Hextet
