/-
# The daemon process

The gossip task and the main loop of `run_async` in
`crates/engine/src/daemon.rs`, connected by the event channel.  The gossip task
turns a datagram into at most one event; the main loop takes events in order,
and between them ticks, discoveries of the other rendezvous layers, relay
results and changes of address.  An input is what happens next, so a list of
inputs is an interleaving and the state after it is `Lib.run`.

The state keeps, besides the two tasks, the device as it is when every backend
call succeeds, the member file on disk and the calls made so far.  `step_cases`
says what one input can do: everything later about runs is read off it.
-/

import Hextet.Engine.Frame
import Hextet.Lib.Run

namespace Hextet

open Lib

variable {C : Crypto}

/-- What `handle_datagram` reads of the configuration. -/
def Config.gossip (cfg : Config C) : GossipConfig C := ⟨cfg.pre, cfg.own, cfg.node.adminKeys⟩

/-- What the handlers read of the configuration. -/
def Config.ctx (cfg : Config C) : Ctx := ⟨cfg.node.keepalive⟩

/-- The two tasks and their surroundings. -/
structure System (C : Crypto) where
  /-- The store of the gossip task. -/
  store : GossipStore C
  /-- The events in flight to the main loop. -/
  queue : List (GossipEvent C)
  /-- The state of the main loop. -/
  daemon : Daemon C
  /-- The WireGuard device. -/
  device : Device
  /-- `members.json`. -/
  disk : MembersFile
  /-- The calls to the backend, oldest first. -/
  log : List WgCall

/-- What happens next. -/
inductive Input where
  | datagram (d : Datagram)
  | gossip (clock : Clock) (saved : Bool)
  | discovered (update : DiscoveredEndpoints) (clock : Clock)
  | relay (done : RelayRegistered) (now : Instant) (clock : Clock)
  | tick (statuses : Option (List PeerStatus)) (now : SystemTime) (ts : ℕ → PeerTick)
  | kick (now : SystemTime) (clocks : ℕ → Clock)

/-- The member file after some effects: the last save that succeeds. -/
def savedBy (disk : MembersFile) (saved : Bool) (effects : List (Effect C)) : MembersFile :=
  if saved then ((effects.filterMap Effect.savedMembers?).getLast?).getD disk else disk

namespace System

/-- Carry out the result of a handler. -/
def perform (s : System C) (r : Daemon C × List (Effect C)) (saved : Bool) : System C :=
  { s with
    daemon := r.1
    device := s.device.calls (wgCalls r.2)
    disk := savedBy s.disk saved r.2
    log := s.log ++ wgCalls r.2 }

/-- One input. -/
def step (cfg : Config C) (s : System C) : Input → System C
  | .datagram d =>
      let (event, store) := handleDatagram cfg.gossip s.store d
      { s with store := store, queue := s.queue ++ event.toList }
  | .gossip clock saved =>
      match s.queue with
      | [] => s
      | event :: rest =>
          { s.perform (s.daemon.onGossip cfg.ctx clock event) saved with queue := rest }
  | .discovered update clock => s.perform (s.daemon.onDiscovered update clock) true
  | .relay done now clock => s.perform (s.daemon.onRelayRegistered done now clock) true
  | .tick statuses now ts =>
      let (daemon, _, effects) := s.daemon.tickOnce statuses now ts
      s.perform (daemon, effects) true
  | .kick now clocks => s.perform (s.daemon.onKick now clocks) true

/-- `run_async` before the first kick: the device is configured and the tables
are loaded.  An unreadable member file counts as empty. -/
def configured (cfg : Config C) (cache : EndpointCache) (disk : MembersFile) (readable : Bool)
    (start : SystemTime) : System C where
  store := .new
  queue := []
  daemon := .startup cfg cache (if readable then disk else .new) start
  device := .applySpecs (buildDeviceSpec cfg)
  disk := disk
  log := []

/-- What `run_async` reads of the outside before its main loop. -/
structure Startup where
  cache : EndpointCache
  disk : MembersFile
  readable : Bool
  start : SystemTime
  now : SystemTime
  clocks : ℕ → Clock

/-- The state at the entry of the main loop. -/
def boot (cfg : Config C) (u : Startup) : System C :=
  let s := configured cfg u.cache u.disk u.readable u.start
  s.perform (s.daemon.onKick u.now u.clocks) true

/-- The member table that a startup loads. -/
def Startup.members (u : Startup) : MembersFile := if u.readable then u.disk else .new

/-- The state after some inputs. -/
abbrev after (cfg : Config C) (s : System C) (is : List Input) : System C := run (step cfg) s is

@[simp] theorem store_boot (cfg : Config C) (u : Startup) : (boot cfg u).store = .new := rfl

@[simp] theorem queue_boot (cfg : Config C) (u : Startup) : (boot cfg u).queue = [] := rfl

theorem members_boot (cfg : Config C) (u : Startup) :
    (boot cfg u).daemon.members = u.members := rfl

theorem step_datagram (cfg : Config C) (s : System C) (d : Datagram) :
    s.step cfg (.datagram d) =
      { s with
        store := (handleDatagram cfg.gossip s.store d).2
        queue := s.queue ++ (handleDatagram cfg.gossip s.store d).1.toList } := rfl

theorem after_singleton (cfg : Config C) (s : System C) (i : Input) :
    after cfg s [i] = s.step cfg i := rfl

theorem daemon_datagram (cfg : Config C) (s : System C) (d : Datagram) :
    (after cfg s [.datagram d]).daemon = s.daemon := rfl

/-! ### What one input can do -/

/-- A quiet handler does not write the member file. -/
theorem savedBy_of_unsaved {effects : List (Effect C)}
    (h : ∀ e ∈ effects, e.savedMembers? = none) (disk : MembersFile) (saved : Bool) :
    savedBy disk saved effects = disk := by
  rw [savedBy, List.filterMap_eq_nil_iff.2 h]
  simp

/-- A step that leaves the identities in the table and the members alone: the
backend calls are those of actions of peers in the table. -/
structure QuietStep (s s' : System C) : Prop where
  store : s'.store = s.store
  infos : s'.daemon.infos = s.daemon.infos
  members : s'.daemon.members = s.daemon.members
  disk : s'.disk = s.disk
  calls : ∃ cs, ActsFor s.daemon.infos cs ∧ s'.log = s.log ++ cs ∧
    s'.device = s.device.calls cs

theorem QuietStep.keys {s s' : System C} (h : s.QuietStep s') :
    s'.daemon.keys = s.daemon.keys := by
  rw [Daemon.keys_eq, Daemon.keys_eq, h.infos]

theorem quietStep_perform (s : System C) {r : Daemon C × List (Effect C)} (h : s.daemon.Quiet r)
    (saved : Bool) : s.QuietStep (s.perform r saved) :=
  ⟨rfl, h.infos, h.members, savedBy_of_unsaved h.isLocal.unsaved _ _, _, h.isLocal.acts, rfl, rfl⟩

/-- The first kick is quiet. -/
theorem quietStep_boot (cfg : Config C) (u : Startup) :
    (configured cfg u.cache u.disk u.readable u.start).QuietStep (boot cfg u) :=
  quietStep_perform _ (Daemon.quiet_onKick _ u.now u.clocks) true

theorem infos_boot (cfg : Config C) (u : Startup) :
    (boot cfg u).daemon.infos = (Daemon.startup cfg u.cache u.members u.start).infos :=
  (quietStep_boot cfg u).infos

theorem keys_boot (cfg : Config C) (u : Startup) :
    (boot cfg u).daemon.keys = (Daemon.startup cfg u.cache u.members u.start).keys :=
  (quietStep_boot cfg u).keys

theorem disk_boot (cfg : Config C) (u : Startup) : (boot cfg u).disk = u.disk :=
  (quietStep_boot cfg u).disk

/-- The first kick acts for peers of the table on the configured device. -/
theorem device_boot (cfg : Config C) (u : Startup) :
    ∃ cs, ActsFor (boot cfg u).daemon.infos cs ∧
      (boot cfg u).device = (Device.applySpecs (buildDeviceSpec cfg)).calls cs := by
  obtain ⟨cs, hacts, -, hdev⟩ := (quietStep_boot cfg u).calls
  exact ⟨cs, (quietStep_boot cfg u).infos ▸ hacts, hdev⟩

/-- The state after an admission was taken from the channel. -/
def admitted (cfg : Config C) (s : System C) (node : NodePublicKey C) (name : String)
    (address : Ipv6Addr) (clock : Clock) (saved : Bool) (rest : List (GossipEvent C)) : System C :=
  { s.perform (s.daemon.onMemberAdmitted cfg.ctx node name address (clock 0)) saved with
    queue := rest }

/-- The state after a revocation was taken from the channel. -/
def revoked (s : System C) (node : NodePublicKey C) (saved : Bool)
    (rest : List (GossipEvent C)) : System C :=
  { s.perform (s.daemon.onRevoked node) saved with queue := rest }

/-- **What one input can do**: a datagram reaches the store and the channel; an
admission or a revocation is taken from the channel; anything else is quiet and
at most takes a discovery from the channel. -/
theorem step_cases (cfg : Config C) (s : System C) (i : Input) :
    (∃ d, i = .datagram d ∧ s.step cfg i =
      { s with
        store := (handleDatagram cfg.gossip s.store d).2
        queue := s.queue ++ (handleDatagram cfg.gossip s.store d).1.toList }) ∨
    (s.QuietStep (s.step cfg i) ∧ ((s.step cfg i).queue = s.queue ∨
      ∃ update, s.queue = .discovered update :: (s.step cfg i).queue)) ∨
    (∃ node name address clock saved rest, i = .gossip clock saved ∧
      s.queue = .memberAdmitted node name address :: rest ∧
        s.step cfg i = s.admitted cfg node name address clock saved rest) ∨
    (∃ node clock saved rest, i = .gossip clock saved ∧ s.queue = .revoked node :: rest ∧
      s.step cfg i = s.revoked node saved rest) := by
  cases i with
  | datagram d => exact Or.inl ⟨d, rfl, rfl⟩
  | discovered update clock =>
      exact Or.inr (Or.inl ⟨s.quietStep_perform (s.daemon.quiet_onDiscovered update clock) true,
        Or.inl rfl⟩)
  | relay done now clock =>
      exact Or.inr (Or.inl ⟨s.quietStep_perform
        (s.daemon.quiet_onRelayRegistered done now clock) true, Or.inl rfl⟩)
  | tick statuses now ts =>
      exact Or.inr (Or.inl ⟨s.quietStep_perform (s.daemon.quiet_tickOnce statuses now ts) true,
        Or.inl rfl⟩)
  | kick now clocks =>
      exact Or.inr (Or.inl ⟨s.quietStep_perform (s.daemon.quiet_onKick now clocks) true,
        Or.inl rfl⟩)
  | gossip clock saved =>
      cases hq : s.queue with
      | nil =>
          have hs : s.step cfg (.gossip clock saved) = s := by simp [step, hq]
          rw [hs]
          exact Or.inr (Or.inl ⟨⟨rfl, rfl, rfl, rfl, [], .nil, by simp, rfl⟩, Or.inl hq⟩)
      | cons event rest =>
          cases event with
          | discovered update =>
              have hs : s.step cfg (.gossip clock saved) =
                  { s.perform (s.daemon.onDiscovered update clock) saved with queue := rest } := by
                simp [step, hq, Daemon.onGossip]
              have h := s.quietStep_perform (s.daemon.quiet_onDiscovered update clock) saved
              rw [hs]
              exact Or.inr (Or.inl ⟨⟨h.store, h.infos, h.members, h.disk, h.calls⟩,
                Or.inr ⟨update, rfl⟩⟩)
          | memberAdmitted node name address =>
              refine Or.inr (Or.inr (Or.inl
                ⟨node, name, address, clock, saved, rest, rfl, rfl, ?_⟩))
              simp [step, hq, Daemon.onGossip, admitted]
          | revoked node =>
              refine Or.inr (Or.inr (Or.inr ⟨node, clock, saved, rest, rfl, rfl, ?_⟩))
              simp [step, hq, Daemon.onGossip, revoked]

end System

end Hextet
