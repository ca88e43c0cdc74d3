/-
# The escape hatch opens

`crates/engine/src/daemon.rs` promises a peer that cannot be reached directly a
registration at the relay, after two laps of its candidates.  Laps are counted by the
rotation of `crates/engine/src/fsm.rs`, which needs a candidate to rotate to.

While nothing answers, ticks a second apart leave a slot after at most 3.5 s, and two
laps of at most eight candidates are sixteen slots: within a minute the count is
there (`registers_of_unanswered`).  A peer without any candidate never rotates, its
count stays at zero and the relay is never asked (`tally_of_empty`).  So the hatch
opens exactly for the peers that have a candidate (`escape_opens_iff`); for a peer
that nobody has an address of it stays shut (`escape_shut`).
-/

import Hextet.Engine.Laps
import Hextet.Engine.Registration
import Mathlib.Tactic.Linarith

namespace Hextet

open Lib

variable {C : Crypto}

/-! ### What every peer keeps -/

/-- A property of the state machine that each of its operations keeps. -/
structure FsmRule (P : PeerFsm → Prop) : Prop where
  kick : ∀ {fsm}, P fsm → ∀ now, P (fsm.kick now).1
  setCandidates : ∀ {fsm}, P fsm → ∀ candidates now, P (fsm.setCandidates candidates now).1
  retryFromImpl : ∀ {fsm}, P fsm → ∀ avoid now flush, P (fsm.retryFromImpl avoid now flush).1
  tick : ∀ {fsm}, P fsm → ∀ now obs, P (fsm.tick now obs).1

namespace FsmRule

variable {P : PeerFsm → Prop} {p : PeerRuntime C}

theorem settle (h : FsmRule P) (hp : P p.fsm) (cache : EndpointCache) (endpoint : SocketAddrV6)
    (clock : Clock) : P (p.settle cache endpoint clock).1.fsm := by
  unfold PeerRuntime.settle
  split_ifs
  · exact h.retryFromImpl (h.setCandidates hp _ _) _ _ _
  · exact h.setCandidates hp _ _

theorem discover (h : FsmRule P) (hp : P p.fsm) (cache : EndpointCache) (source : Source)
    (endpoints : List SocketAddrV6) (clock : Clock) :
    P (p.discover cache source endpoints clock).1.fsm := by
  rcases PeerRuntime.discover_cases p with ⟨link, session, hlink, hsession, hstate⟩ |
    ⟨e, hstate, hdirect⟩ | ⟨i, rounds, hstate⟩
  · rw [PeerRuntime.discover_relayed source endpoints clock hlink hsession hstate]
    exact h.retryFromImpl (h.setCandidates hp _ _) _ _ _
  · rw [PeerRuntime.discover_connected source endpoints clock hstate hdirect]
    exact h.settle (p := p.merged source endpoints) hp _ e clock
  · rw [PeerRuntime.discover_probing source endpoints clock hstate]
    exact h.setCandidates hp _ _

theorem relayRegistered (h : FsmRule P) (hp : P p.fsm) (cache : EndpointCache)
    (session? : Option RelaySession) (now : Instant) (clock : Clock) :
    P (p.relayRegistered cache session? now clock).1.fsm := by
  unfold PeerRuntime.relayRegistered
  split
  · exact hp
  · split
    · exact hp
    · simp only
      split
      · exact hp
      · split
        · split
          · exact h.retryFromImpl (h.setCandidates hp _ _) _ _ _
          · exact h.setCandidates hp _ _
        · exact h.setCandidates hp _ _

theorem driveRelay (h : FsmRule P) (hp : P p.fsm) (cache : EndpointCache) (now : Instant)
    (clock : Clock) : P (p.driveRelay cache now clock).1.fsm := by
  cases hlink : p.relay with
  | none =>
      rw [PeerRuntime.driveRelay_none hlink]
      exact hp
  | some link =>
      rcases PeerRuntime.driveRelay_cases hlink cache now clock with
        heq | ⟨_, _, -, -, -, -, -, heq⟩ | ⟨_, _, -, -, -, heq⟩ | ⟨session, -, -, heq⟩
      · rw [heq]
        exact hp
      · rw [heq]
        exact hp
      · rw [heq]
        exact h.setCandidates hp _ _
      · rw [heq]
        unfold PeerRuntime.driveRelayed
        simp only
        split
        · exact h.retryFromImpl (h.setCandidates hp _ _) _ _ _
        · split
          · exact h.setCandidates hp _ _
          · exact hp

/-- **Every call keeps what the operations keep.** -/
theorem next (h : FsmRule P) (hp : P p.fsm) (e : PeerEvent) : P (p.next e).fsm := by
  cases e with
  | kick cache now clock => exact h.kick hp now
  | discover cache source endpoints clock => exact h.discover hp cache source endpoints clock
  | relay cache session? now clock => exact h.relayRegistered hp cache session? now clock
  | tick cache mgr obs now t =>
      obtain ⟨cache', clock', hnext, -, -⟩ := p.next_tick cache mgr obs now t
      rw [hnext]
      exact h.driveRelay (h.tick hp now obs) cache' t.instant clock'

end FsmRule

/-- Without a candidate no lap is counted. -/
def PeerFsm.Grounded (fsm : PeerFsm) : Prop :=
  fsm.candidates = [] → ∀ i rounds, fsm.state = .probing i rounds → rounds = 0

theorem fsmRule_grounded : FsmRule PeerFsm.Grounded where
  kick h _ := h
  setCandidates {fsm} h candidates now := by
    unfold PeerFsm.setCandidates
    simp only
    split
    · exact h
    · split
      · rename_i ep hstate
        intro _ i rounds hprobing
        cases hstate.symm.trans hprobing
      · split_ifs with hempty
        · rintro - i rounds ⟨⟩
          rfl
        · exact fun hnil => absurd (List.isEmpty_iff.2 hnil) hempty
        · exact fun hnil => absurd (List.isEmpty_iff.2 hnil) hempty
  retryFromImpl {fsm} h avoid now flush := by
    unfold PeerFsm.retryFromImpl
    split
    · exact h
    · simp only
      split
      · exact h
      · rintro - i rounds ⟨⟩
        rfl
  tick {fsm} h now obs := by
    intro hnil i' rounds' hstate'
    rw [fsm.candidates_tick] at hnil
    cases hstate : fsm.state with
    | connected ep =>
        rcases PeerFsm.tickConnected_cases hstate now obs with
          ⟨-, ke, -, -, heq⟩ | ⟨-, heq⟩ | ⟨hstale, -⟩
        · rw [heq] at hstate'
          cases hstate'
        · rw [heq] at hstate'
          cases hstate.symm.trans hstate'
        · simp only [PeerFsm.tick, hstate, PeerFsm.tickConnected, hstale] at hstate'
          cases hstate'
          rfl
    | probing i rounds =>
        rcases PeerFsm.tick_probing hstate now obs with
          ⟨-, ⟨ep, hep⟩ | heq⟩ | ⟨-, heq⟩ | ⟨-, -, hr⟩
        · cases hep.symm.trans hstate'
        · rw [heq] at hstate'
          exact h hnil i' rounds' hstate'
        · rw [heq] at hstate'
          exact h hnil i' rounds' hstate'
        · exact absurd hnil hr.nonempty

/-- An upgrade is open only from a session. -/
def PeerRuntime.UpgradesFromRelay (p : PeerRuntime C) : Prop :=
  ∀ link, p.relay = some link → link.session = none → link.upgradePending = false

theorem PeerRuntime.UpgradesFromRelay.next {p : PeerRuntime C} (h : p.UpgradesFromRelay)
    (e : PeerEvent) : (p.next e).UpgradesFromRelay := by
  intro link' hlink' hnone
  obtain ⟨link, m, n, hlink, -, -, hmove⟩ := linkMove_of_next hlink'
  cases hmove with
  | keep => exact h _ hlink hnone
  | upgrade hsession => exact absurd hnone hsession
  | failed => exact h link hlink hnone
  | answered => cases hnone
  | register => exact h link hlink hnone
  | release => rfl
  | retry renew hup => cases hup.symm.trans (h link hlink hnone)
  | giveUp => rfl

/-- What every peer keeps of its machine and its link. -/
structure PeerRuntime.Orderly (p : PeerRuntime C) : Prop where
  ready : p.fsm.Ready
  grounded : p.fsm.Grounded
  upgrades : p.UpgradesFromRelay

/-- **Every peer in every run is orderly.** -/
theorem orderly_after (cfg : Config C) (u : System.Startup) (is : List Input) :
    ∀ c ∈ (chronicledAfter cfg u is).2, c.peer.Orderly := by
  intro c hc
  have hfresh := fresh_first cfg u is c hc
  refine run_invariant (P := PeerRuntime.Orderly) (fun p e hp => ?_) ⟨?_, ?_, ?_⟩ c.events
  · exact ⟨PeerRuntime.ready_next hp.ready e, fsmRule_grounded.next hp.grounded e,
      hp.upgrades.next e⟩
  · exact ready_of_entering hfresh.toEntering
  · obtain ⟨candidates, now, hfsm⟩ := hfresh.fsm
    rw [hfsm]
    rintro - i rounds ⟨⟩
    rfl
  · exact fun link hlink _ => (hfresh.link link hlink).upgradePending

/-! ### Ticks that nothing answers -/

/-- The pace of the ticks: at most 1 s apart. -/
def tickPace : ℤ := 1000000000

/-- A slot lasts no longer than the interval and one tick more: 3.5 s. -/
def slotLimit : ℤ := 3500000000

/-- The rotations until lap `RELAY_AFTER_ROUNDS` begins, from index `i` of lap `rounds` in a list
of `n` candidates. -/
def rotationsLeft (n i rounds : ℕ) : ℕ := (relayAfterRounds - rounds) * n - i

theorem rotationsLeft_pos {n i rounds : ℕ} (hi : i < n) (hrounds : rounds < relayAfterRounds) :
    0 < rotationsLeft n i rounds := by
  have hcases : rounds = 0 ∨ rounds = 1 := by unfold relayAfterRounds at hrounds; omega
  rcases hcases with rfl | rfl <;> (simp only [rotationsLeft, relayAfterRounds]; omega)

theorem rotationsLeft_le {n : ℕ} (hn : n ≤ 8) (i rounds : ℕ) : rotationsLeft n i rounds ≤ 16 := by
  have hmul : (relayAfterRounds - rounds) * n ≤ 2 * 8 :=
    Nat.mul_le_mul (Nat.sub_le ..) hn
  unfold rotationsLeft
  omega

/-- **A rotation that does not begin the last lap is one less to go.** -/
theorem rotationsLeft_rotated {fsm fsm' : PeerFsm} {now : SystemTime} {i rounds i' rounds' : ℕ}
    (h : fsm.Rotated fsm' now i rounds) (hi : i < fsm.candidates.length)
    (hstate' : fsm'.state = .probing i' rounds') (hrounds' : rounds' < relayAfterRounds) :
    i' < fsm.candidates.length ∧ rotationsLeft fsm.candidates.length i' rounds' + 1 =
      rotationsLeft fsm.candidates.length i rounds := by
  obtain ⟨rfl, rfl⟩ := PunchState.probing.inj (h.state.symm.trans hstate')
  refine ⟨Nat.mod_lt _ (by omega), ?_⟩
  by_cases hlast : i + 1 = fsm.candidates.length
  · rw [hlast, Nat.mod_self, if_pos rfl] at hrounds' ⊢
    have hzero : rounds = 0 := by
      unfold saturatingSucc relayAfterRounds at hrounds'
      omega
    subst hzero
    have hone : saturatingSucc 0 = 1 := rfl
    rw [hone]
    simp only [rotationsLeft, relayAfterRounds]
    omega
  · rw [Nat.mod_eq_of_lt (by omega), if_neg (Nat.succ_ne_zero i)] at hrounds' ⊢
    have hcases : rounds = 0 ∨ rounds = 1 := by unfold relayAfterRounds at hrounds'; omega
    rcases hcases with rfl | rfl <;> (simp only [rotationsLeft, relayAfterRounds]; omega)

/-- A link that registers as soon as the laps are done. -/
structure RelayLink.Idle (link : RelayLink C) : Prop where
  control : link.control ≠ []
  session : link.session = none
  pending : link.pending = false
  upgradePending : link.upgradePending = false

/-- The time of a tick. -/
def PeerEvent.time : PeerEvent → SystemTime
  | .kick _ now _ => now
  | .discover _ _ _ clock => clock 0
  | .relay _ _ _ clock => clock 0
  | .tick _ _ _ now _ => now

/-- A tick that sees no fresh handshake, outside the cooldown of a link. -/
def PeerEvent.Unanswered (link : RelayLink C) : PeerEvent → Prop
  | .tick _ _ obs now t =>
      handshakeIsFresh obs.lastHandshake now = false ∧ link.cooling t.instant = false
  | _ => False

theorem PeerEvent.Unanswered.exists_tick {link : RelayLink C} {e : PeerEvent}
    (h : e.Unanswered link) : ∃ cache mgr obs now t, e = .tick cache mgr obs now t := by
  cases e with
  | kick => exact h.elim
  | discover => exact h.elim
  | relay => exact h.elim
  | tick cache mgr obs now t => exact ⟨cache, mgr, obs, now, t, rfl⟩

namespace PeerRuntime

variable {p : PeerRuntime C} {link : RelayLink C} {i rounds : ℕ}

/-- **What an unanswered tick does**: the machine rotates or waits, and in lap
`RELAY_AFTER_ROUNDS` or later a registration starts, before that nothing. -/
theorem tick_unanswered (hlink : p.relay = some link) (hidle : link.Idle)
    (hstate : p.fsm.state = .probing i rounds) {cache : EndpointCache} {mgr : RouteManager}
    {obs : Observation} {now : SystemTime} {t : PeerTick}
    (he : PeerEvent.Unanswered link (.tick cache mgr obs now t)) :
    ∃ i' rounds', (p.ticked now obs).fsm.state = .probing i' rounds' ∧
      (((p.fsm.candidates = [] ∨ now - p.fsm.lastRotate < rotateInterval) ∧
          p.ticked now obs = p) ∨
        p.fsm.Rotated (p.ticked now obs).fsm now i rounds) ∧
      ((relayAfterRounds ≤ rounds' ∧ 0 < registrations (p.asks (.tick cache mgr obs now t))) ∨
        (rounds' < relayAfterRounds ∧
          registrations (p.asks (.tick cache mgr obs now t)) = 0 ∧
          p.next (.tick cache mgr obs now t) = p.ticked now obs)) := by
  have hmachine : ∃ i' rounds', (p.ticked now obs).fsm.state = .probing i' rounds' ∧
      (((p.fsm.candidates = [] ∨ now - p.fsm.lastRotate < rotateInterval) ∧
          p.ticked now obs = p) ∨
        p.fsm.Rotated (p.ticked now obs).fsm now i rounds) := by
    rcases PeerFsm.tick_probing hstate now obs with ⟨hfresh, -⟩ | ⟨hwait, heq⟩ | ⟨-, -, hr⟩
    · cases he.1.symm.trans hfresh
    · have hsame : p.ticked now obs = p := by rw [ticked, heq]
      exact ⟨i, rounds, by rw [hsame, hstate], Or.inl ⟨hwait, hsame⟩⟩
    · exact ⟨_, _, hr.state, Or.inr hr⟩
  obtain ⟨i', rounds', hstate', hmoved⟩ := hmachine
  refine ⟨i', rounds', hstate', hmoved, ?_⟩
  obtain ⟨cache', clock', hnext, hreg, -⟩ := p.next_tick cache mgr obs now t
  have hdrive : (p.ticked now obs).driveRelay cache' t.instant clock' =
      (p.ticked now obs).driveProbing link rounds' t.instant := by
    rw [driveRelay, show (p.ticked now obs).relay = some link from hlink]
    simp [hidle.control, hstate']
  rw [hreg, hnext, hdrive]
  simp only [driveProbing, hidle.upgradePending, hidle.pending, he.2, hidle.session]
  by_cases hrounds : rounds' < relayAfterRounds
  · exact Or.inr ⟨hrounds, by simp [hrounds], by simp [hrounds]⟩
  · refine Or.inl ⟨not_lt.1 hrounds, ?_⟩
    simp [hrounds, registrations, RelayLink.register, Effect.isRegister]

/-- **A peer without a candidate is never registered** by ticks that nothing answers. -/
theorem tally_of_empty (hlink : p.relay = some link) (hidle : link.Idle)
    (hstate : p.fsm.state = .probing i 0) (hempty : p.fsm.candidates = []) {es : List PeerEvent}
    (hes : ∀ e ∈ es, e.Unanswered link) : p.tally registrations es = 0 := by
  induction es with
  | nil => rfl
  | cons e es ih =>
      rw [List.forall_mem_cons] at hes
      obtain ⟨cache, mgr, obs, now, t, rfl⟩ := hes.1.exists_tick
      obtain ⟨i', rounds', hstate', hmoved, hdone⟩ := tick_unanswered hlink hidle hstate hes.1
      have hsame : p.ticked now obs = p :=
        (hmoved.resolve_right fun hr => hr.nonempty hempty).2
      rw [hsame] at hstate' hdone
      obtain ⟨rfl, rfl⟩ := PunchState.probing.inj (hstate.symm.trans hstate')
      rcases hdone with ⟨hlaps, -⟩ | ⟨-, hreg, hnext⟩
      · exact absurd hlaps (by decide)
      · rw [tally, hreg, hnext, ih hes.2]

/-- **Within a minute the laps are done.**  From a tick at `prev` on, with the slots so far in
their limit since `start`, ticks at the pace that last until a minute after `start` register. -/
theorem tally_pos_of_paced (hlink : p.relay = some link) (hidle : link.Idle)
    (hlen : p.fsm.candidates.length ≤ 8) (hstate : p.fsm.state = .probing i rounds)
    (hi : i < p.fsm.candidates.length) (hrounds : rounds < relayAfterRounds)
    {es : List PeerEvent} (hes : ∀ e ∈ es, e.Unanswered link) {prev start : SystemTime}
    (hpace : (prev :: es.map PeerEvent.time).IsChain fun a b => b ≤ a + tickPace)
    (hprev : prev - p.fsm.lastRotate < rotateInterval)
    (hslots : p.fsm.lastRotate ≤
      start + slotLimit * (16 - (rotationsLeft p.fsm.candidates.length i rounds : ℤ)))
    (hlast : ∀ last ∈ (prev :: es.map PeerEvent.time).getLast?, start + 60000000000 ≤ last) :
    0 < p.tally registrations es := by
  induction es generalizing p prev i rounds with
  | nil =>
      have hleft := rotationsLeft_pos hi hrounds
      have hend : start + 60000000000 ≤ prev := hlast prev rfl
      simp only [rotateInterval, slotLimit] at hprev hslots
      have hone : (1 : ℤ) ≤ rotationsLeft p.fsm.candidates.length i rounds := by
        exact_mod_cast hleft
      linarith
  | cons e es ih =>
      rw [List.forall_mem_cons] at hes
      obtain ⟨cache, mgr, obs, now, t, rfl⟩ := hes.1.exists_tick
      obtain ⟨i', rounds', hstate', hmoved, hdone⟩ := tick_unanswered hlink hidle hstate hes.1
      rw [tally]
      rcases hdone with ⟨-, hreg⟩ | ⟨hrounds', -, hnext⟩
      · exact Nat.add_pos_left hreg _
      rw [List.map_cons, List.isChain_cons_cons] at hpace
      obtain ⟨hgap, hpace⟩ := hpace
      rw [List.map_cons, List.getLast?_cons_cons] at hlast
      refine Nat.add_pos_right _ ?_
      rw [hnext]
      have hcandidates : (p.ticked now obs).fsm.candidates = p.fsm.candidates :=
        p.fsm.candidates_tick now obs
      rcases hmoved with ⟨hwait, hsame⟩ | hr
      · -- the slot goes on
        rw [hsame] at hstate' ⊢
        obtain ⟨rfl, rfl⟩ := PunchState.probing.inj (hstate.symm.trans hstate')
        have hnonempty : p.fsm.candidates ≠ [] := List.ne_nil_of_length_pos (by omega)
        exact ih hlink hlen hstate hi hrounds hes.2 hpace (hwait.resolve_left hnonempty) hslots
          hlast
      · -- the next slot begins, within its limit
        obtain ⟨hi', hleft⟩ := rotationsLeft_rotated hr hi hstate' hrounds'
        have htime : now ≤ prev + tickPace := hgap
        refine ih (by exact hlink) (by rw [hcandidates]; exact hlen) hstate'
          (by rw [hcandidates]; exact hi') hrounds' hes.2 hpace ?_ ?_ hlast
        · rw [hr.lastRotate, PeerEvent.time, sub_self]
          decide
        · rw [hr.lastRotate, hcandidates]
          simp only [rotateInterval, slotLimit, tickPace] at hprev hslots htime ⊢
          have hcast : (rotationsLeft p.fsm.candidates.length i' rounds' : ℤ) + 1 =
              rotationsLeft p.fsm.candidates.length i rounds := by exact_mod_cast hleft
          rw [← hcast] at hslots
          linarith

/-- **Ticks that nothing answers register a peer that has a candidate**, if they come at the
pace, from the last rotation on, and last a minute. -/
theorem registers_of_unanswered (hlink : p.relay = some link) (hidle : link.Idle)
    (hready : p.fsm.Ready) (hlen : p.fsm.candidates.length ≤ 8)
    (hstate : p.fsm.state = .probing i rounds) (hne : p.fsm.candidates ≠ []) {e : PeerEvent}
    {es : List PeerEvent} (hes : ∀ e' ∈ e :: es, e'.Unanswered link)
    (hclock : p.fsm.lastRotate ≤ e.time)
    (hpace : ((e :: es).map PeerEvent.time).IsChain fun a b => b ≤ a + tickPace)
    (hlast : ∀ last ∈ ((e :: es).map PeerEvent.time).getLast?, e.time + 60000000000 ≤ last) :
    0 < p.tally registrations (e :: es) := by
  rw [List.forall_mem_cons] at hes
  obtain ⟨cache, mgr, obs, now, t, rfl⟩ := hes.1.exists_tick
  obtain ⟨i', rounds', hstate', hmoved, hdone⟩ := tick_unanswered hlink hidle hstate hes.1
  rw [tally]
  rcases hdone with ⟨-, hreg⟩ | ⟨hrounds', -, hnext⟩
  · exact Nat.add_pos_left hreg _
  refine Nat.add_pos_right _ ?_
  rw [hnext]
  have hcandidates : (p.ticked now obs).fsm.candidates = p.fsm.candidates :=
    p.fsm.candidates_tick now obs
  have hready' := ready_next hready (.tick cache mgr obs now t)
  rw [hnext] at hready'
  have hi' := hready'.index_lt hstate' (by rw [hcandidates]; exact hne)
  have hlen' : (p.ticked now obs).fsm.candidates.length ≤ 8 := by rw [hcandidates]; exact hlen
  have hrotated : now - (p.ticked now obs).fsm.lastRotate < rotateInterval ∧
      (p.ticked now obs).fsm.lastRotate ≤ now := by
    rcases hmoved with ⟨hwait, hsame⟩ | hr
    · rw [hsame]
      exact ⟨hwait.resolve_left hne, hclock⟩
    · rw [hr.lastRotate, sub_self]
      exact ⟨by decide, le_rfl⟩
  refine tally_pos_of_paced (by exact hlink) hidle hlen' hstate' hi' hrounds' hes.2 hpace
    hrotated.1 ?_ hlast
  have hleft : (rotationsLeft (p.ticked now obs).fsm.candidates.length i' rounds' : ℤ) ≤ 16 := by
    exact_mod_cast rotationsLeft_le hlen' i' rounds'
  have hle := hrotated.2
  simp only [slotLimit, PeerEvent.time]
  linarith

end PeerRuntime

/-! ### A run of ticks -/

/-- What a tick of the daemon reads of the outside, the report of the kernel among it. -/
structure DaemonTick where
  statuses : List PeerStatus
  now : SystemTime
  ts : ℕ → PeerTick

/-- The tick as an input. -/
def DaemonTick.input (tk : DaemonTick) : Input := .tick (some tk.statuses) tk.now tk.ts

/-- The call that a tick makes for the peer at a place of the table. -/
def DaemonTick.Calls (wgPublic : Bytes 32) (k : ℕ) (tk : DaemonTick) (e : PeerEvent) : Prop :=
  ∃ cache mgr, e = .tick cache mgr (observe tk.statuses wgPublic) tk.now (tk.ts k)

theorem getElem?_tickChronicles (statuses : List PeerStatus) (now : SystemTime)
    (cache : EndpointCache) (mgr : RouteManager) (ts : ℕ → PeerTick) {cs : List (Chronicle C)}
    {k : ℕ} {c : Chronicle C} (h : cs[k]? = some c) :
    ∃ cache' mgr', (tickChronicles statuses now cache mgr ts cs)[k]? =
      some (c.add (.tick cache' mgr' (observe statuses c.peer.wgPublic) now (ts k))) := by
  induction cs generalizing cache mgr ts k with
  | nil => cases h
  | cons d cs ih =>
      cases k with
      | zero =>
          obtain rfl := Option.some.inj h
          exact ⟨cache, mgr, rfl⟩
      | succ k => exact ih _ _ _ h

/-- **Ticks of the daemon are ticks of each peer.** -/
theorem getElem?_ticks (cfg : Config C) (ticks : List DaemonTick)
    {x : System C × List (Chronicle C)} {k : ℕ} {c : Chronicle C} (h : x.2[k]? = some c) :
    ∃ es, (run (chronicledStep cfg) x (ticks.map DaemonTick.input)).2[k]? =
        some ⟨c.first, c.events ++ es⟩ ∧
      List.Forall₂ (DaemonTick.Calls c.peer.wgPublic k) ticks es := by
  induction ticks generalizing x c with
  | nil => exact ⟨[], by simpa using h, .nil⟩
  | cons tk ticks ih =>
      obtain ⟨cache, mgr, hc⟩ := getElem?_tickChronicles tk.statuses tk.now x.1.daemon.cache
        x.1.daemon.routes tk.ts h
      obtain ⟨es, hes, hcalls⟩ := ih (x := chronicledStep cfg x tk.input) hc
      have hwg : (c.add (.tick cache mgr (observe tk.statuses c.peer.wgPublic) tk.now
          (tk.ts k))).peer.wgPublic = c.peer.wgPublic := by
        rw [Chronicle.peer_add]
        exact congrArg PeerInfo.wgPublic (PeerRuntime.tick_frame rfl _ _ _ _ _).1
      rw [hwg] at hcalls
      refine ⟨_ :: es, ?_, .cons ⟨cache, mgr, rfl⟩ hcalls⟩
      rw [List.map_cons, run_cons, hes]
      simp [Chronicle.add]

/-- A peer that waits for its laps: a link with a relay to ask, no session, no registration
under way and no cooldown, and a machine that probes a list of at most eight. -/
structure Chronicle.Waits (c : Chronicle C) (link : RelayLink C) (t₀ : Instant) : Prop where
  relay : c.peer.relay = some link
  control : link.control ≠ []
  session : link.session = none
  pending : link.pending = false
  cooling : link.cooling t₀ = false
  probing : c.peer.fsm.state.isProbing = true
  length : c.peer.fsm.candidates.length ≤ 8

/-- A run of ticks with no fresh handshake for the peer at a place of the table: on clocks that
do not go back, at most 1 s apart and lasting a minute. -/
structure Silent (p : PeerRuntime C) (k : ℕ) (t₀ : Instant) (ticks : List DaemonTick) : Prop where
  instants : ∀ tk ∈ ticks, t₀ ≤ (tk.ts k).instant
  clock : (p.fsm.lastRotate :: ticks.map DaemonTick.now).IsChain (· ≤ ·)
  pace : (ticks.map DaemonTick.now).IsChain fun a b => b ≤ a + tickPace
  minute : ∃ first ∈ (ticks.map DaemonTick.now).head?,
    ∃ last ∈ (ticks.map DaemonTick.now).getLast?, first + 60000000000 ≤ last
  unanswered : ∀ tk ∈ ticks,
    handshakeIsFresh (observe tk.statuses p.wgPublic).lastHandshake tk.now = false

/-- A cooldown that is over stays over. -/
theorem RelayLink.cooling_mono {link : RelayLink C} {t₀ t : Instant} (h : link.cooling t₀ = false)
    (ht : t₀ ≤ t) : link.cooling t = false := by
  cases hretry : link.retryAfter with
  | none => simp [cooling, hretry]
  | some r =>
      simp only [cooling, hretry, Option.any_some, decide_eq_false_iff_not, not_lt] at h ⊢
      exact h.trans ht

section

variable {link : RelayLink C} {t₀ : Instant} {wgPublic : Bytes 32} {k : ℕ}
  {ticks : List DaemonTick} {es : List PeerEvent}

theorem unanswered_of_calls (hcooling : link.cooling t₀ = false)
    (hinstants : ∀ tk ∈ ticks, t₀ ≤ (tk.ts k).instant)
    (hunanswered : ∀ tk ∈ ticks,
      handshakeIsFresh (observe tk.statuses wgPublic).lastHandshake tk.now = false)
    (hcalls : List.Forall₂ (DaemonTick.Calls wgPublic k) ticks es) :
    ∀ e ∈ es, e.Unanswered link := by
  induction hcalls with
  | nil => simp
  | cons h _ ih =>
      obtain ⟨cache, mgr, rfl⟩ := h
      rw [List.forall_mem_cons] at hinstants hunanswered
      refine List.forall_mem_cons.2 ⟨⟨hunanswered.1, ?_⟩, ih hinstants.2 hunanswered.2⟩
      exact RelayLink.cooling_mono hcooling hinstants.1

theorem map_time_of_calls (hcalls : List.Forall₂ (DaemonTick.Calls wgPublic k) ticks es) :
    es.map PeerEvent.time = ticks.map DaemonTick.now := by
  induction hcalls with
  | nil => rfl
  | cons h _ ih =>
      obtain ⟨cache, mgr, rfl⟩ := h
      rw [List.map_cons, List.map_cons, ih]
      rfl

end

/-- The calls of a silent run start a registration exactly for a peer with a candidate. -/
theorem Silent.registers_iff {c : Chronicle C} {link : RelayLink C} {t₀ : Instant} {k : ℕ}
    {ticks : List DaemonTick} {es : List PeerEvent} (hs : Silent c.peer k t₀ ticks)
    (hw : c.Waits link t₀) (ho : c.peer.Orderly)
    (hcalls : List.Forall₂ (DaemonTick.Calls c.peer.wgPublic k) ticks es) :
    0 < c.peer.tally registrations es ↔ c.peer.fsm.candidates ≠ [] := by
  have hidle : link.Idle :=
    ⟨hw.control, hw.session, hw.pending, ho.upgrades link hw.relay hw.session⟩
  have hes := unanswered_of_calls hw.cooling hs.instants hs.unanswered hcalls
  cases hstate : c.peer.fsm.state with
  | connected ep =>
      have hp := hw.probing
      rw [hstate] at hp
      cases hp
  | probing i rounds =>
      constructor
      · intro hpos hempty
        obtain rfl := ho.grounded hempty i rounds hstate
        rw [PeerRuntime.tally_of_empty hw.relay hidle hstate hempty hes] at hpos
        exact absurd hpos (lt_irrefl 0)
      · intro hne
        have htimes := map_time_of_calls hcalls
        obtain ⟨first, hfirst, last, hlast, hminute⟩ := hs.minute
        have hclock := hs.clock
        have hpace := hs.pace
        rw [← htimes] at hfirst hlast hclock hpace
        cases es with
        | nil => cases hfirst
        | cons e es =>
            obtain rfl := Option.some.inj hfirst
            rw [List.map_cons, List.isChain_cons_cons] at hclock
            refine PeerRuntime.registers_of_unanswered hw.relay hidle ho.ready hw.length hstate hne
              hes hclock.1 hpace fun last' hlast' => ?_
            obtain rfl := Option.some.inj (hlast.symm.trans hlast')
            exact hminute

/-- What a run of ticks starts for the peer at a place of the table, its calls start. -/
theorem started_ticks (cfg : Config C) (u : System.Startup) (is : List Input)
    (ticks : List DaemonTick) {k : ℕ} {c : Chronicle C}
    (hc : (chronicledAfter cfg u is).2[k]? = some c) :
    ∃ es, List.Forall₂ (DaemonTick.Calls c.peer.wgPublic k) ticks es ∧
      ((∃ c', (chronicledAfter cfg u (is ++ ticks.map DaemonTick.input)).2[k]? = some c' ∧
          c.started < c'.started) ↔ 0 < c.peer.tally registrations es) := by
  obtain ⟨es, hes, hcalls⟩ := getElem?_ticks cfg ticks hc
  rw [← run_append] at hes
  have hstarted : Chronicle.started ⟨c.first, c.events ++ es⟩ =
      c.started + c.peer.tally registrations es := PeerRuntime.tally_append ..
  refine ⟨es, hcalls, ?_, fun hpos => ⟨_, hes, by omega⟩⟩
  rintro ⟨c', hc', hlt⟩
  obtain rfl := Option.some.inj (hes.symm.trans hc')
  omega

/-- **The escape hatch opens exactly for peers that have a candidate.**  In every state of every
run: for a peer that waits for its laps, a minute of ticks that nothing answers starts a
registration if and only if its candidate list is not empty. -/
theorem escape_opens_iff (cfg : Config C) (u : System.Startup) (is : List Input) {k : ℕ}
    {c : Chronicle C} (hc : (chronicledAfter cfg u is).2[k]? = some c) {link : RelayLink C}
    {t₀ : Instant} (hw : c.Waits link t₀) {ticks : List DaemonTick}
    (hs : Silent c.peer k t₀ ticks) :
    (∃ c', (chronicledAfter cfg u (is ++ ticks.map DaemonTick.input)).2[k]? = some c' ∧
        c.started < c'.started) ↔
      c.peer.fsm.candidates ≠ [] := by
  obtain ⟨es, hcalls, hstarted⟩ := started_ticks cfg u is ticks hc
  rw [hstarted]
  exact hs.registers_iff hw (orderly_after cfg u is c (List.mem_of_getElem? hc)) hcalls

namespace System

/-- A tick at a second, as `tickAt`. -/
def silentTick (n : ℕ) : DaemonTick :=
  ⟨[], secs n, fun _ => ⟨secs n, fun _ => secs n, fun _ => true⟩⟩

/-- Ticks from the third second on, for a minute. -/
def silentMinute : List DaemonTick := (List.range 61).map fun n => silentTick (n + 3)

theorem silent_silentMinute {p : PeerRuntime Crypto.plain} (h : p.fsm.lastRotate ≤ 3000000000) :
    Silent p 0 (secs 2) silentMinute where
  instants := by decide
  clock := List.isChain_cons_cons.2 ⟨h, by decide⟩
  pace := by decide
  minute := by decide
  unanswered tk htk := by
    obtain ⟨n, -, rfl⟩ := List.mem_map.1 htk
    rfl

end System

/-- Node 1 is told about at two ports by the DHT, and nothing answers for a minute. -/
theorem escape_opens_two :
    ∃ c c', (chronicledAfter plainRelayConfig plainStartup
        [System.heardAt 1 .dht [7, 8]]).2[0]? = some c ∧
      (chronicledAfter plainRelayConfig plainStartup
        ([System.heardAt 1 .dht [7, 8]] ++ System.silentMinute.map DaemonTick.input)).2[0]? =
          some c' ∧ c.started < c'.started := by
  -- with the types given, the fields are found at the first attempt
  have hreached : ∃ c : Chronicle Crypto.plain, c ∈ (chronicledAfter plainRelayConfig plainStartup
      [System.heardAt 1 .dht [7, 8]]).2[0]? ∧
        ∃ link : RelayLink Crypto.plain, link ∈ c.peer.relay ∧ link.control ≠ [] ∧
        link.session = none ∧ link.pending = false ∧ link.cooling (System.secs 2) = false ∧
        c.peer.fsm.state.isProbing = true ∧ c.peer.fsm.candidates.length ≤ 8 ∧
        c.peer.fsm.candidates ≠ [] ∧ c.peer.fsm.lastRotate ≤ 3000000000 := by
    decide +kernel
  obtain ⟨c, hc, link, hlink, hcontrol, hsession, hpending, hcooling, hprobing, hlength, hne,
    hrotate⟩ := hreached
  obtain ⟨c', hc', hlt⟩ := (escape_opens_iff plainRelayConfig plainStartup _ hc
    ⟨hlink, hcontrol, hsession, hpending, hcooling, hprobing, hlength⟩
    (System.silent_silentMinute hrotate)).2 hne
  exact ⟨c, c', hc, hc', hlt⟩

/-- **A hatch that stays shut**: node 1 has no candidate, and a minute of ticks that nothing
answers starts no registration. -/
theorem escape_shut :
    ∃ c link, (chronicledAfter plainRelayConfig plainStartup []).2[0]? = some c ∧
      c.Waits link (System.secs 2) ∧ Silent c.peer 0 (System.secs 2) System.silentMinute ∧
        ¬∃ c', (chronicledAfter plainRelayConfig plainStartup
            ([] ++ System.silentMinute.map DaemonTick.input)).2[0]? = some c' ∧
          c.started < c'.started := by
  have hreached : ∃ c : Chronicle Crypto.plain,
      c ∈ (chronicledAfter plainRelayConfig plainStartup []).2[0]? ∧
      ∃ link : RelayLink Crypto.plain, link ∈ c.peer.relay ∧ link.control ≠ [] ∧
        link.session = none ∧ link.pending = false ∧ link.cooling (System.secs 2) = false ∧
        c.peer.fsm.state.isProbing = true ∧ c.peer.fsm.candidates = [] ∧
        c.peer.fsm.lastRotate ≤ 3000000000 := by
    decide +kernel
  obtain ⟨c, hc, link, hlink, hcontrol, hsession, hpending, hcooling, hprobing, hempty,
    hrotate⟩ := hreached
  have hw : c.Waits link (System.secs 2) :=
    ⟨hlink, hcontrol, hsession, hpending, hcooling, hprobing, by rw [hempty]; decide⟩
  have hs := System.silent_silentMinute hrotate
  have ho := orderly_after plainRelayConfig plainStartup [] c (List.mem_of_getElem? hc)
  refine ⟨c, link, hc, hw, hs, ?_⟩
  obtain ⟨es, hcalls, hstarted⟩ :=
    started_ticks plainRelayConfig plainStartup [] System.silentMinute hc
  rw [hstarted, hs.registers_iff hw ho hcalls]
  exact fun hne => hne hempty

end Hextet
