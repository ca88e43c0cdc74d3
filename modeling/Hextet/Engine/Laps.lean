/-
# Two laps before the relay

`crates/engine/src/daemon.rs` registers at the relay when the state machine has
gone round its candidates `RELAY_AFTER_ROUNDS` times, so that every candidate was
tried that often.  The machine counts laps, not attempts: `set_candidates` puts
another list and another index under the same count.

A *slot* is a stretch of time in which one candidate is commanded; beside a run
stand the slots since the machine last entered `Probing` (`slotsStep`).  At index
`i` of lap `r` the count credits the candidates at `1..i` with `r + 1` slots and
the others with `r` (`credit`).  A rotation earns what it credits
(`Covered.tick`), a new list need not: if every replacement of the list of a peer
without a session leaves the credit covered (`Honest`), every candidate has had its
slots before a registration (`slots_before_relay`); else not (`slot_missing`).
-/

import Hextet.Engine.Aim
import Hextet.Engine.Link

namespace Hextet

open Lib

variable {C : Crypto}

/-- The call is a tick. -/
def PeerEvent.isTick : PeerEvent → Bool
  | .tick .. => true
  | _ => false

/-! ### Slots -/

/-- The slots after a step of the machine: `Probing` that is entered starts with the current
candidate, and a slot that is begun adds it. -/
def slotsAfter (before after : PeerFsm) (begun : Bool) (slots : List SocketAddrV6) :
    List SocketAddrV6 :=
  match before.state, after.state with
  | _, .connected _ => []
  | .connected _, .probing .. => after.currentCandidate.toList
  | .probing .., .probing .. => if begun then slots ++ after.currentCandidate.toList else slots

/-- A change of the current candidate begins a slot. -/
def repointed (before after : PeerFsm) : Bool :=
  decide (after.currentCandidate ≠ before.currentCandidate)

/-- A peer with its slots, one call.  A tick rotates first, which begins a slot even if
there is only one candidate, and is driven afterwards. -/
def slotsStep (x : PeerRuntime C × List SocketAddrV6) (e : PeerEvent) :
    PeerRuntime C × List SocketAddrV6 :=
  match e with
  | .tick _ _ obs now _ =>
      let (fsm, actions) := x.1.fsm.tick now obs
      (x.1.next e, slotsAfter fsm (x.1.next e).fsm false
        (slotsAfter x.1.fsm fsm (!actions.isEmpty) x.2))
  | e =>
      (x.1.next e,
        slotsAfter x.1.fsm (x.1.next e).fsm (repointed x.1.fsm (x.1.next e).fsm) x.2)

/-- A peer that enters, with its first slot. -/
def slotsStart (p : PeerRuntime C) : PeerRuntime C × List SocketAddrV6 :=
  (p, p.fsm.currentCandidate.toList)

theorem fst_slotsStep (x : PeerRuntime C × List SocketAddrV6) (e : PeerEvent) :
    (slotsStep x e).1 = x.1.next e := by
  cases e <;> rfl

theorem fst_slots_run (x : PeerRuntime C × List SocketAddrV6) (es : List PeerEvent) :
    (run slotsStep x es).1 = x.1.after es := by
  induction es generalizing x with
  | nil => rfl
  | cons e es ih => rw [run_cons, ih, fst_slotsStep]; rfl

/-! ### Credit -/

/-- The slots that index `i` of lap `rounds` credits the candidate at `j` with, as far as
they matter. -/
def credit (i rounds j : ℕ) : ℕ :=
  min (if 0 < j ∧ j ≤ i then rounds + 1 else rounds) relayAfterRounds

/-- The slots cover what the state credits. -/
def PunchState.Credited (candidates slots : List SocketAddrV6) : PunchState → Prop
  | .connected _ => True
  | .probing i rounds => ∀ j < candidates.length, ∀ ep ∈ candidates[j]?,
      credit i rounds j ≤ slots.count ep

instance (candidates slots : List SocketAddrV6) :
    (s : PunchState) → Decidable (s.Credited candidates slots)
  | .connected _ => .isTrue trivial
  | .probing _ _ => inferInstanceAs (Decidable (∀ j < _, ∀ ep ∈ _, _ ≤ _))

namespace PeerFsm

variable {fsm : PeerFsm} {slots : List SocketAddrV6}

/-- The slots cover what the machine credits. -/
def Covered (fsm : PeerFsm) (slots : List SocketAddrV6) : Prop :=
  fsm.state.Credited fsm.candidates slots

instance (fsm : PeerFsm) (slots : List SocketAddrV6) : Decidable (fsm.Covered slots) :=
  inferInstanceAs (Decidable (fsm.state.Credited fsm.candidates slots))

theorem covered_connected {ep : SocketAddrV6} (h : fsm.state = .connected ep) :
    fsm.Covered slots := by
  rw [Covered, h]
  trivial

theorem covered_probing {i rounds : ℕ} (h : fsm.state = .probing i rounds) :
    fsm.Covered slots ↔
      ∀ j ep, fsm.candidates[j]? = some ep → credit i rounds j ≤ slots.count ep := by
  rw [Covered, h]
  refine ⟨fun hall j ep hep => hall j (List.getElem?_eq_some_iff.1 hep).1 ep hep, ?_⟩
  exact fun hall j _ ep hep => hall j ep hep

/-- Lap 0 at the first candidate credits nothing. -/
theorem covered_start (h : fsm.state = .probing 0 0) : fsm.Covered slots := by
  rw [covered_probing h]
  intro j ep _
  have hzero : ¬(0 < j ∧ j ≤ 0) := by omega
  rw [credit, if_neg hzero]
  exact Nat.zero_le _

/-- Nothing is begun: the slots stay as long as the machine probes. -/
theorem slotsAfter_probing {before after : PeerFsm} (hb : before.state.isProbing = true)
    (ha : after.state.isProbing = true) (begun : Bool) (slots : List SocketAddrV6) :
    slotsAfter before after begun slots =
      if begun then slots ++ after.currentCandidate.toList else slots := by
  unfold slotsAfter
  cases hbs : before.state with
  | connected => rw [hbs] at hb; cases hb
  | probing =>
      cases has : after.state with
      | connected => rw [has] at ha; cases ha
      | probing => rfl

/-- A machine that is left as it is stays covered. -/
theorem Covered.self (h : fsm.Covered slots) : fsm.Covered (slotsAfter fsm fsm false slots) := by
  cases hstate : fsm.state with
  | connected ep => exact covered_connected hstate
  | probing i rounds =>
      have hp : fsm.state.isProbing = true := by rw [hstate]; rfl
      rw [slotsAfter_probing hp hp]
      exact h

/-- The machine has moved on to the next candidate; the first one starts another lap. -/
structure Rotated (fsm fsm' : PeerFsm) (now : SystemTime) (i rounds : ℕ) : Prop where
  nonempty : fsm.candidates ≠ []
  candidates : fsm'.candidates = fsm.candidates
  lastRotate : fsm'.lastRotate = now
  state : fsm'.state = .probing ((i + 1) % fsm.candidates.length)
    (if (i + 1) % fsm.candidates.length = 0 then saturatingSucc rounds else rounds)

/-- **What a tick does to a machine that probes**: it connects, or it rotates when the
interval is over and there are candidates, or nothing. -/
theorem tick_probing {i rounds : ℕ} (h : fsm.state = .probing i rounds) (now : SystemTime)
    (obs : Observation) :
    (handshakeIsFresh obs.lastHandshake now = true ∧
      ((∃ ep, (fsm.tick now obs).1.state = .connected ep) ∨ fsm.tick now obs = (fsm, []))) ∨
    ((fsm.candidates = [] ∨ now - fsm.lastRotate < rotateInterval) ∧
      fsm.tick now obs = (fsm, [])) ∨
    (rotateInterval ≤ now - fsm.lastRotate ∧ (fsm.tick now obs).2 ≠ [] ∧
      Rotated fsm (fsm.tick now obs).1 now i rounds) := by
  have htick : fsm.tick now obs = fsm.tickProbing now obs i rounds := by rw [tick, h]
  rw [htick, tickProbing]
  by_cases hyes : handshakeIsFresh obs.lastHandshake now = true ∧
      (obs.lastHandshake.any (fun t => fsm.lastTransition ≤ t) = true ∨
        fsm.candidates.length = 1)
  · rw [if_pos hyes]
    refine Or.inl ⟨hyes.1, ?_⟩
    cases (obs.kernelEndpoint.map normalize).or fsm.candidates[i]? with
    | none => exact Or.inr rfl
    | some ep => exact Or.inl ⟨ep, rfl⟩
  rw [if_neg hyes]
  by_cases hempty : fsm.candidates.isEmpty = true
  · rw [if_pos hempty]
    exact Or.inr (Or.inl ⟨Or.inl (List.isEmpty_iff.1 hempty), rfl⟩)
  rw [if_neg hempty]
  by_cases hearly : now - fsm.lastRotate < rotateInterval
  · rw [if_pos hearly]
    exact Or.inr (Or.inl ⟨Or.inr hearly, rfl⟩)
  rw [if_neg hearly]
  have hne : fsm.candidates ≠ [] := fun hnil => hempty (List.isEmpty_iff.2 hnil)
  have hlt := Nat.mod_lt (i + 1) (List.length_pos_iff.2 hne)
  refine Or.inr (Or.inr ⟨not_lt.1 hearly, ?_⟩)
  by_cases hmoved : (i + 1) % fsm.candidates.length ≠ i
  · simp only [if_pos hmoved]
    refine ⟨?_, hne, rfl, rfl, rfl⟩
    rw [point_of_getElem? (List.getElem?_eq_getElem hlt)]
    simp
  · simp only [if_neg hmoved]
    exact ⟨by simp, hne, rfl, rfl, rfl⟩

/-- **A rotation earns what it credits**: the slot of the candidate it moves to. -/
theorem Covered.rotated {i rounds : ℕ} {now : SystemTime} {fsm' : PeerFsm} (h : fsm.Covered slots)
    (hstate : fsm.state = .probing i rounds) (hi : i < fsm.candidates.length)
    (hr : Rotated fsm fsm' now i rounds) :
    fsm'.Covered (slots ++ fsm'.currentCandidate.toList) := by
  obtain ⟨-, hcandidates, -, hstate'⟩ := hr
  obtain ⟨next, hnext⟩ : ∃ next, next = (i + 1) % fsm.candidates.length := ⟨_, rfl⟩
  rw [← hnext] at hstate'
  rw [covered_probing hstate] at h
  rw [covered_probing hstate', hcandidates]
  intro j ep hep
  have hj : j < fsm.candidates.length := (List.getElem?_eq_some_iff.1 hep).1
  have hold := h j ep hep
  have hcur : fsm'.currentCandidate = fsm.candidates[next]? := by
    rw [currentCandidate, hstate', hcandidates]
  rw [List.count_append, hcur]
  have hnew : j = next → (fsm.candidates[next]?.toList).count ep = 1 := by
    rintro rfl
    simp [hep]
  have hsat : saturatingSucc rounds ≤ rounds + 1 := min_le_left ..
  have hrounds : relayAfterRounds = 2 := rfl
  unfold credit at hold ⊢
  by_cases hlast : i + 1 = fsm.candidates.length
  · have hzero : next = 0 := by rw [hnext, hlast, Nat.mod_self]
    by_cases hj0 : j = next
    · have hone := hnew hj0
      have hnot : ¬(0 < j ∧ j ≤ i) := by omega
      have hnot' : ¬(0 < j ∧ j ≤ next) := by omega
      rw [if_neg hnot] at hold
      rw [if_neg hnot', if_pos hzero, hone]
      omega
    · have hyes : 0 < j ∧ j ≤ i := by omega
      have hnot' : ¬(0 < j ∧ j ≤ next) := by omega
      rw [if_pos hyes] at hold
      rw [if_neg hnot', if_pos hzero]
      omega
  · have hsucc : next = i + 1 := by rw [hnext, Nat.mod_eq_of_lt (by omega)]
    have hne : next ≠ 0 := by omega
    rw [if_neg hne]
    by_cases hjn : j = next
    · have hone := hnew hjn
      have hnot : ¬(0 < j ∧ j ≤ i) := by omega
      have hyes : 0 < j ∧ j ≤ next := by omega
      rw [if_neg hnot] at hold
      rw [if_pos hyes, hone]
      omega
    · have hsame : (0 < j ∧ j ≤ next) ↔ (0 < j ∧ j ≤ i) := by omega
      simp only [hsame]
      omega

theorem Ready.index_lt {i rounds : ℕ} (h : fsm.Ready) (hstate : fsm.state = .probing i rounds)
    (hne : fsm.candidates ≠ []) : i < fsm.candidates.length := by
  have hsome := h (by rw [hstate]; rfl) hne
  rw [currentCandidate, hstate] at hsome
  obtain ⟨ep, hep⟩ := Option.isSome_iff_exists.1 hsome
  exact (List.getElem?_eq_some_iff.1 hep).1

/-- **A tick of the machine keeps the credit covered.** -/
theorem Covered.tick (h : fsm.Covered slots) (hready : fsm.Ready) (now : SystemTime)
    (obs : Observation) : (fsm.tick now obs).1.Covered
      (slotsAfter fsm (fsm.tick now obs).1 (!(fsm.tick now obs).2.isEmpty) slots) := by
  cases hstate : fsm.state with
  | connected ep =>
      rcases tickConnected_cases hstate now obs with ⟨-, ke, -, -, heq⟩ | ⟨-, heq⟩ | ⟨hstale, -⟩
      · rw [heq]
        exact covered_connected rfl
      · rw [heq]
        exact covered_connected hstate
      · have htick : (fsm.tick now obs).1.state = .probing 0 0 := by
          simp [PeerFsm.tick, hstate, tickConnected, hstale]
        exact covered_start htick
  | probing i rounds =>
      rcases tick_probing hstate now obs with ⟨-, ⟨ep, hep⟩ | heq⟩ | ⟨-, heq⟩ | ⟨-, hacts, hr⟩
      · exact covered_connected hep
      · rw [heq]
        exact h.self
      · rw [heq]
        exact h.self
      · rw [slotsAfter_probing (by rw [hstate]; rfl) (by rw [hr.state]; rfl)]
        have hbegun : (!(fsm.tick now obs).2.isEmpty) = true := by simpa using hacts
        rw [if_pos hbegun]
        exact h.rotated hstate (hready.index_lt hstate hr.nonempty) hr

/-- A retry with a list of distinct candidates starts at the first or at the second. -/
theorem findIdx?_ne_le_one {l : List SocketAddrV6} (hl : l.Nodup) {avoid : Option SocketAddrV6}
    {index : ℕ} (h : l.findIdx? (fun c => some c ≠ avoid) = some index) : index ≤ 1 := by
  by_contra hlt
  obtain ⟨hbound, -, hbefore⟩ := List.findIdx?_eq_some_iff_getElem.1 h
  have h0 := hbefore 0 (by omega)
  have h1 := hbefore 1 (by omega)
  simp only [ne_eq, decide_not, Bool.not_eq_true', decide_eq_false_iff_not, not_not] at h0 h1
  have heq : l[0] = l[1] := Option.some.inj (h0.trans h1.symm)
  exact absurd ((hl.getElem_inj_iff).1 heq) (by omega)

/-- **Leaving a connection for a list of distinct candidates is covered** by the slot that it
begins. -/
theorem covered_retryFromImpl {ep : SocketAddrV6} (hstate : fsm.state = .connected ep)
    (hnodup : fsm.candidates.Nodup) (avoid : Option SocketAddrV6) (now : SystemTime) (flush : Bool)
    {before : PeerFsm} (hbefore : before.state = .connected ep) (begun : Bool) :
    (fsm.retryFromImpl avoid now flush).1.Covered
      (slotsAfter before (fsm.retryFromImpl avoid now flush).1 begun slots) := by
  simp only [retryFromImpl, hstate]
  cases hfind : fsm.candidates.findIdx? (fun c => some c ≠ avoid.map normalize) with
  | none => exact covered_connected hstate
  | some index =>
      have hle := findIdx?_ne_le_one hnodup hfind
      have hstate' : (⟨fsm.candidates, .probing index 0, now, now⟩ : PeerFsm).state =
        .probing index 0 := rfl
      simp only
      rw [covered_probing hstate']
      intro j c hc
      simp only [slotsAfter, hbefore, currentCandidate]
      rw [credit]
      split_ifs with hj
      · -- the one that is credited is the one that is commanded
        obtain rfl : j = index := by omega
        rw [hc]
        simp [relayAfterRounds]
      · exact Nat.zero_le _

end PeerFsm

/-! ### One peer -/

namespace PeerRuntime

variable {p : PeerRuntime C} {slots : List SocketAddrV6}

/-- **Every call keeps the index inside the list.** -/
theorem ready_next (h : p.fsm.Ready) (e : PeerEvent) : (p.next e).fsm.Ready := by
  -- a machine that is ready is aimed at its own current candidate
  have haimed : p.fsm.Aimed p.fsm.currentCandidate := by
    intro hp hne
    obtain ⟨ep, hep⟩ := Option.isSome_iff_exists.1 (h hp hne)
    exact ⟨ep, hep, hep⟩
  cases e with
  | kick cache now clock => exact (keeps_kick h cache now clock none).ready
  | discover cache source endpoints clock =>
      exact (keeps_discover haimed cache source endpoints clock).ready
  | relay cache session? now clock =>
      exact (keeps_relayRegistered haimed cache session? now clock).ready
  | tick cache mgr obs now t => exact (aimed_tick haimed cache mgr obs now t).ready

/-- A peer without a session has earned what its machine credits. -/
def Tried (x : PeerRuntime C × List SocketAddrV6) : Prop :=
  x.1.sessionEndpoint = none → x.1.fsm.Covered x.2

end PeerRuntime

/-- A discovery that replaces the list of a peer which is probed without a session leaves the
credit covered. -/
def Honest (x : PeerRuntime C × List SocketAddrV6) : PeerEvent → Prop
  | .discover cache source endpoints clock =>
      let fsm := ((x.1.merged source endpoints).refreshed cache (clock 0)).1
      x.1.sessionEndpoint = none → x.1.fsm.state.isProbing = true →
        fsm.Covered (slotsAfter x.1.fsm fsm (repointed x.1.fsm fsm) x.2)
  | _ => True

instance (x : PeerRuntime C × List SocketAddrV6) : (e : PeerEvent) → Decidable (Honest x e)
  | .kick _ _ _ => .isTrue trivial
  | .discover _ _ _ _ => inferInstanceAs (Decidable (_ → _ → PeerFsm.Covered _ _))
  | .relay _ _ _ _ => .isTrue trivial
  | .tick _ _ _ _ _ => .isTrue trivial

namespace PeerRuntime

variable {p : PeerRuntime C} {slots : List SocketAddrV6}

/-- Leaving a connection, or staying on it, with a new list. -/
theorem covered_settle {ep : SocketAddrV6} (hstate : p.fsm.state = .connected ep)
    (cache : EndpointCache) (clock : Clock) {before : PeerFsm}
    (hbefore : before.state = .connected ep) (begun : Bool) :
    (p.settle cache ep clock).1.fsm.Covered
      (slotsAfter before (p.settle cache ep clock).1.fsm begun slots) := by
  unfold settle
  split_ifs
  · simp only [leave]
    rw [refreshed_connected hstate]
    exact PeerFsm.covered_retryFromImpl (by exact hstate) (nodup_dedupNormalized _) _ _ _ hbefore _
  · simp only [refresh]
    rw [refreshed_connected hstate]
    exact PeerFsm.covered_connected hstate

/-- **`on_discovered` keeps a peer tried** if it is honest. -/
theorem tried_discover {cache : EndpointCache} {source : Source}
    {endpoints : List SocketAddrV6} {clock : Clock}
    (he : Honest (p, slots) (.discover cache source endpoints clock)) :
    Tried (slotsStep (p, slots) (.discover cache source endpoints clock)) := by
  intro hnone
  simp only [slotsStep, next] at hnone ⊢
  rcases discover_cases p with ⟨link, session, hlink, hsession, hstate⟩ | ⟨ep, hstate, hdirect⟩ |
    ⟨i, rounds, hstate⟩
  · have hmild := mild_discover_relayed hlink hsession hstate cache source endpoints clock
    rw [sessionEndpoint, hmild.relay] at hnone
    simp [hsession] at hnone
  · rw [discover_connected source endpoints clock hstate hdirect]
    exact covered_settle (by exact hstate) _ clock hstate _
  · rw [discover_probing source endpoints clock hstate] at hnone ⊢
    exact he hnone (by rw [hstate]; rfl)

/-- A call that leaves the machine and the session keeps a peer tried. -/
theorem Tried.of_eq {q : PeerRuntime C} (h : Tried (p, slots)) (hfsm : q.fsm = p.fsm)
    (hsession : q.sessionEndpoint = none → p.sessionEndpoint = none) :
    Tried (q, slotsAfter p.fsm q.fsm (repointed p.fsm q.fsm) slots) := by
  intro hnone
  have hsame : repointed p.fsm p.fsm = false := by simp [repointed]
  simp only
  rw [hfsm, hsame]
  exact (h (hsession hnone)).self

/-- **The result of a registration keeps a peer tried**: a session ends the trial. -/
theorem tried_relay (h : Tried (p, slots)) (cache : EndpointCache)
    (session? : Option RelaySession) (now : Instant) (clock : Clock) :
    Tried (slotsStep (p, slots) (.relay cache session? now clock)) := by
  cases hlink : p.relay with
  | none =>
      have hnext : p.next (.relay cache session? now clock) = p := by
        simp only [next, relayRegistered, hlink]
      exact h.of_eq (congrArg PeerRuntime.fsm hnext) fun hnone => by rwa [hnext] at hnone
  | some link =>
      cases session? with
      | none =>
          refine h.of_eq ?_ fun hnone => ?_
          · simp only [next, relayRegistered, hlink]
          · simpa [next, relayRegistered, hlink, sessionEndpoint] using hnone
      | some session =>
          intro hnone
          have hmild := mild_relayRegistered_some hlink cache session now clock
          simp only [slotsStep, next] at hnone
          rw [sessionEndpoint, hmild.relay] at hnone
          cases hnone

/-- **A tick keeps a peer tried.** -/
theorem tried_tick (h : Tried (p, slots)) (hready : p.fsm.Ready) (cache : EndpointCache)
    (mgr : RouteManager) (obs : Observation) (now : SystemTime) (t : PeerTick) :
    Tried (slotsStep (p, slots) (.tick cache mgr obs now t)) := by
  intro hnone
  obtain ⟨cache', clock', hnext, -, -⟩ := p.next_tick cache mgr obs now t
  simp only [slotsStep] at hnone ⊢
  rw [hnext] at hnone ⊢
  -- without a session before, the machine's own tick is covered
  have hticked : p.sessionEndpoint = none → (p.fsm.tick now obs).1.Covered
      (slotsAfter p.fsm (p.fsm.tick now obs).1 (!(p.fsm.tick now obs).2.isEmpty) slots) :=
    fun hbefore => PeerFsm.Covered.tick (h hbefore) hready now obs
  cases hlink : p.relay with
  | none =>
      rw [driveRelay_none (by exact hlink)]
      exact (hticked (by rw [sessionEndpoint, hlink]; rfl)).self
  | some link =>
      rcases driveRelay_cases (p := p.ticked now obs) hlink cache' t.instant clock' with
        heq | ⟨i, rounds, -, -, -, -, -, heq⟩ | ⟨ep, session, hstate, -, -, heq⟩ |
        ⟨session, -, hsession, heq⟩
      · rw [heq] at hnone ⊢
        exact (hticked hnone).self
      · rw [heq] at hnone ⊢
        refine (hticked ?_).self
        simpa [sessionEndpoint, hlink] using hnone
      · rw [heq]
        have hconnected : (({ p.ticked now obs with relay := some link.released }.refreshed cache'
            (clock' 0)).1).state = .connected ep := by
          rw [refreshed_connected (by exact hstate)]
          exact hstate
        exact PeerFsm.covered_connected hconnected
      · exfalso
        rw [heq] at hnone
        obtain ⟨renew, -, -, -, hmove⟩ :=
          (p.ticked now obs).driveRelayed_cases link session cache' t.instant clock'
        rcases hmove with ⟨-, -, hrelay, -⟩ | ⟨-, hrelay | hrelay⟩
        all_goals
          rw [sessionEndpoint, hrelay] at hnone
          simp [hsession] at hnone

/-- **Every honest call keeps a peer tried.** -/
theorem Tried.step {x : PeerRuntime C × List SocketAddrV6} (h : Tried x) (hready : x.1.fsm.Ready)
    {e : PeerEvent} (he : Honest x e) : Tried (slotsStep x e) := by
  obtain ⟨p, slots⟩ := x
  cases e with
  | kick cache now clock =>
      intro hnone
      have hsame : repointed p.fsm p.fsm = false := by simp [repointed]
      have hcovered := (h hnone).self
      rw [← hsame] at hcovered
      exact hcovered
  | discover cache source endpoints clock => exact tried_discover he
  | relay cache session? now clock => exact tried_relay h cache session? now clock
  | tick cache mgr obs now t => exact tried_tick h hready cache mgr obs now t

/-- **Every run of honest calls from a peer that enters leaves it tried.** -/
theorem tried_run (h : p.Fresh) {es : List PeerEvent}
    (hes : Along slotsStep Honest (slotsStart p) es) : Tried (run slotsStep (slotsStart p) es) := by
  have hstart : Tried (slotsStart p) := by
    intro _
    obtain ⟨candidates, now, hfsm⟩ := h.fsm
    exact PeerFsm.covered_start (by rw [slotsStart, hfsm]; rfl)
  have hinvariant := Along.invariant (P := fun x : PeerRuntime C × List SocketAddrV6 =>
    Tried x ∧ x.1.fsm.Ready) (fun x e hx he => ⟨hx.1.step hx.2 he, by
      rw [fst_slotsStep]
      exact ready_next hx.2 e⟩) ⟨hstart, ready_of_entering h.toEntering⟩ hes
  exact hinvariant.1

/-- **A registration without a session is made in lap `RELAY_AFTER_ROUNDS` or later.** -/
theorem rounds_of_registers {cache : EndpointCache} {mgr : RouteManager} {obs : Observation}
    {now : SystemTime} {t : PeerTick} (hnone : p.sessionEndpoint = none)
    (hreg : 0 < registrations (p.asks (.tick cache mgr obs now t))) :
    (p.next (.tick cache mgr obs now t)).sessionEndpoint = none ∧ ∃ i rounds,
      (p.next (.tick cache mgr obs now t)).fsm.state = .probing i rounds ∧
        relayAfterRounds ≤ rounds := by
  obtain ⟨cache', clock', hnext, hcount, -⟩ := p.next_tick cache mgr obs now t
  rw [hcount] at hreg
  rw [hnext]
  cases hlink : p.relay with
  | none =>
      rw [driveRelay_none (by exact hlink)] at hreg
      cases hreg
  | some link =>
      have hsession : link.session = none := by simpa [sessionEndpoint, hlink] using hnone
      rcases driveRelay_cases (p := p.ticked now obs) hlink cache' t.instant clock' with
        heq | ⟨i, rounds, hstate, -, -, -, hrounds, heq⟩ | ⟨ep, session, -, hsome, -, -⟩ |
        ⟨session, -, hsome, -⟩
      · rw [heq] at hreg
        cases hreg
      · rw [heq]
        exact ⟨by simp [sessionEndpoint, hsession], i, rounds, hstate, hrounds hsession⟩
      · cases hsession.symm.trans hsome
      · cases hsession.symm.trans hsome

end PeerRuntime

/-- From lap `RELAY_AFTER_ROUNDS` on every candidate is credited with that many slots. -/
theorem credit_of_le {i rounds : ℕ} (h : relayAfterRounds ≤ rounds) (j : ℕ) :
    credit i rounds j = relayAfterRounds := by
  rw [credit]
  split_ifs
  · exact min_eq_right (h.trans (Nat.le_succ _))
  · exact min_eq_right h

/-- **Direct candidates get their slots before the relay is used**, for every peer in every
run all of whose discoveries were honest: when a tick starts a registration while the link
has no session, every candidate in the list has been commanded in at least
`RELAY_AFTER_ROUNDS` slots since `Probing` was entered. -/
theorem slots_before_relay (cfg : Config C) (u : System.Startup) (is : List Input) :
    let x := chronicledAfter cfg u is
    x.1 = System.after cfg (System.boot cfg u) is ∧ x.1.daemon.peers = x.2.map Chronicle.peer ∧
      ∀ c ∈ x.2, Along slotsStep Honest (slotsStart c.first) c.events →
        ∀ before cache mgr obs now t rest,
          c.events = before ++ .tick cache mgr obs now t :: rest →
          (c.first.after before).sessionEndpoint = none →
          0 < registrations ((c.first.after before).asks (.tick cache mgr obs now t)) →
          let y := run slotsStep (slotsStart c.first) (before ++ [.tick cache mgr obs now t])
          ∀ ep ∈ y.1.fsm.candidates, relayAfterRounds ≤ y.2.count ep := by
  obtain ⟨hsystem, htable⟩ := chronicled cfg u is
  refine ⟨hsystem, htable, ?_⟩
  intro c hc hhonest before cache mgr obs now t rest hevents hnone hreg
  simp only
  have hsplit : c.events = (before ++ [.tick cache mgr obs now t]) ++ rest := by
    rw [hevents, List.append_assoc]
    rfl
  rw [hsplit, Along.append] at hhonest
  have htried := PeerRuntime.tried_run (fresh_first cfg u is c hc) hhonest.1
  obtain ⟨hsession, i, rounds, hstate, hrounds⟩ := PeerRuntime.rounds_of_registers hnone hreg
  have hpeer : (run slotsStep (slotsStart c.first) (before ++ [.tick cache mgr obs now t])).1 =
      (c.first.after before).next (.tick cache mgr obs now t) := by
    rw [fst_slots_run, slotsStart, PeerRuntime.after, run_append]
    rfl
  rw [← hpeer] at hsession hstate
  intro ep hep
  obtain ⟨j, hj⟩ := List.mem_iff_getElem?.1 hep
  have hcovered := (PeerFsm.covered_probing hstate).1 (htried hsession) j ep hj
  rwa [credit_of_le hrounds] at hcovered

namespace System

/-- Node 1 is told about at two ports by the DHT; in its second lap a third port is added,
and the third candidate is in its first slot when that lap ends. -/
def thirdPort : List Input :=
  [heardAt 1 .dht [7, 8], tickAt 4 [], tickAt 7 [], heardAt 8 .dht [7, 8, 9], tickAt 11 []]

end System

/-- Without the third port both candidates have had their slots. -/
theorem slots_before_relay_two :
    let x := chronicledAfter plainRelayConfig plainStartup
      [System.heardAt 1 .dht [7, 8], System.tickAt 4 [], System.tickAt 7 [], System.tickAt 10 [],
        System.tickAt 13 []]
    ∃ c ∈ x.2, ∃ e ∈ c.events.getLast?,
      0 < registrations ((c.first.after c.events.dropLast).asks e) ∧
        ∀ ep ∈ (run slotsStep (slotsStart c.first) c.events).1.fsm.candidates,
          relayAfterRounds ≤ (run slotsStep (slotsStart c.first) c.events).2.count ep := by
  intro x
  have hreached : ∃ c ∈ x.2, Along slotsStep Honest (slotsStart c.first) c.events ∧
      ∃ e ∈ c.events.getLast?, e.isTick = true ∧
        (c.first.after c.events.dropLast).sessionEndpoint = none ∧
          0 < registrations ((c.first.after c.events.dropLast).asks e) := by
    decide +kernel
  obtain ⟨c, hc, hhonest, e, he, htick, hnone, hreg⟩ := hreached
  have hevents : c.events.dropLast ++ [e] = c.events := List.dropLast_append_getLast? e he
  refine ⟨c, hc, e, he, hreg, ?_⟩
  cases e with
  | tick cache mgr obs now t =>
      have h := (slots_before_relay plainRelayConfig plainStartup _).2.2 c hc hhonest
        c.events.dropLast cache mgr obs now t [] hevents.symm hnone hreg
      rwa [hevents] at h
  | kick => cases htick
  | discover => cases htick
  | relay => cases htick

/-- **A candidate that was tried once**: the third port is added to a lap that was begun
without it, and the registration starts after one slot of it. -/
theorem slot_missing :
    let x := chronicledAfter plainRelayConfig plainStartup System.thirdPort
    ∃ c ∈ x.2, ∃ e ∈ c.events.getLast?,
      (c.first.after c.events.dropLast).sessionEndpoint = none ∧
        0 < registrations ((c.first.after c.events.dropLast).asks e) ∧
          ∃ ep ∈ (run slotsStep (slotsStart c.first) c.events).1.fsm.candidates,
            (run slotsStep (slotsStart c.first) c.events).2.count ep < relayAfterRounds := by
  decide +kernel

end Hextet
