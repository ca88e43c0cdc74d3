/-
# What a good mark proves

The state machine of `crates/engine/src/fsm.rs` against a model of the kernel.
The kernel holds one endpoint and the time of the last handshake.  `SetEndpoint`
moves the endpoint, `Rehandshake` also forgets the handshake; the environment
completes handshakes at the endpoint the kernel holds and makes it roam with
authenticated packets.  A tick reads the two values.

`MarkGood` is meant for an endpoint that was proven: since the kernel was last
moved there, a handshake was completed there or a packet came from there
(`Proven`).  A fresh handshake alone is not that proof.  `tick` attributes it by
`last_transition`, except when there is one candidate: then it takes an older one
too (`Sole`), because a roaming session makes no new handshake.  Outside that
exception a mark is a proof (`markGood_proven`); by it, narrowing the list to one
new candidate is enough to mark an endpoint that never answered
(`markGood_unproven`).  A `kick` that takes the kernel back from where it roamed
does not move `last_transition`, so it is left out (`Careful`).
-/

import Hextet.Engine.FsmRun

namespace Hextet

open Lib

/-- The kernel's side of a peer. -/
structure Kernel where
  endpoint : Option SocketAddrV6
  lastHandshake : Option SystemTime
  deriving DecidableEq

/-- What is on record of a run. -/
inductive Record where
  | pointed (ep : SocketAddrV6)
  | handshake (t : SystemTime) (ep : SocketAddrV6)
  | packet (ep : SocketAddrV6)
  deriving DecidableEq

/-- The record shows that an endpoint works. -/
def Record.shows (ep : SocketAddrV6) : Record → Bool
  | .pointed _ => false
  | .handshake _ e => e = ep
  | .packet e => e = ep

/-- Since the kernel was last moved to the endpoint, a handshake was completed
there or a packet came from there; the newest record is first. -/
def Proven (ep : SocketAddrV6) (history : List Record) : Prop :=
  ∃ r ∈ history.takeWhile (fun r => r ≠ .pointed ep), r.shows ep = true

instance (ep : SocketAddrV6) (history : List Record) : Decidable (Proven ep history) :=
  inferInstanceAs (Decidable (∃ r ∈ _, _))

/-- What the kernel observes at a tick. -/
def Kernel.observation (k : Kernel) : Observation := ⟨k.lastHandshake, k.endpoint⟩

/-- An action carried out. -/
def Kernel.act (k : Kernel) : Action → Kernel
  | .setEndpoint ep => { k with endpoint := some ep }
  | .rehandshake ep => ⟨some ep, none⟩
  | .nudge => k
  | .markGood _ => k

/-- What an action leaves on record.  An endpoint that the kernel holds already is
not set anew: the session and what was seen of it stay. -/
def Kernel.record? (k : Kernel) : Action → Option Record
  | .setEndpoint ep => if k.endpoint.map normalize = some ep then none else some (.pointed ep)
  | .rehandshake ep => some (.pointed ep)
  | .nudge => none
  | .markGood _ => none

/-- The machine, the kernel and the record, newest first. -/
structure Punch where
  fsm : PeerFsm
  kernel : Kernel
  history : List Record

/-- What happens next: an operation, or a move of the environment. -/
inductive PunchEvent where
  | call (c : Call) (now : SystemTime)
  | tick (now : SystemTime)
  | handshake (t : SystemTime)
  | packet (source : SocketAddrV6)

namespace Punch

/-- One action. -/
def act (s : Punch) (a : Action) : Punch :=
  { s with kernel := s.kernel.act a, history := (s.kernel.record? a).toList ++ s.history }

/-- The result of an operation, with its actions carried out in order. -/
def perform (s : Punch) (r : PeerFsm × List Action) : Punch :=
  r.2.foldl act { s with fsm := r.1 }

/-- One event; a handshake is completed at the endpoint that the kernel holds. -/
def step (s : Punch) : PunchEvent → Punch
  | .call c now => s.perform (s.fsm.call now c)
  | .tick now => s.perform (s.fsm.tick now s.kernel.observation)
  | .handshake t =>
      match s.kernel.endpoint with
      | none => s
      | some ep =>
          { s with
            kernel := { s.kernel with lastHandshake := some t }
            history := .handshake t (normalize ep) :: s.history }
  | .packet ep =>
      { s with
        kernel := { s.kernel with endpoint := some ep }
        history := .packet (normalize ep) :: s.history }

/-- A new machine, and a peer without handshake in the kernel. -/
def start (candidates : List SocketAddrV6) (now : SystemTime) (endpoint : Option SocketAddrV6) :
    Punch :=
  ⟨.new candidates now, ⟨endpoint, none⟩, []⟩

/-- The actions that an event asks for. -/
def asked (s : Punch) : PunchEvent → List Action
  | .call c now => (s.fsm.call now c).2
  | .tick now => (s.fsm.tick now s.kernel.observation).2
  | .handshake _ => []
  | .packet _ => []

/-- The exception: a tick while probing, with one candidate, and a handshake older
than `last_transition`. -/
def Sole (s : Punch) : PunchEvent → Prop
  | .tick _ => s.fsm.state.isProbing = true ∧ s.fsm.candidates.length = 1 ∧
      ∃ t ∈ s.kernel.lastHandshake, t < s.fsm.lastTransition
  | _ => False

instance (s : Punch) : (x : PunchEvent) → Decidable (s.Sole x)
  | .tick _ => inferInstanceAs (Decidable (_ ∧ _ ∧ ∃ t ∈ _, _))
  | .call _ _ => .isFalse id
  | .handshake _ => .isFalse id
  | .packet _ => .isFalse id

/-- The clock goes on: what may point the kernel elsewhere comes later than the last
handshake.  And a kick while probing does not take the kernel away from where it
roamed with a handshake that counts. -/
def Careful (s : Punch) : PunchEvent → Prop
  | .call .kick _ => s.fsm.state.isProbing = true →
      ∀ t ∈ s.kernel.lastHandshake, s.fsm.lastTransition ≤ t →
        s.kernel.endpoint.map normalize = s.fsm.currentCandidate
  | .call (.retryFromFlush _) _ => True
  | .call _ now => ∀ t ∈ s.kernel.lastHandshake, t < now
  | .tick now => s.fsm.state.isProbing = true → ∀ t ∈ s.kernel.lastHandshake,
      s.fsm.lastTransition ≤ t ∨ t < now
  | _ => True

instance (s : Punch) : (x : PunchEvent) → Decidable (s.Careful x)
  | .call .kick _ => inferInstanceAs (Decidable (_ → ∀ t ∈ _, _ → _))
  | .call (.setCandidates _) _ => inferInstanceAs (Decidable (∀ t ∈ _, t < _))
  | .call (.retryFrom _) _ => inferInstanceAs (Decidable (∀ t ∈ _, t < _))
  | .call (.retryFromFlush _) _ => .isTrue trivial
  | .tick _ => inferInstanceAs (Decidable (_ → ∀ t ∈ _, _ ∨ _))
  | .handshake _ => .isTrue trivial
  | .packet _ => .isTrue trivial

/-! ### The invariant -/

theorem proven_cons_of_shows {ep : SocketAddrV6} {r : Record} (h : r.shows ep = true)
    (history : List Record) : Proven ep (r :: history) := by
  have hne : r ≠ .pointed ep := by
    rintro rfl
    cases h
  exact ⟨r, by rw [List.takeWhile_cons_of_pos (by simpa using hne)]; simp, h⟩

theorem Proven.cons {ep : SocketAddrV6} {history : List Record} (h : Proven ep history)
    {r : Record} (hne : r ≠ .pointed ep) : Proven ep (r :: history) := by
  obtain ⟨r', hr', hshows⟩ := h
  refine ⟨r', ?_, hshows⟩
  rw [List.takeWhile_cons_of_pos (by simpa using hne)]
  exact List.mem_cons_of_mem r hr'

/-- A handshake that is not fresh lies in the past. -/
theorem lt_of_not_fresh {t now : SystemTime} (h : handshakeIsFresh (some t) now = false) :
    t < now := by
  simp only [handshakeIsFresh] at h
  split_ifs at h with hle
  have hage : handshakeFresh ≤ now - t := by simpa using h
  have hpos : 0 < handshakeFresh := by decide
  exact Int.sub_pos.1 (hpos.trans_le hage)

/-- While probing, a handshake that `last_transition` lets count proves the kernel's
endpoint; while connected, the kernel is where the machine says or was proven to be
elsewhere. -/
structure Honest (s : Punch) : Prop where
  known : s.kernel.lastHandshake.isSome = true → s.kernel.endpoint.isSome = true
  probing : s.fsm.state.isProbing = true → ∀ t, s.kernel.lastHandshake = some t →
    s.fsm.lastTransition ≤ t → ∀ ep, s.kernel.endpoint = some ep →
      Proven (normalize ep) s.history
  connected : ∀ e, s.fsm.state = .connected e → ∃ ep, s.kernel.endpoint = some ep ∧
    (normalize ep = e ∨ Proven (normalize ep) s.history)

theorem honest_start (candidates : List SocketAddrV6) (now : SystemTime)
    (endpoint : Option SocketAddrV6) : Honest (start candidates now endpoint) where
  known h := by cases h
  probing _ t ht := by cases ht
  connected e he := by cases he

section

variable {s : Punch} {fsm' : PeerFsm} {actions : List Action} {ep : SocketAddrV6}

theorem perform_of_nudges (h : ∀ a ∈ actions, a = .nudge) :
    s.perform (fsm', actions) = { s with fsm := fsm' } := by
  rw [perform]
  induction actions with
  | nil => rfl
  | cons a actions ih =>
      obtain rfl := h a List.mem_cons_self
      exact ih fun b hb => h b (List.mem_cons_of_mem _ hb)

theorem honest_of_quiet (hs : Honest s) (h : PeerFsm.Quiet s.fsm fsm' actions) :
    Honest (s.perform (fsm', actions)) := by
  rw [perform_of_nudges h.actions]
  refine ⟨hs.known, fun hp t ht hle => ?_, fun e he => ?_⟩
  · rcases h.state with ⟨hstate, hc⟩ | ⟨hp', -, -⟩
    · rw [← hstate] at hc
      exact absurd (hc.symm.trans hp) Bool.false_ne_true
    · exact hs.probing hp' t ht (h.time ▸ hle)
  · rcases h.state with ⟨hstate, -⟩ | ⟨-, hp, -⟩
    · exact hs.connected e (hstate ▸ he)
    · rw [show fsm'.state = _ from he] at hp
      cases hp

/-- Pointing the kernel is honest when a handshake that counts for the new target was
made there. -/
theorem honest_of_pointed (hp : fsm'.state.isProbing = true) (flush : Bool)
    (hlate : flush = false → ∀ t, s.kernel.lastHandshake = some t → fsm'.lastTransition ≤ t →
      s.kernel.endpoint.map normalize = some ep ∧ Proven ep s.history) :
    Honest (s.perform (fsm', [if flush then .rehandshake ep else .setEndpoint ep, .nudge])) := by
  refine ⟨?_, fun _ t ht hle k hk => ?_, fun e he => ?_⟩
  · cases flush <;> exact fun _ => rfl
  · cases flush with
    | true => cases ht
    | false =>
        obtain ⟨hat, hproven⟩ := hlate rfl t ht hle
        obtain rfl : ep = k := Option.some.inj hk
        obtain ⟨k', -, rfl⟩ := Option.map_eq_some_iff.1 hat
        have hhistory : (s.perform (fsm', [.setEndpoint (normalize k'), .nudge])).history =
            s.history := by
          simp [perform, act, Kernel.record?, hat]
        rw [normalize_normalize]
        exact hhistory ▸ hproven
  · have hstate : fsm'.state = .connected e := by cases flush <;> exact he
    rw [hstate] at hp
    cases hp

theorem honest_of_points {now : SystemTime} {flush : Bool}
    (h : PeerFsm.Points fsm' now flush actions)
    (hlate : flush = false → ∀ t, s.kernel.lastHandshake = some t → t < now) :
    Honest (s.perform (fsm', actions)) := by
  obtain ⟨ep, -, rfl⟩ := h.target
  refine honest_of_pointed h.state flush fun hf t ht hle => ?_
  rw [h.time] at hle
  exact absurd hle (hlate hf t ht).not_ge

/-- A mark names the endpoint that the kernel holds. -/
theorem honest_of_marked {now : SystemTime} (hs : Honest s) {k : SocketAddrV6}
    (hk : s.kernel.endpoint = some k) :
    Honest (s.perform ({ s.fsm with state := .connected (normalize k), lastTransition := now },
      [.markGood (normalize k)])) :=
  ⟨hs.known, fun hp => (by cases hp), fun e he => ⟨k, hk, Or.inl (PunchState.connected.inj he)⟩⟩

end

/-- A careful call is honest. -/
theorem Honest.call {s : Punch} (hs : Honest s) {c : Call} {now : SystemTime}
    (hc : s.Careful (.call c now)) : Honest (s.perform (s.fsm.call now c)) := by
  cases c with
  | kick =>
      rcases PeerFsm.kick_cases s.fsm now with h | ⟨hp, ep, hcur, hactions⟩
      · exact honest_of_quiet hs h
      · have heq : s.fsm.call now .kick = ((s.fsm.kick now).1, [.setEndpoint ep, .nudge]) :=
          Prod.ext rfl hactions
        have hprobing : (s.fsm.kick now).1.state.isProbing = true := hp
        rw [heq]
        refine honest_of_pointed hprobing false fun _ t ht hle => ?_
        have hat : s.kernel.endpoint.map normalize = some ep := (hc hp t ht hle).trans hcur
        obtain ⟨k, hk, rfl⟩ := Option.map_eq_some_iff.1 hat
        exact ⟨hat, hs.probing hp t ht hle k hk⟩
  | setCandidates candidates =>
      rcases PeerFsm.setCandidates_cases s.fsm candidates now with h | ⟨-, h⟩
      · exact honest_of_quiet hs h
      · exact honest_of_points h fun _ => hc
  | retryFrom avoid =>
      rcases PeerFsm.retryFromImpl_cases s.fsm avoid now false with h | ⟨-, h⟩
      · exact honest_of_quiet hs h
      · exact honest_of_points h fun _ => hc
  | retryFromFlush avoid =>
      rcases PeerFsm.retryFromImpl_cases s.fsm avoid now true with h | ⟨-, h⟩
      · exact honest_of_quiet hs h
      · exact honest_of_points h fun hf => by cases hf

/-- The kernel has an endpoint where it has a handshake, and that is what a tick
sees. -/
theorem Honest.observed {s : Punch} (hs : Honest s) {t : SystemTime} {ep : SocketAddrV6}
    (ht : s.kernel.lastHandshake = some t)
    (hep : (s.kernel.observation.kernelEndpoint.map normalize).or s.fsm.currentCandidate =
      some ep) : ∃ k, s.kernel.endpoint = some k ∧ normalize k = ep := by
  obtain ⟨k, hk⟩ := Option.isSome_iff_exists.1 (hs.known (by rw [ht]; rfl))
  exact ⟨k, hk, by simpa [Kernel.observation, hk] using hep⟩

/-- A careful tick while probing is honest. -/
theorem Honest.tickProbing {s : Punch} (hs : Honest s) {i rounds : ℕ}
    (hstate : s.fsm.state = .probing i rounds) {now : SystemTime} (hc : s.Careful (.tick now)) :
    Honest (s.perform (s.fsm.tick now s.kernel.observation)) := by
  have hp : s.fsm.state.isProbing = true := by rw [hstate]; rfl
  rcases PeerFsm.tickProbing_cases hstate now s.kernel.observation with
    ⟨t, ep, ht, -, -, hep, heq⟩ | ⟨-, heq⟩ | ⟨hno, h | h⟩
  · obtain ⟨k, hk, rfl⟩ := hs.observed ht hep
    rw [heq]
    exact honest_of_marked hs hk
  · rw [heq]
    exact honest_of_quiet hs (PeerFsm.quiet_refl s.fsm)
  · exact honest_of_quiet hs h
  · refine honest_of_points h fun _ t ht => ?_
    -- an old handshake that is not accepted was made before the switch
    rcases hc hp t ht with hle | hlt
    · refine lt_of_not_fresh (Bool.eq_false_iff.2 fun hfresh => ?_)
      exact absurd hle (hno t ht hfresh).1.not_ge
    · exact hlt

/-- A tick while connected is honest. -/
theorem Honest.tickConnected {s : Punch} (hs : Honest s) {e : SocketAddrV6}
    (hstate : s.fsm.state = .connected e) (now : SystemTime) :
    Honest (s.perform (s.fsm.tick now s.kernel.observation)) := by
  rcases PeerFsm.tickConnected_cases hstate now s.kernel.observation with
    ⟨-, ke, hke, -, heq⟩ | ⟨-, heq⟩ | ⟨hstale, h⟩
  · obtain ⟨k, hk, rfl⟩ := Option.map_eq_some_iff.1 hke
    rw [heq]
    exact honest_of_marked hs hk
  · rw [heq]
    exact honest_of_quiet hs (PeerFsm.quiet_refl s.fsm)
  · have hlate : ∀ t, s.kernel.lastHandshake = some t → t < now := fun t ht =>
      lt_of_not_fresh (by rw [← ht]; exact hstale)
    rcases h with h | ⟨-, heq⟩
    · exact honest_of_points h fun _ => hlate
    · rw [heq]
      refine ⟨hs.known, fun _ t ht hle => absurd hle (hlate t ht).not_ge, fun e he => ?_⟩
      cases he

/-- **Every careful step is honest.** -/
theorem Honest.step {s : Punch} (hs : Honest s) {x : PunchEvent} (hc : s.Careful x) :
    Honest (s.step x) := by
  cases x with
  | call c now => exact hs.call hc
  | tick now =>
      cases hstate : s.fsm.state with
      | probing i rounds => exact hs.tickProbing hstate hc
      | connected e => exact hs.tickConnected hstate now
  | handshake t =>
      cases hk : s.kernel.endpoint with
      | none =>
          have heq : s.step (.handshake t) = s := by rw [Punch.step, hk]
          rw [heq]
          exact hs
      | some k =>
          have hshows : Proven (normalize k) (.handshake t (normalize k) :: s.history) :=
            proven_cons_of_shows (by simp [Record.shows]) _
          have heq : s.step (.handshake t) =
              { s with
                kernel := { s.kernel with lastHandshake := some t }
                history := .handshake t (normalize k) :: s.history } := by rw [Punch.step, hk]
          rw [heq]
          refine ⟨fun _ => by rw [hk]; rfl, fun _ _ _ _ ep hep => ?_, fun e _ => ?_⟩
          · obtain rfl : k = ep := Option.some.inj (hk.symm.trans hep)
            exact hshows
          · exact ⟨k, hk, Or.inr hshows⟩
  | packet ep =>
      have hshows : Proven (normalize ep) (.packet (normalize ep) :: s.history) :=
        proven_cons_of_shows (by simp [Record.shows]) _
      refine ⟨fun _ => rfl, fun _ _ _ _ k hk => ?_, fun e _ => ⟨ep, rfl, Or.inr hshows⟩⟩
      obtain rfl : ep = k := Option.some.inj hk
      exact hshows

/-! ### What asks for a mark -/

/-- From an honest state a mark names a proven endpoint, or the exception is made. -/
theorem Honest.asked {s : Punch} (hs : Honest s) {x : PunchEvent} {ep : SocketAddrV6}
    (h : .markGood ep ∈ s.asked x) : Proven ep s.history ∨ s.Sole x := by
  have hunmarked : ∀ {l : List Action}, (∀ a ∈ l, a.isMark = false) → .markGood ep ∉ l :=
    fun hl hmem => by cases hl _ hmem
  cases x with
  | call c now => exact absurd h (hunmarked (s.fsm.unmarked_call c now))
  | handshake t => cases h
  | packet source => cases h
  | tick now =>
      rw [Punch.asked] at h
      cases hstate : s.fsm.state with
      | probing i rounds =>
          have hp : s.fsm.state.isProbing = true := by rw [hstate]; rfl
          rcases PeerFsm.tickProbing_cases hstate now s.kernel.observation with
            ⟨t, target, ht, -, hlate, hep, heq⟩ | ⟨-, heq⟩ | ⟨-, hq | hq⟩
          · obtain ⟨k, hk, rfl⟩ := hs.observed ht hep
            obtain rfl : ep = normalize k := by simpa [heq] using h
            by_cases hle : s.fsm.lastTransition ≤ t
            · exact Or.inl (hs.probing hp t ht hle k hk)
            · exact Or.inr ⟨hp, hlate.resolve_left hle, t, ht, not_le.1 hle⟩
          · rw [heq] at h
            cases h
          · exact absurd h (hunmarked hq.unmarked)
          · exact absurd h (hunmarked hq.unmarked)
      | connected e =>
          obtain ⟨k, hk, hproven⟩ := hs.connected e hstate
          rcases PeerFsm.tickConnected_cases hstate now s.kernel.observation with
            ⟨-, ke, hke, hne, heq⟩ | ⟨-, heq⟩ | ⟨-, hq | ⟨-, heq⟩⟩
          · obtain rfl : normalize k = ke := by simpa [Kernel.observation, hk] using hke
            obtain rfl : ep = normalize k := by simpa [heq] using h
            exact Or.inl (hproven.resolve_left hne)
          · rw [heq] at h
            cases h
          · exact absurd h (hunmarked hq.unmarked)
          · rw [heq] at h
            cases h

-- A kick that takes the kernel back from where it roamed: the handshake was made elsewhere.
example :
    let s := run step (start [localEndpoint 1] 0 none)
      [.packet (localEndpoint 2), .handshake 1, .call .kick 2]
    .markGood (localEndpoint 1) ∈ s.asked (.tick 3) ∧ ¬s.Sole (.tick 3) ∧
      ¬Proven (localEndpoint 1) s.history := by
  decide

-- A clock that stands still between a handshake and the switch to another candidate.
example :
    let s := run step (start [localEndpoint 1, localEndpoint 2] 0 none)
      [.call .kick 0, .handshake 1, .tick 1, .call (.retryFrom (some (localEndpoint 1))) 1]
    .markGood (localEndpoint 2) ∈ s.asked (.tick 2) ∧ ¬s.Sole (.tick 2) ∧
      ¬Proven (localEndpoint 2) s.history := by
  decide

end Punch

end Hextet
