/-
# A working connection

`crates/engine/src/fsm.rs`: what `set_candidates`, `kick` and `tick` do to a machine
that is connected and whose handshakes stay fresh.  Each of them is one step of three
independent things (`apply_of_calm`): the endpoint follows the kernel, the list is
replaced, and the only actions are the nudge of a kick and the mark of a new endpoint.
A run is then read off its operations (`connection_undisturbed`), and the list that
came last shows only when a later tick falls back.
-/

import Hextet.Engine.FsmRun

namespace Hextet

open Lib

namespace Op

/-- An operation on a working connection: a kick, a new list, or a tick that sees a
fresh handshake. -/
def Calm : Op → Prop
  | .call .kick _ => True
  | .call (.setCandidates _) _ => True
  | .call _ _ => False
  | .tick obs now => handshakeIsFresh obs.lastHandshake now = true

instance : DecidablePred Calm
  | .call .kick _ => .isTrue trivial
  | .call (.setCandidates _) _ => .isTrue trivial
  | .call (.retryFrom _) _ => .isFalse id
  | .call (.retryFromFlush _) _ => .isFalse id
  | .tick _ _ => inferInstanceAs (Decidable (_ = _))

/-- The endpoint that the kernel reports. -/
def reported? : Op → Option SocketAddrV6
  | .tick obs _ => obs.kernelEndpoint.map normalize
  | .call _ _ => none

/-- The list that is supplied, normalised and without repetitions. -/
def supplied? : Op → Option (List SocketAddrV6)
  | .call (.setCandidates candidates) _ => some (dedupNormalized candidates)
  | _ => none

end Op

/-- The last endpoint that the kernel reported, if it ever did. -/
def lastReported (ep : SocketAddrV6) (ops : List Op) : SocketAddrV6 :=
  ((ops.filterMap Op.reported?).getLast?).getD ep

/-- The last list that was supplied, if any was. -/
def lastSupplied (candidates : List SocketAddrV6) (ops : List Op) : List SocketAddrV6 :=
  ((ops.filterMap Op.supplied?).getLast?).getD candidates

theorem getLast?_filterMap_cons {α β : Type*} (f : α → Option β) (a : α) (l : List α) (b : β) :
    (((a :: l).filterMap f).getLast?).getD b = ((l.filterMap f).getLast?).getD ((f a).getD b) := by
  cases hf : f a with
  | none => rw [List.filterMap_cons_none hf, Option.getD_none]
  | some c =>
      rw [List.filterMap_cons_some hf, List.getLast?_cons, Option.getD_some, Option.getD_some]

theorem lastReported_cons (ep : SocketAddrV6) (o : Op) (ops : List Op) :
    lastReported ep (o :: ops) = lastReported (o.reported?.getD ep) ops :=
  getLast?_filterMap_cons ..

theorem lastSupplied_cons (candidates : List SocketAddrV6) (o : Op) (ops : List Op) :
    lastSupplied candidates (o :: ops) = lastSupplied (o.supplied?.getD candidates) ops :=
  getLast?_filterMap_cons ..

namespace PeerFsm

/-- A machine after some operations. -/
def after (fsm : PeerFsm) (ops : List Op) : PeerFsm := run (fun fsm o => (fsm.apply o).1) fsm ops

variable {fsm : PeerFsm} {ep : SocketAddrV6}

/-- A tick that sees a fresh handshake follows the kernel. -/
theorem tick_of_fresh (h : fsm.state = .connected ep) {obs : Observation} {now : SystemTime}
    (hfresh : handshakeIsFresh obs.lastHandshake now = true) :
    ∃ last, (fsm.tick now obs).1 =
        ⟨fsm.candidates, .connected ((obs.kernelEndpoint.map normalize).getD ep), last,
          fsm.lastRotate⟩ ∧
      ∀ a, a ∈ (fsm.tick now obs).2 ↔
        ∃ ke, a = .markGood ke ∧ obs.kernelEndpoint.map normalize = some ke ∧ ke ≠ ep := by
  have htick : fsm.tick now obs = fsm.tickConnected now obs ep := by rw [tick, h]
  rw [htick, tickConnected, if_pos hfresh]
  cases hke : obs.kernelEndpoint.map normalize with
  | none => exact ⟨fsm.lastTransition, by rw [Option.getD_none, ← h], by simp⟩
  | some ke =>
      by_cases hne : ke ≠ ep
      · refine ⟨now, by simp [hne], fun a => ?_⟩
        simp [hne]
      · obtain rfl := not_not.1 hne
        refine ⟨fsm.lastTransition, by simp [← h], fun a => ?_⟩
        simp

/-- **One operation on a working connection**: the endpoint is the one reported, the list
the one supplied, a kick nudges and a new endpoint is marked. -/
theorem apply_of_calm (h : fsm.state = .connected ep) {o : Op} (ho : o.Calm) :
    (fsm.apply o).1.state = .connected (o.reported?.getD ep) ∧
      (fsm.apply o).1.candidates = o.supplied?.getD fsm.candidates ∧
        ∀ a, a ∈ (fsm.apply o).2 ↔ (a = .nudge ∧ o.isKick = true) ∨
          ∃ ke, a = .markGood ke ∧ o.reported? = some ke ∧ ke ≠ ep := by
  cases o with
  | call c now =>
      cases c with
      | kick =>
          refine ⟨h, rfl, fun a => ?_⟩
          simp [apply, call, kick, h, Op.isKick, Op.reported?]
      | setCandidates candidates =>
          have heq : fsm.apply (.call (.setCandidates candidates) now) =
              ({ fsm with candidates := dedupNormalized candidates }, []) :=
            setCandidates_connected h candidates now
          rw [heq]
          exact ⟨h, rfl, fun a => by simp [Op.isKick, Op.reported?]⟩
      | retryFrom avoid => exact ho.elim
      | retryFromFlush avoid => exact ho.elim
  | tick obs now =>
      obtain ⟨last, hfsm, hactions⟩ := tick_of_fresh h ho
      have hfst : (fsm.apply (.tick obs now)).1 = _ := hfsm
      refine ⟨by rw [hfst]; rfl, by rw [hfst]; rfl, fun a => (hactions a).trans ?_⟩
      simp [Op.isKick, Op.reported?]

/-- The same of a run. -/
theorem after_of_calm (h : fsm.state = .connected ep) {ops : List Op}
    (hops : ∀ o ∈ ops, o.Calm) :
    (fsm.after ops).state = .connected (lastReported ep ops) ∧
      (fsm.after ops).candidates = lastSupplied fsm.candidates ops := by
  induction ops generalizing fsm ep with
  | nil => exact ⟨h, rfl⟩
  | cons o ops ih =>
      obtain ⟨hstate, hlist, -⟩ := apply_of_calm h (hops o List.mem_cons_self)
      obtain ⟨hstate', hlist'⟩ := ih hstate fun o' ho' => hops o' (List.mem_cons_of_mem _ ho')
      rw [after, run_cons, lastReported_cons, lastSupplied_cons, ← hlist]
      exact ⟨hstate', hlist'⟩

/-- A stale handshake sends a connected machine to the first candidate. -/
theorem tick_of_stale (h : fsm.state = .connected ep) {obs : Observation} {now : SystemTime}
    (hstale : handshakeIsFresh obs.lastHandshake now = false) :
    fsm.tick now obs = (⟨fsm.candidates, .probing 0 0, now, now⟩, point fsm.candidates 0) := by
  have htick : fsm.tick now obs = fsm.tickConnected now obs ep := by rw [tick, h]
  rw [htick, tickConnected, if_neg (by simp [hstale])]

/-- **A working connection is not disturbed.**  Whatever lists, kicks and ticks with a fresh
handshake come: the machine stays connected at the last endpoint that the kernel reported,
an operation does nothing but nudge, if it is a kick, and mark the endpoint that the kernel
reports, if it is another than before; and a tick that then sees a stale handshake falls
back to the start of the last list that was supplied. -/
theorem connection_undisturbed (h : fsm.state = .connected ep) {ops : List Op}
    (hops : ∀ o ∈ ops, o.Calm) :
    (fsm.after ops).state = .connected (lastReported ep ops) ∧
      (∀ before o rest, ops = before ++ o :: rest →
        ∀ a, a ∈ ((fsm.after before).apply o).2 ↔ (a = .nudge ∧ o.isKick = true) ∨
          ∃ ke, a = .markGood ke ∧ o.reported? = some ke ∧ ke ≠ lastReported ep before) ∧
      ∀ obs now, handshakeIsFresh obs.lastHandshake now = false →
        (fsm.after ops).tick now obs =
          (⟨lastSupplied fsm.candidates ops, .probing 0 0, now, now⟩,
            point (lastSupplied fsm.candidates ops) 0) := by
  obtain ⟨hstate, hlist⟩ := after_of_calm h hops
  refine ⟨hstate, ?_, fun obs now hstale => ?_⟩
  · rintro before o rest rfl
    have hbefore := (after_of_calm h fun o' ho' => hops o' (List.mem_append_left _ ho')).1
    have ho : o.Calm := hops o (List.mem_append_right _ List.mem_cons_self)
    exact (apply_of_calm hbefore ho).2.2
  · rw [tick_of_stale hstate hstale, hlist]

/-- Connected at port 1: an empty list, a kick, the kernel roams to port 2 and another list
comes, with a repetition; the machine then falls back to port 3. -/
theorem connection_undisturbed_roaming :
    let fsm : PeerFsm := ⟨[localEndpoint 1], .connected (localEndpoint 1), 0, 0⟩
    let ops : List Op :=
      [.call (.setCandidates []) 1, .call .kick 2, .tick ⟨some 3, some (localEndpoint 2)⟩ 3,
        .call (.setCandidates [localEndpoint 3, localEndpoint 3, localEndpoint 4]) 4]
    (fsm.after ops).state = .connected (localEndpoint 2) ∧
      (fsm.after ops).tick 200000000000 ⟨some 3, none⟩ =
        (⟨[localEndpoint 3, localEndpoint 4], .probing 0 0, 200000000000, 200000000000⟩,
          [.setEndpoint (localEndpoint 3), .nudge]) := by
  intro fsm ops
  have hcalm : ∀ o ∈ ops, o.Calm := by decide
  have hstate : fsm.state = .connected (localEndpoint 1) := rfl
  have hrun := connection_undisturbed hstate hcalm
  exact ⟨hrun.1, hrun.2.2 ⟨some 3, none⟩ 200000000000 (by decide)⟩

end PeerFsm

end Hextet
