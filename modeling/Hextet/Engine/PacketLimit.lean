/-
# The packet limit of a relay session

`PacketLimiter` of `crates/engine/src/relay_server.rs` keeps one window: its start, and how
many packets passed and how many were dropped since.  A packet that comes a second or more
after the start opens the next window.

The packets that pass fall into separated windows of a second with at most 2000 each
(`Covers`), the current one being the limiter's.  So a second that lies across two windows
lets through up to twice the limit and never more, and a packet is refused only behind 2000
that passed within the second before it (`packetLimiter_bounds`).
-/

import Hextet.Engine.RelayServer
import Hextet.Lib.Log
import Hextet.Lib.Windows

namespace Hextet

open Lib

namespace PacketLimiter

/-- The calls of `allow` at some times: the limiter after them, and each time with the answer. -/
def calls (l : PacketLimiter) (times : List Instant) : PacketLimiter × List (Instant × Bool) :=
  times.foldl (fun s t => ((s.1.allow t).2, s.2 ++ [(t, (s.1.allow t).1)])) (l, [])

/-- The times of the packets that passed. -/
def allowed (log : List (Instant × Bool)) : List Instant := (log.filter Prod.snd).map Prod.fst

theorem calls_concat (l : PacketLimiter) (times : List Instant) (t : Instant) :
    l.calls (times ++ [t]) =
      (((l.calls times).1.allow t).2, (l.calls times).2 ++ [(t, ((l.calls times).1.allow t).1)]) :=
  List.foldl_concat ..

theorem allowed_concat (log : List (Instant × Bool)) (t : Instant) (b : Bool) :
    allowed (log ++ [(t, b)]) = allowed log ++ if b then [t] else [] := by
  cases b <;> simp [allowed, List.filter_append]

/-! ### One call -/

variable {l : PacketLimiter} {t : Instant}

/-- What a call does: it opens a window, lets the packet pass in the current window, or
refuses it. -/
theorem allow_cases (l : PacketLimiter) (t : Instant) :
    l.windowStart + 1000000000 ≤ t ∧ l.allow t = (true, ⟨t, 1, 0⟩) ∨
      t < l.windowStart + 1000000000 ∧ l.count < 2000 ∧
        l.allow t = (true, { l with count := l.count + 1 }) ∨
      t < l.windowStart + 1000000000 ∧ 2000 ≤ l.count ∧
        l.allow t = (false, { l with dropped := min (l.dropped + 1) 0xffffffff }) := by
  have hroll_iff : 1000000000 ≤ t - l.windowStart ↔ l.windowStart + 1000000000 ≤ t := by
    unfold Instant at *
    omega
  by_cases hroll : l.windowStart + 1000000000 ≤ t
  · left
    have hnew : ¬maxPacketsPerSec ≤ (new t).count := Nat.not_le.2 (by decide : 0 < 2000)
    rw [allow, if_pos (hroll_iff.2 hroll), if_neg hnew]
    exact ⟨hroll, rfl⟩
  · right
    rw [allow, if_neg (mt hroll_iff.1 hroll)]
    by_cases hfull : maxPacketsPerSec ≤ l.count
    · right
      rw [if_pos hfull]
      exact ⟨not_le.1 hroll, hfull, rfl⟩
    · left
      rw [if_neg hfull]
      exact ⟨not_le.1 hroll, not_le.1 hfull, rfl⟩

/-- The packets that passed, in separated windows: the windows that are closed, and the
current one. -/
structure Covers (l : PacketLimiter) (passed : List Instant) (done : List Window)
    (current : List Instant) : Prop where
  passed_eq : passed = done.flatMap Window.times ++ current
  length_current : current.length = l.count
  separated : Separated 1000000000 2000 (done ++ [⟨l.windowStart, current⟩])

theorem Covers.flatMap_eq {passed current : List Instant} {done : List Window}
    (h : Covers l passed done current) :
    (done ++ [Window.mk l.windowStart current]).flatMap Window.times = passed := by
  rw [List.flatMap_append, h.passed_eq]
  simp

/-- **A call keeps the windows**, from the start of the current one on. -/
theorem Covers.allow {passed current : List Instant} {done : List Window}
    (h : Covers l passed done current) (ht : l.windowStart ≤ t) :
    ∃ done' current', Covers (l.allow t).2 (passed ++ if (l.allow t).1 then [t] else []) done'
      current' := by
  obtain ⟨hdone, hstart, hinside, hlen⟩ := h.separated.of_concat
  rcases allow_cases l t with ⟨hroll, heq⟩ | ⟨hin, hroom, heq⟩ | ⟨-, -, heq⟩
  · rw [heq]
    refine ⟨done ++ [⟨l.windowStart, current⟩], [t], ?_, rfl, h.separated.concat ?_ ?_ ?_⟩
    · rw [h.flatMap_eq]
      rfl
    · intro w hw
      rcases List.mem_append.1 hw with hw | hw
      · exact (hstart w hw).trans (Nat.le_of_add_right_le hroll)
      · rw [List.mem_singleton.1 hw]
        exact hroll
    · intro x hx
      rw [List.mem_singleton.1 hx]
      simp
    · simp
  · rw [heq]
    refine ⟨done, current ++ [t], ?_, ?_, hdone.concat hstart ?_ ?_⟩
    · rw [h.passed_eq, if_pos rfl, List.append_assoc]
    · rw [List.length_append, h.length_current]
      rfl
    · intro x hx
      rcases List.mem_append.1 hx with hx | hx
      · exact hinside x hx
      · rw [List.mem_singleton.1 hx]
        exact ⟨ht, hin⟩
    · rw [List.length_append, h.length_current]
      exact hroom
  · rw [heq]
    exact ⟨done, current, by rw [h.passed_eq]; simp, h.length_current, h.separated⟩

/-! ### A run -/

/-- A packet that was refused came behind 2000 that passed in the second before it. -/
def Justified (before : List (Instant × Bool)) (x : Instant × Bool) : Prop :=
  x.2 = false → 2000 ≤ (allowed before).countP fun t => decide (t ≤ x.1 ∧ x.1 < t + 1000000000)

/-- What holds of the limiter and its log after some calls. -/
structure Inv (start : Instant) (times : List Instant) (s : PacketLimiter × List (Instant × Bool)) :
    Prop where
  windowStart_mem : s.1.windowStart ∈ start :: times
  covers : ∃ done current, Covers s.1 (allowed s.2) done current
  justified : Logged Justified s.2

theorem inv_new (start : Instant) : Inv start [] ((new start).calls []) where
  windowStart_mem := List.mem_singleton_self _
  covers := ⟨[], [], rfl, rfl, ⟨by simp, by simp, List.pairwise_singleton ..⟩⟩
  justified := Logged.nil

/-- The packets in the current window passed within the second before a packet that comes in
it. -/
theorem Covers.count_le {passed current : List Instant} {done : List Window}
    (h : Covers l passed done current) (hle : ∀ x ∈ passed, x ≤ t)
    (ht : t < l.windowStart + 1000000000) :
    l.count ≤ passed.countP fun x => decide (x ≤ t ∧ t < x + 1000000000) := by
  obtain ⟨-, -, hinside, -⟩ := h.separated.of_concat
  have hall : current.countP (fun x => decide (x ≤ t ∧ t < x + 1000000000)) = current.length := by
    refine List.countP_eq_length.2 fun x hx => decide_eq_true ?_
    have hx' : x ∈ passed := h.passed_eq ▸ List.mem_append_right _ hx
    have hge : l.windowStart + 1000000000 ≤ x + 1000000000 :=
      Nat.add_le_add_right (hinside x hx).1 _
    exact ⟨hle x hx', ht.trans_le hge⟩
  rw [← h.length_current, h.passed_eq, List.countP_append, hall]
  omega

theorem mem_of_mem_allowed_calls {times : List Instant} {x : Instant}
    (h : x ∈ allowed (l.calls times).2) : x ∈ times := by
  induction times using List.reverseRecOn with
  | nil => simp [calls, allowed] at h
  | append_singleton times t ih =>
      rw [calls_concat, allowed_concat] at h
      rcases List.mem_append.1 h with h | h
      · exact List.mem_append_left _ (ih h)
      · split_ifs at h
        · exact List.mem_append_right _ h
        · cases h

/-- **Calls in the order of time keep the invariant.** -/
theorem inv_calls {start : Instant} {times : List Instant}
    (h : (start :: times).Pairwise (· ≤ ·)) : Inv start times ((new start).calls times) := by
  induction times using List.reverseRecOn with
  | nil => exact inv_new start
  | append_singleton times t ih =>
      rw [← List.cons_append, List.pairwise_append] at h
      obtain ⟨hsorted, -, hle⟩ := h
      have hbefore : ∀ x ∈ start :: times, x ≤ t := fun x hx =>
        hle x hx t (List.mem_singleton_self t)
      obtain ⟨hstart, ⟨done, current, hcovers⟩, hjust⟩ := ih hsorted
      rw [calls_concat]
      refine ⟨?_, ?_, hjust.concat fun hrefused => ?_⟩
      · rw [← List.cons_append]
        rcases allow_cases ((new start).calls times).1 t with ⟨-, heq⟩ | ⟨-, -, heq⟩ | ⟨-, -, heq⟩
        · simp [heq]
        · rw [heq]
          exact List.mem_append_left _ hstart
        · rw [heq]
          exact List.mem_append_left _ hstart
      · rw [allowed_concat]
        exact hcovers.allow (hbefore _ hstart)
      · rcases allow_cases ((new start).calls times).1 t with
          ⟨-, heq⟩ | ⟨-, -, heq⟩ | ⟨hin, hfull, -⟩
        · rw [heq] at hrefused
          cases hrefused
        · rw [heq] at hrefused
          cases hrefused
        · have hpast : ∀ x ∈ allowed ((new start).calls times).2, x ≤ t := fun x hx =>
            hbefore x (List.mem_cons_of_mem _ (mem_of_mem_allowed_calls hx))
          exact hfull.trans (hcovers.count_le hpast hin)

/-- **The packet limit of a session.**  For a limiter and packets that come after it was made,
in the order of time: no second holds more than 4000 packets that passed; these fall into
windows of a second with at most 2000 each, which start at least a second apart; and a packet
is refused only when 2000 passed in the second before it. -/
theorem packetLimiter_bounds {start : Instant} {times : List Instant}
    (h : (start :: times).Pairwise (· ≤ ·)) :
    (∀ a, ((allowed ((new start).calls times).2).countP fun t =>
        decide (a ≤ t ∧ t < a + 1000000000)) ≤ 4000) ∧
      (∃ windows : List Window,
        windows.flatMap Window.times = allowed ((new start).calls times).2 ∧
          (∀ w ∈ windows, w.times.length ≤ 2000 ∧
            ∀ t ∈ w.times, w.start ≤ t ∧ t < w.start + 1000000000) ∧
          windows.Pairwise fun w w' => w.start + 1000000000 ≤ w'.start) ∧
      ∀ before t after, ((new start).calls times).2 = before ++ (t, false) :: after →
        2000 ≤ (allowed before).countP fun x => decide (x ≤ t ∧ t < x + 1000000000) := by
  obtain ⟨-, ⟨done, current, hcovers⟩, hjust⟩ := inv_calls h
  refine ⟨fun a => ?_, ⟨_, hcovers.flatMap_eq, fun w hw => ?_, hcovers.separated.apart⟩,
    fun before t after hsplit => hjust before (t, false) after hsplit rfl⟩
  · have hcount := hcovers.separated.countP_le a
    rw [hcovers.flatMap_eq] at hcount
    exact hcount
  · exact ⟨hcovers.separated.length_le w hw, hcovers.separated.inside w hw⟩

/-- Two packets half a second apart. -/
theorem packetLimiter_bounds_two :
    allowed ((new 0).calls [0, 500000000]).2 = [0, 500000000] ∧
      ∀ a, ((allowed ((new 0).calls [0, 500000000]).2).countP fun t =>
        decide (a ≤ t ∧ t < a + 1000000000)) ≤ 4000 :=
  ⟨by decide, (packetLimiter_bounds (by decide)).1⟩

end PacketLimiter

end Hextet
