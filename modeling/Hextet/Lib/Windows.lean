/-
# Windows on a time line

Times that are collected in windows of a fixed width, each window with at most a given number
of them.  Windows are separated when every one starts at least a width after the one before.
An interval of the same width meets at most two separated windows, so it holds at most twice
the number of times (`Separated.countP_le`).
-/

import Mathlib.Algebra.BigOperators.Group.List.Basic
import Mathlib.Data.List.Basic

namespace Hextet
namespace Lib

/-- A window: its start, and the times in it. -/
structure Window where
  start : ℕ
  times : List ℕ
  deriving DecidableEq

variable {width cap : ℕ}

/-- Separated windows: the times of a window lie in it and are at most `cap`, and a window
starts after the end of those before it. -/
structure Separated (width cap : ℕ) (ws : List Window) : Prop where
  inside : ∀ w ∈ ws, ∀ t ∈ w.times, w.start ≤ t ∧ t < w.start + width
  length_le : ∀ w ∈ ws, w.times.length ≤ cap
  apart : ws.Pairwise fun w w' => w.start + width ≤ w'.start

/-- The times of some windows in the interval from `a`. -/
def inInterval (width a : ℕ) (ts : List ℕ) : ℕ :=
  ts.countP fun t => decide (a ≤ t ∧ t < a + width)

theorem inInterval_append (a : ℕ) (ts ts' : List ℕ) :
    inInterval width a (ts ++ ts') = inInterval width a ts + inInterval width a ts' :=
  List.countP_append ..

theorem inInterval_le_length (a : ℕ) (ts : List ℕ) : inInterval width a ts ≤ ts.length :=
  List.countP_le_length

theorem inInterval_eq_zero {a : ℕ} {ts : List ℕ} (h : ∀ t ∈ ts, a ≤ t → a + width ≤ t) :
    inInterval width a ts = 0 := by
  refine List.countP_eq_zero.2 fun t ht hin => ?_
  have hin := of_decide_eq_true hin
  have := h t ht hin.1
  omega

namespace Separated

variable {w : Window} {ws : List Window}

theorem tail (h : Separated width cap (w :: ws)) : Separated width cap ws where
  inside x hx := h.inside x (List.mem_cons_of_mem _ hx)
  length_le x hx := h.length_le x (List.mem_cons_of_mem _ hx)
  apart := (List.pairwise_cons.1 h.apart).2

/-- Windows that start after the interval have no times in it. -/
theorem countP_eq_zero {a : ℕ} (h : Separated width cap ws)
    (hstart : ∀ w ∈ ws, a + width ≤ w.start) :
    inInterval width a (ws.flatMap Window.times) = 0 := by
  refine inInterval_eq_zero fun t ht _ => ?_
  obtain ⟨w, hw, ht⟩ := List.mem_flatMap.1 ht
  exact Nat.le_trans (hstart w hw) (h.inside w hw t ht).1

/-- Of windows that start in the interval or after it, only the first has times in it. -/
theorem countP_le_of_le {a : ℕ} (h : Separated width cap ws) (hstart : ∀ w ∈ ws, a ≤ w.start) :
    inInterval width a (ws.flatMap Window.times) ≤ cap := by
  cases ws with
  | nil => exact Nat.zero_le _
  | cons w ws =>
      have hrest : ∀ w' ∈ ws, a + width ≤ w'.start := fun w' hw' => by
        have hw := hstart w List.mem_cons_self
        have := (List.pairwise_cons.1 h.apart).1 w' hw'
        omega
      have hfirst : inInterval width a w.times ≤ cap :=
        Nat.le_trans (inInterval_le_length a w.times) (h.length_le w List.mem_cons_self)
      rw [List.flatMap_cons, inInterval_append, h.tail.countP_eq_zero hrest]
      exact hfirst

/-- **An interval of the width of the windows holds at most twice as many times as a
window.** -/
theorem countP_le (h : Separated width cap ws) (a : ℕ) :
    inInterval width a (ws.flatMap Window.times) ≤ 2 * cap := by
  induction ws with
  | nil => exact Nat.zero_le _
  | cons w ws ih =>
      rw [List.flatMap_cons, inInterval_append]
      by_cases hmeet : ∃ t ∈ w.times, a ≤ t
      · -- the window ends after `a`, so the later ones start after it
        obtain ⟨t, ht, hat⟩ := hmeet
        have hend := (h.inside w List.mem_cons_self t ht).2
        have hrest : ∀ w' ∈ ws, a ≤ w'.start := fun w' hw' => by
          have := (List.pairwise_cons.1 h.apart).1 w' hw'
          omega
        have hlater := h.tail.countP_le_of_le hrest
        have hfirst : inInterval width a w.times ≤ cap :=
          Nat.le_trans (inInterval_le_length a w.times) (h.length_le w List.mem_cons_self)
        omega
      · have hzero : inInterval width a w.times = 0 := inInterval_eq_zero fun t ht hat =>
          absurd ⟨t, ht, hat⟩ hmeet
        rw [hzero, Nat.zero_add]
        exact ih h.tail

/-- A later window can be opened. -/
theorem concat (h : Separated width cap ws) (hstart : ∀ w' ∈ ws, w'.start + width ≤ w.start)
    (hinside : ∀ t ∈ w.times, w.start ≤ t ∧ t < w.start + width) (hlen : w.times.length ≤ cap) :
    Separated width cap (ws ++ [w]) where
  inside x hx := by
    rcases List.mem_append.1 hx with hx | hx
    · exact h.inside x hx
    · rw [List.mem_singleton.1 hx]
      exact hinside
  length_le x hx := by
    rcases List.mem_append.1 hx with hx | hx
    · exact h.length_le x hx
    · rw [List.mem_singleton.1 hx]
      exact hlen
  apart := List.pairwise_append.2 ⟨h.apart, List.pairwise_singleton .., fun x hx y hy => by
    rw [List.mem_singleton.1 hy]
    exact hstart x hx⟩

/-- The windows before the last one, and the last one. -/
theorem of_concat (h : Separated width cap (ws ++ [w])) :
    Separated width cap ws ∧ (∀ w' ∈ ws, w'.start + width ≤ w.start) ∧
      (∀ t ∈ w.times, w.start ≤ t ∧ t < w.start + width) ∧ w.times.length ≤ cap := by
  have hapart := List.pairwise_append.1 h.apart
  refine ⟨⟨fun x hx => h.inside x (List.mem_append_left _ hx),
    fun x hx => h.length_le x (List.mem_append_left _ hx), hapart.1⟩, fun x hx => ?_,
    h.inside w (by simp), h.length_le w (by simp)⟩
  exact hapart.2.2 x hx w (List.mem_singleton_self w)

end Separated

end Lib
end Hextet
