/-
# Walking a directory tree

A directory is the list of the names that lead to it from the root.  A move stays, goes
up or goes down to a name; the root is its own parent.  Whatever the start, a walk first
climbs some levels and then goes down by some names (`walk_eq`), so **two starts are led
to the same place exactly when they agree above the climb** (`walk_eq_walk_iff`).
-/

import Mathlib.Data.List.DropRight

namespace Hextet
namespace Lib

variable {α : Type*}

/-- A move in a directory tree. -/
inductive Move (α : Type*) where
  | stay
  | up
  | down (name : α)

/-- The directory after a move. -/
def Move.apply (d : List α) : Move α → List α
  | stay => d
  | up => d.dropLast
  | down name => d ++ [name]

/-- The directory after some moves. -/
def walk (d : List α) (ms : List (Move α)) : List α := ms.foldl Move.apply d

/-- How far some moves have climbed above their start and the names they have gone down
by since, after one more move. -/
def Move.net [DecidableEq α] (x : ℕ × List α) : Move α → ℕ × List α
  | stay => x
  | up => if x.2 = [] then (x.1 + 1, []) else (x.1, x.2.dropLast)
  | down name => (x.1, x.2 ++ [name])

/-- How far some moves climb above their start. -/
def climb [DecidableEq α] (ms : List (Move α)) : ℕ := (ms.foldl Move.net (0, [])).1

theorem walk_append (d : List α) (ms ms' : List (Move α)) :
    walk d (ms ++ ms') = walk (walk d ms) ms' := List.foldl_append

theorem dropLast_rdrop (d : List α) (m : ℕ) : (d.rdrop m).dropLast = d.rdrop (m + 1) := by
  rw [List.rdrop, List.rdrop, List.dropLast_eq_take, List.take_take, List.length_take]
  congr 1
  omega

variable [DecidableEq α]

theorem apply_net (d : List α) (x : ℕ × List α) (m : Move α) :
    m.apply (d.rdrop x.1 ++ x.2) = d.rdrop (m.net x).1 ++ (m.net x).2 := by
  cases m with
  | stay => rfl
  | up =>
      by_cases hx : x.2 = []
      · simp [Move.apply, Move.net, hx, dropLast_rdrop]
      · simp only [Move.apply, Move.net, hx, if_false]
        exact List.dropLast_append_of_ne_nil hx
  | down name => exact List.append_assoc ..

theorem foldl_apply_net (d : List α) (x : ℕ × List α) (ms : List (Move α)) :
    ms.foldl Move.apply (d.rdrop x.1 ++ x.2) =
      d.rdrop (ms.foldl Move.net x).1 ++ (ms.foldl Move.net x).2 := by
  induction ms generalizing x with
  | nil => rfl
  | cons m ms ih => rw [List.foldl_cons, List.foldl_cons, apply_net, ih]

/-- **A walk climbs and then goes down**, by the same names from every start. -/
theorem walk_eq (d : List α) (ms : List (Move α)) :
    walk d ms = d.rdrop (climb ms) ++ (ms.foldl Move.net (0, [])).2 := by
  have h := foldl_apply_net d (0, []) ms
  simp only [List.rdrop_zero, List.append_nil] at h
  exact h

/-- **Two starts are led to the same place exactly when they agree above the climb.** -/
theorem walk_eq_walk_iff {d d' : List α} {ms : List (Move α)} :
    walk d ms = walk d' ms ↔ d.rdrop (climb ms) = d'.rdrop (climb ms) := by
  rw [walk_eq, walk_eq, List.append_left_inj]

end Lib
end Hextet
