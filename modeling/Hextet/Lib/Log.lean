/-
# Logs

A log grows at its end.  `Logged Φ log` says that every entry stands in the relation `Φ` to
the entries before it, and is kept by an entry that does (`Logged.concat`).
-/

import Mathlib.Data.List.Induction

namespace Hextet
namespace Lib

variable {α : Type*} {Φ : List α → α → Prop} {log : List α} {x : α}

/-- An entry of a longer log is the new one or one of the log before. -/
theorem split_concat {before after : List α} {y : α} (h : log ++ [x] = before ++ y :: after) :
    after = [] ∧ y = x ∧ before = log ∨
      ∃ after', after = after' ++ [x] ∧ log = before ++ y :: after' := by
  cases after using List.reverseRecOn with
  | nil =>
      obtain ⟨rfl, hxy⟩ := List.append_inj' h rfl
      exact Or.inl ⟨rfl, by simpa [eq_comm] using hxy, rfl⟩
  | append_singleton after z =>
      rw [← List.cons_append, ← List.append_assoc] at h
      obtain ⟨hlog, hxz⟩ := List.append_inj' h rfl
      obtain rfl : x = z := by simpa using hxz
      exact Or.inr ⟨after, rfl, hlog⟩

/-- Every entry of the log stands in the relation to what was logged before it. -/
def Logged (Φ : List α → α → Prop) (log : List α) : Prop :=
  ∀ before x after, log = before ++ x :: after → Φ before x

theorem Logged.nil : Logged Φ [] := fun before x after h => by simp at h

/-- An entry is added at the end. -/
theorem Logged.concat (h : Logged Φ log) (hx : Φ log x) : Logged Φ (log ++ [x]) := by
  intro before y after hsplit
  rcases split_concat hsplit with ⟨-, rfl, rfl⟩ | ⟨after', -, hlog⟩
  · exact hx
  · exact h before y after' hlog

end Lib
end Hextet
