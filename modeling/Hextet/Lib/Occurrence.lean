/-
# Occurrence numbers

`numbered l` pairs every element of a list with the number of its occurrence: the first
`a` is `(a, 1)`, the second `(a, 2)`.  The pairs are those with a number from one to the
number of occurrences (`mem_numbered`), each of them once (`nodup_numbered`): this is
what a loop that counts in a map computes, one element at a time (`numberFrom`).
-/

import Mathlib.Data.List.Nodup

namespace Hextet
namespace Lib

variable {α : Type*} [BEq α]

/-- The occurrence numbers of the elements of a list, after the elements of `before`. -/
def numberFrom (before : List α) : List α → List (α × ℕ)
  | [] => []
  | a :: l => (a, before.count a + 1) :: numberFrom (a :: before) l

/-- The elements of a list with their occurrence numbers. -/
def numbered (l : List α) : List (α × ℕ) := numberFrom [] l

theorem length_numberFrom (before l : List α) : (numberFrom before l).length = l.length := by
  induction l generalizing before with
  | nil => rfl
  | cons a l ih => rw [numberFrom, List.length_cons, List.length_cons, ih]

theorem length_numbered (l : List α) : (numbered l).length = l.length := length_numberFrom [] l

variable [LawfulBEq α]

theorem mem_numberFrom {before l : List α} {a : α} {k : ℕ} :
    (a, k) ∈ numberFrom before l ↔ before.count a < k ∧ k ≤ before.count a + l.count a := by
  induction l generalizing before with
  | nil =>
      simp only [numberFrom, List.not_mem_nil, List.count_nil, false_iff]
      omega
  | cons b l ih =>
      rw [numberFrom, List.mem_cons, ih, Prod.mk.injEq]
      by_cases hab : b = a
      · subst hab
        simp only [List.count_cons_self, true_and]
        omega
      · have hba : a ≠ b := fun h => hab h.symm
        rw [List.count_cons_of_ne hab, List.count_cons_of_ne hab]
        simp [hba]

theorem nodup_numberFrom (before l : List α) : (numberFrom before l).Nodup := by
  induction l generalizing before with
  | nil => exact .nil
  | cons a l ih =>
      refine List.nodup_cons.2 ⟨fun h => ?_, ih _⟩
      -- later occurrences have greater numbers
      have := (mem_numberFrom.1 h).1
      rw [List.count_cons_self] at this
      omega

/-- **The pairs of a numbered list.** -/
theorem mem_numbered {l : List α} {a : α} {k : ℕ} :
    (a, k) ∈ numbered l ↔ 1 ≤ k ∧ k ≤ l.count a := by
  rw [numbered, mem_numberFrom, List.count_nil]
  omega

theorem nodup_numbered (l : List α) : (numbered l).Nodup := nodup_numberFrom [] l

end Lib
end Hextet
