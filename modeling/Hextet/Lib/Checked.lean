/-
# Machines that may panic

`v[i]` of a list and `a % b` of Rust, which panic out of range and at zero, as `Outcome`s.  A
machine whose steps may panic is run until one does (`tryRun`).  Where every step ends as a
total one does, so does every run (`tryRun_eq_ok`).
-/

import Hextet.Lib.Bytes
import Hextet.Lib.Run

namespace Hextet
namespace Lib

variable {ε α S I : Type}

/-- `v[i]`. -/
def elemAt (v : List α) (i : ℕ) : Outcome ε α :=
  match v[i]? with
  | some x => .ok x
  | none => .panic

/-- `a % b`. -/
def remBy (a b : ℕ) : Outcome ε ℕ := if b = 0 then .panic else .ok (a % b)

theorem elemAt_of_getElem? {v : List α} {i : ℕ} {x : α} (h : v[i]? = some x) :
    elemAt v i = (.ok x : Outcome ε α) := by
  rw [elemAt, h]

theorem remBy_of_ne_zero {b : ℕ} (h : b ≠ 0) (a : ℕ) : remBy a b = (.ok (a % b) : Outcome ε ℕ) :=
  if_neg h

/-- The state after some inputs, if no step panics. -/
def tryRun (step : S → I → Outcome ε S) (s : S) (is : List I) : Outcome ε S := is.foldlM step s

/-- **A machine whose steps never panic runs** as the total one. -/
theorem tryRun_eq_ok {try' : S → I → Outcome ε S} {step : S → I → S}
    (h : ∀ s i, try' s i = .ok (step s i)) (s : S) (is : List I) :
    tryRun try' s is = .ok (run step s is) := by
  induction is generalizing s with
  | nil => rfl
  | cons i is ih =>
      rw [tryRun, List.foldlM_cons, h, Outcome.ok_bind, run_cons]
      exact ih _

end Lib
end Hextet
