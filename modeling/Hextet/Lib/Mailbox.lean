/-
# The last message about a key

Messages in flight in a channel overwrite each other: what the receiver will hold about a
key, once all have been taken, is what the last message about it says (`lastSent`).
-/

import Mathlib.Data.List.Basic

namespace Hextet
namespace Lib

variable {M κ V : Type*} [DecidableEq κ] (key : M → κ) (value : M → V)

/-- What the last message about a key says. -/
def lastSent (k : κ) : List M → Option V
  | [] => none
  | m :: ms => (lastSent k ms).or (if key m = k then some (value m) else none)

variable {key value} {k : κ} {ms : List M}

/-- A message that is sent is the last about its key. -/
theorem lastSent_append (ms : List M) (m : M) :
    lastSent key value k (ms ++ [m]) =
      if key m = k then some (value m) else lastSent key value k ms := by
  induction ms with
  | nil => rfl
  | cons n ms ih =>
      rw [List.cons_append, lastSent, ih]
      by_cases hm : key m = k
      · rw [if_pos hm, if_pos hm, Option.some_or]
      · rw [if_neg hm, if_neg hm, lastSent]

theorem lastSent_eq_none_iff : lastSent key value k ms = none ↔ ∀ m ∈ ms, key m ≠ k := by
  induction ms with
  | nil => simp [lastSent]
  | cons m ms ih =>
      rw [lastSent, Option.or_eq_none_iff, ih, List.forall_mem_cons, and_comm]
      simp

theorem exists_of_lastSent {v : V} (h : lastSent key value k ms = some v) :
    ∃ m ∈ ms, key m = k ∧ value m = v := by
  induction ms with
  | nil => cases h
  | cons m ms ih =>
      rw [lastSent, Option.or_eq_some_iff] at h
      rcases h with h | ⟨-, h⟩
      · obtain ⟨n, hn, hkey, hvalue⟩ := ih h
        exact ⟨n, List.mem_cons_of_mem m hn, hkey, hvalue⟩
      · split_ifs at h with hkey
        exact ⟨m, List.mem_cons_self, hkey, Option.some.inj h⟩

end Lib
end Hextet
