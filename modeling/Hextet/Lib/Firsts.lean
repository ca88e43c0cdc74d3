/-
# First occurrences

`firsts l` lists the elements of `l` once each, in the order in which they first
occur.  A loop that adds what is new, up to a bound, computes an initial part of it
(`foldl_addNewUpTo`), and an element makes that part exactly when few enough others
come before it (`mem_take_firsts_iff`).
-/

import Mathlib.Data.List.Nodup
import Mathlib.Data.List.TakeWhile

namespace Hextet
namespace Lib

variable {α : Type*} [DecidableEq α]

/-- Add an element at the end unless it is there. -/
def addNew (out : List α) (x : α) : List α := if x ∈ out then out else out ++ [x]

/-- The elements of a list in the order of their first occurrences. -/
def firsts (l : List α) : List α := l.foldl addNew []

/-- Add an element at the end unless it is there or the list is full. -/
def addNewUpTo (cap : ℕ) (out : List α) (x : α) : List α :=
  if out.length < cap ∧ x ∉ out then out ++ [x] else out

theorem mem_addNew {out : List α} {x y : α} : y ∈ addNew out x ↔ y ∈ out ∨ y = x := by
  unfold addNew
  split_ifs with hx
  · exact ⟨Or.inl, fun h => h.elim id fun hy => hy ▸ hx⟩
  · simp

theorem nodup_addNew {out : List α} (h : out.Nodup) (x : α) : (addNew out x).Nodup := by
  unfold addNew
  split_ifs with hx
  · exact h
  · exact List.nodup_append.2 ⟨h, List.nodup_singleton x, by
      rintro a ha b hb rfl
      exact hx (List.mem_singleton.1 hb ▸ ha)⟩

theorem mem_foldl_addNew {out l : List α} {y : α} :
    y ∈ l.foldl addNew out ↔ y ∈ out ∨ y ∈ l := by
  induction l generalizing out with
  | nil => simp
  | cons x l ih => rw [List.foldl_cons, ih, mem_addNew, List.mem_cons, or_assoc]

@[simp] theorem mem_firsts {l : List α} {y : α} : y ∈ firsts l ↔ y ∈ l := by
  rw [firsts, mem_foldl_addNew]
  simp

theorem nodup_foldl_addNew {out : List α} (h : out.Nodup) (l : List α) :
    (l.foldl addNew out).Nodup := by
  induction l generalizing out with
  | nil => exact h
  | cons x l ih => exact ih (nodup_addNew h x)

theorem nodup_firsts (l : List α) : (firsts l).Nodup := nodup_foldl_addNew .nil l

/-- The loop gives the list without its repetitions. -/
theorem foldl_addNew_eq (out l : List α) :
    l.foldl addNew out = out ++ (l.filter (· ∉ out)).eraseDups := by
  induction l generalizing out with
  | nil => simp
  | cons x l ih =>
      rw [List.foldl_cons, ih]
      unfold addNew
      by_cases hx : x ∈ out
      · rw [if_pos hx, List.filter_cons_of_neg (by simpa using hx)]
      · rw [if_neg hx, List.filter_cons_of_pos (by simpa using hx), List.eraseDups_cons,
          List.filter_filter, List.append_assoc, List.singleton_append]
        congr 4
        funext y
        rw [beq_eq_decide]
        simp [and_comm]

theorem firsts_eq_eraseDups (l : List α) : firsts l = l.eraseDups := by
  rw [firsts, foldl_addNew_eq]
  simp

/-- What is collected stays at the front. -/
theorem prefix_foldl_addNew (out l : List α) : out <+: l.foldl addNew out := by
  induction l generalizing out with
  | nil => exact List.prefix_rfl
  | cons x l ih =>
      refine List.IsPrefix.trans ?_ (ih (addNew out x))
      unfold addNew
      split_ifs
      · exact List.prefix_rfl
      · exact List.prefix_append ..

/-- **A bounded loop computes an initial part.** -/
theorem foldl_addNewUpTo (cap : ℕ) (l : List α) :
    l.foldl (addNewUpTo cap) [] = (firsts l).take cap := by
  have hstep : ∀ (out : List α) (x : α),
      addNewUpTo cap (out.take cap) x = (addNew out x).take cap := by
    intro out x
    unfold addNewUpTo addNew
    by_cases hlen : out.length < cap
    · rw [List.take_of_length_le hlen.le]
      by_cases hx : x ∈ out
      · rw [if_neg (fun h => h.2 hx), if_pos hx, List.take_of_length_le hlen.le]
      · have hfits : (out ++ [x]).length ≤ cap := by
          rw [List.length_append]
          exact hlen
        rw [if_pos ⟨hlen, hx⟩, if_neg hx, List.take_of_length_le hfits]
    · have hfull : ¬(out.take cap).length < cap := by
        rw [List.length_take, Nat.min_eq_left (not_lt.1 hlen)]
        exact lt_irrefl cap
      rw [if_neg fun h => hfull h.1]
      split_ifs
      · rfl
      · rw [List.take_append_of_le_length (not_lt.1 hlen)]
  have hloop : ∀ out : List α,
      l.foldl (addNewUpTo cap) (out.take cap) = (l.foldl addNew out).take cap := by
    induction l with
    | nil => exact fun out => rfl
    | cons x l ih =>
        intro out
        rw [List.foldl_cons, List.foldl_cons, hstep, ih]
  simpa [firsts] using hloop []

/-- Before the first occurrence of an element stand the first occurrences before
it. -/
theorem exists_firsts_eq {l : List α} {x : α} (hx : x ∈ l) :
    ∃ after, x ∉ firsts (l.takeWhile fun y => y ≠ x) ∧
      firsts l = firsts (l.takeWhile fun y => y ≠ x) ++ x :: after := by
  obtain ⟨before, rest, rfl, hnot⟩ := List.eq_append_cons_of_mem hx
  have htake : (before ++ x :: rest).takeWhile (fun y => y ≠ x) = before := by
    rw [List.takeWhile_append_of_pos]
    · simp
    · intro y hy
      simpa using fun h : y = x => hnot (h ▸ hy)
  rw [htake]
  have hnot' : x ∉ firsts before := fun h => hnot (mem_firsts.1 h)
  obtain ⟨after, hafter⟩ := prefix_foldl_addNew (addNew (firsts before) x) rest
  refine ⟨after, hnot', ?_⟩
  rw [firsts, List.foldl_append, List.foldl_cons, ← firsts, ← hafter, addNew, if_neg hnot']
  simp

/-- **An element makes the initial part exactly when few enough others come before
it.** -/
theorem mem_take_firsts_iff {l : List α} {cap : ℕ} {x : α} :
    x ∈ (firsts l).take cap ↔
      x ∈ l ∧ (firsts (l.takeWhile fun y => y ≠ x)).length < cap := by
  constructor
  · intro h
    have hx : x ∈ l := mem_firsts.1 (List.mem_of_mem_take h)
    refine ⟨hx, ?_⟩
    obtain ⟨after, hnot, hfirsts⟩ := exists_firsts_eq hx
    by_contra hlen
    rw [hfirsts, List.take_append_of_le_length (not_lt.1 hlen)] at h
    exact hnot (List.mem_of_mem_take h)
  · rintro ⟨hx, hlen⟩
    obtain ⟨after, -, hfirsts⟩ := exists_firsts_eq hx
    obtain ⟨n, hn⟩ := Nat.exists_eq_add_of_lt hlen
    rw [hfirsts, List.take_append, List.mem_append, hn, Nat.add_assoc, Nat.add_sub_cancel_left]
    exact Or.inr List.mem_cons_self

end Lib
end Hextet
