/-
# Lists in the order of a key

A stable sort by a key keeps the elements of one key in the order they came
(`filter_insertionSort`), and a list that is in order is known by these parts
(`InOrder.ext`), so that all stable sorts give one list
(`insertionSort_eq_mergeSort`).
-/

import Mathlib.Data.List.Sort

namespace Hextet
namespace Lib

variable {α κ : Type*} [LinearOrder κ] {key : α → κ} {l l' : List α}

/-- The keys do not decrease. -/
def InOrder (key : α → κ) (l : List α) : Prop := l.Pairwise fun a b => key a ≤ key b

theorem inOrder_insertionSort (key : α → κ) (l : List α) :
    InOrder key (l.insertionSort fun a b => key a ≤ key b) :=
  have : Std.Total fun a b : α => key a ≤ key b := ⟨fun a b => le_total (key a) (key b)⟩
  have : IsTrans α fun a b => key a ≤ key b := ⟨fun _ _ _ => le_trans⟩
  List.pairwise_insertionSort _ l

/-- A rearrangement that keeps every sublist in order keeps the elements of one key as
they came. -/
theorem filter_eq_of_stable (hperm : l'.Perm l)
    (hstable : ∀ part, InOrder key part → part.Sublist l → part.Sublist l') (k : κ) :
    (l'.filter fun a => key a = k) = l.filter fun a => key a = k := by
  have hpart : InOrder key (l.filter fun a => key a = k) := by
    refine List.pairwise_of_forall_mem_list fun a ha b hb => ?_
    have hak : key a = k := by simpa using (List.mem_filter.1 ha).2
    have hbk : key b = k := by simpa using (List.mem_filter.1 hb).2
    rw [hak, hbk]
  have hsub := (hstable _ hpart List.filter_sublist).filter fun a => key a = k
  rw [List.filter_filter] at hsub
  simp only [Bool.and_self] at hsub
  exact (hsub.eq_of_length (hperm.filter _).length_eq.symm).symm

/-- **A stable sort keeps the elements of one key as they came.** -/
theorem filter_insertionSort (key : α → κ) (l : List α) (k : κ) :
    (l.insertionSort fun a b => key a ≤ key b).filter (fun a => key a = k) =
      l.filter fun a => key a = k :=
  have : Std.Total fun a b : α => key a ≤ key b := ⟨fun a b => le_total (key a) (key b)⟩
  have : IsTrans α fun a b => key a ≤ key b := ⟨fun _ _ _ => le_trans⟩
  filter_eq_of_stable (List.perm_insertionSort _ l)
    (fun _ hpart hsub => List.sublist_insertionSort hpart hsub) k

theorem InOrder.tail {a : α} (h : InOrder key (a :: l)) : InOrder key l := List.Pairwise.of_cons h

/-- The first key is least. -/
theorem InOrder.head_le {a b : α} (h : InOrder key (a :: l)) (hb : b ∈ a :: l) :
    key a ≤ key b := by
  rcases List.mem_cons.1 hb with rfl | hb
  · exact le_rfl
  · exact List.rel_of_pairwise_cons h hb

theorem mem_iff_of_parts
    (hparts : ∀ k, (l.filter fun a => key a = k) = l'.filter fun a => key a = k) (a : α) :
    a ∈ l ↔ a ∈ l' := by
  have ha := congrArg (a ∈ ·) (hparts (key a))
  simpa using ha

/-- **Lists in order with the same parts are equal.** -/
theorem InOrder.ext (h : InOrder key l) (h' : InOrder key l')
    (hparts : ∀ k, (l.filter fun a => key a = k) = l'.filter fun a => key a = k) : l = l' := by
  induction l generalizing l' with
  | nil =>
      refine (List.eq_nil_iff_forall_not_mem.2 fun a ha => ?_).symm
      cases (mem_iff_of_parts hparts a).2 ha
  | cons a l ih =>
      have hmem := mem_iff_of_parts hparts
      cases l' with
      | nil => cases (hmem a).1 List.mem_cons_self
      | cons b l' =>
          have hkey : key a = key b :=
            le_antisymm (h.head_le ((hmem b).2 List.mem_cons_self))
              (h'.head_le ((hmem a).1 List.mem_cons_self))
          have hab : a = b := by
            have hheads := hparts (key a)
            rw [List.filter_cons_of_pos (by simp), List.filter_cons_of_pos (by simp [hkey])]
              at hheads
            exact List.head_eq_of_cons_eq hheads
          subst hab
          have htails : ∀ k, (l.filter fun a => key a = k) = l'.filter fun a => key a = k := by
            intro k
            have hk := hparts k
            by_cases hak : key a = k
            · rwa [List.filter_cons_of_pos (by simpa using hak),
                List.filter_cons_of_pos (by simpa using hak), List.cons_inj_right] at hk
            · rwa [List.filter_cons_of_neg (by simpa using hak),
                List.filter_cons_of_neg (by simpa using hak)] at hk
          exact congrArg (a :: ·) (ih h.tail h'.tail htails)

/-- **The two stable sorts agree.** -/
theorem insertionSort_eq_mergeSort (key : α → κ) (l : List α) :
    (l.insertionSort fun a b => key a ≤ key b) = l.mergeSort fun a b => key a ≤ key b := by
  have htrans : ∀ a b c : α, decide (key a ≤ key b) = true → decide (key b ≤ key c) = true →
      decide (key a ≤ key c) = true := by
    intro a b c hab hbc
    exact decide_eq_true ((of_decide_eq_true hab).trans (of_decide_eq_true hbc))
  have htotal : ∀ a b : α, (decide (key a ≤ key b) || decide (key b ≤ key a)) = true := by
    intro a b
    simpa using le_total (key a) (key b)
  have horder : InOrder key (l.mergeSort fun a b => key a ≤ key b) :=
    (List.pairwise_mergeSort htrans htotal l).imp of_decide_eq_true
  refine (inOrder_insertionSort key l).ext horder fun k => ?_
  rw [filter_insertionSort, filter_eq_of_stable (List.mergeSort_perm l _)]
  intro part hpart hsub
  exact List.sublist_mergeSort htrans htotal (hpart.imp decide_eq_true) hsub

end Lib
end Hextet
