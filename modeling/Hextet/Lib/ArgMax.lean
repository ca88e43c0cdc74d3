/-
# The first greatest element of a list

`List.argmax f l` runs over a list and replaces its candidate by an element at which `f` is
strictly greater.  What it returns is the first of the elements at which `f` is greatest
(`argmax_of_firstGreatest`, `firstGreatest_of_argmax`).  Elements below another one can be put
in anywhere (`argmax_insert`), and the order does not matter when one element is above all
others (`argmax_eq_of_perm`).
-/

import Mathlib.Data.List.MinMax

namespace Hextet
namespace Lib

variable {α β : Type*} [LinearOrder β] {f : α → β} {l l' : List α} {m : α}

/-- The first of the elements at which `f` is greatest: less before it, not more after it. -/
def FirstGreatest (f : α → β) (l : List α) (m : α) : Prop :=
  ∃ before after, l = before ++ m :: after ∧ (∀ a ∈ before, f a < f m) ∧ ∀ a ∈ after, f a ≤ f m

theorem argmax_of_firstGreatest (h : FirstGreatest f l m) : l.argmax f = some m := by
  obtain ⟨before, after, rfl, hbefore, hafter⟩ := h
  induction after using List.reverseRecOn with
  | nil =>
      rw [List.argmax_concat]
      cases hc : before.argmax f with
      | none => rfl
      | some c => exact if_pos (hbefore c (List.argmax_mem hc))
  | append_singleton after a ih =>
      have hlast : ¬f m < f a := not_lt.2 (hafter a (by simp))
      have hrest := ih fun x hx => hafter x (List.mem_append_left _ hx)
      rw [← List.cons_append, ← List.append_assoc, List.argmax_concat, hrest]
      exact if_neg hlast

theorem firstGreatest_of_argmax (h : l.argmax f = some m) : FirstGreatest f l m := by
  induction l using List.reverseRecOn generalizing m with
  | nil => cases h
  | append_singleton l a ih =>
      rw [List.argmax_concat] at h
      cases hc : l.argmax f with
      | none =>
          rw [hc] at h
          obtain rfl : a = m := Option.some.inj h
          have hnil : l = [] := List.argmax_eq_none.1 hc
          exact ⟨[], [], by simp [hnil], by simp, by simp⟩
      | some c =>
          rw [hc] at h
          simp only at h
          split_ifs at h with hlt
          · -- the last element replaces the candidate: it is above everything before
            obtain rfl : a = m := Option.some.inj h
            exact ⟨l, [], rfl, fun x hx => (List.le_of_mem_argmax hx hc).trans_lt hlt, by simp⟩
          · obtain rfl : c = m := Option.some.inj h
            obtain ⟨before, after, rfl, hbefore, hafter⟩ := ih hc
            refine ⟨before, after ++ [a], by simp, hbefore, fun x hx => ?_⟩
            rcases List.mem_append.1 hx with hx | hx
            · exact hafter x hx
            · rw [List.mem_singleton.1 hx]
              exact not_lt.1 hlt

/-- **Elements below another one do not count**, wherever they stand. -/
theorem argmax_insert {before mid after : List α}
    (hmid : ∀ a ∈ mid, ∃ q ∈ before ++ after, f a < f q) :
    (before ++ mid ++ after).argmax f = (before ++ after).argmax f := by
  cases hm : (before ++ after).argmax f with
  | none =>
      obtain ⟨rfl, rfl⟩ := List.append_eq_nil_iff.1 (List.argmax_eq_none.1 hm)
      have hnil : mid = [] := List.eq_nil_iff_forall_not_mem.2 fun a ha => by
        obtain ⟨q, hq, -⟩ := hmid a ha
        cases hq
      simp [hnil]
  | some m =>
      have hmid' : ∀ a ∈ mid, f a < f m := fun a ha => by
        obtain ⟨q, hq, hlt⟩ := hmid a ha
        exact hlt.trans_le (List.le_of_mem_argmax hq hm)
      obtain ⟨l₁, l₂, hsplit, hl₁, hl₂⟩ := firstGreatest_of_argmax hm
      refine argmax_of_firstGreatest ?_
      rcases List.append_eq_append_iff.1 hsplit with ⟨t, rfl, rfl⟩ | ⟨t, rfl, ht⟩
      · refine ⟨before ++ mid ++ t, l₂, by simp, fun a ha => ?_, hl₂⟩
        rcases List.mem_append.1 ha with ha | ha
        · rcases List.mem_append.1 ha with ha | ha
          · exact hl₁ a (List.mem_append_left _ ha)
          · exact hmid' a ha
        · exact hl₁ a (List.mem_append_right _ ha)
      · cases t with
        | nil =>
            rw [List.nil_append] at ht
            refine ⟨l₁ ++ mid, l₂, by simp [← ht], fun a ha => ?_, hl₂⟩
            rcases List.mem_append.1 ha with ha | ha
            · exact hl₁ a ha
            · exact hmid' a ha
        | cons b t =>
            rw [List.cons_append, List.cons.injEq] at ht
            obtain ⟨rfl, rfl⟩ := ht
            refine ⟨l₁, t ++ mid ++ after, by simp, hl₁, fun a ha => ?_⟩
            rcases List.mem_append.1 ha with ha | ha
            · rcases List.mem_append.1 ha with ha | ha
              · exact hl₂ a (List.mem_append_left _ ha)
              · exact (hmid' a ha).le
            · exact hl₂ a (List.mem_append_right _ ha)

/-- **The order does not matter** when one element is above all others. -/
theorem argmax_eq_of_perm {before after : List α} (h : (before ++ m :: after).Perm l')
    (hm : ∀ a ∈ before ++ after, f a < f m) :
    l'.argmax f = (before ++ m :: after).argmax f := by
  have htop : ∀ {l₁ l₂ : List α}, (∀ a ∈ l₁ ++ l₂, f a < f m) →
      (l₁ ++ m :: l₂).argmax f = some m := fun hlt => argmax_of_firstGreatest
    ⟨_, _, rfl, fun a ha => hlt a (List.mem_append_left _ ha),
      fun a ha => (hlt a (List.mem_append_right _ ha)).le⟩
  have hmem : m ∈ l' := h.mem_iff.1 (by simp)
  obtain ⟨l₁, l₂, rfl⟩ := List.append_of_mem hmem
  have hothers : (before ++ after).Perm (l₁ ++ l₂) :=
    (List.perm_middle.symm.trans (h.trans List.perm_middle)).cons_inv
  rw [htop hm, htop fun a ha => hm a (hothers.mem_iff.2 ha)]

end Lib
end Hextet
