/-
# What spreads over links, round by round

Nodes that pass on what they have are run in rounds: a round takes what a node has to every node
it is linked to.  The nodes within `t` links of a node are its `ball`, and after `t` rounds all
of them have what it had (`Along.ball`).  Every ball is either one node larger than the one
before or holds all that can be reached (`lt_ncard_ball_or_eq`), so among `n` nodes `n - 1` rounds
reach whatever a path leads to (`Along.reaches`).
-/

import Hextet.Lib.Run
import Mathlib.Data.List.Induction
import Mathlib.Data.Set.Card
import Mathlib.Logic.Relation

namespace Hextet
namespace Lib

variable {N : Type*} (link : N → N → Prop) (i : N)

/-- The nodes that a node reaches over at most some links. -/
def ball : ℕ → Set N
  | 0 => {i}
  | t + 1 => ball t ∪ {j | ∃ m ∈ ball t, link m j}

theorem mem_ball_self (t : ℕ) : i ∈ ball link i t := by
  induction t with
  | zero => exact Set.mem_singleton i
  | succ t ih => exact Or.inl ih

/-- A ball that does not grow any more holds all that can be reached. -/
theorem mem_ball_of_closed {t : ℕ} (h : ball link i (t + 1) = ball link i t) {j : N}
    (hpath : Relation.ReflTransGen link i j) : j ∈ ball link i t := by
  induction hpath with
  | refl => exact mem_ball_self link i t
  | tail _ hlink ih => exact h ▸ Or.inr ⟨_, ih, hlink⟩

/-- **A ball has more than `t` nodes, or does not grow any more.** -/
theorem lt_ncard_ball_or_eq [Finite N] (t : ℕ) :
    t < (ball link i t).ncard ∨ ball link i (t + 1) = ball link i t := by
  induction t with
  | zero =>
      refine Or.inl ?_
      rw [ball, Set.ncard_singleton]
      exact Nat.zero_lt_one
  | succ t ih =>
      by_cases hstop : ball link i (t + 1) = ball link i t
      · -- the next ball is made from this one as this one was made from the last
        refine Or.inr ?_
        rw [ball, hstop, ← ball]
        exact hstop
      · have hgrown : t < (ball link i t).ncard := ih.resolve_right hstop
        have hsub : ball link i t ⊂ ball link i (t + 1) :=
          Set.ssubset_iff_subset_ne.2 ⟨Set.subset_union_left, Ne.symm hstop⟩
        have hlt := Set.ncard_lt_ncard hsub (Set.toFinite _)
        exact Or.inl (by omega)

/-- **Among `n` nodes a path has at most `n - 1` links**, if it has no detours. -/
theorem mem_ball_of_path [Finite N] {t : ℕ} (ht : Nat.card N ≤ t + 1) {j : N}
    (hpath : Relation.ReflTransGen link i j) : j ∈ ball link i t := by
  rcases lt_ncard_ball_or_eq link i t with hlarge | hclosed
  · have hall : ball link i t = Set.univ := by
      by_contra hne
      have hless := Set.ncard_lt_card hne
      omega
    exact hall ▸ Set.mem_univ j
  · exact mem_ball_of_closed link i hclosed hpath

variable {link i} {S I : Type*} {step : S → I → S} {ok : S → I → Prop} {P : S → N → Prop}

/-- **After `t` rounds everything within `t` links has it**: a round leaves it where it is and
takes it over every link. -/
theorem Along.ball (hkeep : ∀ s r, ok s r → ∀ j, P s j → P (step s r) j)
    (hpass : ∀ s r, ok s r → ∀ m j, link m j → P s m → P (step s r) j) {s : S} {rounds : List I}
    (hok : Along step ok s rounds) (h : P s i) :
    ∀ j ∈ Lib.ball link i rounds.length, P (run step s rounds) j := by
  induction rounds using List.reverseRecOn with
  | nil =>
      rintro j rfl
      exact h
  | append_singleton rounds r ih =>
      obtain ⟨hrounds, hlast, -⟩ := Along.append.1 hok
      intro j hj
      rw [List.length_append] at hj
      rw [run_append]
      rcases hj with hj | ⟨m, hm, hlink⟩
      · exact hkeep _ r hlast j (ih hrounds j hj)
      · exact hpass _ r hlast m j hlink (ih hrounds m hm)

/-- **Among `n` nodes `n - 1` rounds take it wherever a path leads.** -/
theorem Along.reaches [Finite N] (hkeep : ∀ s r, ok s r → ∀ j, P s j → P (step s r) j)
    (hpass : ∀ s r, ok s r → ∀ m j, link m j → P s m → P (step s r) j) {s : S} {rounds : List I}
    (hok : Along step ok s rounds) (henough : Nat.card N ≤ rounds.length + 1) {i j : N}
    (h : P s i) (hpath : Relation.ReflTransGen link i j) : P (run step s rounds) j :=
  Along.ball hkeep hpass hok h j (mem_ball_of_path link i henough hpath)

end Lib
end Hextet
