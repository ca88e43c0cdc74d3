/-
# Runs of a step function

A system with a total step function is run by a list of inputs.  `Along ok s is`
says that every step of the run from `s` by `is` meets a condition on the state
it starts from and its input; the invariant rule asks for preservation only under
that condition (`Along.invariant`).  A point of a run is a state with the inputs that are left
there, and `Leads` says that one point is reached from another.
-/

import Mathlib.Data.List.Basic

namespace Hextet
namespace Lib

variable {S I : Type*} (step : S → I → S)

/-- The state after some inputs. -/
def run (s : S) (is : List I) : S := is.foldl step s

@[simp] theorem run_nil (s : S) : run step s [] = s := rfl

@[simp] theorem run_cons (s : S) (i : I) (is : List I) :
    run step s (i :: is) = run step (step s i) is := rfl

theorem run_append (s : S) (is is' : List I) :
    run step s (is ++ is') = run step (run step s is) is' := List.foldl_append ..

/-- Every step of the run meets a condition. -/
def Along (ok : S → I → Prop) : S → List I → Prop
  | _, [] => True
  | s, i :: is => ok s i ∧ Along ok (step s i) is

instance Along.decidable {ok : S → I → Prop} [∀ s i, Decidable (ok s i)] :
    (s : S) → (is : List I) → Decidable (Along step ok s is)
  | _, [] => .isTrue trivial
  | s, i :: is =>
      have : Decidable (Along step ok (step s i) is) := Along.decidable (step s i) is
      inferInstanceAs (Decidable (ok s i ∧ Along step ok (step s i) is))

variable {step}

theorem Along.append {ok : S → I → Prop} {s : S} {is is' : List I} :
    Along step ok s (is ++ is') ↔ Along step ok s is ∧ Along step ok (run step s is) is' := by
  induction is generalizing s with
  | nil => simp [Along]
  | cons i is ih => rw [List.cons_append, Along, Along, ih, run_cons, and_assoc]

/-- **The invariant rule**: what every step that meets the condition keeps, a run
of such steps keeps. -/
theorem Along.invariant {ok : S → I → Prop} {P : S → Prop}
    (hstep : ∀ s i, P s → ok s i → P (step s i)) {s : S} {is : List I} (h : P s)
    (hok : Along step ok s is) : P (run step s is) := by
  induction is generalizing s with
  | nil => exact h
  | cons i is ih => exact ih (hstep s i h hok.1) hok.2

/-- A condition on the inputs alone is met along any run by such inputs. -/
theorem Along.of_forall {ok : I → Prop} {is : List I} (h : ∀ i ∈ is, ok i) (s : S) :
    Along step (fun _ i => ok i) s is := by
  induction is generalizing s with
  | nil => trivial
  | cons i is ih =>
      exact ⟨h i (List.mem_cons_self ..), ih (fun j hj => h j (List.mem_cons_of_mem _ hj)) _⟩

theorem Along.and {ok ok' : S → I → Prop} {s : S} {is : List I} (h : Along step ok s is)
    (h' : Along step ok' s is) : Along step (fun s i => ok s i ∧ ok' s i) s is := by
  induction is generalizing s with
  | nil => trivial
  | cons i is ih => exact ⟨⟨h.1, h'.1⟩, ih h.2 h'.2⟩

/-- What implies a condition at every state of an invariant implies it along a run. -/
theorem Along.imp_of_invariant {side ok ok' : S → I → Prop} {P : S → Prop}
    (hkeep : ∀ s i, P s → side s i → P (step s i))
    (himp : ∀ s i, P s → side s i → ok s i → ok' s i) {s : S} (h : P s) {is : List I}
    (hside : Along step side s is) (hok : Along step ok s is) : Along step ok' s is := by
  induction is generalizing s with
  | nil => trivial
  | cons i is ih =>
      exact ⟨himp s i h hside.1 hok.1, ih (hkeep s i h hside.1) hside.2 hok.2⟩

/-- Two conditions that agree in the states of an invariant agree along a run. -/
theorem Along.congr {ok ok' : S → I → Prop} {P : S → Prop}
    (hkeep : ∀ s i, P s → ok s i → P (step s i)) (hiff : ∀ s i, P s → (ok s i ↔ ok' s i)) {s : S}
    (h : P s) (is : List I) : Along step ok s is ↔ Along step ok' s is := by
  constructor
  · intro hok
    exact hok.imp_of_invariant hkeep (fun s i hs hside _ => (hiff s i hs).1 hside) h hok
  · intro hok
    exact hok.imp_of_invariant (fun s i hs hi => hkeep s i hs ((hiff s i hs).2 hi))
      (fun s i hs hside _ => (hiff s i hs).2 hside) h hok

/-- **When a property holds in every state of a run** of steps that meet a side condition:
if a step that meets the condition keeps an invariant that implies the property, and a
step that does not meet it breaks the property, then exactly when every step meets it. -/
theorem Along.iff_forall_prefix_of {side ok : S → I → Prop} {P Q : S → Prop}
    (hkeep : ∀ s i, P s → side s i → ok s i → P (step s i)) (hgood : ∀ s, P s → Q s)
    (hbad : ∀ s i, P s → side s i → ¬ok s i → ¬Q (step s i)) {s : S} (h : P s) {is : List I}
    (hside : Along step side s is) :
    Along step ok s is ↔ ∀ js, js <+: is → Q (run step s js) := by
  induction is generalizing s with
  | nil =>
      refine iff_of_true trivial fun js hjs => ?_
      obtain rfl := List.prefix_nil.1 hjs
      exact hgood s h
  | cons i is ih =>
      rw [Along]
      constructor
      · rintro ⟨hi, hrest⟩ js hjs
        cases js with
        | nil => exact hgood s h
        | cons j js =>
            obtain ⟨rfl, htail⟩ := List.cons_prefix_cons.1 hjs
            exact (ih (hkeep s j h hside.1 hi) hside.2).1 hrest js htail
      · intro hall
        have hi : ok s i := not_not.1 fun hno =>
          hbad s i h hside.1 hno (hall [i] (List.cons_prefix_cons.2 ⟨rfl, List.nil_prefix⟩))
        refine ⟨hi, (ih (hkeep s i h hside.1 hi) hside.2).2 fun js hjs => ?_⟩
        exact hall (i :: js) (List.cons_prefix_cons.2 ⟨rfl, hjs⟩)

/-- The same of any run. -/
theorem Along.iff_forall_prefix {ok : S → I → Prop} {P Q : S → Prop}
    (hkeep : ∀ s i, P s → ok s i → P (step s i)) (hgood : ∀ s, P s → Q s)
    (hbad : ∀ s i, P s → ¬ok s i → ¬Q (step s i)) {s : S} (h : P s) (is : List I) :
    Along step ok s is ↔ ∀ js, js <+: is → Q (run step s js) :=
  Along.iff_forall_prefix_of (fun s i h _ => hkeep s i h) hgood (fun s i h _ => hbad s i h) h
    (Along.of_forall (fun _ _ => trivial) s)

/-- What every step keeps, a run keeps. -/
theorem run_invariant {P : S → Prop} (hstep : ∀ s i, P s → P (step s i)) {s : S} (h : P s)
    (is : List I) : P (run step s is) := by
  induction is generalizing s with
  | nil => exact h
  | cons i is ih => exact ih (hstep s i h)

/-! ### Points of a run -/

variable (step) in
/-- The run from a state by some inputs comes to another state, where others are left. -/
def Leads (s : S) (is : List I) (s' : S) (is' : List I) : Prop :=
  ∃ done, is = done ++ is' ∧ run step s done = s'

section

variable {s s' s'' : S} {is is' is'' : List I} {i : I}

theorem Leads.trans (h : Leads step s is s' is') (h' : Leads step s' is' s'' is'') :
    Leads step s is s'' is'' := by
  obtain ⟨done, rfl, rfl⟩ := h
  obtain ⟨more, rfl, rfl⟩ := h'
  exact ⟨done ++ more, by rw [List.append_assoc], run_append ..⟩

/-- The point after an input. -/
theorem Leads.next (h : Leads step s is s' (i :: is')) : Leads step s is (step s' i) is' :=
  h.trans ⟨[i], rfl, rfl⟩

/-- Every point of a run leads to its end. -/
theorem Leads.run_eq (h : Leads step s is s' is') : run step s' is' = run step s is := by
  obtain ⟨done, rfl, rfl⟩ := h
  exact (run_append ..).symm

end

end Lib
end Hextet
