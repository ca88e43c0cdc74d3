/-
# Fallible sequences

A Rust function with `?` is a sequence in `Except`.  A value comes out of it
exactly when one comes out of every part (`bind_eq_ok`), and out of a loop with
`?` exactly when each item gives one (`mapM_eq_ok`).
-/

import Mathlib.Data.List.Forall2

namespace Hextet
namespace Lib
namespace Fallible

variable {ε ε' α β : Type}

theorem bind_eq_ok {x : Except ε α} {f : α → Except ε β} {b : β} :
    (x >>= f) = .ok b ↔ ∃ a, x = .ok a ∧ f a = .ok b := by
  cases x <;> simp [bind, Except.bind]

@[simp] theorem ok_bind (a : α) (f : α → Except ε β) : (Except.ok a >>= f) = f a := rfl

@[simp] theorem mapError_ok (f : ε → ε') (a : α) :
    (Except.ok a : Except ε α).mapError f = .ok a := rfl

theorem mapError_eq_ok {x : Except ε α} {f : ε → ε'} {a : α} :
    x.mapError f = .ok a ↔ x = .ok a := by
  cases x <;> simp [Except.mapError]

theorem exists_of_isOk {x : Except ε α} (h : x.isOk = true) : ∃ a, x = .ok a := by
  cases x with
  | error e => cases h
  | ok a => exact ⟨a, rfl⟩

/-- A loop gives the values of its items. -/
theorem mapM_eq_ok {f : α → Except ε β} {l : List α} {ys : List β} :
    l.mapM f = .ok ys ↔ List.Forall₂ (fun x y => f x = .ok y) l ys := by
  induction l generalizing ys with
  | nil =>
      rw [List.mapM_nil, List.forall₂_nil_left_iff]
      exact ⟨fun h => (Except.ok.inj h).symm, fun h => by rw [h]; rfl⟩
  | cons x l ih =>
      rw [List.mapM_cons, bind_eq_ok, List.forall₂_cons_left_iff]
      constructor
      · rintro ⟨y, hy, h⟩
        obtain ⟨ys', hys, h⟩ := bind_eq_ok.1 h
        exact ⟨y, ys', hy, ih.1 hys, (Except.ok.inj h).symm⟩
      · rintro ⟨y, ys', hy, hys, rfl⟩
        exact ⟨y, hy, bind_eq_ok.2 ⟨ys', ih.2 hys, rfl⟩⟩

/-- A loop whose items all give a value gives the list of them. -/
theorem mapM_map {γ : Type} {f : α → Except ε β} {g : γ → α} {h : γ → β} {l : List γ}
    (hl : ∀ x ∈ l, f (g x) = .ok (h x)) : (l.map g).mapM f = .ok (l.map h) := by
  rw [mapM_eq_ok, List.forall₂_map_left_iff, List.forall₂_map_right_iff, List.forall₂_same]
  exact hl

/-- One item more is one value more. -/
theorem mapM_concat_eq_ok {f : α → Except ε β} {l : List α} {ys : List β} (h : l.mapM f = .ok ys)
    {x : α} {zs : List β} : (l ++ [x]).mapM f = .ok zs ↔ ∃ z, f x = .ok z ∧ zs = ys ++ [z] := by
  rw [List.mapM_append, h, ok_bind, bind_eq_ok]
  constructor
  · rintro ⟨last, hlast, hzs⟩
    obtain ⟨z, rest, hz, hrest, rfl⟩ := List.forall₂_cons_left_iff.1 (mapM_eq_ok.1 hlast)
    rw [List.forall₂_nil_left_iff] at hrest
    cases hzs
    exact ⟨z, hz, by rw [hrest]⟩
  · rintro ⟨z, hz, rfl⟩
    exact ⟨[z], mapM_eq_ok.2 (.cons hz .nil), rfl⟩

end Fallible
end Lib
end Hextet
