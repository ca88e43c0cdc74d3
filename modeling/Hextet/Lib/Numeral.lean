/-
# Numerals and the readers of Rust's address texts

A number is written in a radix by `Nat.toDigits`, as `Display` and `{:x}` do.
Reading takes the longest run of digits (`spanDigits`) and its value
(`ofDigits`); `readNumber` is the routine of the standard library's address
parser, with its limit on the number of digits, its rule on leading zeros and
its bound.  What is written is read back, up to the first character that is no
digit (`readNumber_toDigits`).

A reader takes a text and returns a value with the text it left.
-/

import Mathlib.Data.Nat.Notation
import Mathlib.Tactic.IntervalCases

namespace Hextet
namespace Lib

/-- `char::to_digit`. -/
def toDigit (radix : ℕ) (c : Char) : Option ℕ :=
  let n := c.toNat
  let d :=
    if 48 ≤ n ∧ n ≤ 57 then some (n - 48) else if 97 ≤ n ∧ n ≤ 122 then some (n - 87)
    else if 65 ≤ n ∧ n ≤ 90 then some (n - 55) else none
  d.filter (· < radix)

/-- The longest run of digits at the head of a text, and what follows it. -/
def spanDigits (radix : ℕ) : List Char → List ℕ × List Char
  | [] => ([], [])
  | c :: s =>
      match toDigit radix c with
      | none => ([], c :: s)
      | some d => (d :: (spanDigits radix s).1, (spanDigits radix s).2)

/-- The value of a run of digits, the most significant first. -/
def ofDigits (radix : ℕ) (ds : List ℕ) : ℕ := ds.foldl (fun n d => radix * n + d) 0

/-- `Parser::read_number`: at most `maxDigits` digits, a leading zero only if
allowed or alone, the value below `bound`. -/
def readNumber (radix : ℕ) (maxDigits : Option ℕ) (allowZeroPrefix : Bool) (bound : ℕ)
    (s : List Char) : Option (ℕ × List Char) :=
  let ds := (spanDigits radix s).1
  if maxDigits.any (· < ds.length) then none
  else if ds = [] then none
  else if !allowZeroPrefix && ds.head? == some 0 && 1 < ds.length then none
  else if ofDigits radix ds < bound then some (ofDigits radix ds, (spanDigits radix s).2)
  else none

/-- `Parser::read_given_char`. -/
def readGivenChar (target : Char) : List Char → Option (List Char)
  | [] => none
  | c :: s => if c = target then some s else none

/-- `Parser::read_separator`: the separator before every item but the first. -/
def readSeparator {α : Type} (sep : Char) (index : ℕ) (inner : List Char → Option (α × List Char))
    (s : List Char) : Option (α × List Char) :=
  if 0 < index then (readGivenChar sep s).bind inner else inner s

/-- The text does not go on with a digit. -/
def NoDigit (radix : ℕ) (s : List Char) : Prop := ∀ c ∈ s.head?, toDigit radix c = none

instance (radix : ℕ) (s : List Char) : Decidable (NoDigit radix s) :=
  inferInstanceAs (Decidable (∀ c ∈ s.head?, _))

theorem NoDigit.nil (radix : ℕ) : NoDigit radix [] := by simp [NoDigit]

theorem NoDigit.cons {radix : ℕ} {c : Char} (h : toDigit radix c = none) (s : List Char) :
    NoDigit radix (c :: s) := by
  simpa [NoDigit] using h

theorem toDigit_eq_none_of_le {radix radix' : ℕ} (h : radix ≤ radix') {c : Char}
    (hc : toDigit radix' c = none) : toDigit radix c = none := by
  simp only [toDigit, Option.filter_eq_none_iff] at hc ⊢
  intro d hd
  have := hc d hd
  simp only [decide_eq_true_eq, not_lt] at this ⊢
  omega

theorem NoDigit.of_le {radix radix' : ℕ} (h : radix ≤ radix') {s : List Char}
    (hs : NoDigit radix' s) : NoDigit radix s :=
  fun c hc => toDigit_eq_none_of_le h (hs c hc)

theorem spanDigits_of_noDigit {radix : ℕ} {s : List Char} (h : NoDigit radix s) :
    spanDigits radix s = ([], s) := by
  cases s with
  | nil => rfl
  | cons c s =>
      have hc : toDigit radix c = none := h c rfl
      simp only [spanDigits, hc]

theorem toDigit_digitChar {radix d : ℕ} (hr : radix ≤ 16) (hd : d < radix) :
    toDigit radix (Nat.digitChar d) = some d := by
  have hall : ∀ d : Fin 16, toDigit 16 (Nat.digitChar d) = some d.val := by decide
  have h := hall ⟨d, by omega⟩
  simp only [toDigit, Option.filter_eq_some_iff] at h ⊢
  exact ⟨h.1, by simpa using hd⟩

theorem spanDigits_map_digitChar {radix : ℕ} (hr : radix ≤ 16) {ds : List ℕ}
    (hds : ∀ d ∈ ds, d < radix) {rest : List Char} (h : NoDigit radix rest) :
    spanDigits radix (ds.map Nat.digitChar ++ rest) = (ds, rest) := by
  induction ds with
  | nil => exact spanDigits_of_noDigit h
  | cons d ds ih =>
      have hd := toDigit_digitChar hr (hds d (List.mem_cons_self ..))
      have htl := ih fun d' hd' => hds d' (List.mem_cons_of_mem _ hd')
      simp only [List.map_cons, List.cons_append, spanDigits, hd, htl]

/-- The digits that are written, their value, and when one of them leads with zero. -/
theorem exists_digits {radix : ℕ} (hr : 1 < radix) (n : ℕ) :
    ∃ ds : List ℕ, (∀ d ∈ ds, d < radix) ∧ Nat.toDigits radix n = ds.map Nat.digitChar ∧
      ofDigits radix ds = n ∧ ds ≠ [] ∧ (ds.head? = some 0 → ds = [0]) := by
  induction n using Nat.strong_induction_on with
  | _ n ih =>
      by_cases hn : n < radix
      · exact ⟨[n], by simpa using hn, by simp [Nat.toDigits_of_lt_base hn], by simp [ofDigits],
          by simp, by simp⟩
      · have hdiv : n / radix < n := Nat.div_lt_self (by omega) hr
        obtain ⟨ds, hds, htext, hval, hne, hzero⟩ := ih (n / radix) hdiv
        refine ⟨ds ++ [n % radix], ?_, ?_, ?_, by simp, ?_⟩
        · intro d hd
          rcases List.mem_append.1 hd with hd | hd
          · exact hds d hd
          · rw [List.mem_singleton.1 hd]
            exact Nat.mod_lt _ (by omega)
        · rw [Nat.toDigits_of_base_le hr (by omega), htext]
          simp
        · rw [ofDigits, List.foldl_append]
          change radix * ofDigits radix ds + n % radix = n
          rw [hval]
          exact Nat.div_add_mod n radix
        · -- a quotient of zero would have put `n` below the radix
          intro h
          obtain ⟨d, ds', rfl⟩ := List.exists_cons_of_ne_nil hne
          rw [hzero (by simpa using h)] at hval
          have hq : n / radix = 0 := by simpa [ofDigits] using hval.symm
          have := (Nat.div_eq_zero_iff).1 hq
          omega

/-- A written number is the value of its digits. -/
theorem ofDigits_spanDigits_toDigits {radix : ℕ} (hr : 1 < radix) (hr' : radix ≤ 16) (n : ℕ) :
    ofDigits radix (spanDigits radix (Nat.toDigits radix n)).1 = n := by
  obtain ⟨ds, hds, htext, hval, -⟩ := exists_digits hr n
  have hspan := spanDigits_map_digitChar hr' hds (NoDigit.nil radix)
  rw [List.append_nil] at hspan
  rw [htext, hspan, hval]

theorem toDigits_injective {radix : ℕ} (hr : 1 < radix) (hr' : radix ≤ 16) :
    Function.Injective (Nat.toDigits radix) := by
  intro m n h
  rw [← ofDigits_spanDigits_toDigits hr hr' m, h, ofDigits_spanDigits_toDigits hr hr']

/-- **A written number is read back.** -/
theorem readNumber_toDigits {radix : ℕ} (hr : 1 < radix) (hr' : radix ≤ 16) {maxDigits : Option ℕ}
    {allowZeroPrefix : Bool} {bound n : ℕ} {rest : List Char} (hrest : NoDigit radix rest)
    (hlen : ∀ m ∈ maxDigits, 0 < m ∧ n < radix ^ m) (hn : n < bound) :
    readNumber radix maxDigits allowZeroPrefix bound (Nat.toDigits radix n ++ rest) =
      some (n, rest) := by
  obtain ⟨ds, hds, htext, hval, hne, hzero⟩ := exists_digits hr n
  have hspan := spanDigits_map_digitChar hr' hds hrest
  have hmax : (maxDigits.any (· < ds.length)) = false := by
    cases maxDigits with
    | none => rfl
    | some m =>
        have hm := hlen m rfl
        have := (Nat.length_toDigits_le_iff hr hm.1).2 hm.2
        rw [htext, List.length_map] at this
        simpa using this
  have hlead : (!allowZeroPrefix && ds.head? == some 0 && decide (1 < ds.length)) = false := by
    by_cases h : ds.head? = some 0
    · simp [hzero h]
    · simp [h]
  rw [htext]
  simp only [readNumber, hspan]
  rw [hmax, if_neg (by simp), if_neg hne, hlead, if_neg (by simp), hval, if_pos hn]

/-- A number is read to the end of its digits. -/
theorem snd_of_readNumber {radix : ℕ} {maxDigits : Option ℕ} {allowZeroPrefix : Bool}
    {bound n : ℕ} {s t : List Char}
    (h : readNumber radix maxDigits allowZeroPrefix bound s = some (n, t)) :
    t = (spanDigits radix s).2 := by
  simp only [readNumber] at h
  split_ifs at h
  exact (Prod.ext_iff.1 (Option.some.inj h)).2.symm

/-- Nothing is read where no digit stands. -/
theorem readNumber_of_noDigit {radix : ℕ} {s : List Char} (h : NoDigit radix s)
    (maxDigits : Option ℕ) (allowZeroPrefix : Bool) (bound : ℕ) :
    readNumber radix maxDigits allowZeroPrefix bound s = none := by
  simp [readNumber, spanDigits_of_noDigit h]

end Lib
end Hextet
