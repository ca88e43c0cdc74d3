/-
# The bits of a byte string

A byte string is a string of bits, the high bit of each byte first, as in an address or a
prefix of one.  Bit `k` is bit `7 - k % 8` of byte `k / 8` (`getElem?_bits`), and the bits
determine the bytes (`bits_injective`).
-/

import Mathlib.Data.List.Basic
import Mathlib.Data.Nat.Bitwise

namespace Hextet
namespace Lib

/-- The bits of a byte, the high one first. -/
def byteBits (x : UInt8) : List Bool := (List.range 8).map fun j => x.toNat.testBit (7 - j)

/-- The bits of a byte string. -/
def bits (b : List UInt8) : List Bool := b.flatMap byteBits

@[simp] theorem length_byteBits (x : UInt8) : (byteBits x).length = 8 := by
  rw [byteBits, List.length_map, List.length_range]

theorem bits_cons (x : UInt8) (b : List UInt8) : bits (x :: b) = byteBits x ++ bits b := rfl

@[simp] theorem length_bits (b : List UInt8) : (bits b).length = 8 * b.length := by
  induction b with
  | nil => rfl
  | cons x b ih =>
      rw [bits_cons, List.length_append, ih, length_byteBits, List.length_cons]
      omega

theorem getElem?_byteBits (x : UInt8) {j : ℕ} (hj : j < 8) :
    (byteBits x)[j]? = some (x.toNat.testBit (7 - j)) := by
  rw [byteBits, List.getElem?_map, List.getElem?_range hj]
  rfl

/-- **Where a bit stands.** -/
theorem getElem?_bits (b : List UInt8) (k : ℕ) :
    (bits b)[k]? = (b[k / 8]?).map fun x => x.toNat.testBit (7 - k % 8) := by
  induction b generalizing k with
  | nil => rfl
  | cons x b ih =>
      rw [bits_cons]
      by_cases hk : k < 8
      · rw [List.getElem?_append_left (by rw [length_byteBits]; exact hk), getElem?_byteBits x hk,
          Nat.div_eq_of_lt hk, Nat.mod_eq_of_lt hk]
        rfl
      · have hk' : k / 8 = (k - 8) / 8 + 1 := by omega
        have hmod : k % 8 = (k - 8) % 8 := by omega
        rw [List.getElem?_append_right (by rw [length_byteBits]; omega), length_byteBits, ih, hk',
          hmod, List.getElem?_cons_succ]

theorem byteBits_injective {x y : UInt8} (h : byteBits x = byteBits y) : x = y := by
  refine UInt8.toNat_inj.1 (Nat.eq_of_testBit_eq fun i => ?_)
  by_cases hi : i < 8
  · have hbit := congrArg (·[7 - i]?) h
    simp only [getElem?_byteBits _ (show 7 - i < 8 by omega)] at hbit
    rwa [Option.some.injEq, show 7 - (7 - i) = i by omega] at hbit
  · have hsmall : ∀ z : UInt8, z.toNat.testBit i = false := fun z =>
      Nat.testBit_lt_two_pow (lt_of_lt_of_le z.toNat_lt (Nat.pow_le_pow_right (by decide)
        (not_lt.1 hi)))
    rw [hsmall, hsmall]

/-- **The bits determine the bytes.** -/
theorem bits_injective : Function.Injective bits := by
  intro b
  induction b with
  | nil =>
      intro b' h
      have := congrArg List.length h
      rw [length_bits, length_bits, List.length_nil] at this
      exact (List.length_eq_zero_iff.1 (by omega)).symm
  | cons x b ih =>
      intro b' h
      cases b' with
      | nil => cases h
      | cons y b' =>
          rw [bits_cons, bits_cons] at h
          obtain ⟨hhead, htail⟩ := List.append_inj h (by rw [length_byteBits, length_byteBits])
          rw [byteBits_injective hhead, ih htail]

end Lib
end Hextet
