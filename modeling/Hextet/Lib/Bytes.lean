/-
# Byte strings, checked indexing and big-endian words

A packet format is read by indexing and slicing a byte string.  In Rust both
panic out of range, so a computation over bytes has three ends: a value, an
error of the format, and a panic.  `Outcome` is that triple; `index`, `slice`
and `array` are `b[i]`, `b[i..j]` and `try_into().expect(..)`.  That a decoder
never panics is then a statement about its `Outcome`, not about the reader.

Multi-byte words are big-endian: `beBytes n v` writes `v` in `n` bytes and
`ofBe` reads a byte string back, and the two are mutually inverse
(`ofBe_beBytes`, `beBytes_ofBe`).

Ranges that meet are read as the concatenation of what they read
(`slice_append_iff`), so a decoder that reads a format range by range is inverted
by gluing its reads, and an encoding is read by splitting it.
-/

import Mathlib.Tactic.Positivity
import Mathlib.Tactic.Ring

namespace Hextet
namespace Lib

/-- The end of a Rust computation: a value, an error value, or a panic. -/
inductive Outcome (ε α : Type) where
  | ok (a : α)
  | err (e : ε)
  | panic
  deriving DecidableEq, Repr

namespace Outcome

variable {ε α β : Type}

/-- The `?` operator: an error or a panic ends the computation. -/
protected def bind (x : Outcome ε α) (f : α → Outcome ε β) : Outcome ε β :=
  match x with
  | ok a => f a
  | err e => err e
  | panic => panic

instance : Monad (Outcome ε) where
  pure := ok
  bind := Outcome.bind

@[simp] theorem ok_bind (a : α) (f : α → Outcome ε β) : (ok a >>= f) = f a := rfl

@[simp] theorem err_bind (e : ε) (f : α → Outcome ε β) : (err e >>= f) = err e := rfl

@[simp] theorem panic_bind (f : α → Outcome ε β) : ((panic : Outcome ε α) >>= f) = panic := rfl

/-- A computation that cannot panic. -/
def ofExcept : Except ε α → Outcome ε α
  | .ok a => ok a
  | .error e => err e

@[simp] theorem ofExcept_ok (a : α) : ofExcept (.ok a : Except ε α) = ok a := rfl

@[simp] theorem ofExcept_error (e : ε) : ofExcept (.error e : Except ε α) = err e := rfl

/-- A value comes out of a sequence exactly when one comes out of each part. -/
theorem bind_eq_ok {x : Outcome ε α} {f : α → Outcome ε β} {b : β} :
    (x >>= f) = ok b ↔ ∃ a, x = ok a ∧ f a = ok b := by
  cases x <;> simp

/-- A sequence panics only if one of its parts does. -/
theorem bind_ne_panic {x : Outcome ε α} {f : α → Outcome ε β} (hx : x ≠ panic)
    (hf : ∀ a, x = ok a → f a ≠ panic) : (x >>= f) ≠ panic := by
  cases x with
  | ok a => simpa using hf a rfl
  | err e => simp
  | panic => exact absurd rfl hx

section Guard

variable {c : Prop} [Decidable c] {e : ε} {x : Outcome ε α}

/-- A value comes out behind a check exactly when the check is passed. -/
theorem ite_err_eq_ok {a : α} : (if c then err e else x) = ok a ↔ ¬c ∧ x = ok a := by
  by_cases h : c
  · rw [if_pos h]
    exact iff_of_false nofun fun hx => hx.1 h
  · rw [if_neg h]
    exact (and_iff_right h).symm

/-- What is behind a check panics only past it. -/
theorem ite_err_ne_panic (hx : ¬c → x ≠ panic) : (if c then err e else x) ≠ panic := by
  by_cases h : c
  · rw [if_pos h]
    exact nofun
  · rw [if_neg h]
    exact hx h

end Guard

end Outcome

/-- A byte string of a fixed length, Rust's `[u8; n]`. -/
abbrev Bytes (n : ℕ) := { b : List UInt8 // b.length = n }

@[simp] theorem Bytes.length_val {n : ℕ} (v : Bytes n) : v.1.length = n := v.2

section Read

variable {ε : Type}

/-- `b[i]`, a panic out of range. -/
def index (b : List UInt8) (i : ℕ) : Outcome ε UInt8 :=
  match b[i]? with
  | some x => .ok x
  | none => .panic

/-- `b[i..j]`, a panic when the range does not lie in `b`. -/
def slice (b : List UInt8) (i j : ℕ) : Outcome ε (List UInt8) :=
  if i ≤ j ∧ j ≤ b.length then .ok ((b.drop i).take (j - i)) else .panic

/-- `try_into().expect(..)` to an array, a panic at another length. -/
def array (n : ℕ) (b : List UInt8) : Outcome ε (Bytes n) :=
  if h : b.length = n then .ok ⟨b, h⟩ else .panic

theorem index_append (a c : List UInt8) (x : UInt8) {i : ℕ} (h : a.length = i) :
    index (a ++ x :: c) i = (.ok x : Outcome ε UInt8) := by
  subst h
  simp [index]

/-- The range that a middle part of a concatenation occupies is that part. -/
theorem slice_append (a m c : List UInt8) {i j : ℕ} (hi : a.length = i)
    (hj : a.length + m.length = j) : slice (a ++ (m ++ c)) i j = (.ok m : Outcome ε _) := by
  subst hi
  subst hj
  rw [slice, if_pos (by simp)]
  simp

/-- The last bytes of a concatenation. -/
theorem slice_append_end (a m : List UInt8) {i j : ℕ} (hi : a.length = i)
    (hj : a.length + m.length = j) : slice (a ++ m) i j = (.ok m : Outcome ε _) := by
  simpa using slice_append a m [] hi hj

@[simp] theorem array_val {n : ℕ} (v : Bytes n) : array n v.1 = (.ok v : Outcome ε _) := by
  rw [array, dif_pos v.2]

@[simp] theorem array_eq_ok {n : ℕ} {b : List UInt8} {v : Bytes n} :
    array n b = (.ok v : Outcome ε _) ↔ b = v.1 := by
  unfold array
  split_ifs with h
  · rw [Outcome.ok.injEq, Subtype.ext_iff]
  · refine iff_of_false nofun fun hb => h ?_
    rw [hb, v.2]

/-- What a slice is: the bytes of its length from its start on. -/
theorem slice_eq_ok {b m : List UInt8} {i j : ℕ} :
    slice b i j = (.ok m : Outcome ε _) ↔ i + m.length = j ∧ j ≤ b.length ∧ m <+: b.drop i := by
  unfold slice
  split_ifs with h
  · rw [Outcome.ok.injEq]
    constructor
    · rintro rfl
      refine ⟨?_, h.2, List.take_prefix _ _⟩
      rw [List.length_take, List.length_drop]
      omega
    · rintro ⟨hj, -, hm⟩
      rw [← hj, Nat.add_sub_cancel_left]
      exact (List.prefix_iff_eq_take.1 hm).symm
  · exact iff_of_false nofun fun hm => h ⟨by omega, hm.2.1⟩

/-- **Two ranges that meet read a concatenation.** -/
theorem slice_append_iff {b m m' : List UInt8} {i j k : ℕ} (hj : i + m.length = j) :
    slice b i k = (.ok (m ++ m') : Outcome ε _) ↔
      slice b i j = (.ok m : Outcome ε _) ∧ slice b j k = (.ok m' : Outcome ε _) := by
  have hdrop : b.drop j = (b.drop i).drop m.length := by rw [List.drop_drop, hj]
  rw [slice_eq_ok, slice_eq_ok, slice_eq_ok, List.length_append, hdrop]
  constructor
  · rintro ⟨hk, hlen, r, hr⟩
    rw [← hr, List.append_assoc, List.drop_left]
    exact ⟨⟨hj, by omega, List.prefix_append ..⟩, by omega, hlen, List.prefix_append ..⟩
  · rintro ⟨⟨-, -, r, hr⟩, hk, hlen, hm'⟩
    rw [← hr, List.drop_left] at hm'
    rw [← hr, List.prefix_append_right_inj]
    exact ⟨by omega, hlen, hm'⟩

/-- The range from the start on is a front part. -/
theorem slice_zero_eq_ok {b m : List UInt8} {n : ℕ} :
    slice b 0 n = (.ok m : Outcome ε _) ↔ m.length = n ∧ m <+: b := by
  rw [slice_eq_ok, Nat.zero_add, List.drop_zero]
  exact and_congr_right fun hn => and_iff_right_of_imp fun hm => hn ▸ hm.length_le

/-- The whole range is the string. -/
theorem slice_self_eq_ok {b m : List UInt8} :
    slice b 0 b.length = (.ok m : Outcome ε _) ↔ m = b := by
  rw [slice_zero_eq_ok]
  constructor
  · rintro ⟨hlen, hm⟩
    exact hm.eq_of_length hlen
  · rintro rfl
    exact ⟨rfl, List.prefix_rfl⟩

theorem index_eq_ok {b : List UInt8} {i : ℕ} {x : UInt8} :
    index b i = (.ok x : Outcome ε _) ↔ slice b i (i + 1) = (.ok [x] : Outcome ε _) := by
  rw [slice_eq_ok, index]
  cases hx : b[i]? with
  | none =>
      refine iff_of_false nofun fun h => ?_
      rw [List.getElem?_eq_none_iff] at hx
      omega
  | some y =>
      obtain ⟨hi, rfl⟩ := List.getElem?_eq_some_iff.1 hx
      rw [List.drop_eq_getElem_cons hi, List.cons_prefix_cons, Outcome.ok.injEq]
      constructor
      · rintro rfl
        exact ⟨rfl, hi, rfl, List.nil_prefix⟩
      · rintro ⟨-, -, rfl, -⟩
        rfl

/-- A range within the string is read. -/
theorem slice_ne_panic {b : List UInt8} {i j : ℕ} (hij : i ≤ j) (hj : j ≤ b.length) :
    slice b i j ≠ (.panic : Outcome ε _) := by
  rw [slice, if_pos ⟨hij, hj⟩]
  exact nofun

theorem index_ne_panic {b : List UInt8} {i : ℕ} (hi : i < b.length) :
    index b i ≠ (.panic : Outcome ε _) := by
  rw [index, List.getElem?_eq_getElem hi]
  exact nofun

/-- A range of the length of an array is read as one. -/
theorem slice_array_ne_panic {b : List UInt8} {i j n : ℕ} (hij : i + n = j) (hj : j ≤ b.length) :
    (slice b i j >>= array n) ≠ (.panic : Outcome ε _) := by
  refine Outcome.bind_ne_panic (slice_ne_panic (by omega) hj) fun m hm => ?_
  obtain ⟨hlen, -, -⟩ := slice_eq_ok.1 hm
  rw [array, dif_pos (by omega)]
  exact nofun

/-- A byte string long enough splits at any length. -/
theorem exists_append_of_le (b : List UInt8) {n : ℕ} (h : n ≤ b.length) :
    ∃ (v : Bytes n) (r : List UInt8), b = v.1 ++ r :=
  ⟨⟨b.take n, by simpa using h⟩, b.drop n, (List.take_append_drop n b).symm⟩

end Read

/-- The big-endian bytes of `v` in `n` places, Rust's `to_be_bytes`. -/
def beBytes : ℕ → ℕ → List UInt8
  | 0, _ => []
  | n + 1, v => UInt8.ofNat (v / 256 ^ n % 256) :: beBytes n v

/-- The number a byte string denotes big-endian, Rust's `from_be_bytes`. -/
def ofBe (b : List UInt8) : ℕ := b.foldl (fun v x => 256 * v + x.toNat) 0

@[simp] theorem length_beBytes (n v : ℕ) : (beBytes n v).length = n := by
  induction n with
  | zero => rfl
  | succ n ih => simp [beBytes, ih]

theorem foldl_be (b : List UInt8) (v : ℕ) :
    b.foldl (fun v x => 256 * v + x.toNat) v = 256 ^ b.length * v + ofBe b := by
  induction b generalizing v with
  | nil => simp [ofBe]
  | cons x b ih =>
      rw [ofBe, List.foldl_cons, List.foldl_cons, ih, ih (256 * 0 + x.toNat), List.length_cons,
        pow_succ]
      ring

theorem ofBe_cons (x : UInt8) (b : List UInt8) :
    ofBe (x :: b) = 256 ^ b.length * x.toNat + ofBe b := by
  rw [ofBe, List.foldl_cons, foldl_be]
  ring

theorem ofBe_lt (b : List UInt8) : ofBe b < 256 ^ b.length := by
  induction b with
  | nil => simp [ofBe]
  | cons x b ih =>
      have hx : x.toNat < 256 := x.toNat_lt
      have hm := Nat.mul_le_mul_left (256 ^ b.length) (Nat.le_of_lt_succ hx)
      rw [ofBe_cons, List.length_cons, pow_succ]
      omega

/-- Reading back what was written keeps the value, modulo the width. -/
theorem ofBe_beBytes (n v : ℕ) : ofBe (beBytes n v) = v % 256 ^ n := by
  induction n with
  | zero => simp [beBytes, ofBe, Nat.mod_one]
  | succ n ih =>
      have hb : (UInt8.ofNat (v / 256 ^ n % 256)).toNat = v / 256 ^ n % 256 := by
        simp
      rw [beBytes, ofBe_cons, ih, length_beBytes, hb, Nat.pow_succ, Nat.mod_mul]
      ring

/-- Only the value modulo the width is written. -/
theorem beBytes_add_mul (n v k : ℕ) : beBytes n (256 ^ n * k + v) = beBytes n v := by
  induction n generalizing k with
  | zero => rfl
  | succ n ih =>
      have hdiv : (256 ^ (n + 1) * k + v) / 256 ^ n % 256 = v / 256 ^ n % 256 := by
        rw [pow_succ, mul_assoc, Nat.mul_add_div (by positivity)]
        omega
      rw [beBytes, beBytes, hdiv, pow_succ, mul_assoc, ih]

/-- Writing what was read gives the bytes back. -/
theorem beBytes_ofBe (b : List UInt8) : beBytes b.length (ofBe b) = b := by
  induction b with
  | nil => rfl
  | cons x b ih =>
      have hx : x.toNat < 256 := x.toNat_lt
      have hlt := ofBe_lt b
      have hdiv : (256 ^ b.length * x.toNat + ofBe b) / 256 ^ b.length % 256 = x.toNat := by
        rw [Nat.mul_add_div (by positivity), Nat.div_eq_of_lt hlt]
        omega
      rw [List.length_cons, beBytes, ofBe_cons, hdiv, beBytes_add_mul, ih]
      simp

/-- Reading a word and writing it are inverse. -/
theorem u16_eq_iff {m : List UInt8} (h : m.length = 2) {x : UInt16} :
    UInt16.ofNat (ofBe m) = x ↔ m = beBytes 2 x.toNat := by
  have hlt : ofBe m < 2 ^ 16 := (ofBe_lt m).trans_eq (by rw [h]; rfl)
  constructor
  · rintro rfl
    rw [UInt16.toNat_ofNat', Nat.mod_eq_of_lt hlt, ← h, beBytes_ofBe]
  · rintro rfl
    have hx : x.toNat < 256 ^ 2 := x.toNat_lt
    rw [ofBe_beBytes, Nat.mod_eq_of_lt hx, UInt16.ofNat_toNat]

theorem u64_eq_iff {m : List UInt8} (h : m.length = 8) {x : UInt64} :
    UInt64.ofNat (ofBe m) = x ↔ m = beBytes 8 x.toNat := by
  have hlt : ofBe m < 2 ^ 64 := (ofBe_lt m).trans_eq (by rw [h]; rfl)
  constructor
  · rintro rfl
    rw [UInt64.toNat_ofNat', Nat.mod_eq_of_lt hlt, ← h, beBytes_ofBe]
  · rintro rfl
    have hx : x.toNat < 256 ^ 8 := x.toNat_lt
    rw [ofBe_beBytes, Nat.mod_eq_of_lt hx, UInt64.ofNat_toNat]

theorem u16_beBytes (x : UInt16) : UInt16.ofNat (ofBe (beBytes 2 x.toNat)) = x :=
  (u16_eq_iff (length_beBytes ..)).2 rfl

theorem beBytes_u16 (v : Bytes 2) : beBytes 2 (UInt16.ofNat (ofBe v.1)).toNat = v.1 :=
  ((u16_eq_iff v.2).1 rfl).symm

theorem u64_beBytes (x : UInt64) : UInt64.ofNat (ofBe (beBytes 8 x.toNat)) = x :=
  (u64_eq_iff (length_beBytes ..)).2 rfl

theorem beBytes_u64 (v : Bytes 8) : beBytes 8 (UInt64.ofNat (ofBe v.1)).toNat = v.1 :=
  ((u64_eq_iff v.2).1 rfl).symm

/-- A word that is read stands there as it is written. -/
theorem slice_u16 {ε : Type} {b m : List UInt8} {i : ℕ}
    (h : slice b i (i + 2) = (.ok m : Outcome ε _)) :
    slice b i (i + 2) = (.ok (beBytes 2 (UInt16.ofNat (ofBe m)).toNat) : Outcome ε _) := by
  have hlen : m.length = 2 := Nat.add_left_cancel (slice_eq_ok.1 h).1
  rw [h, ← (u16_eq_iff hlen).1 rfl]

theorem slice_u64 {ε : Type} {b m : List UInt8} {i : ℕ}
    (h : slice b i (i + 8) = (.ok m : Outcome ε _)) :
    slice b i (i + 8) = (.ok (beBytes 8 (UInt64.ofNat (ofBe m)).toNat) : Outcome ε _) := by
  have hlen : m.length = 8 := Nat.add_left_cancel (slice_eq_ok.1 h).1
  rw [h, ← (u64_eq_iff hlen).1 rfl]

end Lib
end Hextet
