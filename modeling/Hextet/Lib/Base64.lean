/-
# Base64 with the standard alphabet and padding

RFC 4648 §4, as the `base64` crate's `STANDARD` engine reads and writes it:
three bytes are four symbols, a last group of one or two bytes is padded with
`=`, and a decoder refuses missing padding and set trailing bits.  Decoding
inverts encoding (`decode_encode`), so an encoding names its bytes
(`encode_injective`), and no symbol is white space, so trimming an encoding
does nothing (`trim_encode`).
-/

import Mathlib.Tactic.IntervalCases
import Mathlib.Logic.Function.Basic

namespace Hextet
namespace Lib
namespace Base64

/-- The symbol of a six-bit value: `A-Z`, `a-z`, `0-9`, `+`, `/`. -/
def symbol (n : ℕ) : Char :=
  if n < 26 then Char.ofNat (n + 65) else if n < 52 then Char.ofNat (n + 71)
  else if n < 62 then Char.ofNat (n - 4) else if n = 62 then '+' else '/'

/-- The value of a symbol, absent for a character outside the alphabet. -/
def value (c : Char) : Option ℕ :=
  let n := c.toNat
  if 65 ≤ n ∧ n ≤ 90 then some (n - 65) else if 97 ≤ n ∧ n ≤ 122 then some (n - 71)
  else if 48 ≤ n ∧ n ≤ 57 then some (n + 4) else if n = 43 then some 62
  else if n = 47 then some 63 else none

/-- Three bytes give four symbols; the last group is padded to four. -/
def encode : List UInt8 → List Char
  | [] => []
  | [a] => [symbol (a.toNat / 4), symbol (a.toNat % 4 * 16), '=', '=']
  | [a, b] =>
      [symbol (a.toNat / 4), symbol (a.toNat % 4 * 16 + b.toNat / 16),
        symbol (b.toNat % 16 * 4), '=']
  | a :: b :: c :: r =>
      symbol (a.toNat / 4) :: symbol (a.toNat % 4 * 16 + b.toNat / 16) ::
        symbol (b.toNat % 16 * 4 + c.toNat / 64) :: symbol (c.toNat % 64) :: encode r

/-- The last group, which ends in `=`: one byte from two symbols or two bytes
from three, the bits past them zero. -/
def decodeLast (c₀ c₁ c₂ : Char) : Option (List UInt8) :=
  if c₂ = '=' then
    match value c₀, value c₁ with
    | some x, some y => if y % 16 = 0 then some [UInt8.ofNat (4 * x + y / 16)] else none
    | _, _ => none
  else
    match value c₀, value c₁, value c₂ with
    | some x, some y, some z =>
        if z % 4 = 0 then some [UInt8.ofNat (4 * x + y / 16), UInt8.ofNat (16 * (y % 16) + z / 4)]
        else none
    | _, _, _ => none

/-- Four symbols give three bytes; only the last group may be padded. -/
def decode : List Char → Option (List UInt8)
  | [] => some []
  | c₀ :: c₁ :: c₂ :: c₃ :: r =>
      if c₃ = '=' then (if r = [] then decodeLast c₀ c₁ c₂ else none)
      else
        match value c₀, value c₁, value c₂, value c₃, decode r with
        | some x, some y, some z, some w, some b =>
            some (UInt8.ofNat (4 * x + y / 16) :: UInt8.ofNat (16 * (y % 16) + z / 4) ::
              UInt8.ofNat (64 * (z % 4) + w) :: b)
        | _, _, _, _, _ => none
  | _ => none

theorem value_symbol {n : ℕ} (h : n < 64) : value (symbol n) = some n := by
  have : ∀ n : Fin 64, value (symbol n) = some n.val := by decide
  exact this ⟨n, h⟩

theorem symbol_ne_pad {n : ℕ} (h : n < 64) : symbol n ≠ '=' := by
  have : ∀ n : Fin 64, symbol n ≠ '=' := by decide
  exact this ⟨n, h⟩

/-- Two bytes, cut into sextets and put together again. -/
theorem join_two {a b : ℕ} (hb : b < 256) :
    4 * (a / 4) + (a % 4 * 16 + b / 16) / 16 = a ∧
      16 * ((a % 4 * 16 + b / 16) % 16) + b % 16 * 4 / 4 = b ∧ b % 16 * 4 % 4 = 0 := by
  refine ⟨?_, ?_, ?_⟩ <;> omega

/-- Three bytes, cut into sextets and put together again. -/
theorem join_three {a b c : ℕ} (hb : b < 256) (hc : c < 256) :
    4 * (a / 4) + (a % 4 * 16 + b / 16) / 16 = a ∧
      16 * ((a % 4 * 16 + b / 16) % 16) + (b % 16 * 4 + c / 64) / 4 = b ∧
      64 * ((b % 16 * 4 + c / 64) % 4) + c % 64 = c := by
  refine ⟨?_, ?_, ?_⟩ <;> omega

/-- **Decoding inverts encoding**, for every byte string. -/
theorem decode_encode (b : List UInt8) : decode (encode b) = some b := by
  induction b using encode.induct with
  | case1 => rfl
  | case2 a =>
      have ha : a.toNat < 256 := a.toNat_lt
      have h : 4 * (a.toNat / 4) + a.toNat % 4 * 16 / 16 = a.toNat := by omega
      have h₀ : a.toNat % 4 * 16 % 16 = 0 := by omega
      simp only [encode, decode, decodeLast, if_true, h, h₀, UInt8.ofNat_toNat,
        value_symbol (show a.toNat / 4 < 64 by omega),
        value_symbol (show a.toNat % 4 * 16 < 64 by omega)]
  | case3 a b =>
      have ha : a.toNat < 256 := a.toNat_lt
      have hb : b.toNat < 256 := b.toNat_lt
      obtain ⟨h₁, h₂, h₃⟩ := join_two (a := a.toNat) hb
      simp only [encode, decode, decodeLast, if_true, h₁, h₂, h₃, UInt8.ofNat_toNat,
        if_neg (symbol_ne_pad (show b.toNat % 16 * 4 < 64 by omega)),
        value_symbol (show a.toNat / 4 < 64 by omega),
        value_symbol (show a.toNat % 4 * 16 + b.toNat / 16 < 64 by omega),
        value_symbol (show b.toNat % 16 * 4 < 64 by omega)]
  | case4 a b c r ih =>
      have ha : a.toNat < 256 := a.toNat_lt
      have hb : b.toNat < 256 := b.toNat_lt
      have hc : c.toNat < 256 := c.toNat_lt
      obtain ⟨h₁, h₂, h₃⟩ := join_three (a := a.toNat) hb hc
      rw [encode, decode, if_neg (symbol_ne_pad (by omega)), ih,
        value_symbol (show a.toNat / 4 < 64 by omega),
        value_symbol (show a.toNat % 4 * 16 + b.toNat / 16 < 64 by omega),
        value_symbol (show b.toNat % 16 * 4 + c.toNat / 64 < 64 by omega),
        value_symbol (show c.toNat % 64 < 64 by omega)]
      simp only [h₁, h₂, h₃, UInt8.ofNat_toNat]

theorem length_encode (b : List UInt8) : (encode b).length = 4 * ((b.length + 2) / 3) := by
  induction b using encode.induct with
  | case1 => rfl
  | case2 a => simp only [encode, List.length_cons, List.length_nil]
  | case3 a b => simp only [encode, List.length_cons, List.length_nil]
  | case4 a b c r ih =>
      simp only [encode, List.length_cons, ih]
      omega

/-- An encoding names its bytes. -/
theorem encode_injective : Function.Injective encode := fun a b h => by
  have := congrArg decode h
  rwa [decode_encode, decode_encode, Option.some.injEq] at this

/-- The Unicode `White_Space` property, what Rust's `str::trim` removes. -/
def isSpace (c : Char) : Bool :=
  let n := c.toNat
  (9 ≤ n && n ≤ 13) || n == 32 || n == 0x85 || n == 0xA0 || n == 0x1680 ||
    (0x2000 ≤ n && n ≤ 0x200A) || n == 0x2028 || n == 0x2029 || n == 0x202F || n == 0x205F ||
    n == 0x3000

/-- `str::trim`: white space removed at both ends. -/
def trim (s : List Char) : List Char := ((s.dropWhile isSpace).reverse.dropWhile isSpace).reverse

theorem isSpace_symbol {n : ℕ} (h : n < 64) : isSpace (symbol n) = false := by
  have : ∀ n : Fin 64, isSpace (symbol n) = false := by decide
  exact this ⟨n, h⟩

/-- An encoding is made of symbols and padding. -/
theorem mem_encode {b : List UInt8} {c : Char} (h : c ∈ encode b) :
    c = '=' ∨ ∃ n, n < 64 ∧ c = symbol n := by
  induction b using encode.induct with
  | case1 => simp [encode] at h
  | case2 a =>
      have ha : a.toNat < 256 := a.toNat_lt
      simp only [encode, List.mem_cons, List.not_mem_nil, or_false] at h
      rcases h with rfl | rfl | rfl | rfl
      · exact .inr ⟨_, by omega, rfl⟩
      · exact .inr ⟨_, by omega, rfl⟩
      · exact .inl rfl
      · exact .inl rfl
  | case3 a b =>
      have ha : a.toNat < 256 := a.toNat_lt
      have hb : b.toNat < 256 := b.toNat_lt
      simp only [encode, List.mem_cons, List.not_mem_nil, or_false] at h
      rcases h with rfl | rfl | rfl | rfl
      · exact .inr ⟨_, by omega, rfl⟩
      · exact .inr ⟨_, by omega, rfl⟩
      · exact .inr ⟨_, by omega, rfl⟩
      · exact .inl rfl
  | case4 a b c r ih =>
      have ha : a.toNat < 256 := a.toNat_lt
      have hb : b.toNat < 256 := b.toNat_lt
      have hc : c.toNat < 256 := c.toNat_lt
      simp only [encode, List.mem_cons] at h
      rcases h with rfl | rfl | rfl | rfl | h
      · exact .inr ⟨_, by omega, rfl⟩
      · exact .inr ⟨_, by omega, rfl⟩
      · exact .inr ⟨_, by omega, rfl⟩
      · exact .inr ⟨_, by omega, rfl⟩
      · exact ih h

theorem isSpace_of_mem_encode {b : List UInt8} {c : Char} (h : c ∈ encode b) :
    isSpace c = false := by
  rcases mem_encode h with rfl | ⟨n, hn, rfl⟩
  · decide
  · exact isSpace_symbol hn

/-- Trimming changes nothing where there is no white space. -/
theorem trim_eq_self {s : List Char} (h : ∀ c ∈ s, isSpace c = false) : trim s = s := by
  have hd : ∀ t : List Char, (∀ c ∈ t, isSpace c = false) → t.dropWhile isSpace = t := by
    intro t ht
    cases t with
    | nil => rfl
    | cons c t => rw [List.dropWhile_cons_of_neg (by simp [ht c (List.mem_cons_self ..)])]
  rw [trim, hd s h, hd s.reverse (fun c hc => h c (List.mem_reverse.1 hc)), List.reverse_reverse]

theorem trim_encode (b : List UInt8) : trim (encode b) = encode b :=
  trim_eq_self fun _ => isSpace_of_mem_encode

end Base64
end Lib
end Hextet
