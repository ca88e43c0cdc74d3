/-
# Compact JSON texts and their sizes

A JSON text without white space, as a writer of records makes it: strings with the
quotation mark, the backslash and the control characters escaped, numbers, arrays and
objects with the fields in their order.  `size` counts the bytes of a text in UTF-8
(`length_utf8`), and the size of a value is a sum over its parts (`size_quote`,
`size_array`, `size_object`).
-/

import Mathlib.Algebra.BigOperators.Group.List.Basic
import Mathlib.Algebra.GroupWithZero.Nat
import Mathlib.Data.List.Basic

namespace Hextet
namespace Lib
namespace Json

/-- A text in UTF-8. -/
def utf8 (s : List Char) : List UInt8 := s.flatMap String.utf8EncodeChar

/-- The bytes of a text. -/
def size (s : List Char) : ℕ := (s.map Char.utf8Size).sum

theorem length_utf8 (s : List Char) : (utf8 s).length = size s := by
  induction s with
  | nil => rfl
  | cons c s ih =>
      rw [utf8, List.flatMap_cons, List.length_append, ← utf8, ih, String.length_utf8EncodeChar,
        size, size, List.map_cons, List.sum_cons]

/-- The text that bytes in UTF-8 stand for. -/
def fromUtf8 (b : List UInt8) : Option (List Char) :=
  b.toByteArray.utf8Decode?.map Array.toList

theorem toByteArray_utf8 (s : List Char) : (utf8 s).toByteArray = s.utf8Encode := rfl

@[simp] theorem fromUtf8_utf8 (s : List Char) : fromUtf8 (utf8 s) = some s := by
  rw [fromUtf8, toByteArray_utf8, List.utf8Decode?_utf8Encode]
  rfl

theorem fromUtf8_eq_some {b : List UInt8} {s : List Char} :
    fromUtf8 b = some s ↔ b = utf8 s := by
  constructor
  · intro h
    obtain ⟨a, ha, rfl⟩ := Option.map_eq_some_iff.1 h
    have hsome : b.toByteArray.utf8Decode?.isSome = true := by rw [ha]; rfl
    have hback := ByteArray.utf8Encode_get_utf8Decode? (h := hsome)
    simp only [ha, Option.get_some] at hback
    calc b = b.toByteArray.data.toList := List.toList_data_toByteArray.symm
      _ = (utf8 a.toList).toByteArray.data.toList := by rw [toByteArray_utf8, hback]
      _ = utf8 a.toList := List.toList_data_toByteArray
  · rintro rfl
    exact fromUtf8_utf8 s

theorem utf8_append (s t : List Char) : utf8 (s ++ t) = utf8 s ++ utf8 t := List.flatMap_append ..

@[simp] theorem size_nil : size [] = 0 := rfl

@[simp] theorem size_cons (c : Char) (s : List Char) : size (c :: s) = c.utf8Size + size s := by
  rw [size, List.map_cons, List.sum_cons, size]

@[simp] theorem size_append (s t : List Char) : size (s ++ t) = size s + size t := by
  rw [size, List.map_append, List.sum_append, size, size]

/-- A text of characters of one byte. -/
theorem size_eq_length {s : List Char} (h : ∀ c ∈ s, c.utf8Size = 1) : size s = s.length := by
  induction s with
  | nil => rfl
  | cons c s ih =>
      rw [size_cons, h c List.mem_cons_self, ih fun d hd => h d (List.mem_cons_of_mem _ hd),
        List.length_cons, Nat.add_comm]

/-- The short escape of a character, if it has one. -/
def shortEscape (c : Char) : Option Char :=
  if c = '"' then some '"' else if c = '\\' then some '\\' else if c = '\x08' then some 'b'
  else if c = '\t' then some 't' else if c = '\n' then some 'n' else if c = '\x0c' then some 'f'
  else if c = '\r' then some 'r' else none

/-- A character in a string. -/
def escape (c : Char) : List Char :=
  match shortEscape c with
  | some e => ['\\', e]
  | none =>
      if c.toNat < 32 then
        ['\\', 'u', '0', '0', Nat.digitChar (c.toNat / 16), Nat.digitChar (c.toNat % 16)]
      else [c]

/-- The bytes of a character in a string. -/
def escapeSize (c : Char) : ℕ :=
  if (shortEscape c).isSome then 2 else if c.toNat < 32 then 6 else c.utf8Size

/-- The bytes of the characters of a string. -/
def escapedSize (s : List Char) : ℕ := (s.map escapeSize).sum

theorem size_escape (c : Char) : size (escape c) = escapeSize c := by
  have hshort : ∀ e, shortEscape c = some e → e.utf8Size = 1 := by
    intro e h
    unfold shortEscape at h
    split_ifs at h <;> cases h <;> rfl
  have hhex : ∀ n : Fin 16, (Nat.digitChar n).utf8Size = 1 := by decide
  unfold escape escapeSize
  cases h : shortEscape c with
  | some e =>
      simp only [Option.isSome_some, if_true, size_cons, size_nil, hshort e h]
      rfl
  | none =>
      simp only [Option.isSome_none, Bool.false_eq_true, if_false]
      split_ifs with hc
      · simp only [size_cons, size_nil, hhex ⟨c.toNat / 16, by omega⟩,
          hhex ⟨c.toNat % 16, Nat.mod_lt _ (by decide)⟩]
        rfl
      · simp

/-- A string value. -/
def quote (s : List Char) : List Char := '"' :: s.flatMap escape ++ ['"']

theorem size_flatMap_escape (s : List Char) : size (s.flatMap escape) = escapedSize s := by
  induction s with
  | nil => rfl
  | cons c s ih =>
      rw [List.flatMap_cons, size_append, size_escape, ih, escapedSize, escapedSize,
        List.map_cons, List.sum_cons]

theorem size_quote (s : List Char) : size (quote s) = escapedSize s + 2 := by
  have hmark : ('"' : Char).utf8Size = 1 := rfl
  rw [quote, List.cons_append, size_cons, size_append, size_flatMap_escape, size_cons, size_nil,
    hmark]
  omega

/-- A string that needs no escape, of characters of one byte. -/
theorem escapedSize_eq_length {s : List Char}
    (h : ∀ c ∈ s, shortEscape c = none ∧ 32 ≤ c.toNat ∧ c.utf8Size = 1) :
    escapedSize s = s.length := by
  induction s with
  | nil => rfl
  | cons c s ih =>
      obtain ⟨hshort, hcontrol, hone⟩ := h c List.mem_cons_self
      have hc : escapeSize c = 1 := by
        rw [escapeSize, hshort, Option.isSome_none, if_neg (by decide),
          if_neg (by omega), hone]
      rw [escapedSize, List.map_cons, List.sum_cons, hc, ← escapedSize,
        ih fun d hd => h d (List.mem_cons_of_mem _ hd), List.length_cons, Nat.add_comm]

/-! ### Arrays and objects -/

theorem size_intercalate (items : List (List Char)) :
    size ([','].intercalate items) = (items.map size).sum + (items.length - 1) := by
  induction items with
  | nil => rfl
  | cons x items ih =>
      cases items with
      | nil => simp
      | cons y items =>
          have hcomma : (',' : Char).utf8Size = 1 := rfl
          rw [List.intercalate_cons_cons, size_append, size_append, ih, size_cons, size_nil, hcomma]
          simp only [List.map_cons, List.sum_cons, List.length_cons]
          omega

/-- An array value. -/
def array (items : List (List Char)) : List Char := '[' :: [','].intercalate items ++ [']']

theorem size_array (items : List (List Char)) :
    size (array items) = (items.map size).sum + (items.length - 1) + 2 := by
  have hopen : ('[' : Char).utf8Size = 1 := rfl
  have hclose : (']' : Char).utf8Size = 1 := rfl
  rw [array, List.cons_append, size_cons, size_append, size_intercalate, size_cons, size_nil,
    hopen, hclose]
  omega

/-- A field of an object: its name, and the text of its value. -/
def field (f : String × List Char) : List Char := quote f.1.toList ++ ':' :: f.2

/-- An object value. -/
def object (fields : List (String × List Char)) : List Char :=
  '\x7b' :: [','].intercalate (fields.map field) ++ ['\x7d']

theorem size_field (f : String × List Char) :
    size (field f) = escapedSize f.1.toList + 3 + size f.2 := by
  have hcolon : (':' : Char).utf8Size = 1 := rfl
  rw [field, size_append, size_quote, size_cons, hcolon]
  omega

theorem size_object (fields : List (String × List Char)) :
    size (object fields) = (fields.map fun f => escapedSize f.1.toList + 3 + size f.2).sum +
      (fields.length - 1) + 2 := by
  have hopen : ('\x7b' : Char).utf8Size = 1 := rfl
  have hclose : ('\x7d' : Char).utf8Size = 1 := rfl
  rw [object, List.cons_append, size_cons, size_append, size_intercalate, List.map_map, size_cons,
    size_nil, hopen, hclose, List.length_map]
  simp only [Function.comp_def, size_field]
  omega

end Json
end Lib
end Hextet
