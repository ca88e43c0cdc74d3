/-
# A table at the end of a TOML text

A text that a TOML reader reads can be continued by a table of an array of tables.  A
reader that still reads it then has one table more at the end of that array, and
everything else as before: `Appends` says this of a reader, next to `Reads`.  The reader
of the fragment is such a reader (`appends_readLines`).

A larger array changes no other key (`lookup_addElement_of_ne`).
-/

import Hextet.Lib.Toml

namespace Hextet
namespace Lib
namespace Toml

/-- A value that is an array grows by a value, any other value stays. -/
def Value.grow (v : Value) : Value → Value
  | .array vs => .array (vs ++ [v])
  | w => w

theorem lookup_map_value (f : String → Value → Value) (t : Table) (n : String) :
    (t.map fun x => (x.1, f x.1 x.2)).lookup n = (t.lookup n).map (f n) := by
  induction t with
  | nil => rfl
  | cons x t ih =>
      obtain ⟨k, w⟩ := x
      by_cases hn : n = k
      · simp [hn]
      · have hbeq : (n == k) = false := by simpa using hn
        simp only [List.map_cons, List.lookup_cons, hbeq]
        exact ih

theorem addElement_of_some {t : Table} {name : String} {w : Value} (h : t.lookup name = some w)
    (v : Value) :
    addElement t name v = t.map fun x => (x.1, if x.1 = name then v.grow x.2 else x.2) := by
  rw [addElement, h]
  refine List.map_congr_left fun x _ => ?_
  obtain ⟨k, u⟩ := x
  by_cases hk : k = name
  · cases u <;> simp [hk, Value.grow]
  · simp [hk]

theorem addElement_of_none {t : Table} {name : String} (h : t.lookup name = none) (v : Value) :
    addElement t name v = t ++ [(name, .array [v])] := by
  rw [addElement, h]

/-- Another key keeps its value. -/
theorem lookup_addElement_of_ne {name n : String} (h : n ≠ name) (t : Table) (v : Value) :
    (addElement t name v).lookup n = t.lookup n := by
  cases hname : t.lookup name with
  | none =>
      have hbeq : (n == name) = false := by simpa using h
      rw [addElement_of_none hname, List.lookup_append, List.lookup_cons, hbeq]
      simp
  | some w =>
      rw [addElement_of_some hname, lookup_map_value fun k u => if k = name then v.grow u else u]
      simp [h]

/-- An array that is not there has the new element alone. -/
theorem lookup_addElement_of_none {t : Table} {name : String} (h : t.lookup name = none)
    (v : Value) : (addElement t name v).lookup name = some (.array [v]) := by
  rw [addElement_of_none h, List.lookup_append, h]
  simp

/-- An array has the new element at its end. -/
theorem lookup_addElement_of_array {t : Table} {name : String} {vs : List Value}
    (h : t.lookup name = some (.array vs)) (v : Value) :
    (addElement t name v).lookup name = some (.array (vs ++ [v])) := by
  rw [addElement_of_some h, lookup_map_value fun k u => if k = name then v.grow u else u, h]
  simp [Value.grow]

/-! ### Readers -/

/-- The lines of a table of an array, whatever stands before it. -/
def TableLines (name : String) (doc : List Line) (table : Table) : Prop :=
  ∀ closed, Builder.run ⟨closed, some (.element name, [])⟩ doc =
    some ⟨closed, some (.element name, table)⟩

/-- The text of an empty line, the header of an array's table, and the lines of it. -/
def elementText (name : String) (doc : List Line) : List Char :=
  text (.blank :: .header (.element name) :: doc)

/-- What is known of a TOML reader that reads on: a table of an array is refused where the
name stands for something else, and is one more element where it is read. -/
structure Appends {ε : Type} (parse : List Char → Except ε Table) : Prop where
  element : ∀ s t name doc table t', parse s = .ok t → isBare name = true →
    TableLines name doc table → parse (s ++ elementText name doc) = .ok t' →
      (t.lookup name = none ∨ ∃ vs, t.lookup name = some (.array vs)) ∧
        t' = addElement t name (.table table)

theorem splitLines_append_newline (s r : List Char) :
    splitLines (s ++ '\n' :: r) = splitLines s ++ splitLines r := by
  induction s with
  | nil => rfl
  | cons c s ih =>
      rw [List.cons_append, splitLines, splitLines, ih]
      obtain ⟨l, ls, hls⟩ := List.exists_cons_of_ne_nil (splitLines_ne_nil s)
      split_ifs
      · rfl
      · rw [hls]
        rfl

/-- **The reader of the fragment reads on.** -/
theorem appends_readLines : Appends readLines where
  element s t name doc table t' hs hname hdoc hread := by
    have hentry := entry_header (show isBare (Header.element name).name = true from hname)
    have hsplit : splitLines (s ++ elementText name doc) =
        splitLines s ++ splitLines (text (.header (.element name) :: doc)) := by
      rw [elementText, text_cons, Line.text, List.nil_append, splitLines_append_newline]
    have htext : text (.header (.element name) :: doc) =
        (Line.header (.element name)).text ++ '\n' :: text doc := text_cons ..
    rw [readLines] at hs
    split at hs
    · rename_i b hb
      cases hs
      rw [readLines, hsplit, List.foldlM_append, hb] at hread
      simp only [Option.bind_eq_bind, Option.bind_some] at hread
      rw [htext, splitLines_append (newline_line hentry), List.foldlM_cons,
        readLine_text hentry] at hread
      have harray : b.flush.lookup name = none ∨ ∃ vs, b.flush.lookup name = some (.array vs) := by
        by_contra hno
        rw [not_or, not_exists] at hno
        have hstep : b.step (.header (.element name)) = none := by
          simp only [Builder.step, Builder.start]
          split
          · rename_i hnone
            exact absurd hnone hno.1
          · rename_i vs hvs
            exact absurd hvs (hno.2 vs)
          · rfl
        rw [Option.bind_some, hstep] at hread
        cases hread
      have hlines := foldlM_splitLines (hdoc b.flush) []
      rw [List.append_nil] at hlines
      simp only [Option.bind_some, Builder.step_element harray, Option.bind_eq_bind, hlines]
        at hread
      refine ⟨harray, ?_⟩
      cases hread
      rfl
    · cases hs

end Toml
end Lib
end Hextet
