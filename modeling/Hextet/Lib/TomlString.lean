/-
# TOML strings

The two kinds of TOML string that start with `"`.  A basic string ends at the
next quote that is not escaped and holds no control character but the tab
(`readFrom`); a multi-line string starts and ends with three quotes, may hold
line breaks, and drops white space after a backslash at the end of a line
(`MultiLine`, which leaves open what a reader may choose: how a carriage return
with a line feed is kept, and which of several quotes in a row close).

A text stands for itself between quotes exactly when all its characters are
plain: `readFrom_plain` one way, and `isPlain_of_stringAt` the other, whatever
follows the closing quote and the line break.  The reason for the second is that
reading never gains characters (`exists_body`) and never loses a character that
is part of no escape, so a string that ended early would be too short and one
that ran on would hold too much.
-/

import Hextet.Lib.Numeral
import Mathlib.Data.List.Basic

namespace Hextet
namespace Lib
namespace Toml

/-- The characters that stand for themselves in a basic string. -/
def isPlain (c : Char) : Bool :=
  c == '\t' || (0x20 ≤ c.toNat && c.toNat != 0x7F && c != '"' && c != '\\')

/-- The escapes of one letter. -/
def shortEscape (c : Char) : Option Char :=
  if c = 'b' then some (Char.ofNat 8) else if c = 't' then some '\t'
  else if c = 'n' then some '\n' else if c = 'f' then some (Char.ofNat 12)
  else if c = 'r' then some '\r' else if c = '"' then some '"'
  else if c = '\\' then some '\\' else none

/-- A Unicode scalar value. -/
def scalar (n : ℕ) : Option Char := if n.isValidChar then some (Char.ofNat n) else none

/-- Where the reader of a basic string stands. -/
inductive Scan where
  | text
  /-- After a backslash. -/
  | escape
  /-- In the digits of `\u` or `\U`: how many follow the next one, and the value so far. -/
  | hex (more acc : ℕ)
  deriving DecidableEq

/-- Reads a basic string up to its closing quote: the value, and what follows. -/
def readFrom : Scan → List Char → Option (List Char × List Char)
  | _, [] => none
  | .text, c :: s =>
      if c = '"' then some ([], s)
      else if c = '\\' then readFrom .escape s
      else if isPlain c then (readFrom .text s).map fun r => (c :: r.1, r.2)
      else none
  | .escape, c :: s =>
      match shortEscape c with
      | some d => (readFrom .text s).map fun r => (d :: r.1, r.2)
      | none =>
          if c = 'u' then readFrom (.hex 3 0) s
          else if c = 'U' then readFrom (.hex 7 0) s
          else none
  | .hex more acc, c :: s =>
      match toDigit 16 c with
      | none => none
      | some d =>
          match more with
          | more + 1 => readFrom (.hex more (16 * acc + d)) s
          | 0 =>
              match scalar (16 * acc + d) with
              | none => none
              | some x => (readFrom .text s).map fun r => (x :: r.1, r.2)

/-- A character that is part of no escape and no white space. -/
def Pinned (p : Char) : Prop :=
  toDigit 16 p = none ∧ shortEscape p = none ∧ p ∉ ['u', 'U', ' ', '\t', '\n', '\r']

instance (p : Char) : Decidable (Pinned p) := inferInstanceAs (Decidable (_ ∧ _ ∧ _))

/-- What a reader has made of the text `body`: the value is no longer, and keeps the
pinned characters. -/
structure Bounded (body v : List Char) : Prop where
  length : v.length ≤ body.length
  count : ∀ p, Pinned p → body.count p ≤ v.count p

namespace Bounded

variable {body v e w : List Char} {c d : Char}

theorem nil : Bounded [] [] := ⟨le_rfl, by simp⟩

theorem append (h : Bounded body v) (h' : Bounded e w) : Bounded (e ++ body) (w ++ v) where
  length := by
    have := h.length
    have := h'.length
    simp only [List.length_append]
    omega
  count p hp := by
    have := h.count p hp
    have := h'.count p hp
    simp only [List.count_append]
    omega

theorem self (l : List Char) : Bounded l l := ⟨le_rfl, fun _ _ => le_rfl⟩

/-- A character that is not pinned may be lost. -/
theorem drop (h : Bounded body v) (hc : ¬Pinned c) : Bounded (c :: body) v where
  length := by
    have := h.length
    simp only [List.length_cons]
    omega
  count p hp := by
    have hne : c ≠ p := by
      rintro rfl
      exact hc hp
    rw [List.count_cons_of_ne hne]
    exact h.count p hp

theorem cons (h : Bounded body v) (c : Char) : Bounded (c :: body) (c :: v) :=
  h.append (self [c])

/-- A character that is not pinned may be changed. -/
theorem change (h : Bounded body v) (hc : ¬Pinned c) : Bounded (c :: body) (d :: v) where
  length := by simpa using h.length
  count p hp := by
    have hne : c ≠ p := by
      rintro rfl
      exact hc hp
    have := h.count p hp
    rw [List.count_cons_of_ne hne, List.count_cons]
    omega

end Bounded

theorem map_cons_eq_some {d : Char} {o : Option (List Char × List Char)} {v r : List Char}
    (h : (o.map fun r => (d :: r.1, r.2)) = some (v, r)) :
    ∃ v', v = d :: v' ∧ o = some (v', r) := by
  obtain ⟨⟨v', r'⟩, ho, heq⟩ := Option.map_eq_some_iff.1 h
  cases heq
  exact ⟨v', rfl, ho⟩

theorem not_pinned_of_toDigit {c : Char} {d : ℕ} (h : toDigit 16 c = some d) :
    c ≠ '\n' ∧ ¬Pinned c := by
  constructor
  · rintro rfl
    rw [show toDigit 16 '\n' = none by decide] at h
    cases h
  · intro hpin
    rw [hpin.1] at h
    cases h

theorem not_pinned_of_shortEscape {c d : Char} (h : shortEscape c = some d) :
    c ≠ '\n' ∧ ¬Pinned c := by
  constructor
  · rintro rfl
    rw [show shortEscape '\n' = none by decide] at h
    cases h
  · intro hpin
    rw [hpin.2.1] at h
    cases h

/-- What the reader does with a character: it is the closing quote, stands for itself,
or is part of an escape, and is then lost or gives way to what the escape stands for. -/
theorem readFrom_cons_cases {st : Scan} {c : Char} {s v r : List Char}
    (h : readFrom st (c :: s) = some (v, r)) :
    (st = .text ∧ c = '"' ∧ v = [] ∧ r = s) ∨
      (∃ v', st = .text ∧ isPlain c = true ∧ v = c :: v' ∧ readFrom .text s = some (v', r)) ∨
      ((c ≠ '\n' ∧ ¬Pinned c) ∧ ((∃ st', readFrom st' s = some (v, r)) ∨
        ∃ d v', st ≠ .text ∧ v = d :: v' ∧ readFrom .text s = some (v', r))) := by
  cases st with
  | text =>
      rw [readFrom] at h
      split_ifs at h with hq hb hp
      · cases h
        exact .inl ⟨rfl, hq, rfl, rfl⟩
      · exact .inr (.inr ⟨by rw [hb]; decide, .inl ⟨_, h⟩⟩)
      · obtain ⟨v', hv, ho⟩ := map_cons_eq_some h
        exact .inr (.inl ⟨v', rfl, hp, hv, ho⟩)
  | escape =>
      rw [readFrom] at h
      split at h
      · rename_i d hd
        obtain ⟨v', hv, ho⟩ := map_cons_eq_some h
        exact .inr (.inr ⟨not_pinned_of_shortEscape hd, .inr ⟨d, v', by simp, hv, ho⟩⟩)
      · split_ifs at h with hu hU
        · exact .inr (.inr ⟨by rw [hu]; decide, .inl ⟨_, h⟩⟩)
        · exact .inr (.inr ⟨by rw [hU]; decide, .inl ⟨_, h⟩⟩)
  | hex more acc =>
      rw [readFrom.eq_def] at h
      simp only at h
      split at h
      · cases h
      · rename_i d hd
        refine .inr (.inr ⟨not_pinned_of_toDigit hd, ?_⟩)
        split at h
        · exact .inl ⟨_, h⟩
        · split at h
          · cases h
          · rename_i x hx
            obtain ⟨v', hv, ho⟩ := map_cons_eq_some h
            exact .inr ⟨x, v', by simp, hv, ho⟩

/-- **A basic string is its text, a quote and the rest**; the text has no line
break, and reading it loses nothing only if it is plain. -/
theorem exists_body {st : Scan} {raw v r : List Char} (h : readFrom st raw = some (v, r)) :
    ∃ body, raw = body ++ '"' :: r ∧ '\n' ∉ body ∧ Bounded body v ∧
      (st = .text → v.length = body.length → v = body ∧ body.all isPlain = true) := by
  induction raw generalizing st v with
  | nil => cases st <;> cases h
  | cons c s ih =>
      rcases readFrom_cons_cases h with ⟨-, rfl, rfl, rfl⟩ | ⟨v', -, hp, rfl, ho⟩ |
        ⟨⟨hcn, hc⟩, ⟨st', ho⟩ | ⟨d, v', hst, rfl, ho⟩⟩
      · exact ⟨[], rfl, by simp, .nil, fun _ _ => ⟨rfl, rfl⟩⟩
      · obtain ⟨body, rfl, hnl, hbd, heq⟩ := ih ho
        have hcn : c ≠ '\n' := by
          rintro rfl
          exact absurd hp (by decide)
        refine ⟨c :: body, rfl, by simp [hcn.symm, hnl], hbd.cons c, fun _ hlen => ?_⟩
        obtain ⟨rfl, hall⟩ := heq rfl (by simpa using hlen)
        exact ⟨rfl, by simp [hp, hall]⟩
      · -- a character less, so the lengths differ
        obtain ⟨body, rfl, hnl, hbd, -⟩ := ih ho
        refine ⟨c :: body, rfl, by simp [hcn.symm, hnl], hbd.drop hc, fun _ hlen => ?_⟩
        have := hbd.length
        simp only [List.length_cons] at hlen
        omega
      · obtain ⟨body, rfl, hnl, hbd, -⟩ := ih ho
        exact ⟨c :: body, rfl, by simp [hcn.symm, hnl], hbd.change hc, fun hst' => absurd hst' hst⟩

/-- What follows a basic string does not matter. -/
theorem readFrom_append {st : Scan} {raw v r : List Char} (h : readFrom st raw = some (v, r))
    (t : List Char) : readFrom st (raw ++ t) = some (v, r ++ t) := by
  induction raw generalizing st v with
  | nil => cases st <;> cases h
  | cons c s ih =>
      have hmap : ∀ {d : Char} {v : List Char},
          ((readFrom .text s).map fun r => (d :: r.1, r.2)) = some (v, r) →
          ((readFrom .text (s ++ t)).map fun r => (d :: r.1, r.2)) = some (v, r ++ t) := by
        intro d v h
        obtain ⟨v', rfl, ho⟩ := map_cons_eq_some h
        rw [ih ho]
        rfl
      rw [List.cons_append]
      cases st with
      | text =>
          rw [readFrom] at h ⊢
          split_ifs at h ⊢
          · cases h
            rfl
          · exact ih h
          · exact hmap h
      | escape =>
          rw [readFrom] at h ⊢
          split at h
          · exact hmap h
          · split_ifs at h ⊢
            · exact ih h
            · exact ih h
      | hex more acc =>
          rw [readFrom.eq_def] at h ⊢
          simp only at h ⊢
          split at h
          · cases h
          · split at h
            · exact ih h
            · split at h
              · cases h
              · exact hmap h

/-- **Plain text stands for itself.** -/
theorem readFrom_plain {s : List Char} (h : s.all isPlain = true) (r : List Char) :
    readFrom .text (s ++ '"' :: r) = some (s, r) := by
  induction s with
  | nil => rfl
  | cons c s ih =>
      simp only [List.all_cons, Bool.and_eq_true] at h
      have hq : c ≠ '"' := by
        rintro rfl
        exact absurd h.1 (by decide)
      have hb : c ≠ '\\' := by
        rintro rfl
        exact absurd h.1 (by decide)
      rw [List.cons_append, readFrom, if_neg hq, if_neg hb, if_pos h.1, ih h.2]
      rfl

/-! ### Multi-line strings -/

/-- The text of an escape and the character it stands for. -/
def IsEscape (e : List Char) (c : Char) : Prop := readFrom .escape (e ++ ['"']) = some ([c], [])

/-- Reads a multi-line string up to its closing quotes: `MultiLine raw v r` when
`raw` may be read as the value `v`, with `r` left. -/
inductive MultiLine : List Char → List Char → List Char → Prop where
  | close (r : List Char) : MultiLine ('"' :: '"' :: '"' :: r) [] r
  | quote {raw v r : List Char} : MultiLine raw v r → MultiLine ('"' :: raw) ('"' :: v) r
  | char {raw v r : List Char} {c : Char} : isPlain c = true → MultiLine raw v r →
      MultiLine (c :: raw) (c :: v) r
  | newline {raw v r : List Char} : MultiLine raw v r → MultiLine ('\n' :: raw) ('\n' :: v) r
  | crlf {raw v r : List Char} : MultiLine raw v r →
      MultiLine ('\r' :: '\n' :: raw) ('\r' :: '\n' :: v) r
  | crlfAsLf {raw v r : List Char} : MultiLine raw v r →
      MultiLine ('\r' :: '\n' :: raw) ('\n' :: v) r
  | escape {raw v r e : List Char} {c : Char} : IsEscape e c → MultiLine raw v r →
      MultiLine ('\\' :: (e ++ raw)) (c :: v) r
  /-- A backslash at the end of a line. -/
  | trim {raw v r ws : List Char} : (∀ c ∈ ws, c ∈ [' ', '\t', '\n', '\r']) →
      MultiLine raw v r → MultiLine ('\\' :: (ws ++ raw)) v r

theorem IsEscape.bounded {e : List Char} {c : Char} (h : IsEscape e c) : Bounded e [c] := by
  obtain ⟨body, heq, -, hbd, -⟩ := exists_body h
  rw [List.append_cancel_right heq]
  exact hbd

theorem bounded_nil_of_space {ws : List Char} (h : ∀ c ∈ ws, c ∈ [' ', '\t', '\n', '\r']) :
    Bounded ws [] := by
  induction ws with
  | nil => exact .nil
  | cons c ws ih =>
      refine (ih fun c' hc' => h c' (List.mem_cons_of_mem _ hc')).drop fun hpin => hpin.2.2 ?_
      have := h c (List.mem_cons_self ..)
      simp only [List.mem_cons, List.not_mem_nil, or_false] at this ⊢
      tauto

/-- A multi-line string is its text, three quotes and the rest. -/
theorem MultiLine.exists_body {raw v r : List Char} (h : MultiLine raw v r) :
    ∃ body, raw = body ++ '"' :: '"' :: '"' :: r ∧ Bounded body v := by
  induction h with
  | close r => exact ⟨[], rfl, .nil⟩
  | quote _ ih =>
      obtain ⟨body, rfl, hbd⟩ := ih
      exact ⟨'"' :: body, rfl, hbd.cons _⟩
  | char _ _ ih =>
      obtain ⟨body, rfl, hbd⟩ := ih
      exact ⟨_ :: body, rfl, hbd.cons _⟩
  | newline _ ih =>
      obtain ⟨body, rfl, hbd⟩ := ih
      exact ⟨'\n' :: body, rfl, hbd.cons _⟩
  | crlf _ ih =>
      obtain ⟨body, rfl, hbd⟩ := ih
      exact ⟨'\r' :: '\n' :: body, rfl, (hbd.cons _).cons _⟩
  | crlfAsLf _ ih =>
      obtain ⟨body, rfl, hbd⟩ := ih
      exact ⟨'\r' :: '\n' :: body, rfl, (hbd.cons _).drop (by decide)⟩
  | @escape _ _ _ e c he _ ih =>
      obtain ⟨body, rfl, hbd⟩ := ih
      exact ⟨'\\' :: (e ++ body), by simp, (hbd.append he.bounded).drop (by decide)⟩
  | @trim _ _ _ ws hws _ ih =>
      obtain ⟨body, rfl, hbd⟩ := ih
      exact ⟨'\\' :: (ws ++ body), by simp,
        (hbd.append (bounded_nil_of_space hws)).drop (by decide)⟩

/-- A text that starts after a quote may be read as the string `s`: as a basic
string, or after two more quotes and perhaps a line break as a multi-line one. -/
def StringAt (rest s : List Char) : Prop :=
  (∃ r, readFrom .text rest = some (s, r)) ∨
    ∃ nl raw r, nl ∈ [[], ['\n'], ['\r', '\n']] ∧ rest = '"' :: '"' :: (nl ++ raw) ∧
      MultiLine raw s r

/-! ### Text between quotes -/

section

variable {s t mid : List Char}

/-- A basic string that has the value of the text between the quotes is that text. -/
theorem isPlain_of_readFrom {r : List Char}
    (h : readFrom .text (s ++ '"' :: '\n' :: t) = some (s, r)) : s.all isPlain = true := by
  obtain ⟨body, heq, hnl, hbd, hself⟩ := exists_body h
  have heq' : (s ++ ['"']) ++ '\n' :: t = body ++ '"' :: r := by simpa using heq
  rcases List.append_eq_append_iff.1 heq' with ⟨a, hbody, hrest⟩ | ⟨a, hbody, hrest⟩
  · -- it would run over the line break
    cases a with
    | nil => simp at hrest
    | cons c a =>
        have hc : '\n' = c := by
          simp only [List.cons_append, List.cons.injEq] at hrest
          exact hrest.1
        exact absurd (by rw [hbody, hc]; simp) hnl
  · cases a with
    | nil => simp at hrest
    | cons c a =>
        have hlen := congrArg List.length hbody
        simp only [List.length_append, List.length_cons, List.length_nil] at hlen
        have := hbd.length
        obtain ⟨rfl, hall⟩ := hself rfl (by omega)
        exact hall

theorem count_lineBreak {p : Char} (hp : Pinned p) {nl : List Char}
    (hnl : nl ∈ [[], ['\n'], ['\r', '\n']]) : nl.count p = 0 := by
  rw [List.count_eq_zero]
  intro hmem
  refine hp.2.2 ?_
  simp only [List.mem_cons, List.not_mem_nil, or_false] at hnl ⊢
  rcases hnl with rfl | rfl | rfl
  · cases hmem
  · simp at hmem
    tauto
  · simp at hmem
    tauto

/-- A text that ends at a quote, past the line of `s`, holds what follows that line
up to the next quote. -/
theorem count_le_of_append_eq (p : Char) {b r : List Char} (hq : '"' ∉ mid)
    (hlen : s.length + 2 ≤ b.length) (heq : (s ++ '"' :: '\n' :: mid) ++ t = b ++ '"' :: r) :
    (s ++ '"' :: '\n' :: mid).count p ≤ b.count p := by
  rcases List.append_eq_append_iff.1 heq with ⟨a, rfl, -⟩ | ⟨a, hb, hrest⟩
  · exact (List.sublist_append_left _ a).count_le p
  · -- the quote would stand in what follows the line
    cases a with
    | nil =>
        rw [List.append_nil] at hb
        rw [hb]
    | cons c a =>
        have hc : c = '"' := by
          simp only [List.cons_append, List.cons.injEq] at hrest
          exact hrest.1.symm
        have hdrop := congrArg (List.drop (s.length + 2)) hb
        rw [List.drop_append_of_le_length hlen] at hdrop
        have hleft : List.drop (s.length + 2) (s ++ '"' :: '\n' :: mid) = mid := by
          simp [List.drop_append]
        rw [hleft, hc] at hdrop
        exact absurd (by rw [hdrop]; simp) hq

/-- A multi-line string cannot have the value of the text between the quotes: it
would hold what follows as well. -/
theorem not_multiLine {p : Char} (hp : Pinned p) (hmid : p ∈ mid) (hq : '"' ∉ mid)
    {nl raw r : List Char} (hnl : nl ∈ [[], ['\n'], ['\r', '\n']])
    (heq : s ++ '"' :: '\n' :: (mid ++ t) = '"' :: '"' :: (nl ++ raw)) : ¬MultiLine raw s r := by
  intro h
  obtain ⟨body, rfl, hbd⟩ := h.exists_body
  have hpq : '"' ≠ p := by
    rintro rfl
    exact absurd hp (by decide)
  have hcount : ('"' :: '"' :: (nl ++ body)).count p ≤ s.count p := by
    rw [List.count_cons_of_ne hpq, List.count_cons_of_ne hpq, List.count_append,
      count_lineBreak hp hnl]
    have := hbd.count p hp
    omega
  have hlen : s.length + 2 ≤ ('"' :: '"' :: (nl ++ body)).length := by
    have := hbd.length
    simp only [List.length_cons, List.length_append]
    omega
  have heq' : (s ++ '"' :: '\n' :: mid) ++ t =
      ('"' :: '"' :: (nl ++ body)) ++ '"' :: '"' :: '"' :: r := by
    simpa using heq
  have hbig := count_le_of_append_eq p hq hlen heq'
  have hpos : 0 < mid.count p := List.count_pos_iff.2 hmid
  rw [List.count_append, List.count_cons_of_ne hpq, List.count_cons] at hbig
  omega

/-- **A text that is read back from between two quotes is plain**, if a pinned
character follows before the next quote. -/
theorem isPlain_of_stringAt {p : Char} (hp : Pinned p) (hmid : p ∈ mid) (hq : '"' ∉ mid)
    (h : StringAt (s ++ '"' :: '\n' :: (mid ++ t)) s) : s.all isPlain = true := by
  rcases h with ⟨r, h⟩ | ⟨nl, raw, r, hnl, heq, h⟩
  · exact isPlain_of_readFrom h
  · exact absurd h (not_multiLine hp hmid hq hnl heq)

end

end Toml
end Lib
end Hextet
