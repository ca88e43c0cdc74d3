/-
# The grammar of basic strings

What stands between the quotes of a basic string, as the grammar of TOML says it: characters
that stand for themselves and escape sequences, one after the other (`BasicChars`).  The
reader of `Hextet.Lib.TomlString` is a reader of this grammar, both ways
(`readFrom_of_basicChars`, `exists_basicChars`), so a text starts with at most one basic
string (`IsBasicString.unique`).

`bare` is what is left of a text when every backslash is dropped with the character after it.
In a basic string that is plain text (`isPlain_of_mem_bare`).
-/

import Hextet.Lib.TomlString

namespace Hextet
namespace Lib
namespace Toml

/-- The number that hexadecimal digits stand for, after those that made `acc`. -/
def hexValue : ℕ → List Char → Option ℕ
  | acc, [] => some acc
  | acc, c :: ds => (toDigit 16 c).bind fun d => hexValue (16 * acc + d) ds

/-- What follows the backslash of an escape, and the character it stands for. -/
inductive EscapeSeq : List Char → Char → Prop where
  | short {c d : Char} : shortEscape c = some d → EscapeSeq [c] d
  | unicode4 {ds : List Char} {n : ℕ} {x : Char} : ds.length = 4 → hexValue 0 ds = some n →
      scalar n = some x → EscapeSeq ('u' :: ds) x
  | unicode8 {ds : List Char} {n : ℕ} {x : Char} : ds.length = 8 → hexValue 0 ds = some n →
      scalar n = some x → EscapeSeq ('U' :: ds) x

/-- What stands between the quotes of a basic string, and its value. -/
inductive BasicChars : List Char → List Char → Prop where
  | nil : BasicChars [] []
  | unescaped {c : Char} {body v : List Char} : isPlain c = true → BasicChars body v →
      BasicChars (c :: body) (c :: v)
  | escaped {e body v : List Char} {x : Char} : EscapeSeq e x → BasicChars body v →
      BasicChars ('\\' :: (e ++ body)) (x :: v)

/-- A basic string with its quotes, and its value. -/
def IsBasicString (t v : List Char) : Prop := ∃ body, t = '"' :: (body ++ ['"']) ∧ BasicChars body v

variable {c x : Char} {e ds body body' s t t' v v' r r' raw : List Char} {n acc : ℕ}

/-! ### The reader reads the grammar -/

theorem ne_of_isPlain (h : isPlain c = true) : c ≠ '"' ∧ c ≠ '\\' := by
  constructor
  · rintro rfl
    exact absurd h (by decide)
  · rintro rfl
    exact absurd h (by decide)

/-- The digits of an escape, read one by one. -/
theorem readFrom_hex (hn : hexValue acc ds = some n) (hx : scalar n = some x) {more : ℕ}
    (hlen : ds.length = more + 1) (s : List Char) :
    readFrom (.hex more acc) (ds ++ s) = (readFrom .text s).map fun r => (x :: r.1, r.2) := by
  induction ds generalizing acc more with
  | nil => cases hlen
  | cons c ds ih =>
      obtain ⟨d, hd, hn⟩ := Option.bind_eq_some_iff.1 hn
      rw [List.cons_append, readFrom.eq_def]
      simp only [hd]
      cases more with
      | zero =>
          obtain rfl : ds = [] := List.length_eq_zero_iff.1 (Nat.succ.inj hlen)
          obtain rfl : 16 * acc + d = n := Option.some.inj hn
          simp only [hx, List.nil_append]
      | succ more => exact ih hn (Nat.succ.inj hlen)

theorem readFrom_escapeSeq (h : EscapeSeq e x) (s : List Char) :
    readFrom .escape (e ++ s) = (readFrom .text s).map fun r => (x :: r.1, r.2) := by
  cases h with
  | short h => rw [List.singleton_append, readFrom, h]
  | unicode4 hlen hn hx => exact readFrom_hex hn hx hlen s
  | unicode8 hlen hn hx => exact readFrom_hex hn hx hlen s

/-- **What the grammar allows is read**, up to the closing quote. -/
theorem readFrom_of_basicChars (h : BasicChars body v) (r : List Char) :
    readFrom .text (body ++ '"' :: r) = some (v, r) := by
  induction h with
  | nil => rfl
  | unescaped hc _ ih =>
      obtain ⟨hq, hb⟩ := ne_of_isPlain hc
      rw [List.cons_append, readFrom, if_neg hq, if_neg hb, if_pos hc, ih]
      rfl
  | escaped he _ ih =>
      have hstep : ∀ s, readFrom .text ('\\' :: s) = readFrom .escape s := fun _ => rfl
      rw [List.cons_append, List.append_assoc, hstep, readFrom_escapeSeq he, ih]
      rfl

/-- What the grammar says of a text that the reader is in the middle of. -/
def Rest (st : Scan) (raw v r : List Char) : Prop :=
  match st with
  | .text => ∃ body, raw = body ++ '"' :: r ∧ BasicChars body v
  | .escape => ∃ e body x v', raw = e ++ (body ++ '"' :: r) ∧ v = x :: v' ∧ EscapeSeq e x ∧
      BasicChars body v'
  | .hex more acc => ∃ ds body n x v', raw = ds ++ (body ++ '"' :: r) ∧ v = x :: v' ∧
      ds.length = more + 1 ∧ hexValue acc ds = some n ∧ scalar n = some x ∧ BasicChars body v'

theorem rest_of_readFrom {st : Scan} (h : readFrom st raw = some (v, r)) : Rest st raw v r := by
  induction raw generalizing st v with
  | nil => cases st <;> cases h
  | cons c s ih =>
      cases st with
      | text =>
          rw [readFrom] at h
          split_ifs at h with hq hb hp
          · cases h
            exact ⟨[], by rw [hq]; rfl, .nil⟩
          · obtain ⟨e, body, x, v', rfl, rfl, he, hbody⟩ := ih h
            exact ⟨'\\' :: (e ++ body), by rw [hb]; simp, .escaped he hbody⟩
          · obtain ⟨v', rfl, ho⟩ := map_cons_eq_some h
            obtain ⟨body, rfl, hbody⟩ := ih ho
            exact ⟨c :: body, rfl, .unescaped hp hbody⟩
      | escape =>
          rw [readFrom] at h
          split at h
          · rename_i d hd
            obtain ⟨v', rfl, ho⟩ := map_cons_eq_some h
            obtain ⟨body, rfl, hbody⟩ := ih ho
            exact ⟨[c], body, d, v', rfl, rfl, .short hd, hbody⟩
          · split_ifs at h with hu hU
            · obtain ⟨ds, body, n, x, v', rfl, rfl, hlen, hn, hx, hbody⟩ := ih h
              exact ⟨'u' :: ds, body, x, v', by rw [hu]; rfl, rfl, .unicode4 hlen hn hx, hbody⟩
            · obtain ⟨ds, body, n, x, v', rfl, rfl, hlen, hn, hx, hbody⟩ := ih h
              exact ⟨'U' :: ds, body, x, v', by rw [hU]; rfl, rfl, .unicode8 hlen hn hx, hbody⟩
      | hex more acc =>
          rw [readFrom.eq_def] at h
          simp only at h
          split at h
          · cases h
          · rename_i d hd
            have hvalue : ∀ ds, hexValue acc (c :: ds) = hexValue (16 * acc + d) ds := by
              intro ds
              rw [hexValue, hd, Option.bind_some]
            split at h
            · obtain ⟨ds, body, n, x, v', rfl, rfl, hlen, hn, hx, hbody⟩ := ih h
              exact ⟨c :: ds, body, n, x, v', rfl, rfl, congrArg Nat.succ hlen,
                (hvalue ds).trans hn, hx, hbody⟩
            · split at h
              · cases h
              · rename_i x hx
                obtain ⟨v', rfl, ho⟩ := map_cons_eq_some h
                obtain ⟨body, rfl, hbody⟩ := ih ho
                exact ⟨[c], body, _, x, v', rfl, rfl, rfl, hvalue [], hx, hbody⟩

/-- **What is read is what the grammar allows.** -/
theorem exists_basicChars (h : readFrom .text raw = some (v, r)) :
    ∃ body, raw = body ++ '"' :: r ∧ BasicChars body v := rest_of_readFrom h

/-- **A text starts with at most one basic string.** -/
theorem IsBasicString.unique (h : IsBasicString t v) (h' : IsBasicString t' v')
    (heq : t ++ r = t' ++ r') : t' = t ∧ v' = v ∧ r' = r := by
  obtain ⟨body, rfl, hbody⟩ := h
  obtain ⟨body', rfl, hbody'⟩ := h'
  have htext : body ++ '"' :: r = body' ++ '"' :: r' := by simpa using heq
  have hread := readFrom_of_basicChars hbody r
  rw [htext, readFrom_of_basicChars hbody' r'] at hread
  cases hread
  obtain rfl := List.append_cancel_right htext
  exact ⟨rfl, rfl, rfl⟩

/-- **Before the end of the line there is no other string**: two quotes there are the empty
string and not the start of a multi-line one. -/
theorem BasicChars.stringAt_iff (h : BasicChars body v) :
    StringAt (body ++ '"' :: '\n' :: r) v' ↔ v' = v := by
  have hread := readFrom_of_basicChars h ('\n' :: r)
  constructor
  · rintro (⟨r', hr'⟩ | ⟨nl, raw, r', -, heq, -⟩)
    · rw [hread] at hr'
      exact (Prod.mk.inj (Option.some.inj hr')).1.symm
    · cases h with
      | nil => simp at heq
      | unescaped hc _ => exact absurd (List.cons.inj heq).1 (ne_of_isPlain hc).1
      | escaped _ _ => exact absurd (List.cons.inj heq).1 (by decide)
  · rintro rfl
    exact Or.inl ⟨_, hread⟩

/-! ### What is not escaped -/

/-- A text without its backslashes and the character after each. -/
def bare : List Char → List Char
  | [] => []
  | c :: s => if c = '\\' then bareAfter s else c :: bare s
where
  /-- After a backslash. -/
  bareAfter : List Char → List Char
    | [] => []
    | _ :: s => bare s

theorem bare_append_of_forall_ne (h : ∀ c ∈ ds, c ≠ '\\') (s : List Char) :
    bare (ds ++ s) = ds ++ bare s := by
  induction ds with
  | nil => rfl
  | cons c ds ih =>
      rw [List.cons_append, bare, if_neg (h c List.mem_cons_self),
        ih fun x hx => h x (List.mem_cons_of_mem _ hx), List.cons_append]

/-- A digit is plain. -/
theorem isPlain_of_toDigit {d : ℕ} (h : toDigit 16 c = some d) : isPlain c = true := by
  obtain ⟨hd, -⟩ := Option.filter_eq_some_iff.1 h
  have hrange : 48 ≤ c.toNat ∧ c.toNat ≤ 57 ∨ 97 ≤ c.toNat ∧ c.toNat ≤ 122 ∨
      65 ≤ c.toNat ∧ c.toNat ≤ 90 := by
    split_ifs at hd <;> tauto
  have hquote : c ≠ '"' := by
    rintro rfl
    exact absurd hrange (by decide)
  have hbackslash : c ≠ '\\' := by
    rintro rfl
    exact absurd hrange (by decide)
  simp only [isPlain, Bool.or_eq_true, Bool.and_eq_true, decide_eq_true_eq, bne_iff_ne]
  exact Or.inr ⟨⟨⟨by omega, by omega⟩, hquote⟩, hbackslash⟩

theorem isPlain_of_mem_hex (h : hexValue acc ds = some n) : ∀ c ∈ ds, isPlain c = true := by
  induction ds generalizing acc with
  | nil => exact fun c hc => by cases hc
  | cons d ds ih =>
      obtain ⟨k, hk, hn⟩ := Option.bind_eq_some_iff.1 h
      intro c hc
      rcases List.mem_cons.1 hc with rfl | hc
      · exact isPlain_of_toDigit hk
      · exact ih hn c hc

/-- **What is not escaped in a basic string is plain.** -/
theorem isPlain_of_mem_bare (h : BasicChars body v) : ∀ c ∈ bare body, isPlain c = true := by
  induction h with
  | nil => exact fun c hc => by cases hc
  | @unescaped c body v hc _ ih =>
      rw [bare, if_neg (ne_of_isPlain hc).2]
      intro x hx
      rcases List.mem_cons.1 hx with rfl | hx
      · exact hc
      · exact ih x hx
  | @escaped e body v x he _ ih =>
      have hdigits : ∀ {ds : List Char} {n : ℕ}, hexValue 0 ds = some n →
          ∀ c ∈ bare (ds ++ body), isPlain c = true := by
        intro ds n hn c hc
        have hplain := isPlain_of_mem_hex hn
        rw [bare_append_of_forall_ne fun c hc => (ne_of_isPlain (hplain c hc)).2] at hc
        exact (List.mem_append.1 hc).elim (hplain c) (ih c)
      cases he with
      | short => exact ih
      | unicode4 _ hn => exact hdigits hn
      | unicode8 _ hn => exact hdigits hn

end Toml
end Lib
end Hextet
