/-
# TOML documents

A fragment of TOML that programs write: lines that are empty, a comment, a table
header, an array-of-tables header, or a key with a basic string, a decimal
integer or an array of basic strings.  `Builder` holds what a reader knows after
some lines, and `build` runs it over a document.

`Reads` is what the development takes for granted of a TOML reader, both parts
of the language's rules: a document of the fragment is read as its tables, and a
text that goes on after such a document with `key = "` is read, if at all, with
a string at that key, since no later line may define the key again.  A reader of
the fragment itself, line by line, has both (`reads_readLines`).
-/

import Hextet.Lib.TomlString

namespace Hextet
namespace Lib
namespace Toml

/-- A value. -/
inductive Value where
  | string (s : String)
  | integer (n : ℤ)
  | boolean (b : Bool)
  | array (vs : List Value)
  | table (t : List (String × Value))
  /-- A float or a date. -/
  | other

/-- The keys of a table with their values, in the order of the file. -/
abbrev Table := List (String × Value)

/-- The value at a key of a table of the document. -/
def get (t : Table) (name key : String) : Option Value :=
  match t.lookup name with
  | some (.table t) => t.lookup key
  | _ => none

/-! ### Reading lines -/

/-- `[name]` or `[[name]]`. -/
inductive Header where
  | table (name : String)
  | element (name : String)
  deriving DecidableEq

/-- What a line says. -/
inductive Entry where
  | blank
  | header (h : Header)
  | pair (key : String) (v : Value)

/-- The tables that are complete, and the one that lines are added to. -/
structure Builder where
  closed : Table
  current : Option (Header × Table)

/-- A table more at the end of an array of tables. -/
def addElement (t : Table) (name : String) (v : Value) : Table :=
  match t.lookup name with
  | none => t ++ [(name, .array [v])]
  | some _ =>
      t.map fun x =>
        if x.1 = name then
          match x.2 with
          | .array vs => (x.1, .array (vs ++ [v]))
          | _ => x
        else x

namespace Builder

/-- All tables, the current one included. -/
def flush (b : Builder) : Table :=
  match b.current with
  | none => b.closed
  | some (.table name, t) => b.closed ++ [(name, .table t)]
  | some (.element name, t) => addElement b.closed name (.table t)

/-- Starts a table: a name is defined once, or is an array of tables each time. -/
def start (t : Table) : Header → Option Builder
  | .table name =>
      match t.lookup name with
      | none => some ⟨t, some (.table name, [])⟩
      | some _ => none
  | .element name =>
      match t.lookup name with
      | none => some ⟨t, some (.element name, [])⟩
      | some (.array _) => some ⟨t, some (.element name, [])⟩
      | some _ => none

/-- One line more; a key stands in a table and is defined once. -/
def step (b : Builder) : Entry → Option Builder
  | .blank => some b
  | .header h => start b.flush h
  | .pair key v =>
      match b.current with
      | none => none
      | some (h, t) =>
          match t.lookup key with
          | none => some ⟨b.closed, some (h, t ++ [(key, v)])⟩
          | some _ => none

end Builder

/-! ### Documents -/

/-- A character of a bare key. -/
def isBareChar (c : Char) : Bool := c.isAlphanum || c == '_' || c == '-'

/-- A bare key. -/
def isBare (s : String) : Bool := s.toList != [] && s.toList.all isBareChar

/-- A character of a comment. -/
def isCommentChar (c : Char) : Bool := isPlain c || c == '"' || c == '\\'

/-- The text of a value, strings by what stands between the quotes. -/
inductive Literal where
  | string (body : List Char)
  | integer (n : ℕ)
  | strings (bodies : List (List Char))

/-- The string that a text between quotes stands for. -/
def decode (body : List Char) : Option String :=
  match readFrom .text (body ++ ['"']) with
  | some (s, []) => some (String.ofList s)
  | _ => none

/-- Plain text stands for itself. -/
theorem decode_plain {s : List Char} (h : s.all isPlain = true) :
    decode s = some (String.ofList s) := by
  rw [decode, readFrom_plain h]

/-- An array of strings after its bracket. -/
def stringsText : List (List Char) → List Char
  | [] => [']']
  | [b] => '"' :: (b ++ ['"', ']'])
  | b :: bs => '"' :: (b ++ '"' :: ',' :: ' ' :: stringsText bs)

/-- The text of a literal. -/
def Literal.text : Literal → List Char
  | string body => '"' :: (body ++ ['"'])
  | integer n => Nat.toDigits 10 n
  | strings bodies => '[' :: stringsText bodies

/-- The value of a literal. -/
def Literal.value : Literal → Option Value
  | string body => (decode body).map .string
  | integer n => if n < 2 ^ 63 then some (.integer n) else none
  | strings bodies => (bodies.mapM decode).map fun ss => .array (ss.map .string)

/-- A line. -/
inductive Line where
  | blank
  | comment (text : List Char)
  | header (h : Header)
  | pair (key : String) (v : Literal)

/-- The text of a header. -/
def Header.text : Header → List Char
  | table name => '[' :: (name.toList ++ [']'])
  | element name => '[' :: '[' :: (name.toList ++ [']', ']'])

/-- The name of a header. -/
def Header.name : Header → String
  | table name => name
  | element name => name

/-- The text of a line. -/
def Line.text : Line → List Char
  | blank => []
  | comment text => '#' :: text
  | header h => h.text
  | pair key v => key.toList ++ ' ' :: '=' :: ' ' :: v.text

/-- What a line says, if it is well formed. -/
def Line.entry : Line → Option Entry
  | blank => some .blank
  | comment text => if text.all isCommentChar then some .blank else none
  | header h => if isBare h.name then some (.header h) else none
  | pair key v => if isBare key then v.value.map (.pair key) else none

/-- The text of a document. -/
def text (doc : List Line) : List Char := doc.flatMap fun l => l.text ++ ['\n']

/-- The lines of a document, after those that led to `b`. -/
def Builder.run (b : Builder) (doc : List Line) : Option Builder :=
  doc.foldlM (fun b l => l.entry.bind b.step) b

/-- The lines of a document, from the start. -/
def build (doc : List Line) : Option Builder := Builder.run ⟨[], none⟩ doc

/-- What is known of a TOML reader. -/
structure Reads {ε : Type} (parse : List Char → Except ε Table) : Prop where
  /-- A document of the fragment is read. -/
  document : ∀ doc b, build doc = some b → parse (text doc) = .ok b.flush
  /-- What follows `key = "` is read as a string, and stays the value of the key. -/
  string_value : ∀ doc b name t key rest v, build doc = some b →
    b.current = some (.table name, t) → isBare key = true →
    parse (text doc ++ (key.toList ++ ' ' :: '=' :: ' ' :: '"' :: rest)) = .ok v →
      ∃ s, StringAt rest s ∧ get v name key = some (.string (String.ofList s))

section Run

variable {b b' : Builder} {doc doc' : List Line}

/-- One line, then the others. -/
theorem Builder.run_line {l : Line} {e : Entry} (he : l.entry = some e) (hs : b.step e = some b')
    (doc : List Line) : b.run (l :: doc) = b'.run doc := by
  rw [run, List.foldlM_cons, he, Option.bind_some, hs]
  rfl

theorem Builder.run_blank (b : Builder) (doc : List Line) : b.run (.blank :: doc) = b.run doc :=
  run_line rfl rfl doc

/-- A string between quotes is a pair. -/
theorem entry_string {key : String} (hkey : isBare key = true) {body : List Char} {s : String}
    (h : decode body = some s) :
    (Line.pair key (.string body)).entry = some (.pair key (.string s)) := by
  rw [Line.entry, if_pos hkey, Literal.value, h]
  rfl

theorem entry_comment {s : List Char} (h : s.all isCommentChar = true) :
    (Line.comment s).entry = some .blank := if_pos h

theorem entry_header {h : Header} (hb : isBare h.name = true) :
    (Line.header h).entry = some (.header h) := if_pos hb

namespace Builder

/-- A key that is not there yet is added. -/
theorem step_pair {h : Header} {t : Table} {key : String} {v : Value}
    (hb : b.current = some (h, t)) (hkey : t.lookup key = none) :
    b.step (.pair key v) = some ⟨b.closed, some (h, t ++ [(key, v)])⟩ := by
  simp only [step, hb, hkey]

/-- A table that is not there yet is started. -/
theorem step_table {name : String} (h : b.flush.lookup name = none) :
    b.step (.header (.table name)) = some ⟨b.flush, some (.table name, [])⟩ := by
  simp only [step, start, h]

/-- An array of tables is started, or grows. -/
theorem step_element {name : String}
    (h : b.flush.lookup name = none ∨ ∃ vs, b.flush.lookup name = some (.array vs)) :
    b.step (.header (.element name)) = some ⟨b.flush, some (.element name, [])⟩ := by
  rcases h with h | ⟨vs, h⟩ <;> simp only [step, start, h]

end Builder

theorem Builder.run_lines (h : b.run doc = some b') (doc' : List Line) :
    b.run (doc ++ doc') = b'.run doc' := by
  rw [run] at h
  rw [run, List.foldlM_append, h]
  rfl

/-- Comments change nothing. -/
theorem Builder.run_comments (b : Builder) {ls : List (List Char)}
    (h : ls.all (·.all isCommentChar) = true) : b.run (ls.map .comment) = some b := by
  induction ls with
  | nil => rfl
  | cons l ls ih =>
      simp only [List.all_cons, Bool.and_eq_true] at h
      rw [List.map_cons, run_line (entry_comment h.1) rfl, ih h.2]

@[simp] theorem text_nil : text [] = [] := rfl

@[simp] theorem text_cons (l : Line) (doc : List Line) :
    text (l :: doc) = l.text ++ '\n' :: text doc := by
  simp [text]

@[simp] theorem text_append (doc doc' : List Line) : text (doc ++ doc') = text doc ++ text doc' :=
  List.flatMap_append ..

/-- **What a reader makes of text that was put between quotes**: a string, and if
it is that text, the text is plain.  A pinned character has to follow the line
before the next quote. -/
theorem Reads.string_between {ε : Type} {parse : List Char → Except ε Table} (hp : Reads parse)
    {name key : String} {t : Table} (hb : build doc = some b)
    (hcur : b.current = some (.table name, t)) (hkey : isBare key = true) {body : List Char}
    {v : Table} (hv : parse (text (doc ++ .pair key (.string body) :: doc')) = .ok v)
    {p : Char} {mid r : List Char} (hpin : Pinned p) (hmid : p ∈ mid) (hq : '"' ∉ mid)
    (hnext : text doc' = mid ++ r) :
    ∃ s, get v name key = some (.string (String.ofList s)) ∧
      (s = body → body.all isPlain = true) := by
  have htext : text (doc ++ .pair key (.string body) :: doc') = text doc ++
      (key.toList ++ ' ' :: '=' :: ' ' :: '"' :: (body ++ '"' :: '\n' :: (mid ++ r))) := by
    simp [Line.text, Literal.text, hnext]
  rw [htext] at hv
  obtain ⟨s, hs, hget⟩ := hp.string_value doc b name t key _ v hb hcur hkey hv
  refine ⟨s, hget, fun heq => ?_⟩
  rw [heq] at hs
  exact isPlain_of_stringAt hpin hmid hq hs

end Run

/-! ### A reader of the fragment -/

/-- The strings of an array, after its bracket. -/
def readStrings : ℕ → List Char → Option (List String)
  | k + 1, '"' :: s =>
      match readFrom .text s with
      | some (v, [']']) => some [String.ofList v]
      | some (v, ',' :: ' ' :: s) => (readStrings k s).map (String.ofList v :: ·)
      | _ => none
  | _, _ => none

/-- A value to the end of the line. -/
def readValue : List Char → Option Value
  | ['[', ']'] => some (.array [])
  | '[' :: s => (readStrings s.length s).map fun ss => .array (ss.map .string)
  | '"' :: s =>
      match readFrom .text s with
      | some (v, []) => some (.string (String.ofList v))
      | _ => none
  | s =>
      match readNumber 10 none false (2 ^ 63) s with
      | some (n, []) => some (.integer n)
      | _ => none

/-- A header name up to the given brackets. -/
def readName (close s : List Char) : Option String :=
  if s.takeWhile isBareChar ≠ [] ∧ s.dropWhile isBareChar = close then
    some (String.ofList (s.takeWhile isBareChar))
  else none

/-- A key and its value. -/
def readPair (s : List Char) : Option Entry :=
  match s.dropWhile isBareChar with
  | ' ' :: '=' :: ' ' :: v =>
      if s.takeWhile isBareChar = [] then none
      else (readValue v).map (.pair (String.ofList (s.takeWhile isBareChar)))
  | _ => none

/-- A line. -/
def readLine : List Char → Option Entry
  | [] => some .blank
  | '#' :: s => if s.all isCommentChar then some .blank else none
  | '[' :: '[' :: s => (readName [']', ']'] s).map fun n => .header (.element n)
  | '[' :: s => (readName [']'] s).map fun n => .header (.table n)
  | s => readPair s

/-- The lines of a text. -/
def splitLines : List Char → List (List Char)
  | [] => [[]]
  | c :: s =>
      if c = '\n' then [] :: splitLines s
      else
        match splitLines s with
        | [] => [[c]]
        | l :: ls => (c :: l) :: ls

/-- Reads a text line by line. -/
def readLines (s : List Char) : Except Unit Table :=
  match (splitLines s).foldlM (fun (b : Builder) l => (readLine l).bind b.step) ⟨[], none⟩ with
  | some b => .ok b.flush
  | none => .error ()

section Lines

theorem splitLines_ne_nil (s : List Char) : splitLines s ≠ [] := by
  cases s with
  | nil => simp [splitLines]
  | cons c s =>
      rw [splitLines]
      split_ifs
      · simp
      · split <;> simp

/-- A line ends at its line break. -/
theorem splitLines_append {l : List Char} (h : '\n' ∉ l) (s : List Char) :
    splitLines (l ++ '\n' :: s) = l :: splitLines s := by
  induction l with
  | nil => rw [List.nil_append, splitLines, if_pos rfl]
  | cons c l ih =>
      have hc : c ≠ '\n' := fun hc => h (by simp [hc])
      rw [List.cons_append, splitLines, if_neg hc, ih fun hl => h (List.mem_cons_of_mem _ hl)]

/-- Text without a line break belongs to the line that follows it. -/
theorem splitLines_append_head {l : List Char} (h : '\n' ∉ l) {s l₀ : List Char}
    {ls : List (List Char)} (hs : splitLines s = l₀ :: ls) :
    splitLines (l ++ s) = (l ++ l₀) :: ls := by
  induction l with
  | nil => exact hs
  | cons c l ih =>
      have hc : c ≠ '\n' := fun hc => h (by simp [hc])
      rw [List.cons_append, splitLines, if_neg hc, ih fun hl => h (List.mem_cons_of_mem _ hl)]
      rfl

/-- The first line is where the text starts. -/
theorem exists_of_splitLines {s l₀ : List Char} {ls : List (List Char)}
    (h : splitLines s = l₀ :: ls) : ∃ t, s = l₀ ++ t := by
  induction s generalizing l₀ ls with
  | nil =>
      cases h
      exact ⟨[], rfl⟩
  | cons c s ih =>
      rw [splitLines] at h
      split_ifs at h
      · cases h
        exact ⟨c :: s, rfl⟩
      · split at h
        · rename_i hnil
          exact absurd hnil (splitLines_ne_nil s)
        · rename_i l ls' heq
          cases h
          obtain ⟨t, rfl⟩ := ih heq
          exact ⟨t, rfl⟩

/-- The string a text stands for is read from between quotes. -/
theorem readFrom_of_decode {body : List Char} {v : String} (h : decode body = some v)
    (r : List Char) : readFrom .text (body ++ '"' :: r) = some (v.toList, r) := by
  unfold decode at h
  split at h
  · rename_i s hs
    cases h
    have := readFrom_append hs r
    simpa using this
  · cases h

theorem newline_of_decode {body : List Char} {v : String} (h : decode body = some v) :
    '\n' ∉ body := by
  obtain ⟨body', heq, hnl, -⟩ := exists_body (readFrom_of_decode h [])
  rwa [List.append_cancel_right heq]

theorem readStrings_stringsText {bodies : List (List Char)} {ss : List String}
    (h : bodies.mapM decode = some ss) (hne : bodies ≠ []) {k : ℕ} (hk : bodies.length ≤ k) :
    readStrings k (stringsText bodies) = some ss := by
  induction bodies generalizing ss k with
  | nil => exact absurd rfl hne
  | cons b bs ih =>
      obtain ⟨k, rfl⟩ : ∃ k', k = k' + 1 := ⟨k - 1, by simp at hk; omega⟩
      simp only [List.mapM_cons, Option.bind_eq_bind, Option.bind_eq_some_iff, Option.pure_def,
        Option.some.injEq] at h
      obtain ⟨v, hv, vs, hvs, rfl⟩ := h
      cases bs with
      | nil =>
          cases hvs
          have hread := readFrom_of_decode hv [']']
          simp [stringsText, readStrings, hread]
      | cons b' bs =>
          have hread := readFrom_of_decode hv (',' :: ' ' :: stringsText (b' :: bs))
          have htl := ih hvs (by simp) (show (b' :: bs).length ≤ k by simpa using hk)
          simp [stringsText, readStrings, hread, htl]

theorem newline_stringsText {bodies : List (List Char)} {ss : List String}
    (h : bodies.mapM decode = some ss) : '\n' ∉ stringsText bodies := by
  induction bodies generalizing ss with
  | nil => simp [stringsText]
  | cons b bs ih =>
      simp only [List.mapM_cons, Option.bind_eq_bind, Option.bind_eq_some_iff, Option.pure_def,
        Option.some.injEq] at h
      obtain ⟨v, hv, vs, hvs, rfl⟩ := h
      have hb := newline_of_decode hv
      cases bs with
      | nil => simp [stringsText, hb]
      | cons b' bs => simp [stringsText, hb, ih hvs]

theorem not_mem_toDigits {c : Char} (h : c.isDigit = false) (n : ℕ) : c ∉ Nat.toDigits 10 n := by
  intro hc
  rw [Nat.isDigit_of_mem_toDigits (by omega) (by omega) hc] at h
  cases h

theorem length_le_stringsText (bs : List (List Char)) : bs.length ≤ (stringsText bs).length := by
  induction bs using stringsText.induct with
  | case1 => simp
  | case2 b => simp [stringsText]
  | case3 b bs hbs ih =>
      rw [stringsText.eq_3 _ _ hbs]
      simp only [List.length_cons, List.length_append]
      omega

theorem stringsText_cons (b : List Char) (bs : List (List Char)) :
    ∃ t, stringsText (b :: bs) = '"' :: t := by
  cases bs with
  | nil => exact ⟨_, rfl⟩
  | cons b' bs => exact ⟨_, rfl⟩

/-- A numeral is read to its end. -/
theorem readValue_toDigits {n : ℕ} (hn : n < 2 ^ 63) :
    readValue (Nat.toDigits 10 n) = some (.integer n) := by
  have hread : readNumber 10 none false (2 ^ 63) (Nat.toDigits 10 n ++ []) = some (n, []) :=
    readNumber_toDigits (by omega) (by omega) (NoDigit.nil 10) (by simp) hn
  rw [List.append_nil] at hread
  have hbr := not_mem_toDigits (show '['.isDigit = false by decide) n
  have hq := not_mem_toDigits (show '"'.isDigit = false by decide) n
  generalize Nat.toDigits 10 n = ds at hread hbr hq ⊢
  unfold readValue
  split
  · simp at hbr
  · simp at hbr
  · simp at hq
  · rw [hread]

/-- **A literal is read as its value.** -/
theorem readValue_text {v : Literal} {x : Value} (h : v.value = some x) :
    readValue v.text = some x := by
  cases v with
  | string body =>
      obtain ⟨s, hs, rfl⟩ := Option.map_eq_some_iff.1 h
      have hread := readFrom_of_decode hs []
      simp [Literal.text, readValue, hread]
  | integer n =>
      rw [Literal.value] at h
      split_ifs at h with hn
      cases h
      exact readValue_toDigits hn
  | strings bodies =>
      obtain ⟨ss, hss, rfl⟩ := Option.map_eq_some_iff.1 h
      cases bodies with
      | nil =>
          cases hss
          rfl
      | cons b bs =>
          have hread := readStrings_stringsText hss (by simp) (length_le_stringsText (b :: bs))
          obtain ⟨t, ht⟩ := stringsText_cons b bs
          have hval : readValue ('[' :: '"' :: t) = (readStrings ('"' :: t).length ('"' :: t)).map
              fun ss => .array (ss.map .string) := rfl
          rw [Literal.text]
          rw [ht] at hread ⊢
          rw [hval, hread]
          rfl

theorem newline_text {v : Literal} {x : Value} (h : v.value = some x) : '\n' ∉ v.text := by
  cases v with
  | string body =>
      obtain ⟨s, hs, -⟩ := Option.map_eq_some_iff.1 h
      simp [Literal.text, newline_of_decode hs]
  | integer n => exact not_mem_toDigits (by decide) n
  | strings bodies =>
      obtain ⟨ss, hss, -⟩ := Option.map_eq_some_iff.1 h
      simp [Literal.text, newline_stringsText hss]

section Bare

variable {key : String}

theorem takeWhile_bare (h : isBare key = true) {c : Char} (hc : isBareChar c = false)
    (s : List Char) : (key.toList ++ c :: s).takeWhile isBareChar = key.toList := by
  simp only [isBare, Bool.and_eq_true, List.all_eq_true] at h
  rw [List.takeWhile_append_of_pos h.2, List.takeWhile_cons_of_neg (by simp [hc]), List.append_nil]

theorem dropWhile_bare (h : isBare key = true) {c : Char} (hc : isBareChar c = false)
    (s : List Char) : (key.toList ++ c :: s).dropWhile isBareChar = c :: s := by
  simp only [isBare, Bool.and_eq_true, List.all_eq_true] at h
  rw [List.dropWhile_append_of_pos h.2, List.dropWhile_cons_of_neg (by simp [hc])]

theorem toList_ne_nil_of_isBare (h : isBare key = true) : key.toList ≠ [] := by
  simp only [isBare, Bool.and_eq_true, bne_iff_ne] at h
  exact h.1

theorem exists_cons_of_isBare (h : isBare key = true) :
    ∃ c cs, key.toList = c :: cs ∧ isBareChar c = true := by
  obtain ⟨c, cs, hcs⟩ := List.exists_cons_of_ne_nil (toList_ne_nil_of_isBare h)
  simp only [isBare, Bool.and_eq_true, List.all_eq_true] at h
  exact ⟨c, cs, hcs, h.2 c (by simp [hcs])⟩

theorem newline_of_isBare (h : isBare key = true) : '\n' ∉ key.toList := by
  simp only [isBare, Bool.and_eq_true, List.all_eq_true] at h
  intro hmem
  exact absurd (h.2 _ hmem) (by decide)

theorem readName_bare (h : isBare key = true) {c : Char} (hc : isBareChar c = false)
    (s : List Char) : readName (c :: s) (key.toList ++ c :: s) = some key := by
  rw [readName, takeWhile_bare h hc, dropWhile_bare h hc,
    if_pos ⟨toList_ne_nil_of_isBare h, rfl⟩, String.ofList_toList]

/-- A line that starts with a bare key is a pair. -/
theorem readLine_bare (h : isBare key = true) (s : List Char) :
    readLine (key.toList ++ s) = readPair (key.toList ++ s) := by
  obtain ⟨c, cs, hcs, hc⟩ := exists_cons_of_isBare h
  rw [hcs, List.cons_append]
  unfold readLine
  split
  · simp_all
  · simp_all [show isBareChar '#' = false by decide]
  · simp_all [show isBareChar '[' = false by decide]
  · simp_all [show isBareChar '[' = false by decide]
  · rfl

/-- A bracket and a bare name are a table header. -/
theorem readLine_table (h : isBare key = true) (s : List Char) :
    readLine ('[' :: (key.toList ++ s)) =
      (readName [']'] (key.toList ++ s)).map fun n => .header (.table n) := by
  obtain ⟨c, cs, hcs, hc⟩ := exists_cons_of_isBare h
  rw [hcs, List.cons_append]
  unfold readLine
  split
  · simp_all
  · simp_all
  · simp_all [show isBareChar '[' = false by decide]
  · simp_all
  · simp_all

theorem readPair_bare (h : isBare key = true) (v : List Char) :
    readPair (key.toList ++ ' ' :: '=' :: ' ' :: v) = (readValue v).map (.pair key) := by
  rw [readPair, dropWhile_bare h (by decide), takeWhile_bare h (by decide)]
  simp only [if_neg (toList_ne_nil_of_isBare h), String.ofList_toList]

end Bare

/-- **A line is read as what it says.** -/
theorem readLine_text {l : Line} {e : Entry} (h : l.entry = some e) : readLine l.text = some e := by
  cases l with
  | blank => exact h
  | comment t => exact h
  | header hd =>
      rw [Line.entry] at h
      split_ifs at h with hb
      cases h
      cases hd with
      | table name =>
          change isBare name = true at hb
          rw [Line.text, Header.text, readLine_table hb, readName_bare hb (by decide)]
          rfl
      | element name =>
          change isBare name = true at hb
          rw [Line.text, Header.text, readLine, readName_bare hb (by decide)]
          rfl
  | pair key v =>
      rw [Line.entry] at h
      split_ifs at h with hb
      obtain ⟨x, hx, rfl⟩ := Option.map_eq_some_iff.1 h
      rw [Line.text, readLine_bare hb, readPair_bare hb, readValue_text hx]
      rfl

theorem newline_line {l : Line} {e : Entry} (h : l.entry = some e) : '\n' ∉ l.text := by
  cases l with
  | blank => simp [Line.text]
  | comment t =>
      rw [Line.entry] at h
      split_ifs at h with hall
      rw [List.all_eq_true] at hall
      simp only [Line.text, List.mem_cons, not_or]
      exact ⟨by decide, fun hmem => absurd (hall _ hmem) (by decide)⟩
  | header hd =>
      rw [Line.entry] at h
      split_ifs at h with hb
      have := newline_of_isBare hb
      cases hd <;> simpa [Line.text, Header.text, Header.name] using this
  | pair key v =>
      rw [Line.entry] at h
      split_ifs at h with hb
      obtain ⟨x, hx, -⟩ := Option.map_eq_some_iff.1 h
      simp [Line.text, newline_of_isBare hb, newline_text hx]

end Lines

/-! ### The fragment's reader keeps what it has read -/

/-- What every step keeps holds at the end. -/
theorem foldlM_invariant {α β : Type} {f : β → α → Option β} {P : β → Prop}
    (hf : ∀ b a b', P b → f b a = some b' → P b') {l : List α} {b b' : β} (hb : P b)
    (h : l.foldlM f b = some b') : P b' := by
  induction l generalizing b with
  | nil =>
      cases h
      exact hb
  | cons a l ih =>
      rw [List.foldlM_cons] at h
      obtain ⟨b₁, h₁, h₂⟩ := Option.bind_eq_some_iff.1 h
      exact ih (hf b a b₁ hb h₁) h₂

/-- A table keeps its name when an array of tables grows. -/
theorem lookup_addElement {t : Table} {name n : String} {u : Table} {v : Value}
    (h : t.lookup name = some (.table u)) :
    (addElement t n v).lookup name = some (.table u) := by
  unfold addElement
  split
  · rw [List.lookup_append, h]
    rfl
  · clear * - h
    induction t with
    | nil => cases h
    | cons x t ih =>
        obtain ⟨k, w⟩ := x
        rw [List.map_cons]
        by_cases hk : name = k
        · subst hk
          simp only [List.lookup_cons, beq_self_eq_true] at h ⊢
          cases h
          split_ifs <;> simp
        · have hbeq : (name == k) = false := by simpa using hk
          simp only [List.lookup_cons, hbeq] at h
          have hhead : ∀ y : String × Value, y.1 = k →
              (y :: t.map fun x => if x.1 = n then
                match x.2 with
                | .array vs => (x.1, .array (vs ++ [v]))
                | _ => x
              else x).lookup name = some (.table u) := by
            rintro ⟨k', w'⟩ rfl
            rw [List.lookup_cons, hbeq]
            exact ih h
          apply hhead
          split_ifs
          · split <;> rfl
          · rfl

namespace Builder

/-- The name of the table that lines are added to is new. -/
def Fresh (b : Builder) : Prop :=
  ∀ name t, b.current = some (.table name, t) → b.closed.lookup name = none

/-- What a line can do. -/
theorem step_cases {b b' : Builder} {e : Entry} (h : b.step e = some b') :
    (e = .blank ∧ b' = b) ∨
      (∃ hd, e = .header hd ∧ b' = ⟨b.flush, some (hd, [])⟩ ∧
        ∀ name, hd = .table name → b.flush.lookup name = none) ∨
      ∃ key v hd t, e = .pair key v ∧ b.current = some (hd, t) ∧ t.lookup key = none ∧
        b' = ⟨b.closed, some (hd, t ++ [(key, v)])⟩ := by
  cases e with
  | blank => exact .inl ⟨rfl, (Option.some.inj h).symm⟩
  | header hd =>
      refine .inr (.inl ⟨hd, rfl, ?_⟩)
      cases hd with
      | table name =>
          simp only [step, start] at h
          split at h
          · rename_i hnone
            refine ⟨(Option.some.inj h).symm, ?_⟩
            rintro _ ⟨⟩
            exact hnone
          · cases h
      | element name =>
          simp only [step, start] at h
          split at h
          · exact ⟨(Option.some.inj h).symm, fun _ hname => by cases hname⟩
          · exact ⟨(Option.some.inj h).symm, fun _ hname => by cases hname⟩
          · cases h
  | pair key v =>
      refine .inr (.inr ⟨key, v, ?_⟩)
      simp only [step] at h
      split at h
      · cases h
      · rename_i hd t hcur
        split at h
        · rename_i hnone
          exact ⟨hd, t, rfl, hcur, hnone, (Option.some.inj h).symm⟩
        · cases h

theorem Fresh.step {b b' : Builder} {e : Entry} (hb : Fresh b) (h : b.step e = some b') :
    Fresh b' := by
  rcases step_cases h with ⟨-, rfl⟩ | ⟨hd, -, rfl, hnone⟩ | ⟨key, v, hd, t, -, hcur, -, rfl⟩
  · exact hb
  · rintro name t ⟨⟩
    exact hnone name rfl
  · rintro name u hu
    cases hu
    exact hb name t hcur

/-- The document has `v` at a key of a table. -/
inductive Holds (name key : String) (v : Value) (b : Builder) : Prop where
  | closed (t : Table) (h : b.closed.lookup name = some (.table t)) (hv : t.lookup key = some v)
  | current (t : Table) (h : b.current = some (.table name, t)) (hv : t.lookup key = some v)
      (hnone : b.closed.lookup name = none)

variable {name key : String} {v : Value} {b b' : Builder}

theorem Holds.flush (h : Holds name key v b) :
    ∃ t, b.flush.lookup name = some (.table t) ∧ t.lookup key = some v := by
  rcases h with ⟨t, h, hv⟩ | ⟨t, h, hv, hnone⟩
  · refine ⟨t, ?_, hv⟩
    unfold Builder.flush
    split
    · exact h
    · rw [List.lookup_append, h]
      rfl
    · exact lookup_addElement h
  · refine ⟨t, ?_, hv⟩
    simp [Builder.flush, h, List.lookup_append, hnone]

theorem Holds.step {e : Entry} (hb : Holds name key v b) (h : b.step e = some b') :
    Holds name key v b' := by
  rcases step_cases h with ⟨-, rfl⟩ | ⟨hd, -, rfl, -⟩ | ⟨k, w, hd, u, -, hcur, -, rfl⟩
  · exact hb
  · obtain ⟨t, hflush, hv⟩ := hb.flush
    exact .closed t hflush hv
  · rcases hb with ⟨t, hc, hv⟩ | ⟨t, hc, hv, hnone⟩
    · exact .closed t hc hv
    · rw [hcur] at hc
      cases hc
      exact .current _ rfl (by rw [List.lookup_append, hv]; rfl) hnone

/-- A pair is there after its line. -/
theorem Holds.of_pair {t : Table} (hfresh : Fresh b) (hcur : b.current = some (.table name, t))
    (h : b.step (.pair key v) = some b') : Holds name key v b' := by
  rcases step_cases h with ⟨⟨⟩, -⟩ | ⟨hd, ⟨⟩, -⟩ | ⟨_, _, hd, u, ⟨⟩, hcur', hnone, rfl⟩
  rw [hcur] at hcur'
  cases hcur'
  refine .current _ rfl ?_ (hfresh name t hcur)
  rw [List.lookup_append, hnone]
  simp

end Builder

theorem fresh_build {doc : List Line} {b : Builder} (h : build doc = some b) : b.Fresh := by
  refine foldlM_invariant (fun b l b' hb h => ?_) (fun name t h => ?_) h
  · obtain ⟨e, -, he⟩ := Option.bind_eq_some_iff.1 h
    exact hb.step he
  · cases h

/-- The lines of a document are read one by one, then what follows. -/
theorem foldlM_splitLines {doc : List Line} {b b' : Builder}
    (h : b.run doc = some b') (s : List Char) :
    (splitLines (text doc ++ s)).foldlM (fun (b : Builder) l => (readLine l).bind b.step) b =
      (splitLines s).foldlM (fun (b : Builder) l => (readLine l).bind b.step) b' := by
  induction doc generalizing b with
  | nil =>
      cases h
      rfl
  | cons l doc ih =>
      rw [Builder.run, List.foldlM_cons] at h
      obtain ⟨b₁, h₁, h₂⟩ := Option.bind_eq_some_iff.1 h
      obtain ⟨e, he, hstep⟩ := Option.bind_eq_some_iff.1 h₁
      have htext : text (l :: doc) ++ s = l.text ++ '\n' :: (text doc ++ s) := by
        simp [text]
      rw [htext, splitLines_append (newline_line he), List.foldlM_cons, readLine_text he]
      simp only [Option.bind_some, hstep, Option.bind_eq_bind]
      exact ih h₂

/-- A line that starts with `key = "` holds a string, to the end of the line. -/
theorem exists_of_readLine_quote {key : String} (hkey : isBare key = true) {l : List Char}
    {e : Entry} (h : readLine (key.toList ++ ' ' :: '=' :: ' ' :: '"' :: l) = some e) :
    ∃ s, readFrom .text l = some (s, []) ∧ e = .pair key (.string (String.ofList s)) := by
  rw [readLine_bare hkey, readPair_bare hkey] at h
  obtain ⟨w, hw, rfl⟩ := Option.map_eq_some_iff.1 h
  simp only [readValue] at hw
  split at hw
  · rename_i s hs
    cases hw
    exact ⟨s, hs, rfl⟩
  · cases hw

/-- What is held is still held after more lines. -/
theorem Builder.Holds.foldlM {name key : String} {v : Value} {b b' : Builder}
    (hb : b.Holds name key v) {ls : List (List Char)}
    (h : ls.foldlM (fun (b : Builder) l => (readLine l).bind b.step) b = some b') :
    b'.Holds name key v := by
  refine foldlM_invariant (fun b l b' hb h => ?_) hb h
  obtain ⟨e, -, he⟩ := Option.bind_eq_some_iff.1 h
  exact hb.step he

/-- **The reader of the fragment is a TOML reader.** -/
theorem reads_readLines : Reads readLines where
  document doc b h := by
    have hfold := foldlM_splitLines h []
    rw [List.append_nil] at hfold
    rw [readLines, hfold]
    rfl
  string_value doc b name t key rest v h hcur hkey hread := by
    obtain ⟨l₀, ls, hls⟩ := List.exists_cons_of_ne_nil (splitLines_ne_nil rest)
    have hnl : '\n' ∉ key.toList ++ [' ', '=', ' ', '"'] := by
      simp [newline_of_isBare hkey]
    have hsplit := splitLines_append_head hnl hls
    simp only [List.append_assoc, List.cons_append, List.nil_append] at hsplit
    rw [readLines, foldlM_splitLines h, hsplit, List.foldlM_cons] at hread
    split at hread
    · rename_i b' hfold
      cases hread
      obtain ⟨b₁, h₁, h₂⟩ := Option.bind_eq_some_iff.1 hfold
      obtain ⟨e, he, hstep⟩ := Option.bind_eq_some_iff.1 h₁
      obtain ⟨s, hs, rfl⟩ := exists_of_readLine_quote hkey he
      have hholds := (Builder.Holds.of_pair (fresh_build h) hcur hstep).foldlM h₂
      obtain ⟨u, hu, hv⟩ := hholds.flush
      obtain ⟨more, rfl⟩ := exists_of_splitLines hls
      refine ⟨s, .inl ⟨more, by simpa using readFrom_append hs more⟩, ?_⟩
      simp only [get, hu, hv]
    · cases hread

end Toml
end Lib
end Hextet
