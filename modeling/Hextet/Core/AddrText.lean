/-
# Address texts

The texts of IPv6 addresses and socket addresses, as Rust's `std::net` writes
and reads them.  `Display` compresses the longest run of zero groups (the first
of several, never a single group) and writes an IPv4-mapped address in dotted
form.  `FromStr` reads up to eight groups, or a head, `::` and a tail; the last
two groups of either may be a dotted IPv4 address, but only at the very end.

An address is read back from its text (`readIpv6Addr_display`), so a socket
address is too, except for the flow information, which its text does not hold
(`parseSocketAddr_display`).
-/

import Hextet.Lib.Numeral
import Hextet.Core.Route

namespace Hextet

open Lib

/-! ### Reading -/

/-- The loop of `read_ipv4_addr`: `k` more decimal groups from index `i`. -/
def readOctets : ℕ → ℕ → List Char → Option (List ℕ × List Char)
  | 0, _, s => some ([], s)
  | k + 1, i, s =>
      match readSeparator '.' i (readNumber 10 (some 3) false 256) s with
      | none => none
      | some (o, s) =>
          match readOctets k (i + 1) s with
          | none => none
          | some (os, s) => some (o :: os, s)

/-- `read_ipv4_addr`: the four octets. -/
def readIpv4Addr (s : List Char) : Option (List ℕ × List Char) := readOctets 4 0 s

/-- The octets of an embedded IPv4 address as 16-bit groups. -/
def pairOctets : List ℕ → List ℕ
  | a :: b :: r => (256 * a + b) :: pairOctets r
  | _ => []

/-- `read_groups`: the groups from index `i` on, at most `k` of them, whether the
last two were an IPv4 address, and what follows. -/
def readGroups : ℕ → ℕ → List Char → List ℕ × Bool × List Char
  | 0, _, s => ([], false, s)
  | k + 1, i, s =>
      -- an IPv4 address needs room for two groups
      match (if 0 < k then readSeparator ':' i readIpv4Addr s else none) with
      | some (os, s) => (pairOctets os, true, s)
      | none =>
          match readSeparator ':' i (readNumber 16 (some 4) true 65536) s with
          | none => ([], false, s)
          | some (g, s) =>
              let (gs, v4, s) := readGroups k (i + 1) s
              (g :: gs, v4, s)

/-- `Ipv6Addr::from` of eight groups; fewer are followed by zeros. -/
def Ipv6Addr.ofSegments (gs : List ℕ) : Ipv6Addr :=
  ⟨⟨(gs.flatMap (beBytes 2)).takeD 16 0, List.takeD_length ..⟩⟩

/-- `read_ipv6_addr`. -/
def readIpv6Addr (s : List Char) : Option (Ipv6Addr × List Char) :=
  let (head, headIpv4, s) := readGroups 8 0 s
  if head.length = 8 then some (.ofSegments head, s)
  else if headIpv4 then none
  else
    match (readGivenChar ':' s).bind (readGivenChar ':') with
    | none => none
    | some s =>
        -- `::` stands for at least one group
        let (tail, _, s) := readGroups (8 - (head.length + 1)) 0 s
        some (.ofSegments (head ++ List.replicate (8 - head.length - tail.length) 0 ++ tail), s)

/-- `read_port`. -/
def readPort (s : List Char) : Option (ℕ × List Char) :=
  (readGivenChar ':' s).bind (readNumber 10 none true 65536)

/-- `read_scope_id`. -/
def readScopeId (s : List Char) : Option (ℕ × List Char) :=
  (readGivenChar '%' s).bind (readNumber 10 none true (2 ^ 32))

/-- `read_socket_addr_v4`; nothing is kept of it. -/
def readSocketAddrV4 (s : List Char) : Option (Unit × List Char) :=
  match readIpv4Addr s with
  | none => none
  | some (_, s) => (readPort s).map fun r => ((), r.2)

/-- `read_socket_addr_v6`: `[ip]:port` or `[ip%scope]:port`, flow information 0. -/
def readSocketAddrV6 (s : List Char) : Option (SocketAddrV6 × List Char) :=
  match (readGivenChar '[' s).bind readIpv6Addr with
  | none => none
  | some (ip, s) =>
      let (scope, s) := (readScopeId s).getD (0, s)
      match (readGivenChar ']' s).bind readPort with
      | none => none
      | some (port, s) => some (⟨ip, UInt16.ofNat port, 0, UInt32.ofNat scope⟩, s)

/-- `Parser::parse_with`: the whole text. -/
def parseWith {α : Type} (inner : List Char → Option (α × List Char)) (s : List Char) : Option α :=
  match inner s with
  | some (a, []) => some a
  | _ => none

/-- `str::parse::<SocketAddr>`. -/
def parseSocketAddr (s : List Char) : Option SocketAddr :=
  parseWith (fun s =>
    match readSocketAddrV4 s with
    | some (_, s) => some (.v4, s)
    | none => (readSocketAddrV6 s).map fun r => (.v6 r.1, r.2)) s

/-- `str::parse::<Ipv6Addr>`. -/
def parseIpv6Addr (s : List Char) : Option Ipv6Addr := parseWith readIpv6Addr s

/-- `str::parse::<Ipv4Addr>().is_ok()`: at most 15 bytes. -/
def isIpv4Text (s : List Char) : Bool :=
  (String.ofList s).utf8ByteSize ≤ 15 && (parseWith readIpv4Addr s).isSome

/-- `str::parse::<u8>`: an optional plus sign, then decimal digits. -/
def parseU8 (s : List Char) : Option ℕ :=
  let ds := match s with
    | '+' :: s => s
    | s => s
  parseWith (readNumber 10 none true 256) ds

/-- `str::split_once` at a character. -/
def splitOnce (c : Char) (s : List Char) : Option (List Char × List Char) :=
  if c ∈ s then some (s.takeWhile (· != c), (s.dropWhile (· != c)).tail) else none

/-- `RouteError`. -/
inductive RouteParseError where
  | invalid (s : String)
  | ipv4 (s : String)
  | new (e : RouteError)
  deriving DecidableEq

/-- `str::parse::<Ipv6Route>`. -/
def Ipv6Route.fromStr (s : String) : Except RouteParseError Ipv6Route :=
  match splitOnce '/' s.toList with
  | none => .error (.invalid s)
  | some (addr, len) =>
      if '.' ∈ addr || isIpv4Text addr then .error (.ipv4 s)
      else
        match parseIpv6Addr addr, parseU8 len with
        | some addr, some len => (Ipv6Route.new addr len).mapError .new
        | _, _ => .error (.invalid s)

/-! ### Writing -/

/-- The groups of two octets. -/
def pairBytes : List UInt8 → List ℕ
  | a :: b :: r => ofBe [a, b] :: pairBytes r
  | _ => []

/-- `Ipv6Addr::segments`. -/
def Ipv6Addr.segments (a : Ipv6Addr) : List ℕ := pairBytes a.octets.1

/-- A run of zero groups. -/
structure Span where
  start : ℕ
  len : ℕ
  deriving DecidableEq

/-- One turn of the loop over the groups: the longest run so far and the current one. -/
def Span.next (st : Span × Span) (x : ℕ × ℕ) : Span × Span :=
  let (segment, i) := x
  if segment = 0 then
    let current : Span := ⟨if st.2.len = 0 then i else st.2.start, st.2.len + 1⟩
    (if st.1.len < current.len then current else st.1, current)
  else (st.1, ⟨0, 0⟩)

/-- The longest run of zero groups, the first of the longest. -/
def longestZeros (segments : List ℕ) : Span :=
  (segments.zipIdx.foldl Span.next (⟨0, 0⟩, ⟨0, 0⟩)).1

/-- `fmt_subslice`: groups in hexadecimal, a colon before every group but the first. -/
def fmtGroups : ℕ → List ℕ → List Char
  | _, [] => []
  | i, g :: gs => (if 0 < i then [':'] else []) ++ Nat.toDigits 16 g ++ fmtGroups (i + 1) gs

/-- `Ipv4Addr`'s `Display`: decimal octets with dots between. -/
def fmtOctets : ℕ → List ℕ → List Char
  | _, [] => []
  | i, o :: os => (if 0 < i then ['.'] else []) ++ Nat.toDigits 10 o ++ fmtOctets (i + 1) os

/-- `Ipv6Addr`'s `Display`. -/
def Ipv6Addr.display (a : Ipv6Addr) : List Char :=
  if a.isIpv4Mapped then
    [':', ':', 'f', 'f', 'f', 'f', ':'] ++ fmtOctets 0 ((a.octets.1.drop 12).map UInt8.toNat)
  else
    let z := longestZeros a.segments
    if 1 < z.len then
      fmtGroups 0 (a.segments.take z.start) ++ [':', ':'] ++
        fmtGroups 0 (a.segments.drop (z.start + z.len))
    else fmtGroups 0 a.segments

/-- `SocketAddrV6`'s `Display`. -/
def SocketAddrV6.display (e : SocketAddrV6) : List Char :=
  let scope := if e.scopeId = 0 then [] else '%' :: Nat.toDigits 10 e.scopeId.toNat
  '[' :: e.ip.display ++ scope ++ [']', ':'] ++ Nat.toDigits 10 e.port.toNat

/-- `Ipv6Route`'s `Display`. -/
def Ipv6Route.display (r : Ipv6Route) : List Char :=
  r.pre.display ++ '/' :: Nat.toDigits 10 r.prefixLen

/-! ### Groups and octets -/

theorem flatMap_pairBytes (l : List UInt8) (h : l.length % 2 = 0) :
    (pairBytes l).flatMap (beBytes 2) = l := by
  induction l using pairBytes.induct with
  | case1 a b r ih =>
      have hb : beBytes 2 (ofBe [a, b]) = [a, b] := beBytes_ofBe [a, b]
      have hr : r.length % 2 = 0 := by
        simp only [List.length_cons] at h
        omega
      rw [pairBytes, List.flatMap_cons, hb, ih hr]
      rfl
  | case2 l hl =>
      rcases l with _ | ⟨a, _ | ⟨b, r⟩⟩
      · rfl
      · simp at h
      · exact absurd rfl (hl a b r)

theorem length_pairBytes (l : List UInt8) : (pairBytes l).length = l.length / 2 := by
  induction l using pairBytes.induct with
  | case1 a b r ih =>
      simp only [pairBytes, List.length_cons, ih]
      omega
  | case2 l hl =>
      rcases l with _ | ⟨a, _ | ⟨b, r⟩⟩
      · rfl
      · simp [pairBytes]
      · exact absurd rfl (hl a b r)

theorem lt_of_mem_pairBytes {l : List UInt8} {g : ℕ} (h : g ∈ pairBytes l) : g < 65536 := by
  induction l using pairBytes.induct with
  | case1 a b r ih =>
      rcases List.mem_cons.1 h with rfl | h
      · have := ofBe_lt [a, b]
        simpa using this
      · exact ih h
  | case2 l hl =>
      rcases l with _ | ⟨a, _ | ⟨b, r⟩⟩
      · cases h
      · cases h
      · exact absurd rfl (hl a b r)

theorem pairOctets_map_toNat (l : List UInt8) :
    pairOctets (l.map UInt8.toNat) = pairBytes l := by
  induction l using pairBytes.induct with
  | case1 a b r ih =>
      rw [List.map_cons, List.map_cons, pairOctets, pairBytes, ih]
      simp [ofBe]
  | case2 l hl =>
      rcases l with _ | ⟨a, _ | ⟨b, r⟩⟩
      · rfl
      · rfl
      · exact absurd rfl (hl a b r)

namespace Ipv6Addr

theorem length_segments (a : Ipv6Addr) : a.segments.length = 8 := by
  rw [segments, length_pairBytes, a.octets.2]

theorem segments_lt (a : Ipv6Addr) : ∀ g ∈ a.segments, g < 65536 :=
  fun _ => lt_of_mem_pairBytes

/-- The groups of an address are the address. -/
theorem ofSegments_segments (a : Ipv6Addr) : ofSegments a.segments = a := by
  obtain ⟨⟨l, hl⟩⟩ := a
  simp only [ofSegments, segments]
  congr 2
  rw [flatMap_pairBytes l (by omega), List.takeD_eq_take _ (by omega), List.take_of_length_le
    (by omega)]

end Ipv6Addr

/-! ### The run of zero groups -/

/-- What the loop has found in the groups it has passed. -/
structure Span.Found (segments : List ℕ) (st : Span × Span) : Prop where
  longest : ∃ pre post, segments = pre ++ List.replicate st.1.len 0 ++ post ∧
    pre.length = st.1.start
  current : ∃ pre, segments = pre ++ List.replicate st.2.len 0 ∧
    (0 < st.2.len → pre.length = st.2.start)

theorem Span.Found.next {segments : List ℕ} {st : Span × Span} (h : Found segments st)
    (segment : ℕ) :
    Found (segments ++ [segment]) (Span.next st (segment, segments.length)) := by
  obtain ⟨pre, post, hlong, hstart⟩ := h.longest
  obtain ⟨pre', hcur, hstart'⟩ := h.current
  by_cases hz : segment = 0
  · subst hz
    have hgrow : segments ++ [0] = pre' ++ List.replicate (st.2.len + 1) 0 := by
      rw [List.replicate_succ', ← List.append_assoc, ← hcur]
    have hpre : pre'.length = if st.2.len = 0 then segments.length else st.2.start := by
      split_ifs with h0
      · rw [hcur, h0]
        simp
      · exact hstart' (by omega)
    simp only [Span.next, if_true]
    constructor
    · by_cases hlt : st.1.len < st.2.len + 1
      · rw [if_pos hlt]
        exact ⟨pre', [], by simpa using hgrow, hpre⟩
      · rw [if_neg hlt]
        exact ⟨pre, post ++ [0], by rw [hlong]; simp, hstart⟩
    · exact ⟨pre', hgrow, fun _ => hpre⟩
  · simp only [Span.next, if_neg hz]
    constructor
    · exact ⟨pre, post ++ [segment], by rw [hlong]; simp, hstart⟩
    · exact ⟨segments ++ [segment], by simp, by simp⟩

theorem Span.found (segments : List ℕ) :
    Found segments (segments.zipIdx.foldl Span.next (⟨0, 0⟩, ⟨0, 0⟩)) := by
  induction segments using List.reverseRecOn with
  | nil => exact ⟨⟨[], [], by simp, rfl⟩, ⟨[], by simp, by simp⟩⟩
  | append_singleton l x ih =>
      rw [List.zipIdx_append, List.foldl_append]
      simpa using ih.next x

/-- The groups are those before the longest run, the run, and those after it. -/
theorem longestZeros_split (segments : List ℕ) :
    let z := longestZeros segments
    segments =
      segments.take z.start ++ List.replicate z.len 0 ++ segments.drop (z.start + z.len) := by
  intro z
  obtain ⟨pre, post, h, hstart⟩ := (Span.found segments).longest
  change segments = pre ++ List.replicate z.len 0 ++ post at h
  change pre.length = z.start at hstart
  have htake : segments.take z.start = pre := by
    rw [h, List.append_assoc, ← hstart, List.take_left]
  have hdrop : segments.drop (z.start + z.len) = post := by
    rw [h, List.drop_left' (by simp [hstart])]
  rw [htake, hdrop]
  exact h

/-! ### What is written is read back -/

section

variable {rest : List Char}

/-- A separator that stands where one is expected is passed. -/
theorem readSeparator_sep {α : Type} (sep : Char) (i : ℕ)
    (inner : List Char → Option (α × List Char)) (s : List Char) :
    readSeparator sep i inner ((if 0 < i then [sep] else []) ++ s) = inner s := by
  unfold readSeparator
  split_ifs
  · simp [readGivenChar]
  · rfl

theorem readOctets_fmtOctets (hrest : NoDigit 10 rest) {os : List ℕ} (hos : ∀ o ∈ os, o < 256)
    (i : ℕ) : readOctets os.length i (fmtOctets i os ++ rest) = some (os, rest) := by
  induction os generalizing i with
  | nil => rfl
  | cons o os ih =>
      have hnext : NoDigit 10 (fmtOctets (i + 1) os ++ rest) := by
        cases os with
        | nil => exact hrest
        | cons o' os =>
            rw [fmtOctets, if_pos (by omega)]
            exact NoDigit.cons (by decide) _
      have ho := hos o (List.mem_cons_self ..)
      have hread : readNumber 10 (some 3) false 256
          (Nat.toDigits 10 o ++ (fmtOctets (i + 1) os ++ rest)) =
            some (o, fmtOctets (i + 1) os ++ rest) :=
        readNumber_toDigits (by omega) (by omega) hnext (by simp; omega) ho
      rw [List.length_cons, readOctets, fmtOctets, List.append_assoc, List.append_assoc,
        readSeparator_sep, hread]
      simp only [ih (fun o' ho' => hos o' (List.mem_cons_of_mem _ ho'))]

/-- An IPv4 address needs a dot after its first decimal digits. -/
theorem readIpv4Addr_eq_none {s : List Char} (h : (spanDigits 10 s).2.head? ≠ some '.') :
    readIpv4Addr s = none := by
  have hdot : readGivenChar '.' (spanDigits 10 s).2 = none := by
    cases hs : (spanDigits 10 s).2 with
    | nil => rfl
    | cons c t =>
        rw [hs] at h
        exact if_neg (by simpa using h)
  have hnext : readOctets 3 1 (spanDigits 10 s).2 = none := by
    simp [readOctets, readSeparator, hdot]
  rw [readIpv4Addr, readOctets]
  split
  · rfl
  · rename_i o s' hread
    have hs' : s' = (spanDigits 10 s).2 := snd_of_readNumber hread
    rw [hs', hnext]

/-- The text ends here for a reader of groups. -/
structure Terminates (rest : List Char) : Prop where
  noDigit : NoDigit 16 rest
  noDot : rest.head? ≠ some '.'
  noGroup : ∀ s, rest = ':' :: s → NoDigit 16 s

theorem Terminates.of_cons {c : Char} (h : toDigit 16 c = none) (h' : c ≠ '.') (h'' : c ≠ ':')
    (s : List Char) : Terminates (c :: s) where
  noDigit := NoDigit.cons h s
  noDot := by simpa using h'
  noGroup := by
    rintro t ht
    exact absurd (List.cons.inj ht).1 h''

theorem readIpv4Addr_of_noDigit {s : List Char} (h : NoDigit 16 s) : readIpv4Addr s = none := by
  have hnone := readNumber_of_noDigit (h.of_le (show 10 ≤ 16 by omega)) (some 3) false 256
  simp [readIpv4Addr, readOctets, readSeparator, hnone]

/-- A hexadecimal group is no IPv4 address. -/
theorem readIpv4Addr_group (g : ℕ) (h : NoDigit 16 rest) (h' : rest.head? ≠ some '.') :
    readIpv4Addr (Nat.toDigits 16 g ++ rest) = none := by
  refine readIpv4Addr_eq_none ?_
  obtain ⟨ds, hds, htext, -⟩ := exists_digits (show 1 < 16 by omega) g
  rw [htext]
  clear htext
  -- the decimal digits end at a letter of the group or at its end
  induction ds with
  | nil =>
      rw [List.map_nil, List.nil_append, spanDigits_of_noDigit (h.of_le (by omega))]
      exact h'
  | cons d ds ih =>
      have hd := hds d (List.mem_cons_self ..)
      simp only [List.map_cons, List.cons_append, spanDigits]
      split
      · have hall : ∀ d : Fin 16, Nat.digitChar d ≠ '.' := by decide
        simp [hall ⟨d, hd⟩]
      · exact ih fun d' hd' => hds d' (List.mem_cons_of_mem _ hd')

/-- No item that starts with a digit is read where the text ends. -/
theorem Terminates.readSeparator_eq_none {α : Type} {inner : List Char → Option (α × List Char)}
    (h : Terminates rest) (hinner : ∀ s, NoDigit 16 s → inner s = none) (i : ℕ) :
    readSeparator ':' i inner rest = none := by
  unfold readSeparator
  split_ifs
  · cases rest with
    | nil => rfl
    | cons c s =>
        simp only [readGivenChar]
        split_ifs with hc
        · exact hinner s (h.noGroup s (by rw [hc]))
        · rfl
  · exact hinner rest h.noDigit

theorem Terminates.readGroups_eq (h : Terminates rest) (k i : ℕ) :
    readGroups k i rest = ([], false, rest) := by
  cases k with
  | zero => rfl
  | succ k =>
      have hv4 := h.readSeparator_eq_none (fun s hs => readIpv4Addr_of_noDigit hs) i
      have hgroup := h.readSeparator_eq_none
        (fun s hs => readNumber_of_noDigit hs (some 4) true 65536) i
      simp [readGroups, hv4, hgroup]

theorem readGroups_of_ipv4 {k i : ℕ} {s : List Char} {os : List ℕ} (hk : 0 < k)
    (h : readSeparator ':' i readIpv4Addr s = some (os, rest)) :
    readGroups (k + 1) i s = (pairOctets os, true, rest) := by
  rw [readGroups, if_pos hk, h]

theorem readGroups_of_group {k i g : ℕ} {s t : List Char}
    (hv4 : readSeparator ':' i readIpv4Addr s = none)
    (hg : readSeparator ':' i (readNumber 16 (some 4) true 65536) s = some (g, t)) :
    readGroups (k + 1) i s =
      (g :: (readGroups k (i + 1) t).1, (readGroups k (i + 1) t).2) := by
  rw [readGroups, hv4, ite_self, hg]

/-- **The groups that are written are read back**, all there is room for, up to
the end of the text. -/
theorem readGroups_fmtGroups (hrest : Terminates rest) {gs : List ℕ} (hgs : ∀ g ∈ gs, g < 65536)
    {k : ℕ} (hk : gs.length ≤ k) (i : ℕ) :
    readGroups k i (fmtGroups i gs ++ rest) = (gs, false, rest) := by
  induction gs generalizing i k with
  | nil => exact hrest.readGroups_eq k i
  | cons g gs ih =>
      obtain ⟨k, rfl⟩ : ∃ k', k = k' + 1 := ⟨k - 1, by simp at hk; omega⟩
      have hnext : NoDigit 16 (fmtGroups (i + 1) gs ++ rest) ∧
          (fmtGroups (i + 1) gs ++ rest).head? ≠ some '.' := by
        cases gs with
        | nil => exact ⟨hrest.noDigit, hrest.noDot⟩
        | cons g' gs =>
            rw [fmtGroups, if_pos (by omega)]
            exact ⟨NoDigit.cons (by decide) _, by simp⟩
      have hg := hgs g (List.mem_cons_self ..)
      have hv4 := readIpv4Addr_group g hnext.1 hnext.2
      have hread : readNumber 16 (some 4) true 65536
          (Nat.toDigits 16 g ++ (fmtGroups (i + 1) gs ++ rest)) =
            some (g, fmtGroups (i + 1) gs ++ rest) :=
        readNumber_toDigits (by omega) (by omega) hnext.1 (by simp; omega) hg
      have htl := ih (fun g' hg' => hgs g' (List.mem_cons_of_mem _ hg'))
        (show gs.length ≤ k by simpa using hk) (i + 1)
      rw [fmtGroups, List.append_assoc, List.append_assoc,
        readGroups_of_group (by rw [readSeparator_sep, hv4]) (by rw [readSeparator_sep, hread]),
        htl]

theorem Terminates.colons (s : List Char) : Terminates (':' :: ':' :: s) where
  noDigit := NoDigit.cons (by decide) _
  noDot := by simp
  noGroup := by
    rintro t ht
    rw [← (List.cons.inj ht).2]
    exact NoDigit.cons (by decide) _

/-- A head, `::` and a tail, with room for a zero group between them. -/
theorem readIpv6Addr_compressed {hd tl : List ℕ} {v4 : Bool} {text : List Char}
    (hhd : ∀ g ∈ hd, g < 65536) (hlen : hd.length + tl.length + 1 ≤ 8)
    (htl : readGroups (8 - (hd.length + 1)) 0 text = (tl, v4, rest)) :
    readIpv6Addr (fmtGroups 0 hd ++ ':' :: ':' :: text) =
      some (.ofSegments (hd ++ List.replicate (8 - hd.length - tl.length) 0 ++ tl), rest) := by
  have hread := readGroups_fmtGroups (Terminates.colons text) hhd (show hd.length ≤ 8 by omega) 0
  have hcolons : (readGivenChar ':' (':' :: ':' :: text)).bind (readGivenChar ':') =
      some text := rfl
  simp only [readIpv6Addr, hread, if_neg (show ¬hd.length = 8 by omega), Bool.false_eq_true,
    if_false, hcolons, htl]

/-- The groups of an IPv4-mapped address: five zeros, `ffff`, the octets. -/
theorem Ipv6Addr.segments_of_isIpv4Mapped {a : Ipv6Addr} (h : a.isIpv4Mapped = true) :
    a.segments = List.replicate 5 0 ++ 65535 :: pairBytes (a.octets.1.drop 12) := by
  have hoct : a.octets.1 = List.replicate 10 0 ++ [0xff, 0xff] ++ a.octets.1.drop 12 := by
    rw [← eq_of_beq h, List.take_append_drop]
  rw [segments, hoct]
  rfl

theorem readGroups_mapped {a : Ipv6Addr} (hrest : Terminates rest) :
    readGroups 7 0 ('f' :: 'f' :: 'f' :: 'f' :: ':' ::
        (fmtOctets 0 ((a.octets.1.drop 12).map UInt8.toNat) ++ rest)) =
      (65535 :: pairBytes (a.octets.1.drop 12), true, rest) := by
  have hlen : ((a.octets.1.drop 12).map UInt8.toNat).length = 4 := by simp
  have hoct : ∀ o ∈ (a.octets.1.drop 12).map UInt8.toNat, o < 256 := by
    intro o ho
    obtain ⟨b, -, rfl⟩ := List.mem_map.1 ho
    exact b.toNat_lt
  have hv4 := readOctets_fmtOctets (hrest.noDigit.of_le (show 10 ≤ 16 by omega)) hoct 0
  rw [hlen] at hv4
  generalize hs : fmtOctets 0 ((a.octets.1.drop 12).map UInt8.toNat) ++ rest = s at hv4 ⊢
  have hno : readSeparator ':' 0 readIpv4Addr ('f' :: 'f' :: 'f' :: 'f' :: ':' :: s) = none := rfl
  have hffff : readSeparator ':' 0 (readNumber 16 (some 4) true 65536)
      ('f' :: 'f' :: 'f' :: 'f' :: ':' :: s) = some (65535, ':' :: s) := rfl
  have hyes : readSeparator ':' 1 readIpv4Addr (':' :: s) =
      some ((a.octets.1.drop 12).map UInt8.toNat, rest) := hv4
  rw [readGroups_of_group hno hffff, readGroups_of_ipv4 (by omega) hyes, pairOctets_map_toNat]

/-- **An address is read back from its text.** -/
theorem readIpv6Addr_display (a : Ipv6Addr) (hrest : Terminates rest) :
    readIpv6Addr (a.display ++ rest) = some (a, rest) := by
  unfold Ipv6Addr.display
  split_ifs with hm
  · have hpairs : (pairBytes (a.octets.1.drop 12)).length = 2 := by
      rw [length_pairBytes]
      simp
    have hnil : ∀ g ∈ ([] : List ℕ), g < 65536 := by simp
    have h := readIpv6Addr_compressed hnil (by simp [hpairs]) (readGroups_mapped (a := a) hrest)
    have hzeros :
        8 - ([] : List ℕ).length - (65535 :: pairBytes (a.octets.1.drop 12)).length = 5 := by
      simp [hpairs]
    rw [hzeros, List.nil_append, ← Ipv6Addr.segments_of_isIpv4Mapped hm, a.ofSegments_segments] at h
    exact h
  · simp only
    split_ifs with hz
    · have hsplit := longestZeros_split a.segments
      have hlen := a.length_segments
      generalize longestZeros a.segments = z at hz hsplit ⊢
      simp only at hsplit
      generalize hhd : a.segments.take z.start = hd at hsplit ⊢
      generalize htl : a.segments.drop (z.start + z.len) = tl at hsplit ⊢
      have hsum : hd.length + z.len + tl.length = 8 := by
        rw [← hlen, hsplit]
        simp only [List.length_append, List.length_replicate]
      have hlt := a.segments_lt
      have hlt_hd : ∀ g ∈ hd, g < 65536 := fun g hg => hlt g (by rw [hsplit]; simp [hg])
      have hlt_tl : ∀ g ∈ tl, g < 65536 := fun g hg => hlt g (by rw [hsplit]; simp [hg])
      have hread := readGroups_fmtGroups hrest hlt_tl
        (show tl.length ≤ 8 - (hd.length + 1) by omega) 0
      have h := readIpv6Addr_compressed hlt_hd (by omega) hread
      rw [show 8 - hd.length - tl.length = z.len by omega, ← hsplit, a.ofSegments_segments] at h
      simpa using h
    · have hlen := a.length_segments
      have hread := readGroups_fmtGroups hrest a.segments_lt (show a.segments.length ≤ 8 by omega) 0
      simp [readIpv6Addr, hread, hlen, a.ofSegments_segments]

end

theorem readPort_toDigits (n : UInt16) :
    readPort (':' :: Nat.toDigits 10 n.toNat) = some (n.toNat, []) := by
  have h : readNumber 10 none true 65536 (Nat.toDigits 10 n.toNat ++ []) = some (n.toNat, []) :=
    readNumber_toDigits (by omega) (by omega) (NoDigit.nil 10) (by simp) n.toNat_lt
  rw [List.append_nil] at h
  exact h

/-- The zone of a socket address is read back, zero when none is written. -/
theorem readScopeId_display (scope : UInt32) (s : List Char) :
    (readScopeId ((if scope = 0 then [] else '%' :: Nat.toDigits 10 scope.toNat) ++ ']' :: s)).getD
        (0, (if scope = 0 then [] else '%' :: Nat.toDigits 10 scope.toNat) ++ ']' :: s) =
      (scope.toNat, ']' :: s) := by
  split_ifs with h
  · subst h
    rfl
  · have hread : readNumber 10 none true (2 ^ 32) (Nat.toDigits 10 scope.toNat ++ ']' :: s) =
        some (scope.toNat, ']' :: s) :=
      readNumber_toDigits (by omega) (by omega) (NoDigit.cons (by decide) s) (by simp)
        scope.toNat_lt
    simp only [readScopeId, readGivenChar, List.cons_append, if_true, Option.bind_some, hread,
      Option.getD_some]

/-- An address in brackets is no IPv4 address. -/
theorem readSocketAddrV4_bracket (s : List Char) : readSocketAddrV4 ('[' :: s) = none := by
  have h := readIpv4Addr_of_noDigit (NoDigit.cons (show toDigit 16 '[' = none by decide) s)
  simp [readSocketAddrV4, h]

/-- **A socket address is read back from its text**, with no flow information. -/
theorem parseSocketAddr_display (e : SocketAddrV6) :
    parseSocketAddr e.display = some (.v6 { e with flowinfo := 0 }) := by
  obtain ⟨ip, port, flowinfo, scope⟩ := e
  have hterm : Terminates ((if scope = 0 then [] else '%' :: Nat.toDigits 10 scope.toNat) ++
      ']' :: ':' :: Nat.toDigits 10 port.toNat) := by
    split_ifs
    · exact Terminates.of_cons (by decide) (by decide) (by decide) _
    · exact Terminates.of_cons (by decide) (by decide) (by decide) _
  have hip := readIpv6Addr_display ip hterm
  have hscope := readScopeId_display scope (':' :: Nat.toDigits 10 port.toNat)
  have htext : (SocketAddrV6.mk ip port flowinfo scope).display =
      '[' :: (ip.display ++ ((if scope = 0 then [] else '%' :: Nat.toDigits 10 scope.toNat) ++
        ']' :: ':' :: Nat.toDigits 10 port.toNat)) := by
    simp [SocketAddrV6.display]
  rw [htext, parseSocketAddr, parseWith, readSocketAddrV4_bracket]
  simp only [readSocketAddrV6, readGivenChar, if_true, Option.bind_some, hip, hscope,
    readPort_toDigits, Option.map_some, UInt16.ofNat_toNat, UInt32.ofNat_toNat]

/-- The text of an endpoint has no flow information. -/
theorem flowinfo_of_parseSocketAddr {s : List Char} {e : SocketAddrV6}
    (h : parseSocketAddr s = some (.v6 e)) : e.flowinfo = 0 := by
  have hread : ∃ s' : List Char, readSocketAddrV6 s = some (e, s') := by
    rw [parseSocketAddr, parseWith] at h
    cases hv4 : readSocketAddrV4 s with
    | some x =>
        rw [hv4] at h
        split at h
        · rename_i a heq
          cases h
          cases heq
        · cases h
    | none =>
        rw [hv4] at h
        cases hv6 : readSocketAddrV6 s with
        | none =>
            rw [hv6] at h
            cases h
        | some x =>
            obtain ⟨e', s'⟩ := x
            rw [hv6] at h
            split at h
            · rename_i a heq
              cases h
              cases heq
              exact ⟨[], rfl⟩
            · cases h
  obtain ⟨s', hs⟩ := hread
  rw [readSocketAddrV6] at hs
  split at hs
  · cases hs
  · simp only at hs
    split at hs
    · cases hs
    · cases hs
      rfl

/-! ### The characters of a text -/

/-- A character of a number with a separator before it is the separator or a digit. -/
theorem mem_separated {b : ℕ} (hb : 1 < b) {n : ℕ} {after : Prop} [Decidable after]
    {sep c : Char} (h : c ∈ (if after then [sep] else []) ++ Nat.toDigits b n) :
    c = sep ∨ ∃ d < b, c = Nat.digitChar d := by
  obtain ⟨ds, hds, htext, -⟩ := exists_digits hb n
  rw [htext, List.mem_append, List.mem_map] at h
  rcases h with h | ⟨d, hd, rfl⟩
  · split_ifs at h
    · exact Or.inl (List.mem_singleton.1 h)
    · cases h
  · exact Or.inr ⟨d, hds d hd, rfl⟩

/-- A character of a group is a colon or a hexadecimal digit. -/
theorem mem_fmtGroups {gs : List ℕ} {i : ℕ} {c : Char} (h : c ∈ fmtGroups i gs) :
    c = ':' ∨ ∃ d < 16, c = Nat.digitChar d := by
  induction gs generalizing i with
  | nil => cases h
  | cons g gs ih =>
      rw [fmtGroups, List.mem_append] at h
      exact h.elim (mem_separated (by decide)) ih

/-- A character of an IPv4 address is a dot or a decimal digit. -/
theorem mem_fmtOctets {os : List ℕ} {i : ℕ} {c : Char} (h : c ∈ fmtOctets i os) :
    c = '.' ∨ ∃ d < 10, c = Nat.digitChar d := by
  induction os generalizing i with
  | nil => cases h
  | cons o os ih =>
      rw [fmtOctets, List.mem_append] at h
      exact h.elim (mem_separated (by decide)) ih

/-- **The characters of an address**: colons and hexadecimal digits, and dots where an IPv4
address is mapped. -/
theorem Ipv6Addr.mem_display {a : Ipv6Addr} {c : Char} (h : c ∈ a.display) :
    (c = ':' ∨ ∃ d < 16, c = Nat.digitChar d) ∨ a.isIpv4Mapped = true ∧ c = '.' := by
  unfold display at h
  split_ifs at h with hm
  · rcases List.mem_append.1 h with h | h
    · have hall : [':', ':', 'f', 'f', 'f', 'f', ':'].all
          (fun c => c == ':' || c == Nat.digitChar 15) = true := by decide
      have hhead := List.all_eq_true.1 hall c h
      simp only [Bool.or_eq_true, beq_iff_eq] at hhead
      rcases hhead with rfl | rfl
      · exact Or.inl (Or.inl rfl)
      · exact Or.inl (Or.inr ⟨15, by decide, rfl⟩)
    · rcases mem_fmtOctets h with rfl | ⟨d, hd, rfl⟩
      · exact Or.inr ⟨hm, rfl⟩
      · exact Or.inl (Or.inr ⟨d, by omega, rfl⟩)
  · simp only at h
    split_ifs at h
    · rcases List.mem_append.1 h with h | h
      · rcases List.mem_append.1 h with h | h
        · exact Or.inl (mem_fmtGroups h)
        · exact Or.inl (Or.inl (by simpa using h))
      · exact Or.inl (mem_fmtGroups h)
    · exact Or.inl (mem_fmtGroups h)

theorem length_fmtGroups_le {gs : List ℕ} (hgs : ∀ g ∈ gs, g < 65536) (i : ℕ) :
    (fmtGroups i gs).length ≤ 5 * gs.length := by
  induction gs generalizing i with
  | nil => exact Nat.le_refl _
  | cons g gs ih =>
      have hg : (Nat.toDigits 16 g).length ≤ 4 :=
        (Nat.length_toDigits_le_iff (by decide) (by decide)).2 (hgs g List.mem_cons_self)
      have hrest := ih (fun x hx => hgs x (List.mem_cons_of_mem _ hx)) (i + 1)
      have hsep : (if 0 < i then [':'] else []).length ≤ 1 := by
        split_ifs <;> simp
      simp only [fmtGroups, List.length_append, List.length_cons]
      omega

/-- No colon stands in front of the first group. -/
theorem length_fmtGroups_zero_le {gs : List ℕ} (hgs : ∀ g ∈ gs, g < 65536) :
    (fmtGroups 0 gs).length ≤ 5 * gs.length - 1 := by
  cases gs with
  | nil => exact Nat.le_refl _
  | cons g gs =>
      have hg : (Nat.toDigits 16 g).length ≤ 4 :=
        (Nat.length_toDigits_le_iff (by decide) (by decide)).2 (hgs g List.mem_cons_self)
      have hrest := length_fmtGroups_le (fun x hx => hgs x (List.mem_cons_of_mem _ hx)) 1
      simp only [fmtGroups, Nat.lt_irrefl, if_false, List.nil_append, Nat.zero_add,
        List.length_append, List.length_cons]
      omega

theorem length_fmtOctets_le {os : List ℕ} (hos : ∀ o ∈ os, o < 256) (i : ℕ) :
    (fmtOctets i os).length ≤ 4 * os.length := by
  induction os generalizing i with
  | nil => exact Nat.le_refl _
  | cons o os ih =>
      have ho : (Nat.toDigits 10 o).length ≤ 3 :=
        (Nat.length_toDigits_le_iff (by decide) (by decide)).2
          ((hos o List.mem_cons_self).trans (by decide))
      have hrest := ih (fun x hx => hos x (List.mem_cons_of_mem _ hx)) (i + 1)
      have hsep : (if 0 < i then ['.'] else []).length ≤ 1 := by
        split_ifs <;> simp
      simp only [fmtOctets, List.length_append, List.length_cons]
      omega

/-- **An address takes at most 39 characters**: eight groups of four digits and seven
colons. -/
theorem Ipv6Addr.length_display_le (a : Ipv6Addr) : a.display.length ≤ 39 := by
  unfold display
  split_ifs with hm
  · have hos : ∀ o ∈ (a.octets.1.drop 12).map UInt8.toNat, o < 256 := fun o ho => by
      obtain ⟨b, -, rfl⟩ := List.mem_map.1 ho
      exact b.toNat_lt
    have hlen := length_fmtOctets_le hos 0
    simp only [List.length_map, List.length_drop, a.octets.2] at hlen
    simp only [List.length_append, List.length_cons, List.length_nil]
    omega
  · simp only
    have hlt := a.segments_lt
    have hlen := a.length_segments
    split_ifs with hz
    · -- at least two groups are left out for the two colons
      have hsum := congrArg List.length (longestZeros_split a.segments)
      generalize longestZeros a.segments = z at hz hsum ⊢
      have hhd : ∀ g ∈ a.segments.take z.start, g < 65536 := fun g hg =>
        hlt g (List.mem_of_mem_take hg)
      have htl : ∀ g ∈ a.segments.drop (z.start + z.len), g < 65536 := fun g hg =>
        hlt g (List.mem_of_mem_drop hg)
      have hhd := length_fmtGroups_zero_le hhd
      have htl := length_fmtGroups_zero_le htl
      simp only [List.length_append, List.length_take, List.length_drop, List.length_replicate,
        hlen] at hsum hhd htl
      simp only [List.length_append, List.length_cons, List.length_nil]
      omega
    · have hall := length_fmtGroups_zero_le hlt
      omega

end Hextet
