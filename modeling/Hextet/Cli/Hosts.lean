/-
# Host names: `hosts.rs`

`hextet hosts` writes one line per peer, `address  name  name.hextet`.  A name is
sanitised (`sanitizeName`), cut at 63 characters (`truncateName`) and, when an earlier
peer has the same base, given the number of its occurrence (`renderStep`).

The base is a label (`isLabel_truncateName`) and the lines are those of the peers with a
name, in order (`renderHosts_eq`).  What the loop does not look at is the numbered name:
it may be the base of another peer, and it may be longer than a label.  **The lines are
what they should be exactly when neither happens** (`renderHosts_valid_iff`).
-/

import Hextet.Core.AddrText
import Hextet.Core.Config
import Hextet.Core.PlainCrypto
import Hextet.Lib.KeyMap
import Hextet.Lib.Occurrence
import Mathlib.Data.List.DropRight

namespace Hextet

open Lib

variable {C : Crypto}

/-! ### The name of a peer -/

/-- The characters a sanitised name keeps. -/
def isKept (c : Char) : Bool := ('a' ≤ c && c ≤ 'z') || ('0' ≤ c && c ≤ '9')

/-- One character of `sanitize_name`: the text so far, and `last_was_dash`. -/
def sanitizeChar (st : List Char × Bool) (c : Char) : List Char × Bool :=
  let c := c.toLower
  let ch := if isKept c then c else '-'
  if ch = '-' then
    if st.2 then st else (st.1 ++ [ch], true)
  else (st.1 ++ [ch], false)

/-- `str::trim_end_matches('-')`. -/
def trimEndDashes (s : List Char) : List Char := s.rdropWhile (· == '-')

/-- `sanitize_name`. -/
def sanitizeName (name : List Char) : List Char :=
  trimEndDashes ((name.foldl sanitizeChar ([], false)).1.dropWhile (· == '-'))

/-- The cut of `render_hosts`.  A sanitised name is ASCII, so its length in bytes is the
number of its characters. -/
def truncateName (base : List Char) : List Char :=
  if 63 < base.length then trimEndDashes (base.take 63) else base

/-- The host name of a base and its counter. -/
def hostname (base : List Char) (count : UInt32) : List Char :=
  if count = 1 then base else base ++ '-' :: Nat.toDigits 10 count.toNat

/-- A line: the address, the name, and the name under `.hextet`. -/
def hostLine (address : Ipv6Addr) (name : List Char) : List Char :=
  address.display ++ ([' ', ' '] ++ name ++ ([' ', ' '] ++ name ++ ".hextet".toList))

/-- One peer of `render_hosts`: the counters of the bases, and the lines.  The counter is
a `u32` and wraps in a release build. -/
def renderStep (st : KeyMap (List Char) UInt32 × List (List Char)) (peer : Peer C) :
    KeyMap (List Char) UInt32 × List (List Char) :=
  let base := sanitizeName peer.name.toList
  if base = [] then st
  else
    let base := truncateName base
    let count := (st.1.get? base).getD 0 + 1
    (st.1.insert base count, st.2 ++ [hostLine peer.addr.address (hostname base count)])

/-- `render_hosts`. -/
def renderHosts (peers : List (Peer C)) : List (List Char) :=
  (peers.foldl renderStep (KeyMap.empty, [])).2

/-! ### Labels -/

/-- A DNS label: 1 to 63 characters out of `a-z`, `0-9` and `-`, none of them `-` at
either end. -/
structure IsLabel (s : List Char) : Prop where
  pos : 0 < s.length
  le : s.length ≤ 63
  chars : ∀ c ∈ s, isKept c = true ∨ c = '-'
  head : s.head? ≠ some '-'
  last : s.getLast? ≠ some '-'

theorem mem_trimEndDashes {s : List Char} {c : Char} (h : c ∈ trimEndDashes s) : c ∈ s :=
  (List.rdropWhile_prefix ..).subset h

theorem getLast?_trimEndDashes (s : List Char) : (trimEndDashes s).getLast? ≠ some '-' := by
  intro h
  have hne : trimEndDashes s ≠ [] := by
    rintro heq
    simp [heq] at h
  have hlast : ¬((trimEndDashes s).getLast hne == '-') = true := List.rdropWhile_last_not _ s hne
  rw [List.getLast?_eq_some_getLast hne] at h
  exact hlast (by simpa using Option.some.inj h)

/-- The first character that is no dash is not trimmed off. -/
theorem head?_trimEndDashes {s : List Char} {c : Char} (h : s.head? = some c) (hc : c ≠ '-') :
    (trimEndDashes s).head? = some c := by
  have hne : trimEndDashes s ≠ [] := fun heq =>
    hc (by simpa using List.rdropWhile_eq_nil_iff.1 heq c (List.mem_of_head? h))
  obtain ⟨x, t, ht⟩ := List.exists_cons_of_ne_nil hne
  obtain ⟨rest, hrest⟩ : trimEndDashes s <+: s := List.rdropWhile_prefix ..
  rw [← hrest, ht] at h
  simpa [ht] using h

/-- What is trimmed of a text with the right characters is a label. -/
theorem IsLabel.trimEndDashes {s : List Char} (hle : s.length ≤ 63)
    (hchars : ∀ c ∈ s, isKept c = true ∨ c = '-') {c : Char} (hhead : s.head? = some c)
    (hc : c ≠ '-') : IsLabel (trimEndDashes s) where
  pos := by
    have := head?_trimEndDashes hhead hc
    cases htrim : Hextet.trimEndDashes s with
    | nil => simp [htrim] at this
    | cons x t => simp
  le := Nat.le_trans (List.rdropWhile_prefix ..).length_le hle
  chars := fun c hc => hchars c (mem_trimEndDashes hc)
  head := by
    rw [head?_trimEndDashes hhead hc]
    exact fun h => hc (Option.some.inj h)
  last := getLast?_trimEndDashes s

theorem mem_sanitizeChar {st : List Char × Bool} {c x : Char} (h : x ∈ (sanitizeChar st c).1) :
    x ∈ st.1 ∨ isKept x = true ∨ x = '-' := by
  have hch : isKept (if isKept c.toLower then c.toLower else '-') = true ∨
      (if isKept c.toLower then c.toLower else '-') = '-' := by
    split_ifs with hkept
    · exact Or.inl hkept
    · exact Or.inr rfl
  simp only [sanitizeChar] at h
  generalize (if isKept c.toLower then c.toLower else '-') = ch at h hch
  have hpush : x ∈ st.1 ++ [ch] → x ∈ st.1 ∨ isKept x = true ∨ x = '-' := by
    intro hx
    rcases List.mem_append.1 hx with hx | hx
    · exact Or.inl hx
    · rw [List.mem_singleton.1 hx]
      exact Or.inr hch
  split_ifs at h with hdash hlast
  · exact Or.inl h
  · exact hpush h
  · exact hpush h

theorem mem_foldl_sanitizeChar {name : List Char} {st : List Char × Bool} {x : Char}
    (h : x ∈ (name.foldl sanitizeChar st).1) : x ∈ st.1 ∨ isKept x = true ∨ x = '-' := by
  induction name generalizing st with
  | nil => exact Or.inl h
  | cons c name ih =>
      rcases ih h with h | h
      · exact mem_sanitizeChar h
      · exact Or.inr h

theorem mem_sanitizeName {name : List Char} {x : Char} (h : x ∈ sanitizeName name) :
    isKept x = true ∨ x = '-' :=
  (mem_foldl_sanitizeChar ((List.dropWhile_suffix _).subset (mem_trimEndDashes h))).resolve_left
    (by simp)

/-- A sanitised name that is not empty does not start with a dash. -/
theorem head?_sanitizeName {name : List Char} (h : sanitizeName name ≠ []) :
    ∃ c, (sanitizeName name).head? = some c ∧ c ≠ '-' := by
  cases hdrop : (name.foldl sanitizeChar ([], false)).1.dropWhile (· == '-') with
  | nil =>
      refine absurd ?_ h
      rw [sanitizeName, hdrop]
      rfl
  | cons c rest =>
      have hc : c ≠ '-' := by
        have := List.head_dropWhile_not (· == '-') (l := (name.foldl sanitizeChar ([], false)).1)
          (by simp [hdrop])
        simpa [hdrop] using this
      refine ⟨c, ?_, hc⟩
      rw [sanitizeName, hdrop]
      exact head?_trimEndDashes rfl hc

/-- **The base of a host name is a label**, unless it is empty. -/
theorem isLabel_truncateName {name : List Char} (h : sanitizeName name ≠ []) :
    IsLabel (truncateName (sanitizeName name)) := by
  obtain ⟨c, hhead, hc⟩ := head?_sanitizeName h
  unfold truncateName
  split_ifs with hlen
  · refine IsLabel.trimEndDashes (List.length_take_le ..)
      (fun x hx => mem_sanitizeName (List.mem_of_mem_take hx)) ?_ hc
    rw [List.head?_take, if_neg (by decide)]
    exact hhead
  · have hpos : 0 < (sanitizeName name).length := List.length_pos_iff.2 h
    refine ⟨hpos, by omega, fun x hx => mem_sanitizeName hx, ?_, getLast?_trimEndDashes _⟩
    rw [hhead]
    exact fun heq => hc (Option.some.inj heq)

/-! ### The lines -/

/-- The peers that get a line. -/
def namedPeers (peers : List (Peer C)) : List (Peer C) :=
  peers.filter fun peer => sanitizeName peer.name.toList ≠ []

/-- The base of a peer's host name. -/
def hostBase (peer : Peer C) : List Char := truncateName (sanitizeName peer.name.toList)

/-- The bases, in the order of the lines. -/
def hostBases (peers : List (Peer C)) : List (List Char) := (namedPeers peers).map hostBase

/-- The host name of the `k`th peer with a base. -/
def hostnameOf (x : List Char × ℕ) : List Char := hostname x.1 (UInt32.ofNat x.2)

/-- The host names, in the order of the lines. -/
def hostNames (peers : List (Peer C)) : List (List Char) :=
  (numbered (hostBases peers)).map hostnameOf

/-- The loop numbers the bases after those it has counted. -/
theorem foldl_renderStep {peers : List (Peer C)}
    {st : KeyMap (List Char) UInt32 × List (List Char)} (before : List (List Char))
    (hseen : ∀ b, (st.1.get? b).getD 0 = UInt32.ofNat (before.count b)) :
    (peers.foldl renderStep st).2 = st.2 ++ List.zipWith (fun p h => hostLine p.addr.address h)
      (namedPeers peers) ((numberFrom before (hostBases peers)).map hostnameOf) := by
  induction peers generalizing st before with
  | nil => simp [namedPeers, hostBases, numberFrom]
  | cons peer peers ih =>
      rw [List.foldl_cons]
      by_cases hempty : sanitizeName peer.name.toList = []
      · have hstep : renderStep st peer = st := by simp [renderStep, hempty]
        have hnamed : namedPeers (peer :: peers) = namedPeers peers := by simp [namedPeers, hempty]
        rw [hstep, ih before hseen, hostBases, hostBases, hnamed]
      · have hnamed : namedPeers (peer :: peers) = peer :: namedPeers peers := by
          simp [namedPeers, hempty]
        have hcount : (st.1.get? (hostBase peer)).getD 0 + 1 =
            UInt32.ofNat (before.count (hostBase peer) + 1) := by
          rw [hseen, UInt32.ofNat_add]
          rfl
        have hstep : renderStep st peer =
            (st.1.insert (hostBase peer) (UInt32.ofNat (before.count (hostBase peer) + 1)),
              st.2 ++ [hostLine peer.addr.address
                (hostnameOf (hostBase peer, before.count (hostBase peer) + 1))]) := by
          rw [hostnameOf, ← hcount]
          simp [renderStep, hempty, hostBase]
        rw [hstep, ih (hostBase peer :: before) ?_, hostBases, hostBases, hnamed]
        · simp [numberFrom]
        · intro b
          by_cases hb : b = hostBase peer
          · simp [hb]
          · rw [KeyMap.get?_insert, if_neg hb, hseen, List.count_cons_of_ne (fun h => hb h.symm)]

/-- **The lines**: one per peer with a name, in order, with its numbered base. -/
theorem renderHosts_eq (peers : List (Peer C)) :
    renderHosts peers = List.zipWith (fun p h => hostLine p.addr.address h) (namedPeers peers)
      (hostNames peers) := by
  rw [renderHosts, foldl_renderStep [] (by simp)]
  rfl

theorem length_hostNames (peers : List (Peer C)) :
    (hostNames peers).length = (namedPeers peers).length := by
  rw [hostNames, List.length_map, length_numbered, hostBases, List.length_map]

/-- A line tells its host name. -/
theorem hostLine_inj {address : Ipv6Addr} {h h' : List Char}
    (heq : hostLine address h = hostLine address h') : h = h' := by
  have htail := List.append_cancel_left heq
  have hlen : h.length = h'.length := by
    have := congrArg List.length htail
    simp only [List.length_append] at this
    omega
  have htail' := (List.append_inj htail (by simp [hlen])).1
  exact List.append_cancel_left htail'

theorem zipWith_hostLine_inj {peers : List (Peer C)} {names names' : List (List Char)}
    (hlen : names.length = peers.length) (hlen' : names'.length = peers.length)
    (heq : List.zipWith (fun p h => hostLine p.addr.address h) peers names =
      List.zipWith (fun p h => hostLine p.addr.address h) peers names') : names = names' := by
  induction peers generalizing names names' with
  | nil => rw [List.length_eq_zero_iff.1 hlen, List.length_eq_zero_iff.1 hlen']
  | cons p peers ih =>
      obtain ⟨h, names, rfl⟩ := List.exists_cons_of_length_eq_add_one hlen
      obtain ⟨h', names', rfl⟩ := List.exists_cons_of_length_eq_add_one hlen'
      rw [List.zipWith_cons_cons, List.zipWith_cons_cons, List.cons.injEq] at heq
      rw [hostLine_inj heq.1, ih (by simpa using hlen) (by simpa using hlen') heq.2]

/-- The lines are those of the peers with a name, in order, and their host names are
distinct labels. -/
def ValidHosts (peers : List (Peer C)) (lines : List (List Char)) : Prop :=
  ∃ names : List (List Char), names.length = (namedPeers peers).length ∧
    lines = List.zipWith (fun p h => hostLine p.addr.address h) (namedPeers peers) names ∧
    names.Nodup ∧ ∀ h ∈ names, IsLabel h

theorem validHosts_renderHosts {peers : List (Peer C)} :
    ValidHosts peers (renderHosts peers) ↔
      (hostNames peers).Nodup ∧ ∀ h ∈ hostNames peers, IsLabel h := by
  constructor
  · rintro ⟨names, hlen, hlines, hvalid⟩
    rw [renderHosts_eq] at hlines
    rwa [zipWith_hostLine_inj (length_hostNames peers) hlen hlines]
  · exact fun h => ⟨hostNames peers, length_hostNames peers, renderHosts_eq peers, h⟩

/-! ### Numbered names -/

/-- The name that the `k`th peer with a base gets, from the second on. -/
def numberedName (base : List Char) (k : ℕ) : List Char :=
  base ++ '-' :: Nat.toDigits 10 (k % 2 ^ 32)

/-- The numbered names of the repeated bases fit: the counter does not come around, no
numbered name is itself a base, and none is longer than a label. -/
def NumbersFit (bases : List (List Char)) : Prop :=
  ∀ b k, 2 ≤ k → k ≤ bases.count b →
    k ≤ 2 ^ 32 ∧ numberedName b k ∉ bases ∧ (numberedName b k).length ≤ 63

theorem hostnameOf_one (b : List Char) : hostnameOf (b, 1) = b := rfl

theorem hostnameOf_eq {b : List Char} {k : ℕ} (h : 2 ≤ k) (h' : k ≤ 2 ^ 32) :
    hostnameOf (b, k) = numberedName b k := by
  have hne : UInt32.ofNat k ≠ 1 := by
    intro heq
    have := congrArg UInt32.toNat heq
    rw [UInt32.toNat_ofNat'] at this
    change k % 2 ^ 32 = 1 at this
    omega
  rw [hostnameOf, hostname, if_neg hne, numberedName, UInt32.toNat_ofNat']

/-- A decimal digit is kept, so it is no dash. -/
theorem isKept_of_mem_toDigits {n : ℕ} {c : Char} (h : c ∈ Nat.toDigits 10 n) :
    isKept c = true := by
  have hall : ∀ d : Fin 10, isKept (Nat.digitChar d) = true := by decide
  obtain ⟨ds, hds, htext, -⟩ := exists_digits (show 1 < 10 by decide) n
  rw [htext] at h
  obtain ⟨d, hd, rfl⟩ := List.mem_map.1 h
  exact hall ⟨d, hds d hd⟩

theorem dash_not_mem_toDigits (n : ℕ) : '-' ∉ Nat.toDigits 10 n :=
  fun h => absurd (isKept_of_mem_toDigits h) (by decide)

/-- Two texts that end with a dash and no dash after it agree before it. -/
theorem append_dash_inj {b b' d d' : List Char} (hd : '-' ∉ d) (hd' : '-' ∉ d')
    (h : b ++ '-' :: d = b' ++ '-' :: d') : b = b' ∧ d = d' := by
  rcases List.append_eq_append_iff.1 h with ⟨c, rfl, hc⟩ | ⟨c, rfl, hc⟩
  · cases c with
    | nil => simpa using hc
    | cons x c =>
        rw [List.cons_append, List.cons.injEq] at hc
        exact absurd (hc.2 ▸ List.mem_append_right c List.mem_cons_self) hd
  · cases c with
    | nil => simpa using hc.symm
    | cons x c =>
        rw [List.cons_append, List.cons.injEq] at hc
        exact absurd (hc.2 ▸ List.mem_append_right c List.mem_cons_self) hd'

/-- **A numbered name tells its base and its number.** -/
theorem numberedName_inj {b b' : List Char} {k k' : ℕ} (hk : 2 ≤ k) (hk32 : k ≤ 2 ^ 32)
    (hk' : 2 ≤ k') (hk32' : k' ≤ 2 ^ 32) (h : numberedName b k = numberedName b' k') :
    b = b' ∧ k = k' := by
  obtain ⟨hb, hd⟩ := append_dash_inj (dash_not_mem_toDigits _) (dash_not_mem_toDigits _) h
  have := toDigits_injective (by decide) (by decide) hd
  exact ⟨hb, by omega⟩

/-- A numbered label that is not too long is a label. -/
theorem IsLabel.numberedName {b : List Char} (h : IsLabel b) {k : ℕ}
    (hlen : (numberedName b k).length ≤ 63) : IsLabel (numberedName b k) := by
  obtain ⟨ds, -, htext, -, hne, -⟩ := exists_digits (show 1 < 10 by decide) (k % 2 ^ 32)
  have hdigits : Nat.toDigits 10 (k % 2 ^ 32) ≠ [] := by
    rw [htext]
    simpa using hne
  refine ⟨by simp [Hextet.numberedName], hlen, ?_, ?_, ?_⟩
  · intro c hc
    rcases List.mem_append.1 hc with hc | hc
    · exact h.chars c hc
    · rcases List.mem_cons.1 hc with rfl | hc
      · exact Or.inr rfl
      · exact Or.inl (isKept_of_mem_toDigits hc)
  · obtain ⟨c, t, rfl⟩ := List.exists_cons_of_length_pos h.pos
    simpa [Hextet.numberedName] using h.head
  · intro hlast
    have hmem : '-' ∈ Nat.toDigits 10 (k % 2 ^ 32) := by
      rw [Hextet.numberedName, List.getLast?_append_cons,
        List.getLast?_cons_of_ne_nil hdigits] at hlast
      exact List.mem_of_getLast? hlast
    exact dash_not_mem_toDigits _ hmem

/-! ### When the lines are valid -/

variable {peers : List (Peer C)}

theorem isLabel_of_mem_hostBases {b : List Char} (h : b ∈ hostBases peers) : IsLabel b := by
  obtain ⟨peer, hpeer, rfl⟩ := List.mem_map.1 h
  exact isLabel_truncateName (by simpa using (List.mem_filter.1 hpeer).2)

/-- Equal host names are of one base and one number. -/
theorem NumbersFit.hostnameOf_inj {bases : List (List Char)} (h : NumbersFit bases)
    {x y : List Char × ℕ} (hx : x ∈ numbered bases) (hy : y ∈ numbered bases)
    (heq : hostnameOf x = hostnameOf y) : x = y := by
  obtain ⟨b, k⟩ := x
  obtain ⟨b', k'⟩ := y
  obtain ⟨hk, hkb⟩ := mem_numbered.1 hx
  obtain ⟨hk', hkb'⟩ := mem_numbered.1 hy
  have hb : b ∈ bases := List.count_pos_iff.1 (by omega)
  have hb' : b' ∈ bases := List.count_pos_iff.1 (by omega)
  rcases Nat.eq_or_lt_of_le hk with rfl | hk <;> rcases Nat.eq_or_lt_of_le hk' with rfl | hk'
  · rw [show b = b' from heq]
  · -- the second name is a base
    obtain ⟨h32, hfree, -⟩ := h b' k' hk' hkb'
    rw [hostnameOf_one, hostnameOf_eq hk' h32] at heq
    exact absurd (heq ▸ hb) hfree
  · obtain ⟨h32, hfree, -⟩ := h b k hk hkb
    rw [hostnameOf_one, hostnameOf_eq hk h32] at heq
    exact absurd (heq ▸ hb') hfree
  · have h32 := (h b k hk hkb).1
    have h32' := (h b' k' hk' hkb').1
    rw [hostnameOf_eq hk h32, hostnameOf_eq hk' h32'] at heq
    obtain ⟨rfl, rfl⟩ := numberedName_inj hk h32 hk' h32' heq
    rfl

theorem NumbersFit.isLabel_hostnameOf (h : NumbersFit (hostBases peers)) {x : List Char × ℕ}
    (hx : x ∈ numbered (hostBases peers)) : IsLabel (hostnameOf x) := by
  obtain ⟨b, k⟩ := x
  obtain ⟨hk, hkb⟩ := mem_numbered.1 hx
  have hpos : 0 < (hostBases peers).count b := by omega
  have hb := isLabel_of_mem_hostBases (List.count_pos_iff.1 hpos)
  rcases Nat.eq_or_lt_of_le hk with rfl | hk
  · exact hb
  · obtain ⟨h32, -, hlen⟩ := h b k hk hkb
    rw [hostnameOf_eq hk h32]
    exact hb.numberedName hlen

/-- Distinct labels leave no room for a numbered name that does not fit. -/
theorem numbersFit_of_hostNames (hnodup : (hostNames peers).Nodup)
    (hlabel : ∀ h ∈ hostNames peers, IsLabel h) : NumbersFit (hostBases peers) := by
  have hinj := (List.nodup_map_iff_inj_on (nodup_numbered (hostBases peers))).1 hnodup
  intro b k hk hkb
  have hmem : ∀ j, 1 ≤ j → j ≤ (hostBases peers).count b → (b, j) ∈ numbered (hostBases peers) :=
    fun j hj hjb => mem_numbered.2 ⟨hj, hjb⟩
  have h32 : k ≤ 2 ^ 32 := by
    by_contra hlt
    -- the counter is back at one
    have hone : UInt32.ofNat (2 ^ 32 + 1) = 1 := by decide
    have hname : hostnameOf (b, 1) = hostnameOf (b, 2 ^ 32 + 1) := by
      rw [hostnameOf_one, hostnameOf, hone]
      rfl
    have := hinj _ (hmem 1 (by omega) (by omega)) _ (hmem (2 ^ 32 + 1) (by omega) (by omega)) hname
    simp at this
  refine ⟨h32, fun hbase => ?_, ?_⟩
  · have hbase' : (numberedName b k, 1) ∈ numbered (hostBases peers) :=
      mem_numbered.2 ⟨by omega, List.count_pos_iff.2 hbase⟩
    have := hinj _ (hmem k (by omega) hkb) _ hbase' (hostnameOf_eq hk h32)
    have hone : k = 1 := (Prod.ext_iff.1 this).2
    omega
  · have := hlabel _ (List.mem_map_of_mem (hmem k (by omega) hkb))
    rw [hostnameOf_eq hk h32] at this
    exact this.le

/-- **The lines are valid exactly when the numbered names fit.**  Every peer with a name
has one line, in order, and the host names are distinct labels, if and only if no base
is repeated so often, or so close to the length of a label, or beside such another base,
that a numbered name is in use or too long. -/
theorem renderHosts_valid_iff (peers : List (Peer C)) :
    ValidHosts peers (renderHosts peers) ↔ NumbersFit (hostBases peers) := by
  rw [validHosts_renderHosts]
  constructor
  · rintro ⟨hnodup, hlabel⟩
    exact numbersFit_of_hostNames hnodup hlabel
  · intro h
    refine ⟨?_, fun name hname => ?_⟩
    · rw [hostNames, List.nodup_map_iff_inj_on (nodup_numbered _)]
      exact fun x hx y hy heq => h.hostnameOf_inj hx hy heq
    · obtain ⟨x, hx, rfl⟩ := List.mem_map.1 hname
      exact h.isLabel_hostnameOf hx

/-- A peer with a name. -/
def namedPeer (name : List Char) (n : ℕ) : Peer Crypto.plain where
  name := String.ofList name
  publicKey := plainKey 1 n
  endpoints := []
  addr := ⟨1, ⟨zeros 16⟩, ⟨zeros 16⟩⟩
  relay := false
  relayPort := 0
  routes := []
  ddns := none
  keepalive := none

/-- The second of two peers `A` and `a` is named `a-2`, as a third peer is. -/
theorem numbered_name_taken :
    ¬ValidHosts [namedPeer ['A'] 1, namedPeer ['a'] 2, namedPeer ['a', '-', '2'] 3]
      (renderHosts [namedPeer ['A'] 1, namedPeer ['a'] 2, namedPeer ['a', '-', '2'] 3]) := by
  rw [validHosts_renderHosts]
  rintro ⟨hnodup, -⟩
  revert hnodup
  decide

end Hextet
