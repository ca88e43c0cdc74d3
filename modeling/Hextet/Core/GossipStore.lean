/-
# The gossip store

`crates/core/src/gossip.rs`, `lww_compare`, `GossipStore` and `merge`.  The store
keeps one entry per node and kind.  A newer sequence number replaces; at equal
sequence numbers the smaller encoding does (`docs/protocol/gossip.md` §4).  Keys
are self-chosen, so the number of entries is capped at `MAX_STORE_ENTRIES`: once
the store is full a new key is refused, and updates of old keys still pass.

The map is private to the source and written by `merge` alone, so the structure
carries what `merge` maintains: every entry is valid and sits under its own key,
and the cap holds.  `rank` turns `lww_compare` into a linear order on valid
entries (`lwwCompare_eq_gt_iff`), and with it `merge` is the write of
`Lib.LastWriter` (`map_merge`).
-/

import Hextet.Core.EntryCodec
import Hextet.Lib.LastWriter
import Mathlib.Data.List.Lex
import Mathlib.Data.Prod.Lex

namespace Hextet

open Lib

variable {C : Crypto}

/-- `MergeOutcome`. -/
inductive MergeOutcome where
  | applied
  | stale
  | invalid
  | rejected
  deriving DecidableEq, Repr

/-- `MAX_STORE_ENTRIES`. -/
def maxStoreEntries : ℕ := 512

/-- `lww_compare`: `gt` when `a` replaces `b`. -/
def lwwCompare (a b : Entry C) : Ordering :=
  match compare a.seq b.seq with
  | .eq =>
      match a.encode, b.encode with
      | .ok x, .ok y => compare y x
      | _, _ => .eq
  | other => other

/-- `GossipStore`. -/
structure GossipStore (C : Crypto) where
  /-- The entry of each node and kind. -/
  map : LastWriter.Table (NodePublicKey C × Kind) (Entry C)
  /-- Only valid entries, each under its key. -/
  filed : ∀ k e, map.lookup k = some e → e.isValid = true ∧ e.key = k
  /-- The cap. -/
  bounded : map.keys.card ≤ maxStoreEntries

namespace GossipStore

/-- `GossipStore::new`. -/
def new : GossipStore C := ⟨∅, fun k e h => by simp at h, by simp [maxStoreEntries]⟩

/-- `GossipStore::len`. -/
def len (s : GossipStore C) : ℕ := s.map.keys.card

/-- `self.map.insert(key, entry)`, where there is room. -/
protected def insert (s : GossipStore C) (entry : Entry C) (hv : entry.isValid = true)
    (hroom : s.map.lookup entry.key = none → s.len < maxStoreEntries) : GossipStore C where
  map := s.map.insert entry.key entry
  filed k e h := by
    by_cases hk : k = entry.key
    · subst hk
      rw [Finmap.lookup_insert, Option.some.injEq] at h
      exact h ▸ ⟨hv, rfl⟩
    · rw [Finmap.lookup_insert_of_ne _ hk] at h
      exact s.filed k e h
  bounded := by
    cases hl : s.map.lookup entry.key with
    | some old =>
        rw [LastWriter.keys_insert_of_some hl]
        exact s.bounded
    | none =>
        rw [LastWriter.card_insert hl]
        exact hroom hl

/-- `GossipStore::merge`. -/
def merge (s : GossipStore C) (entry : Entry C) : MergeOutcome × GossipStore C :=
  if hv : entry.isValid = true then
    match hl : s.map.lookup entry.key with
    | some existing =>
        if lwwCompare entry existing ≠ .gt then (.stale, s)
        else (.applied, s.insert entry hv fun h => by rw [hl] at h; cases h)
    | none =>
        if hfull : s.len ≥ maxStoreEntries then (.rejected, s)
        else (.applied, s.insert entry hv fun _ => Nat.not_le.1 hfull)
  else (.invalid, s)

/-- `GossipStore::endpoint_of`. -/
def endpointOf (s : GossipStore C) (node : NodePublicKey C) : Option (Entry C) :=
  s.map.lookup (node, .endpoint)

/-- `GossipStore::member_of`. -/
def memberOf (s : GossipStore C) (node : NodePublicKey C) : Option (Entry C) :=
  s.map.lookup (node, .member)

/-- `GossipStore::is_revoked`. -/
def isRevoked (s : GossipStore C) (node : NodePublicKey C) : Bool :=
  (s.map.lookup (node, .revocation)).isSome

end GossipStore

/-! ### The order behind `lww_compare` -/

namespace Entry

/-- The canonical encoding, empty when there is none. -/
def encoding (e : Entry C) : List UInt8 := e.encode.toOption.getD []

/-- The rank of an entry among those of its key: the sequence number, then the
reversed order of encodings. -/
def rank (e : Entry C) : ℕ ×ₗ (List ℕ)ᵒᵈ :=
  toLex (e.seq.toNat, OrderDual.toDual (e.encoding.map UInt8.toNat))

theorem encode_eq_ok_encoding {e : Entry C} (h : e.isValid = true) :
    e.encode = .ok e.encoding := by
  obtain ⟨b, hb⟩ := encode_of_isValid h
  simp [encoding, hb, Except.toOption]

end Entry

/-- Byte strings compare as their lists of byte values. -/
theorem compare_bytes_eq_lt_iff (x y : List UInt8) :
    compare x y = .lt ↔ x.map UInt8.toNat < y.map UInt8.toNat := by
  induction x generalizing y with
  | nil => cases y <;> simp [compare, List.compareLex]
  | cons a x ih =>
      cases y with
      | nil => simp [compare, List.compareLex]
      | cons b y =>
          have hcmp : compare (a :: x) (b :: y) = (compare a b).then (compare x y) :=
            List.compareLex_cons_cons
          rw [hcmp, Ordering.then_eq_lt, ih, List.map_cons, List.map_cons,
            List.cons_lt_cons_iff, Std.compare_eq_lt, Std.compare_eq_iff_eq, UInt8.lt_iff_toNat_lt,
            UInt8.toNat_inj]

theorem map_toNat_injective : Function.Injective (List.map UInt8.toNat) :=
  List.map_injective_iff.2 fun _ _ h => UInt8.toNat_inj.1 h

/-- **`lww_compare` is the strict order of ranks** on valid entries. -/
theorem lwwCompare_eq_gt_iff {a b : Entry C} (ha : a.isValid = true) (hb : b.isValid = true) :
    lwwCompare a b = .gt ↔ b.rank < a.rank := by
  rw [Entry.rank, Entry.rank, Prod.Lex.toLex_lt_toLex, lwwCompare,
    Entry.encode_eq_ok_encoding ha, Entry.encode_eq_ok_encoding hb]
  simp only [OrderDual.toDual_lt_toDual, ← UInt64.lt_iff_toNat_lt, UInt64.toNat_inj,
    ← compare_bytes_eq_lt_iff]
  rcases hc : compare a.seq b.seq with _ | _ | _
  · have hlt := Std.compare_eq_lt.1 hc
    simp only [reduceCtorEq, false_iff, not_or]
    exact ⟨UInt64.lt_asymm hlt, fun h => UInt64.lt_irrefl _ (h.1 ▸ hlt)⟩
  · have heq := Std.compare_eq_iff_eq.1 hc
    simp only [heq, UInt64.lt_irrefl, false_or, true_and]
    exact Std.OrientedCmp.gt_iff_lt
  · simp only [true_iff]
    exact Or.inl (Std.compare_eq_gt.1 hc)

/-- **The rank separates valid entries.** -/
theorem Entry.rank_injOn {a b : Entry C} (ha : a.isValid = true) (hb : b.isValid = true)
    (h : a.rank = b.rank) : a = b := by
  refine encode_injOn ha hb ?_
  have h' := congrArg (fun r => OrderDual.ofDual (ofLex r).2) h
  rw [encode_eq_ok_encoding ha, encode_eq_ok_encoding hb]
  exact congrArg Except.ok (map_toNat_injective h')

/-! ### What a merge does -/

namespace GossipStore

/-- **The four ends of a merge**, with what each says about the store. -/
theorem merge_cases (s : GossipStore C) (e : Entry C) :
    (e.isValid = false ∧ s.merge e = (.invalid, s)) ∨
    (e.isValid = true ∧ ∃ old, s.map.lookup e.key = some old ∧ e.rank ≤ old.rank ∧
      s.merge e = (.stale, s)) ∨
    (e.isValid = true ∧ s.map.lookup e.key = none ∧ maxStoreEntries ≤ s.len ∧
      s.merge e = (.rejected, s)) ∨
    (e.isValid = true ∧ (∀ old, s.map.lookup e.key = some old → old.rank < e.rank) ∧
      (s.map.lookup e.key = none → s.len < maxStoreEntries) ∧
        ∃ s', s.merge e = (.applied, s') ∧ s'.map = s.map.insert e.key e) := by
  unfold merge
  by_cases hv : e.isValid = true
  · rw [dif_pos hv]
    split
    · rename_i old hl
      have hgt := lwwCompare_eq_gt_iff hv (s.filed _ _ hl).1
      by_cases hc : lwwCompare e old ≠ .gt
      · refine Or.inr (Or.inl ⟨hv, old, hl, not_lt.1 fun h => hc (hgt.2 h), if_pos hc⟩)
      · refine Or.inr (Or.inr (Or.inr ⟨hv, fun old' h => ?_, fun h => ?_, _, if_neg hc, rfl⟩))
        · rw [hl, Option.some.injEq] at h
          exact h ▸ hgt.1 (not_not.1 hc)
        · rw [hl] at h
          cases h
    · rename_i hl
      by_cases hfull : s.len ≥ maxStoreEntries
      · exact Or.inr (Or.inr (Or.inl ⟨hv, hl, hfull, dif_pos hfull⟩))
      · refine Or.inr (Or.inr (Or.inr
          ⟨hv, fun old h => ?_, fun _ => Nat.not_le.1 hfull, _, dif_neg hfull, rfl⟩))
        rw [hl] at h
        cases h
  · exact Or.inl ⟨by simpa using hv, dif_neg hv⟩

/-- **A merge of a valid entry is the write of a last-writer-wins map.** -/
theorem map_merge (s : GossipStore C) {e : Entry C} (hv : e.isValid = true) :
    (s.merge e).2.map = LastWriter.put maxStoreEntries Entry.rank e.key e s.map := by
  unfold LastWriter.put
  rcases s.merge_cases e with ⟨h, -⟩ | ⟨-, old, hl, hle, hm⟩ | ⟨-, hl, hfull, hm⟩ |
    ⟨-, hgt, hroom, s', hm, hmap⟩
  · rw [hv] at h
    cases h
  · rw [hm, hl]
    exact (if_neg (not_lt.2 hle)).symm
  · rw [hm, hl]
    exact (if_pos hfull).symm
  · rw [hm, hmap]
    cases hl : s.map.lookup e.key with
    | some old => exact (if_pos (hgt old hl)).symm
    | none => exact (if_neg (Nat.not_le.2 (hroom hl))).symm

/-- An invalid entry is refused. -/
theorem merge_of_invalid (s : GossipStore C) {e : Entry C} (h : e.isValid = false) :
    s.merge e = (.invalid, s) :=
  dif_neg (by simp [h])

/-- **A merge is applied exactly when the entry is valid and outranks what its
key holds**, or its key is new and there is room. -/
theorem merge_eq_applied_iff (s : GossipStore C) (e : Entry C) :
    (s.merge e).1 = .applied ↔ e.isValid = true ∧
      (∀ old, s.map.lookup e.key = some old → old.rank < e.rank) ∧
        (s.map.lookup e.key = none → s.len < maxStoreEntries) := by
  rcases s.merge_cases e with ⟨h, hm⟩ | ⟨-, old, hl, hle, hm⟩ | ⟨-, hl, hfull, hm⟩ |
    ⟨hv, hgt, hroom, s', hm, -⟩ <;> rw [hm]
  · simp [h]
  · simp only [reduceCtorEq, false_iff]
    exact fun h => absurd (h.2.1 old hl) (not_lt.2 hle)
  · simp only [reduceCtorEq, false_iff]
    exact fun h => absurd (h.2.2 hl) (Nat.not_lt.2 hfull)
  · simp only [true_iff]
    exact ⟨hv, hgt, hroom⟩

/-- An applied merge files the entry. -/
theorem map_of_applied {s s' : GossipStore C} {e : Entry C} (h : s.merge e = (.applied, s')) :
    s'.map = s.map.insert e.key e := by
  rcases s.merge_cases e with ⟨-, hm⟩ | ⟨-, old, -, -, hm⟩ | ⟨-, -, -, hm⟩ |
    ⟨-, -, -, s'', hm, hmap⟩ <;> rw [h] at hm <;> cases hm
  exact hmap

/-- A merge that is not applied leaves the store alone. -/
theorem merge_eq_self {s : GossipStore C} {e : Entry C} (h : (s.merge e).1 ≠ .applied) :
    (s.merge e).2 = s := by
  rcases s.merge_cases e with ⟨-, hm⟩ | ⟨-, old, -, -, hm⟩ | ⟨-, -, -, hm⟩ |
    ⟨-, -, -, s'', hm, -⟩ <;> rw [hm] at h ⊢
  exact absurd rfl h

end GossipStore

end Hextet
