/-
# Last-writer-wins maps under a capacity

A map from keys to entries in which a write replaces the entry under its key
exactly when it ranks strictly higher, and a write under a new key is refused
once the map holds `cap` entries.  `Summary A s` says what such a map is for:
`s` holds, under each key occurring in the set `A` of writes, a highest ranked
entry of `A` with that key, and nothing else.

A write that is not refused for lack of room extends the set by one entry
(`Summary.put`).  When the rank separates the entries of a key, the set
determines the map (`Summary.unique`): order and repetition of the writes do
not enter.  An entry that was written is covered from then on (`Covers`), and a
write that is applied was not covered before.
-/

import Mathlib.Data.Finmap
import Mathlib.Order.Lattice

namespace Hextet
namespace Lib

namespace LastWriter

variable {K E R : Type*} [DecidableEq K] [LinearOrder R]

/-- A map from keys to the entry that won. -/
abbrev Table (K E : Type*) := Finmap fun _ : K => E

/-- One write: a higher rank replaces, a new key needs room. -/
def put (cap : ℕ) (rank : E → R) (k : K) (e : E) (s : Table K E) : Table K E :=
  match s.lookup k with
  | some old => if rank old < rank e then s.insert k e else s
  | none => if cap ≤ s.keys.card then s else s.insert k e

/-- `s` holds a highest ranked entry of `A` under every key of `A`. -/
structure Summary (key : E → K) (rank : E → R) (A : Set E) (s : Table K E) : Prop where
  /-- What is held was written under its own key. -/
  held : ∀ k e, s.lookup k = some e → e ∈ A ∧ key e = k
  /-- What was written is held or outranked. -/
  top : ∀ e ∈ A, ∃ w, s.lookup (key e) = some w ∧ rank e ≤ rank w

theorem keys_insert (s : Table K E) (k : K) (e : E) :
    (s.insert k e).keys = insert k s.keys := by
  ext k'
  rw [Finmap.mem_keys, Finmap.mem_insert, Finset.mem_insert, Finmap.mem_keys]

/-- A new key is one more entry. -/
theorem card_insert {s : Table K E} {k : K} (h : s.lookup k = none) (e : E) :
    (s.insert k e).keys.card = s.keys.card + 1 := by
  rw [keys_insert, Finset.card_insert_of_notMem]
  rwa [Finmap.mem_keys, ← Finmap.lookup_eq_none]

/-- A replacement keeps the number of entries. -/
theorem keys_insert_of_some {s : Table K E} {k : K} {old : E} (h : s.lookup k = some old) (e : E) :
    (s.insert k e).keys = s.keys := by
  rw [keys_insert, Finset.insert_eq_of_mem]
  exact Finmap.mem_keys.2 (Finmap.mem_of_lookup_eq_some h)

/-- An entry of at least the rank of `e` is held under its key. -/
def Covers (key : E → K) (rank : E → R) (s : Table K E) (e : E) : Prop :=
  ∃ w, s.lookup (key e) = some w ∧ rank e ≤ rank w

section Covers

variable {key : E → K} {rank : E → R} {s : Table K E}

theorem covers_insert_self (s : Table K E) (e : E) : Covers key rank (s.insert (key e) e) e :=
  ⟨e, Finmap.lookup_insert s, le_rfl⟩

/-- What is covered stays covered when entries are replaced by higher ones. -/
theorem Covers.insert {e e' : E} (h : Covers key rank s e')
    (he : ∀ old, s.lookup (key e) = some old → rank old < rank e) :
    Covers key rank (s.insert (key e) e) e' := by
  obtain ⟨w, hw, hle⟩ := h
  by_cases hk : key e' = key e
  · refine ⟨e, by rw [hk, Finmap.lookup_insert], hle.trans (he w ?_).le⟩
    rw [← hk, hw]
  · exact ⟨w, by rwa [Finmap.lookup_insert_of_ne _ hk], hle⟩

/-- An entry that outranks what is held was not covered. -/
theorem not_covers {e : E} (he : ∀ old, s.lookup (key e) = some old → rank old < rank e) :
    ¬Covers key rank s e := by
  rintro ⟨w, hw, hle⟩
  exact absurd (he w hw) (not_lt.2 hle)

end Covers

namespace Summary

variable {key : E → K} {rank : E → R} {A : Set E} {s : Table K E}

/-- No writes, nothing held. -/
theorem empty : Summary key rank (∅ : Set E) (∅ : Table K E) where
  held k e h := by simp at h
  top e h := absurd h (Set.notMem_empty e)

/-- An entry under a key raises the summary when it outranks what is held. -/
theorem insert_of (h : Summary key rank A s) (e : E)
    (he : ∀ old, s.lookup (key e) = some old → rank old ≤ rank e) :
    Summary key rank (insert e A) (s.insert (key e) e) where
  held k e' h' := by
    by_cases hk : k = key e
    · subst hk
      rw [Finmap.lookup_insert, Option.some.injEq] at h'
      exact h' ▸ ⟨Set.mem_insert .., rfl⟩
    · rw [Finmap.lookup_insert_of_ne _ hk] at h'
      exact ⟨Set.mem_insert_of_mem _ (h.held k e' h').1, (h.held k e' h').2⟩
  top e' h' := by
    by_cases hk : key e' = key e
    · refine ⟨e, by rw [hk, Finmap.lookup_insert], ?_⟩
      rcases Set.mem_insert_iff.1 h' with rfl | h'
      · exact le_rfl
      · obtain ⟨w, hw, hle⟩ := h.top e' h'
        exact hle.trans (he w (hk ▸ hw))
    · have hA : e' ∈ A := (Set.mem_insert_iff.1 h').resolve_left fun hc => hk (by rw [hc])
      rw [Finmap.lookup_insert_of_ne _ hk]
      exact h.top e' hA

/-- An entry outranked by what is held changes nothing. -/
theorem of_le (h : Summary key rank A s) {e w : E} (hw : s.lookup (key e) = some w)
    (hle : rank e ≤ rank w) : Summary key rank (insert e A) s where
  held k e' h' := ⟨Set.mem_insert_of_mem _ (h.held k e' h').1, (h.held k e' h').2⟩
  top e' h' := by
    rcases Set.mem_insert_iff.1 h' with rfl | h'
    · exact ⟨w, hw, hle⟩
    · exact h.top e' h'

/-- **A write with room extends the summary by its entry.** -/
theorem put (h : Summary key rank A s) (e : E) {cap : ℕ}
    (hroom : s.lookup (key e) = none → s.keys.card < cap) :
    Summary key rank (insert e A) (LastWriter.put cap rank (key e) e s) := by
  unfold LastWriter.put
  split
  · rename_i old hold
    split_ifs with hlt
    · refine h.insert_of e fun old' h' => ?_
      rw [hold, Option.some.injEq] at h'
      exact h' ▸ hlt.le
    · exact h.of_le hold (not_lt.1 hlt)
  · rename_i hnone
    rw [if_neg (Nat.not_le.2 (hroom hnone))]
    exact h.insert_of e fun old hold => by rw [hnone] at hold; cases hold

/-- A key is held exactly when it was written. -/
theorem mem_keys_iff (h : Summary key rank A s) {k : K} : k ∈ s.keys ↔ ∃ e ∈ A, key e = k := by
  rw [Finmap.mem_keys]
  constructor
  · intro hk
    obtain ⟨e, he⟩ := Finmap.mem_iff.1 hk
    exact ⟨e, h.held k e he⟩
  · rintro ⟨e, he, rfl⟩
    obtain ⟨w, hw, -⟩ := h.top e he
    exact Finmap.mem_of_lookup_eq_some hw

/-- While the keys fit in a finite set no larger than the capacity, a new key
of that set always finds room. -/
theorem room (h : Summary key rank A s) {F : Finset K} {cap : ℕ} (hF : F.card ≤ cap)
    (hA : ∀ e ∈ A, key e ∈ F) {e : E} (he : key e ∈ F) (hnone : s.lookup (key e) = none) :
    s.keys.card < cap := by
  have hsub : insert (key e) s.keys ⊆ F := by
    intro k hk
    rcases Finset.mem_insert.1 hk with rfl | hk
    · exact he
    · obtain ⟨e', he', rfl⟩ := h.mem_keys_iff.1 hk
      exact hA e' he'
  have hnot : key e ∉ s.keys := by rwa [Finmap.mem_keys, ← Finmap.lookup_eq_none]
  have := Finset.card_le_card hsub
  rw [Finset.card_insert_of_notMem hnot] at this
  omega

/-- **The set of writes determines the map**, when the rank separates the
entries written under one key. -/
theorem unique {s' : Table K E} (h : Summary key rank A s) (h' : Summary key rank A s')
    (hinj : ∀ e ∈ A, ∀ e' ∈ A, key e = key e' → rank e = rank e' → e = e') : s = s' := by
  refine Finmap.ext_lookup fun k => ?_
  have hsome : ∀ {t t' : Table K E}, Summary key rank A t → Summary key rank A t' →
      ∀ e, t.lookup k = some e → t'.lookup k = some e := by
    intro t t' ht ht' e he
    obtain ⟨heA, rfl⟩ := ht.held k e he
    obtain ⟨w, hw, hle⟩ := ht'.top e heA
    obtain ⟨hwA, hwk⟩ := ht'.held _ w hw
    obtain ⟨e', he', hle'⟩ := ht.top w hwA
    rw [hwk, he, Option.some.injEq] at he'
    rw [hw, hinj w hwA e heA hwk (le_antisymm (he' ▸ hle') hle)]
  cases hs : s.lookup k with
  | some e => exact (hsome h h' e hs).symm
  | none =>
      cases hs' : s'.lookup k with
      | none => rfl
      | some e => rw [hsome h' h e hs'] at hs; cases hs

end Summary

end LastWriter

end Lib
end Hextet
