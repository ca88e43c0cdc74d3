/-
# Stores that saw the same entries are equal

Convergence of the gossip store (`docs/protocol/gossip.md` §4).  While the keys
fit under the cap, the store after any sequence of merges is the summary of the
valid entries of the sequence: under each key the entry of highest rank
(`summary_mergeAll`).  A summary is determined by its set, so neither order nor
repetition of the entries matters.
-/

import Hextet.Core.GossipStore
import Hextet.Core.PlainCrypto

namespace Hextet

open Lib

variable {C : Crypto}

namespace GossipStore

/-- Merges in sequence. -/
def mergeAll (s : GossipStore C) (es : List (Entry C)) : GossipStore C :=
  es.foldl (fun s e => (s.merge e).2) s

@[simp] theorem mergeAll_cons (s : GossipStore C) (e : Entry C) (es : List (Entry C)) :
    s.mergeAll (e :: es) = (s.merge e).2.mergeAll es := rfl

/-- The store holds, under each key of `A`, the entry of `A` that wins. -/
abbrev Summarizes (s : GossipStore C) (A : Set (Entry C)) : Prop :=
  LastWriter.Summary Entry.key Entry.rank A s.map

/-- One merge extends the summary by its entry, if that is valid and finds
room. -/
theorem Summarizes.merge {s : GossipStore C} {A : Set (Entry C)} (h : s.Summarizes A)
    {e : Entry C} (hv : e.isValid = true)
    (hroom : s.map.lookup e.key = none → s.len < maxStoreEntries) :
    (s.merge e).2.Summarizes (insert e A) := by
  rw [Summarizes, map_merge s hv]
  exact LastWriter.Summary.put h e hroom

/-- **A run of merges extends the summary by its valid entries**, while the keys
fit under the cap. -/
theorem Summarizes.mergeAll {F : Finset (NodePublicKey C × Kind)} (hF : F.card ≤ maxStoreEntries)
    (es : List (Entry C)) {s : GossipStore C} {A : Set (Entry C)} (h : s.Summarizes A)
    (hA : ∀ e ∈ A, e.key ∈ F) (hes : ∀ e ∈ es, e.isValid = true → e.key ∈ F) :
    (s.mergeAll es).Summarizes (A ∪ {e | e ∈ es ∧ e.isValid = true}) := by
  induction es generalizing s A with
  | nil =>
      rw [show A ∪ {e | e ∈ [] ∧ e.isValid = true} = A by simp]
      exact h
  | cons e es ih =>
      have hes' : ∀ e' ∈ es, e'.isValid = true → e'.key ∈ F :=
        fun e' he' => hes e' (List.mem_cons_of_mem _ he')
      rw [mergeAll_cons]
      by_cases hv : e.isValid = true
      · have hk := hes e (List.mem_cons_self ..) hv
        have hstep := h.merge hv fun hnone => h.room hF hA hk hnone
        have hA' : ∀ e' ∈ insert e A, e'.key ∈ F := by
          rintro e' (rfl | he')
          · exact hk
          · exact hA e' he'
        have hset : insert e A ∪ {e' | e' ∈ es ∧ e'.isValid = true}
            = A ∪ {e' | e' ∈ e :: es ∧ e'.isValid = true} := by
          ext e'
          simp only [Set.mem_union, Set.mem_insert_iff, Set.mem_ofPred_eq, List.mem_cons]
          grind
        exact hset ▸ ih hstep hA' hes'
      · have hset : A ∪ {e' | e' ∈ es ∧ e'.isValid = true}
            = A ∪ {e' | e' ∈ e :: es ∧ e'.isValid = true} := by
          ext e'
          simp only [Set.mem_union, Set.mem_ofPred_eq, List.mem_cons]
          grind
        rw [merge_of_invalid s (by simpa using hv)]
        exact hset ▸ ih h hA hes'

/-- The empty store summarizes nothing. -/
theorem summarizes_new : (new : GossipStore C).Summarizes ∅ := LastWriter.Summary.empty

/-- The keys of the valid entries of a sequence. -/
def validKeys (es : List (Entry C)) : Finset (NodePublicKey C × Kind) :=
  ((es.filter Entry.isValid).map Entry.key).toFinset

theorem mem_validKeys {es : List (Entry C)} {e : Entry C} (h : e ∈ es) (hv : e.isValid = true) :
    e.key ∈ validKeys es := by
  rw [validKeys, List.mem_toFinset]
  exact List.mem_map.2 ⟨e, List.mem_filter.2 ⟨h, hv⟩, rfl⟩

theorem card_validKeys_le (es : List (Entry C)) : (validKeys es).card ≤ es.length := by
  refine (List.toFinset_card_le _).trans ?_
  rw [List.length_map]
  exact List.length_filter_le ..

/-- The store after a sequence of merges is the summary of its valid entries. -/
theorem summary_mergeAll {es : List (Entry C)} (hcap : (validKeys es).card ≤ maxStoreEntries) :
    (new.mergeAll es).Summarizes {e | e ∈ es ∧ e.isValid = true} := by
  have h := summarizes_new.mergeAll hcap es (fun e he => absurd he (Set.notMem_empty e))
    fun e he hv => mem_validKeys he hv
  rwa [Set.empty_union] at h

end GossipStore

/-- Byte strings are ordered as their lists of byte values. -/
theorem bytes_le_iff (x y : List UInt8) :
    x ≤ y ↔ x.map UInt8.toNat ≤ y.map UInt8.toNat := by
  have hlt : ∀ x y : List UInt8, x < y ↔ x.map UInt8.toNat < y.map UInt8.toNat := by
    intro x
    induction x with
    | nil => intro y; cases y <;> simp
    | cons a x ih =>
        intro y
        cases y with
        | nil => simp
        | cons b y =>
            rw [List.map_cons, List.map_cons, List.cons_lt_cons_iff, List.cons_lt_cons_iff, ih,
              UInt8.lt_iff_toNat_lt, UInt8.toNat_inj]
  rw [← not_lt, ← hlt]
  exact Iff.rfl

/-- What outranking means: the greater sequence number, and at equal numbers the
smaller encoding. -/
theorem Entry.rank_le_iff (a b : Entry C) :
    a.rank ≤ b.rank ↔ a.seq < b.seq ∨ a.seq = b.seq ∧ b.encoding ≤ a.encoding := by
  rw [rank, rank, Prod.Lex.toLex_le_toLex, bytes_le_iff, UInt64.lt_iff_toNat_lt,
    ← UInt64.toNat_inj]
  rfl

namespace GossipStore

/-- **Convergence.**  Two sequences with the same valid entries, whose keys fit
under the cap, give the same map, and each key holds the entry with the greatest
sequence number and among those the smallest encoding. -/
theorem mergeAll_converges (es es' : List (Entry C))
    (hset : ∀ e : Entry C, e.isValid = true → (e ∈ es ↔ e ∈ es'))
    (hcap : (validKeys es).card ≤ maxStoreEntries) :
    (new.mergeAll es).map = (new.mergeAll es').map ∧
    ∀ k e, (new.mergeAll es).map.lookup k = some e ↔
      e ∈ es ∧ e.isValid = true ∧ e.key = k ∧
        ∀ e' ∈ es, e'.isValid = true → e'.key = k →
          e'.seq < e.seq ∨ e'.seq = e.seq ∧
            ∃ b b', e.encode = .ok b ∧ e'.encode = .ok b' ∧ b ≤ b' := by
  have h := summary_mergeAll hcap
  have hinj : ∀ e ∈ {e : Entry C | e ∈ es ∧ e.isValid = true},
      ∀ e' ∈ {e : Entry C | e ∈ es ∧ e.isValid = true},
        e.key = e'.key → e.rank = e'.rank → e = e' :=
    fun e he e' he' _ hr => Entry.rank_injOn he.2 he'.2 hr
  constructor
  · have hsets : {e | e ∈ es ∧ e.isValid = true} = {e | e ∈ es' ∧ e.isValid = true} :=
      Set.ext fun e => and_congr_left fun hv => hset e hv
    have hkeys : validKeys es' = validKeys es := by
      ext k
      simp only [validKeys, List.mem_toFinset, List.mem_map, List.mem_filter]
      refine exists_congr fun e => and_congr_left fun _ => and_congr_left fun hv => ?_
      exact (hset e hv).symm
    exact h.unique (hsets ▸ summary_mergeAll (hkeys ▸ hcap)) hinj
  · intro k e
    constructor
    · intro hl
      obtain ⟨⟨hmem, hv⟩, rfl⟩ := h.held k e hl
      refine ⟨hmem, hv, rfl, fun e' he' hv' hk => ?_⟩
      obtain ⟨w, hw, hle⟩ := h.top e' ⟨he', hv'⟩
      rw [hk, hl, Option.some.injEq] at hw
      rw [← hw, Entry.rank_le_iff] at hle
      exact hle.imp id fun hle => ⟨hle.1, _, _, Entry.encode_eq_ok_encoding hv,
        Entry.encode_eq_ok_encoding hv', hle.2⟩
    · rintro ⟨hmem, hv, rfl, hbest⟩
      obtain ⟨w, hw, hle⟩ := h.top e ⟨hmem, hv⟩
      obtain ⟨⟨hwmem, hwv⟩, hwk⟩ := h.held _ w hw
      have hle' : w.rank ≤ e.rank := by
        rw [Entry.rank_le_iff]
        refine (hbest w hwmem hwv hwk).imp id ?_
        rintro ⟨hseq, b, b', hb, hb', hbb⟩
        rw [Entry.encode_eq_ok_encoding hv, Except.ok.injEq] at hb
        rw [Entry.encode_eq_ok_encoding hwv, Except.ok.injEq] at hb'
        exact ⟨hseq, hb ▸ hb' ▸ hbb⟩
      rw [hw, Entry.rank_injOn hwv hv (le_antisymm hle' hle)]

/-- Two revocations of one node, in both orders and once repeated. -/
theorem mergeAll_converges_revocations :
    let old := Entry.plainRevocation (plainKey 1 0) (plainKey 9 0) 5
    let recent := Entry.plainRevocation (plainKey 1 0) (plainKey 9 0) 6
    (new.mergeAll [old, recent, old]).map = (new.mergeAll [recent, old]).map ∧
      (new.mergeAll [old, recent, old]).map.lookup (plainKey 1 0, .revocation) = some recent := by
  intro old recent
  have hne : plainKey 9 0 ≠ plainKey 1 0 := fun h => by
    have := plainKey_inj (by omega) (by omega) h
    omega
  have h := mergeAll_converges [old, recent, old] [recent, old]
    (fun e _ => by simp only [List.mem_cons, List.not_mem_nil, or_false]; tauto)
    ((card_validKeys_le _).trans (by simp [maxStoreEntries]))
  refine ⟨h.1, (h.2 _ _).2 ⟨by simp, Entry.isValid_plainRevocation hne 6, rfl, ?_⟩⟩
  intro e he _ _
  simp only [List.mem_cons, List.not_mem_nil, or_false] at he
  rcases he with rfl | rfl | rfl
  · exact Or.inl (by decide)
  · exact Or.inr ⟨rfl, _, _, rfl, rfl, (bytes_le_iff _ _).2 le_rfl⟩
  · exact Or.inl (by decide)

end GossipStore

end Hextet
