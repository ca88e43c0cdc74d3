/-
# What the endpoint cache holds

`crates/engine/src/cache.rs`.  An entry of the cache is read through
`EndpointCache::entry`; `record_good` and `evict` write the entry of one peer.
`Holds` is the relation that the later modules use of it: an endpoint is the last
good one of a peer or among those seen.  Nothing comes to be held but by
`record_good` (`holds_recordGood`), and an eviction takes its endpoint and nothing
else (`holds_evict_iff`).
-/

import Hextet.Engine.Candidates
import Hextet.Lib.KeyMap

namespace Hextet

open Lib

namespace EndpointCache

variable {cache : EndpointCache} {key k : String} {ep e : SocketAddrV6}

/-- An endpoint is the last good one of a peer, or was seen. -/
def Holds (cache : EndpointCache) (key : String) (ep : SocketAddrV6) : Prop :=
  ∃ entry ∈ cache.entry key, entry.lastGood = some ep ∨ ∃ c ∈ entry.seen, c.endpoint = ep

instance (cache : EndpointCache) (key : String) (ep : SocketAddrV6) :
    Decidable (cache.Holds key ep) :=
  inferInstanceAs (Decidable (∃ entry ∈ _, _ ∨ ∃ c ∈ _, _))

/-- Writing the entry of one peer leaves the others. -/
theorem entry_setEntry (cache : EndpointCache) (key : String) (x : PeerCacheEntry) (k : String) :
    (cache.setEntry key x).entry k = if k = key then some x else cache.entry k :=
  lookup_cons_filter_ne cache.peers key x k

theorem mem_touchSeen {seen : List CachedEndpoint} {now : ℕ} {c : CachedEndpoint}
    (h : c ∈ touchSeen seen ep now) : c.endpoint = ep ∨ c ∈ seen := by
  induction seen with
  | nil =>
      obtain rfl := List.mem_singleton.1 h
      exact Or.inl rfl
  | cons d seen ih =>
      rw [touchSeen] at h
      split_ifs at h with hd
      · rcases List.mem_cons.1 h with rfl | h
        · exact Or.inl hd
        · exact Or.inr (List.mem_cons_of_mem _ h)
      · rcases List.mem_cons.1 h with rfl | h
        · exact Or.inr List.mem_cons_self
        · exact (ih h).imp_right (List.mem_cons_of_mem _)

theorem mem_sortNewestFirst {seen : List CachedEndpoint} {c : CachedEndpoint} :
    c ∈ sortNewestFirst seen ↔ c ∈ seen :=
  (List.perm_insertionSort _ seen).mem_iff

/-- **`record_good` adds its endpoint and nothing else.** -/
theorem holds_recordGood {now : ℕ} (h : (cache.recordGood key ep now).Holds k e) :
    cache.Holds k e ∨ (k = key ∧ e = normalize ep) := by
  obtain ⟨x, hx, hheld⟩ := h
  rw [recordGood] at hx
  simp only [Option.mem_def, entry_setEntry] at hx
  split_ifs at hx with hk
  · subst hk
    obtain rfl := Option.some.inj hx
    rcases hheld with hgood | ⟨c, hc, rfl⟩
    · exact Or.inr ⟨rfl, (Option.some.inj hgood).symm⟩
    · rcases mem_touchSeen (mem_sortNewestFirst.1 (List.mem_of_mem_take hc)) with hep | hseen
      · exact Or.inr ⟨rfl, hep⟩
      · cases hentry : cache.entry k with
        | none => rw [hentry] at hseen; cases hseen
        | some y =>
            rw [hentry] at hseen
            exact Or.inl ⟨y, hentry, Or.inr ⟨c, hseen, rfl⟩⟩
  · exact Or.inl ⟨x, hx, hheld⟩

/-- The entry of a peer without an endpoint. -/
def without (x : PeerCacheEntry) (ep : SocketAddrV6) : PeerCacheEntry :=
  ⟨if x.lastGood = some ep then none else x.lastGood, x.seen.filter fun c => c.endpoint ≠ ep⟩

/-- What `evict` does to the entries. -/
theorem entry_evict (cache : EndpointCache) (key : String) (ep : SocketAddrV6) (k : String) :
    (cache.evict key ep).entry k =
      if k = key then (cache.entry key).map (without · (normalize ep)) else cache.entry k := by
  rw [evict]
  cases hentry : cache.entry key with
  | none =>
      split_ifs with hk
      · rw [hk, hentry]
        rfl
      · rfl
  | some x =>
      simp only [entry_setEntry]
      rfl

/-- **`evict` takes its endpoint and nothing else.** -/
theorem holds_evict_iff :
    (cache.evict key ep).Holds k e ↔ cache.Holds k e ∧ ¬(k = key ∧ e = normalize ep) := by
  unfold Holds
  rw [entry_evict]
  by_cases hk : k = key
  · subst hk
    simp only [if_true, true_and, Option.mem_def, Option.map_eq_some_iff, without]
    constructor
    · rintro ⟨_, ⟨x, hx, rfl⟩, hgood | ⟨c, hc, rfl⟩⟩
      · simp only at hgood
        split_ifs at hgood with hlast
        exact ⟨⟨x, hx, Or.inl hgood⟩, fun he => hlast (hgood.trans (congrArg some he))⟩
      · obtain ⟨hc, hne⟩ := List.mem_filter.1 hc
        exact ⟨⟨x, hx, Or.inr ⟨c, hc, rfl⟩⟩, by simpa using hne⟩
    · rintro ⟨⟨x, hx, hgood | ⟨c, hc, rfl⟩⟩, hne⟩
      · refine ⟨_, ⟨x, hx, rfl⟩, Or.inl ?_⟩
        have hlast : x.lastGood ≠ some (normalize ep) := by
          rw [hgood]
          exact fun h => hne (Option.some.inj h)
        simp only
        rw [if_neg hlast, hgood]
      · exact ⟨_, ⟨x, hx, rfl⟩, Or.inr ⟨c, List.mem_filter.2 ⟨hc, by simpa using hne⟩, rfl⟩⟩
  · simp [hk]

/-- An entry without an endpoint it does not hold is the entry. -/
theorem without_eq_self_iff {x : PeerCacheEntry} :
    without x ep = x ↔ x.lastGood ≠ some ep ∧ ∀ c ∈ x.seen, c.endpoint ≠ ep := by
  obtain ⟨lastGood, seen⟩ := x
  rw [without, PeerCacheEntry.mk.injEq, List.filter_eq_self]
  simp only [decide_eq_true_eq]
  refine and_congr_left fun _ => ⟨fun h hgood => ?_, fun h => if_neg h⟩
  rw [if_pos hgood, hgood] at h
  cases h

/-- **An eviction changes nothing exactly when its endpoint is not held.** -/
theorem entry_evict_eq_iff :
    (∀ k, (cache.evict key ep).entry k = cache.entry k) ↔ ¬cache.Holds key (normalize ep) := by
  have hkey : (∀ k, (cache.evict key ep).entry k = cache.entry k) ↔
      (cache.entry key).map (without · (normalize ep)) = cache.entry key := by
    constructor
    · intro h
      have := h key
      rwa [entry_evict, if_pos rfl] at this
    · intro h k
      rw [entry_evict]
      split_ifs with hk
      · rw [hk, h]
      · rfl
  rw [hkey, Holds]
  cases hentry : cache.entry key with
  | none => simp
  | some x =>
      rw [Option.map_some, Option.some.injEq, without_eq_self_iff]
      simp

/-- Every endpoint is stored without flow info and scope. -/
def Normal (cache : EndpointCache) : Prop := ∀ key ep, cache.Holds key ep → normalize ep = ep

theorem Normal.recordGood (h : cache.Normal) (key : String) (ep : SocketAddrV6) (now : ℕ) :
    (cache.recordGood key ep now).Normal := by
  intro k e he
  rcases holds_recordGood he with he | ⟨-, rfl⟩
  · exact h k e he
  · rfl

theorem Normal.evict (h : cache.Normal) (key : String) (ep : SocketAddrV6) :
    (cache.evict key ep).Normal :=
  fun k e he => h k e (holds_evict_iff.1 he).1

end EndpointCache
end Hextet
