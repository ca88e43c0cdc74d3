/-
# The endpoint cache over its whole life

`EndpointCache::record_good` and `EndpointCache::evict` in
`crates/engine/src/cache.rs`.  The cache is written by these two calls alone, with
whatever times the clock gives, so its life is a run of them (`CacheOp`).  An entry
stays tidy: what was seen stands newest first, each endpoint once, at most
`CACHE_SEEN_MAX` of them and all normalized.  An endpoint that was evicted is not held
until it is recorded again, and a call about one peer leaves the entries of the others
(`cache_run`).
-/

import Hextet.Engine.Cache
import Hextet.Lib.KeyOrder
import Hextet.Lib.Run

namespace Hextet

open Lib

/-- A call that writes the cache. -/
inductive CacheOp where
  | recordGood (peerKey : String) (endpoint : SocketAddrV6) (nowUnix : ℕ)
  | evict (peerKey : String) (endpoint : SocketAddrV6)
  deriving DecidableEq

/-- The peer that a call is about. -/
def CacheOp.peerKey : CacheOp → String
  | .recordGood peerKey _ _ => peerKey
  | .evict peerKey _ => peerKey

/-- The call records an endpoint of a peer. -/
def CacheOp.Records (peerKey : String) (endpoint : SocketAddrV6) : CacheOp → Prop
  | .recordGood key ep _ => key = peerKey ∧ normalize ep = normalize endpoint
  | .evict .. => False

/-- An entry as the two calls leave it. -/
structure PeerCacheEntry.Tidy (x : PeerCacheEntry) : Prop where
  newestFirst : x.seen.Pairwise fun a b => b.lastSeenUnix ≤ a.lastSeenUnix
  nodup : (x.seen.map CachedEndpoint.endpoint).Nodup
  bounded : x.seen.length ≤ cacheSeenMax
  seenNormal : ∀ c ∈ x.seen, normalize c.endpoint = c.endpoint
  goodNormal : ∀ ep ∈ x.lastGood, normalize ep = ep

namespace EndpointCache

/-- The cache after a call. -/
def apply (cache : EndpointCache) : CacheOp → EndpointCache
  | .recordGood peerKey endpoint nowUnix => cache.recordGood peerKey endpoint nowUnix
  | .evict peerKey endpoint => cache.evict peerKey endpoint

/-- The cache after some calls. -/
abbrev after (cache : EndpointCache) (ops : List CacheOp) : EndpointCache := run apply cache ops

/-! ### One call -/

section

variable {seen : List CachedEndpoint} {ep : SocketAddrV6}

theorem touchSeen_of_mem (h : ep ∈ seen.map CachedEndpoint.endpoint) (now : ℕ) :
    (touchSeen seen ep now).map CachedEndpoint.endpoint = seen.map CachedEndpoint.endpoint := by
  induction seen with
  | nil => cases h
  | cons c seen ih =>
      rw [touchSeen]
      split_ifs with hc
      · rfl
      · rw [List.map_cons, List.mem_cons] at h
        rw [List.map_cons, List.map_cons, ih (h.resolve_left (Ne.symm hc))]

theorem touchSeen_of_not_mem (h : ep ∉ seen.map CachedEndpoint.endpoint) (now : ℕ) :
    touchSeen seen ep now = seen ++ [⟨ep, now⟩] := by
  induction seen with
  | nil => rfl
  | cons c seen ih =>
      rw [List.map_cons, List.mem_cons, not_or] at h
      rw [touchSeen, if_neg (Ne.symm h.1), ih h.2, List.cons_append]

theorem nodup_touchSeen (h : (seen.map CachedEndpoint.endpoint).Nodup) (ep : SocketAddrV6)
    (now : ℕ) : ((touchSeen seen ep now).map CachedEndpoint.endpoint).Nodup := by
  by_cases hmem : ep ∈ seen.map CachedEndpoint.endpoint
  · rw [touchSeen_of_mem hmem]
    exact h
  · rw [touchSeen_of_not_mem hmem, List.map_append]
    refine h.append (List.nodup_singleton _) fun e he hep => ?_
    obtain rfl := List.mem_singleton.1 hep
    exact hmem he

theorem perm_sortNewestFirst (seen : List CachedEndpoint) : (sortNewestFirst seen).Perm seen :=
  List.perm_insertionSort _ seen

theorem pairwise_sortNewestFirst (seen : List CachedEndpoint) :
    (sortNewestFirst seen).Pairwise fun a b => b.lastSeenUnix ≤ a.lastSeenUnix :=
  inOrder_insertionSort (fun c : CachedEndpoint => OrderDual.toDual c.lastSeenUnix) seen

end

/-- The entry that `record_good` writes. -/
def recorded (x : PeerCacheEntry) (ep : SocketAddrV6) (now : ℕ) : PeerCacheEntry :=
  ⟨some ep, (sortNewestFirst (touchSeen x.seen ep now)).take cacheSeenMax⟩

theorem entry_recordGood (cache : EndpointCache) (key : String) (ep : SocketAddrV6) (now : ℕ)
    (k : String) :
    (cache.recordGood key ep now).entry k =
      if k = key then some (recorded ((cache.entry key).getD ⟨none, []⟩) (normalize ep) now)
      else cache.entry k :=
  entry_setEntry ..

/-- **A call about one peer leaves the entries of the others.** -/
theorem entry_apply_of_ne (cache : EndpointCache) {op : CacheOp} {key : String}
    (h : key ≠ op.peerKey) : (cache.apply op).entry key = cache.entry key := by
  cases op with
  | recordGood k ep now => exact (entry_recordGood ..).trans (if_neg h)
  | evict k ep => exact (entry_evict ..).trans (if_neg h)

end EndpointCache

namespace PeerCacheEntry

open EndpointCache

variable {x : PeerCacheEntry}

theorem tidy_empty : (⟨none, []⟩ : PeerCacheEntry).Tidy := by
  constructor <;> simp

theorem Tidy.recorded (h : x.Tidy) (ep : SocketAddrV6) (now : ℕ) :
    (recorded x (normalize ep) now).Tidy where
  newestFirst := (pairwise_sortNewestFirst _).sublist (List.take_sublist _ _)
  nodup := by
    have hperm := (perm_sortNewestFirst (touchSeen x.seen (normalize ep) now)).map
      CachedEndpoint.endpoint
    exact (hperm.nodup_iff.2 (nodup_touchSeen h.nodup _ _)).sublist
      ((List.take_sublist _ _).map _)
  bounded := List.length_take_le _ _
  seenNormal c hc := by
    rcases mem_touchSeen (mem_sortNewestFirst.1 (List.mem_of_mem_take hc)) with heq | hseen
    · rw [heq, normalize_normalize]
    · exact h.seenNormal c hseen
  goodNormal e he := by
    obtain rfl := Option.some.inj he
    rfl

theorem Tidy.without (h : x.Tidy) (ep : SocketAddrV6) : (without x ep).Tidy where
  newestFirst := h.newestFirst.sublist List.filter_sublist
  nodup := h.nodup.sublist (List.filter_sublist.map _)
  bounded := (List.length_filter_le _ _).trans h.bounded
  seenNormal c hc := h.seenNormal c (List.mem_of_mem_filter hc)
  goodNormal e he := by
    simp only [EndpointCache.without] at he
    split_ifs at he
    · cases he
    · exact h.goodNormal e he

end PeerCacheEntry

namespace EndpointCache

/-- Every entry is tidy. -/
def Tidy (cache : EndpointCache) : Prop := ∀ key, ∀ x ∈ cache.entry key, x.Tidy

theorem tidy_new : new.Tidy := fun _ _ h => by cases h

theorem Tidy.getD {cache : EndpointCache} (h : cache.Tidy) (key : String) :
    ((cache.entry key).getD ⟨none, []⟩).Tidy := by
  cases hx : cache.entry key with
  | none => exact PeerCacheEntry.tidy_empty
  | some x => exact h key x hx

/-- A call leaves every entry tidy. -/
theorem Tidy.apply {cache : EndpointCache} (h : cache.Tidy) (op : CacheOp) :
    (cache.apply op).Tidy := by
  intro k x hx
  by_cases hk : k = op.peerKey
  · subst hk
    cases op with
    | recordGood key ep now =>
        obtain rfl := Option.some.inj (((entry_recordGood ..).trans (if_pos rfl)).symm.trans hx)
        exact (h.getD key).recorded ep now
    | evict key ep =>
        have hentry := ((entry_evict cache key ep key).trans (if_pos rfl)).symm.trans hx
        obtain ⟨y, hy, rfl⟩ := Option.map_eq_some_iff.1 hentry
        exact (h key y hy).without (normalize ep)
  · rw [entry_apply_of_ne cache hk] at hx
    exact h k x hx

/-- **Every entry is tidy in every state of a run.** -/
theorem tidy_after (ops : List CacheOp) : (new.after ops).Tidy :=
  run_invariant (P := Tidy) (fun _ op h => h.apply op) tidy_new ops

/-- What is not held stays so until it is recorded. -/
theorem not_holds_apply {cache : EndpointCache} {key : String} {ep : SocketAddrV6}
    (h : ¬cache.Holds key (normalize ep)) {op : CacheOp} (hop : ¬op.Records key ep) :
    ¬(cache.apply op).Holds key (normalize ep) := by
  cases op with
  | recordGood k e now =>
      intro hheld
      rcases holds_recordGood hheld with hheld | ⟨rfl, heq⟩
      · exact h hheld
      · exact hop ⟨rfl, heq.symm⟩
  | evict k e => exact fun hheld => h (holds_evict_iff.1 hheld).1

theorem not_holds_after {cache : EndpointCache} {key : String} {ep : SocketAddrV6}
    (h : ¬cache.Holds key (normalize ep)) {ops : List CacheOp}
    (hops : ∀ op ∈ ops, ¬op.Records key ep) : ¬(cache.after ops).Holds key (normalize ep) :=
  Along.invariant (P := fun c : EndpointCache => ¬c.Holds key (normalize ep))
    (fun _ _ hc hop => not_holds_apply hc hop) h (Along.of_forall hops cache)

theorem entry_after_of_ne (cache : EndpointCache) {key : String} {ops : List CacheOp}
    (hops : ∀ op ∈ ops, op.peerKey ≠ key) : (cache.after ops).entry key = cache.entry key :=
  Along.invariant (P := fun c : EndpointCache => c.entry key = cache.entry key)
    (fun c _ hc hop => (entry_apply_of_ne c (Ne.symm hop)).trans hc) rfl
    (Along.of_forall hops cache)

end EndpointCache

/-- **The endpoint cache over every run of its calls.**  Each entry is tidy; after an
eviction the endpoint is neither the last good one nor among those seen, until it is
recorded again; and calls about other peers leave the entry of a peer. -/
theorem cache_run (ops : List CacheOp) :
    let cache := EndpointCache.new.after ops
    (∀ key x, cache.entry key = some x → x.Tidy) ∧
      (∀ key ep later, (∀ op ∈ later, ¬op.Records key ep) →
        ¬((cache.evict key ep).after later).Holds key (normalize ep)) ∧
      ∀ key later, (∀ op ∈ later, op.peerKey ≠ key) →
        (cache.after later).entry key = cache.entry key := by
  intro cache
  refine ⟨EndpointCache.tidy_after ops, fun key ep later hlater => ?_,
    fun key later hlater => EndpointCache.entry_after_of_ne cache hlater⟩
  refine EndpointCache.not_holds_after (fun hheld => ?_) hlater
  exact (EndpointCache.holds_evict_iff.1 hheld).2 ⟨rfl, rfl⟩

end Hextet
