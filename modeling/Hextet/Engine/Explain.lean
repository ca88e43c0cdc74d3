/-
# Where an endpoint comes from

`endpoint_source` in `crates/engine/src/state.rs` says in the state file how a connection
came about.  It goes through the relay, the configuration, the rendezvous layers and the
endpoints seen, and calls what is left roamed: an address that the kernel learned.
`build_candidates` goes through one source more, the last good endpoint, so the two
agree only while the last good endpoint of every peer is among those seen.

`record_good` writes both and then cuts the list of the endpoints seen, the oldest
first.  A new endpoint that meets a full list none of which is older than it is cut off
at once: it is the last good one and a candidate, and is reported as roamed
(`explained_iff`).
-/

import Hextet.Core.PlainCrypto
import Hextet.Engine.CacheRun
import Hextet.Engine.CandidateList

namespace Hextet

open Lib

/-- `Source::as_str`. -/
def Source.asStr : Source → String
  | .lan => "lan"
  | .gossip => "gossip"
  | .dht => "dht"
  | .ddns => "ddns"

/-- What explains an endpoint. -/
inductive EndpointLabel where
  | none
  | relay
  | config
  | discovered (source : Source)
  | cache
  | roamed
  deriving DecidableEq

/-- The words of the state file. -/
def EndpointLabel.asStr : EndpointLabel → String
  | .none => "none"
  | .relay => "relay"
  | .config => "config"
  | .discovered source => source.asStr
  | .cache => "cache"
  | .roamed => "roamed"

theorem EndpointLabel.asStr_inj {a b : EndpointLabel} : a.asStr = b.asStr ↔ a = b := by
  refine ⟨fun h => ?_, congrArg _⟩
  rcases a with _ | _ | _ | ⟨_ | _ | _ | _⟩ | _ | _ <;>
    rcases b with _ | _ | _ | ⟨_ | _ | _ | _⟩ | _ | _ <;>
      first | rfl | exact absurd h (by simp [asStr, Source.asStr])

/-- The first source that has an address. -/
def endpointLabel (endpoint : Option SocketAddrV6) (sources : CandidateSources) : EndpointLabel :=
  match endpoint.map normalize with
  | none => .none
  | some ep =>
      if sources.relay.map normalize = some ep then .relay
      else if sources.configured.any fun c => normalize c = ep then .config
      else
        match sources.discovered.find? fun x => normalize x.2 = ep with
        | some (src, _) => .discovered src
        | none => if sources.cached.any fun c => normalize c.endpoint = ep then .cache else .roamed

/-- `endpoint_source`. -/
def endpointSource (endpoint : Option SocketAddrV6) (sources : CandidateSources) : String :=
  (endpointLabel endpoint sources).asStr

namespace CandidateSources

variable {sources : CandidateSources} {ep : SocketAddrV6}

/-- The addresses that `endpoint_source` knows: all but the last good one. -/
def known (sources : CandidateSources) : List SocketAddrV6 :=
  sources.relay.toList ++ sources.configured ++ sources.discovered.map Prod.snd ++
    sources.cached.map CachedEndpoint.endpoint

/-- An address of some source. -/
def Has (sources : CandidateSources) (ep : SocketAddrV6) : Prop :=
  ∃ x ∈ sources.lastGood.toList ++ sources.known, normalize x = normalize ep

theorem endpointLabel_ne_none (sources : CandidateSources) (ep : SocketAddrV6) :
    endpointLabel (some ep) sources ≠ .none := by
  unfold endpointLabel
  simp only [Option.map_some]
  split_ifs
  · exact nofun
  · exact nofun
  · split <;> exact nofun
  · split <;> exact nofun

/-- **What is left is what no source but the last good endpoint has.** -/
theorem endpointLabel_eq_roamed_iff :
    endpointLabel (some ep) sources = .roamed ↔
      ∀ x ∈ sources.known, normalize x ≠ normalize ep := by
  simp only [known, List.mem_append, or_imp, forall_and, List.mem_map, Option.mem_toList,
    forall_exists_index, and_imp, forall_apply_eq_imp_iff₂]
  simp only [endpointLabel, Option.map_some]
  by_cases hrelay : sources.relay.map normalize = some (normalize ep)
  · obtain ⟨r, hr, heq⟩ := Option.map_eq_some_iff.1 hrelay
    rw [if_pos hrelay]
    exact iff_of_false nofun fun h => h.1.1.1 r hr heq
  · rw [if_neg hrelay]
    have hnot : ∀ r, sources.relay = some r → normalize r ≠ normalize ep := by
      rintro r hr heq
      exact hrelay (by rw [hr, Option.map_some, heq])
    by_cases hconfig : sources.configured.any (fun c => normalize c = normalize ep) = true
    · rw [if_pos hconfig]
      obtain ⟨c, hc, heq⟩ := List.any_eq_true.1 hconfig
      exact iff_of_false nofun fun h => h.1.1.2 c hc (of_decide_eq_true heq)
    · rw [if_neg hconfig]
      have hconfig' : ∀ c ∈ sources.configured, normalize c ≠ normalize ep := by
        intro c hc heq
        exact hconfig (List.any_eq_true.2 ⟨c, hc, decide_eq_true heq⟩)
      cases hfind : sources.discovered.find? fun x => normalize x.2 = normalize ep with
      | some found =>
          have hmem := List.mem_of_find?_eq_some hfind
          have heq : normalize found.2 = normalize ep := by simpa using List.find?_some hfind
          exact iff_of_false nofun fun h => h.1.2 found hmem heq
      | none =>
          have hdisc : ∀ x ∈ sources.discovered, normalize x.2 ≠ normalize ep := by
            simpa using List.find?_eq_none.1 hfind
          by_cases hcache : sources.cached.any (fun c => normalize c.endpoint = normalize ep) = true
          · obtain ⟨c, hc, heq⟩ := List.any_eq_true.1 hcache
            simp only [if_pos hcache]
            exact iff_of_false nofun fun h => h.2 c hc (of_decide_eq_true heq)
          · simp only [if_neg hcache]
            refine iff_of_true trivial ⟨⟨⟨hnot, hconfig'⟩, hdisc⟩, fun c hc heq => hcache ?_⟩
            exact List.any_eq_true.2 ⟨c, hc, decide_eq_true heq⟩

end CandidateSources

namespace EndpointCache

/-- The sources of a peer: its entry, and what comes from elsewhere (`sources_for`). -/
def sources (cache : EndpointCache) (key : String) (discovered : List (Source × SocketAddrV6))
    (configured : List SocketAddrV6) (relay : Option SocketAddrV6) : CandidateSources :=
  { lastGood := (cache.entry key).bind PeerCacheEntry.lastGood
    discovered := discovered
    configured := configured
    cached := ((cache.entry key).map PeerCacheEntry.seen).getD []
    relay := relay }

/-- Whatever else is known of a peer, each of its candidates is reported as something
other than roamed, and only an address that no source has is reported so. -/
def Explained (cache : EndpointCache) : Prop :=
  ∀ key discovered configured relay,
    let sources := cache.sources key discovered configured relay
    (∀ ep ∈ buildCandidates sources,
        endpointSource (some ep) sources ≠ "roamed" ∧ endpointSource (some ep) sources ≠ "none") ∧
      ∀ ep, endpointSource (some ep) sources = "roamed" → ¬sources.Has ep

/-- The last good endpoint of every peer is among those seen. -/
def GoodSeen (cache : EndpointCache) : Prop :=
  ∀ key, ∀ x ∈ cache.entry key, ∀ ep ∈ x.lastGood, ep ∈ x.seen.map CachedEndpoint.endpoint

/-- A call that leaves its endpoint among those seen: a new endpoint finds room, or one
that was seen before it. -/
def Fits (cache : EndpointCache) : CacheOp → Prop
  | .recordGood key ep now =>
      let seen := ((cache.entry key).map PeerCacheEntry.seen).getD []
      normalize ep ∈ seen.map CachedEndpoint.endpoint ∨ seen.length < cacheSeenMax ∨
        ∃ c ∈ seen, c.lastSeenUnix < now
  | .evict .. => True

theorem endpointSource_eq_roamed_iff {sources : CandidateSources} {ep : SocketAddrV6} :
    endpointSource (some ep) sources = "roamed" ↔
      ∀ x ∈ sources.known, normalize x ≠ normalize ep :=
  (EndpointLabel.asStr_inj (b := .roamed)).trans CandidateSources.endpointLabel_eq_roamed_iff

theorem endpointSource_ne_none (sources : CandidateSources) (ep : SocketAddrV6) :
    endpointSource (some ep) sources ≠ "none" := fun h =>
  CandidateSources.endpointLabel_ne_none sources ep
    ((EndpointLabel.asStr_inj (b := .none)).1 h)

/-- A candidate is an address of some source. -/
theorem has_of_mem_buildCandidates {sources : CandidateSources} {ep : SocketAddrV6}
    (h : ep ∈ buildCandidates sources) : sources.Has ep := by
  have hnormal := normalize_of_mem_buildCandidates h
  rcases mem_buildCandidates_iff.1 h with h | ⟨relay, hrelay, heq⟩
  · obtain ⟨x, hx, heq⟩ := mem_dedupNormalized.1 (List.mem_of_mem_take h)
    refine ⟨x, ?_, heq.trans hnormal.symm⟩
    simp only [CandidateSources.direct, List.mem_append, List.mem_map, mem_sortNewestFirst] at hx
    simp only [CandidateSources.known, List.mem_append, List.mem_map]
    rcases hx with ((hgood | hdiscovered) | hconfigured) | hcached
    · exact .inl hgood
    · exact .inr (.inl (.inr hdiscovered))
    · exact .inr (.inl (.inl (.inr hconfigured)))
    · exact .inr (.inr hcached)
  · refine ⟨relay, ?_, heq.trans hnormal.symm⟩
    simp only [CandidateSources.known, List.mem_append]
    exact .inr (.inl (.inl (.inl (Option.mem_toList.2 hrelay))))

/-- Where the last good endpoints are among those seen, everything is explained. -/
theorem GoodSeen.explained {cache : EndpointCache} (h : cache.GoodSeen) : cache.Explained := by
  intro key discovered configured relay sources
  have hhas : ∀ ep, endpointSource (some ep) sources = "roamed" → ¬sources.Has ep := by
    rintro ep hroamed ⟨x, hx, heq⟩
    have hknown := endpointSource_eq_roamed_iff.1 hroamed
    rcases List.mem_append.1 hx with hx | hx
    · obtain ⟨entry, hentry, hgood⟩ := Option.bind_eq_some_iff.1 (Option.mem_toList.1 hx)
      refine hknown x ?_ heq
      rw [CandidateSources.known, List.mem_append]
      refine .inr ?_
      simp only [sources, EndpointCache.sources, hentry, Option.map_some, Option.getD_some]
      exact h key entry hentry x hgood
    · exact hknown x hx heq
  refine ⟨fun ep hep => ⟨fun hroamed => ?_, endpointSource_ne_none sources ep⟩, hhas⟩
  exact hhas ep hroamed (has_of_mem_buildCandidates hep)

/-! ### What a call does to the last good endpoint -/

/-- Of a list with one element too many the last is cut off, and that is not newer than
another. -/
theorem mem_take_of_newestFirst {l : List CachedEndpoint}
    (hl : l.Pairwise fun a b => b.lastSeenUnix ≤ a.lastSeenUnix) {n : ℕ} (hlen : l.length ≤ n + 1)
    {c d : CachedEndpoint} (hc : c ∈ l) (hd : d ∈ l) (hlt : c.lastSeenUnix < d.lastSeenUnix) :
    d ∈ l.take n := by
  have hcut : (l.drop n).length ≤ 1 := by
    rw [List.length_drop]
    omega
  rw [← List.take_append_drop n l] at hl hc hd
  obtain ⟨-, -, hle⟩ := List.pairwise_append.1 hl
  rcases List.mem_append.1 hd with hkept | hdropped
  · exact hkept
  · rcases List.mem_append.1 hc with hbefore | hafter
    · exact absurd hlt (not_lt.2 (hle c hbefore d hdropped))
    · obtain ⟨x, hx⟩ := List.length_eq_one_iff.1
        (le_antisymm hcut (List.length_pos_of_mem hdropped))
      rw [hx, List.mem_singleton] at hdropped hafter
      rw [hdropped, hafter] at hlt
      exact absurd hlt (lt_irrefl _)

/-- What is not newer than any stays at the end. -/
theorem sortNewestFirst_concat {seen : List CachedEndpoint}
    (h : seen.Pairwise fun a b => b.lastSeenUnix ≤ a.lastSeenUnix) {c : CachedEndpoint}
    (hc : ∀ d ∈ seen, c.lastSeenUnix ≤ d.lastSeenUnix) :
    sortNewestFirst (seen ++ [c]) = seen ++ [c] := by
  refine List.Pairwise.insertionSort_eq
    (List.pairwise_append.2 ⟨h, List.pairwise_singleton _ _, ?_⟩)
  intro d hd c' hc'
  obtain rfl := List.mem_singleton.1 hc'
  exact hc d hd

/-- **A recorded endpoint is kept exactly when it was seen, or finds room, or an older
one.** -/
theorem mem_recorded_iff {x : PeerCacheEntry} (h : x.Tidy) {ep : SocketAddrV6} {now : ℕ} :
    ep ∈ (recorded x ep now).seen.map CachedEndpoint.endpoint ↔
      ep ∈ x.seen.map CachedEndpoint.endpoint ∨ x.seen.length < cacheSeenMax ∨
        ∃ c ∈ x.seen, c.lastSeenUnix < now := by
  have hperm := perm_sortNewestFirst (touchSeen x.seen ep now)
  by_cases hmem : ep ∈ x.seen.map CachedEndpoint.endpoint
  · have hmap := touchSeen_of_mem hmem now
    have hlen : (sortNewestFirst (touchSeen x.seen ep now)).length ≤ cacheSeenMax := by
      rw [hperm.length_eq, ← List.length_map CachedEndpoint.endpoint, hmap, List.length_map]
      exact h.bounded
    refine iff_of_true ?_ (.inl hmem)
    rw [recorded, List.take_of_length_le hlen, (hperm.map _).mem_iff, hmap]
    exact hmem
  · rw [recorded, touchSeen_of_not_mem hmem]
    rw [touchSeen_of_not_mem hmem] at hperm
    have hlen := hperm.length_eq
    rw [List.length_append, List.length_singleton] at hlen
    have hself := hperm.mem_iff.2 (List.mem_append_right x.seen List.mem_cons_self)
    simp only [hmem, false_or]
    constructor
    · intro hin
      by_contra hno
      rw [not_or, not_lt] at hno
      have hold : ∀ c ∈ x.seen, now ≤ c.lastSeenUnix :=
        fun c hc => not_lt.1 fun hlt => hno.2 ⟨c, hc, hlt⟩
      rw [sortNewestFirst_concat h.newestFirst hold, List.take_append_of_le_length hno.1] at hin
      obtain ⟨c, hc, heq⟩ := List.mem_map.1 hin
      exact hmem (List.mem_map.2 ⟨c, List.mem_of_mem_take hc, heq⟩)
    · rintro (hshort | ⟨c, hc, hlt⟩)
      · rw [List.take_of_length_le (by omega)]
        exact List.mem_map_of_mem hself
      · have hc' := hperm.mem_iff.2 (List.mem_append_left _ hc)
        have hbounded := h.bounded
        exact List.mem_map_of_mem (mem_take_of_newestFirst (pairwise_sortNewestFirst _)
          (by omega) hc' hself hlt)

theorem GoodSeen.evict {cache : EndpointCache} (h : cache.GoodSeen) (key : String)
    (ep : SocketAddrV6) : (cache.evict key ep).GoodSeen := by
  intro k x hx e he
  rw [Option.mem_def, entry_evict] at hx
  split_ifs at hx with hk
  · obtain ⟨y, hy, rfl⟩ := Option.map_eq_some_iff.1 hx
    simp only [without] at he
    split_ifs at he with hlast
    · cases he
    · obtain ⟨c, hc, rfl⟩ := List.mem_map.1 (h key y hy e he)
      refine List.mem_map.2 ⟨c, List.mem_filter.2 ⟨hc, decide_eq_true fun heq => hlast ?_⟩, rfl⟩
      exact he.trans (congrArg some heq)
  · exact h k x hx e he

theorem GoodSeen.recordGood {cache : EndpointCache} (h : cache.GoodSeen) (htidy : cache.Tidy)
    {key : String} {ep : SocketAddrV6} {now : ℕ} (hfits : cache.Fits (.recordGood key ep now)) :
    (cache.recordGood key ep now).GoodSeen := by
  intro k x hx e he
  rw [Option.mem_def, entry_recordGood] at hx
  split_ifs at hx with hk
  · obtain rfl := Option.some.inj hx
    obtain rfl := Option.some.inj he
    refine (mem_recorded_iff (htidy.getD key)).2 ?_
    cases hentry : cache.entry key with
    | none => exact .inr (.inl (by decide))
    | some y =>
        rw [Fits, hentry] at hfits
        exact hfits
  · exact h k x hx e he

/-- A call that does not fit leaves an endpoint that is reported as roamed. -/
theorem not_explained_recordGood {cache : EndpointCache} (htidy : cache.Tidy) {key : String}
    {ep : SocketAddrV6} {now : ℕ} (hfits : ¬cache.Fits (.recordGood key ep now)) :
    ¬(cache.recordGood key ep now).Explained := by
  intro hexplained
  have hentry := (entry_recordGood cache key ep now key).trans (if_pos rfl)
  have hout : normalize ep ∉ (recorded ((cache.entry key).getD ⟨none, []⟩) (normalize ep)
      now).seen.map CachedEndpoint.endpoint := by
    rw [mem_recorded_iff (htidy.getD key)]
    cases hx : cache.entry key with
    | none =>
        rw [Fits, hx] at hfits
        exact absurd (.inr (.inl (by decide))) hfits
    | some y =>
        rw [Fits, hx] at hfits
        exact hfits
  obtain ⟨-, honly⟩ := hexplained key [] [] none
  refine honly ep (endpointSource_eq_roamed_iff.2 fun x hx heq => ?_) ⟨normalize ep, ?_, rfl⟩
  · simp only [sources, CandidateSources.known, hentry, Option.map_some, Option.getD_some,
      Option.toList_none, List.map_nil, List.nil_append] at hx
    obtain ⟨c, hc, rfl⟩ := List.mem_map.1 hx
    have hnormal := ((htidy.getD key).recorded ep now).seenNormal c hc
    exact hout (List.mem_map.2 ⟨c, hc, hnormal.symm.trans heq⟩)
  · rw [List.mem_append]
    refine .inl (Option.mem_toList.2 ?_)
    rw [sources, hentry]
    rfl

/-- **When everything is explained.**  In every run of the calls on a new cache, with any
clock: every candidate of every peer is reported as what it is in every state reached, if
and only if each recorded endpoint was seen before, or finds room, or one that was last
seen earlier. -/
theorem explained_iff (ops : List CacheOp) :
    Along apply Fits new ops ↔ ∀ part, part <+: ops → (new.after part).Explained := by
  refine Along.iff_forall_prefix (P := fun c : EndpointCache => c.Tidy ∧ c.GoodSeen) ?_
    (fun c hc => hc.2.explained) ?_ ⟨tidy_new, fun _ _ h => by cases h⟩ ops
  · rintro cache op ⟨htidy, hseen⟩ hfits
    refine ⟨htidy.apply op, ?_⟩
    cases op with
    | recordGood key ep now => exact hseen.recordGood htidy hfits
    | evict key ep => exact hseen.evict key ep
  · rintro cache op ⟨htidy, -⟩ hfits
    cases op with
    | recordGood key ep now => exact not_explained_recordGood htidy hfits
    | evict key ep => exact absurd trivial hfits

/-- Nine endpoints of one peer, all recorded in the same second. -/
def nineAtOnce : List CacheOp :=
  (List.range 9).map fun i => .recordGood "a" ⟨plainAddr, UInt16.ofNat i, 0, 0⟩ 5

/-- **The ninth endpoint is a candidate and reported as roamed.** -/
theorem nineAtOnce_roamed :
    let cache := new.after nineAtOnce
    let sources := cache.sources "a" [] [] none
    (⟨plainAddr, 8, 0, 0⟩ ∈ buildCandidates sources ∧
        endpointSource (some ⟨plainAddr, 8, 0, 0⟩) sources = "roamed") ∧
      ¬cache.Explained := by
  intro cache sources
  have hroamed : ⟨plainAddr, 8, 0, 0⟩ ∈ buildCandidates sources ∧
      endpointSource (some ⟨plainAddr, 8, 0, 0⟩) sources = "roamed" := by decide +kernel
  exact ⟨hroamed, fun h => ((h "a" [] [] none).1 _ hroamed.1).1 hroamed.2⟩

end EndpointCache

end Hextet
