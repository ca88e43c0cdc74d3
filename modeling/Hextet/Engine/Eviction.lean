/-
# The address in use and the dead address

`on_discovered` in `crates/engine/src/daemon.rs` takes two decisions about the address
on which a peer is connected: whether it is dead, and goes from the endpoint cache, and
whether it is left.  Both ask which layers report it, and differ in what they make of
gossip.

An update that lists the address keeps it in use, unless gossip alone lists it
(`update_lists_address_in_use`).  An address that was found dead is gone from the
candidates, unless gossip lists it and there is room (`evicted_gone_iff`).
-/

import Hextet.Engine.Rendezvous

namespace Hextet

open Lib

variable {C : Crypto}

/-! ### The address in use -/

namespace PeerRuntime

variable {p : PeerRuntime C} {cache : EndpointCache} {e : SocketAddrV6} {clock : Clock}
  {discovered : List (Source × SocketAddrV6)} {source : Source} {endpoints : List SocketAddrV6}

/-- A layer other than gossip has told something. -/
def hasAuthoritative (discovered : List (Source × SocketAddrV6)) : Bool :=
  discovered.any fun (s, _) => s ≠ .gossip

theorem stillReported_iff :
    stillReported discovered e = true ↔ ∃ x ∈ discovered, x.1 ≠ .gossip ∧ normalize x.2 = e := by
  simp [stillReported]

theorem reportedReliably_eq :
    reportedReliably discovered e =
      if hasAuthoritative discovered then stillReported discovered e
      else discovered.any fun (_, ep) => normalize ep = e := rfl

/-- A layer other than gossip is believed. -/
theorem stillReported_mergeDiscovered (hsource : source ≠ .gossip)
    (hlisted : ∃ x ∈ endpoints, normalize x = e) :
    stillReported (mergeDiscovered discovered source endpoints) e = true := by
  obtain ⟨x, hx, rfl⟩ := hlisted
  exact stillReported_iff.2 ⟨(source, x),
    (mem_mergeDiscovered discovered source endpoints).2 (Or.inr ⟨rfl, hx⟩), hsource, rfl⟩

/-- What gossip tells changes nothing of what the others report. -/
theorem stillReported_mergeDiscovered_gossip :
    stillReported (mergeDiscovered discovered .gossip endpoints) e =
      stillReported discovered e := by
  rw [Bool.eq_iff_iff, stillReported_iff, stillReported_iff]
  refine exists_congr fun x => ?_
  rw [mem_mergeDiscovered]
  constructor
  · rintro ⟨⟨hx, -⟩ | ⟨hs, -⟩, hne, he⟩
    · exact ⟨hx, hne, he⟩
    · exact absurd hs hne
  · rintro ⟨hx, hne, he⟩
    exact ⟨Or.inl ⟨hx, hne⟩, hne, he⟩

theorem hasAuthoritative_iff :
    hasAuthoritative discovered = true ↔ ∃ x ∈ discovered, x.1 ≠ .gossip := by
  simp [hasAuthoritative]

theorem hasAuthoritative_mergeDiscovered_gossip :
    hasAuthoritative (mergeDiscovered discovered .gossip endpoints) =
      hasAuthoritative discovered := by
  rw [Bool.eq_iff_iff, hasAuthoritative_iff, hasAuthoritative_iff]
  refine exists_congr fun x => ?_
  rw [mem_mergeDiscovered]
  constructor
  · rintro ⟨⟨hx, -⟩ | ⟨hs, -⟩, hne⟩
    · exact ⟨hx, hne⟩
    · exact absurd hs hne
  · rintro ⟨hx, hne⟩
    exact ⟨Or.inl ⟨hx, hne⟩, hne⟩

/-- What is reported by an authoritative layer is reported reliably. -/
theorem reportedReliably_of_stillReported (h : stillReported discovered e = true) :
    reportedReliably discovered e = true := by
  obtain ⟨x, hx, hne, -⟩ := stillReported_iff.1 h
  rw [reportedReliably_eq, if_pos (hasAuthoritative_iff.2 ⟨x, hx, hne⟩), h]

/-- **What is dead is left.** -/
theorem isLeft_of_isDead (h : p.isDead e = true) : p.isLeft e = true := by
  rw [isDead, Bool.and_eq_true] at h
  rw [isLeft, Bool.and_eq_true]
  refine ⟨h.1, ?_⟩
  by_contra hstill
  rw [reportedReliably_of_stillReported (by simpa using hstill)] at h
  cases h.2

/-- The endpoint is configured or reported by a layer other than gossip, with the
update. -/
def Trusted (p : PeerRuntime C) (source : Source) (e : SocketAddrV6) : Prop :=
  source ≠ .gossip ∨ p.isConfigured e = true ∨ stillReported p.discovered e = true

/-- An update that lists an endpoint has it left exactly when it is not trusted. -/
theorem isLeft_merged_iff (hlisted : ∃ x ∈ endpoints, normalize x = e) :
    (p.merged source endpoints).isLeft e = true ↔ ¬p.Trusted source e := by
  have hconf : (p.merged source endpoints).isConfigured e = p.isConfigured e := rfl
  rw [isLeft, hconf, merged]
  by_cases hsource : source = .gossip
  · subst hsource
    rw [stillReported_mergeDiscovered_gossip]
    simp [Trusted]
  · rw [stillReported_mergeDiscovered hsource hlisted]
    simp [Trusted, hsource]

/-- It is then dead if another layer has told something. -/
theorem isDead_merged_iff (hlisted : ∃ x ∈ endpoints, normalize x = e) :
    (p.merged source endpoints).isDead e = true ↔
      ¬p.Trusted source e ∧ hasAuthoritative p.discovered = true := by
  rw [← isLeft_merged_iff hlisted]
  constructor
  · intro hdead
    have hleft := isLeft_of_isDead hdead
    refine ⟨hleft, ?_⟩
    obtain rfl : source = .gossip := by
      by_contra hsource
      exact (isLeft_merged_iff hlisted).1 hleft (Or.inl hsource)
    by_contra hnone
    obtain ⟨x, hx, rfl⟩ := hlisted
    have hany : (mergeDiscovered p.discovered .gossip endpoints).any
        (fun y => normalize y.2 = normalize x) = true :=
      List.any_eq_true.2 ⟨(.gossip, x), (mem_mergeDiscovered p.discovered .gossip endpoints).2
        (Or.inr ⟨rfl, hx⟩), by simp⟩
    have hrel : reportedReliably (p.merged .gossip endpoints).discovered (normalize x) = true := by
      rw [merged, reportedReliably_eq, hasAuthoritative_mergeDiscovered_gossip, if_neg hnone]
      exact hany
    rw [isDead, hrel] at hdead
    simp at hdead
  · rintro ⟨hleft, hauth⟩
    obtain rfl : source = .gossip := by
      by_contra hsource
      exact (isLeft_merged_iff hlisted).1 hleft (Or.inl hsource)
    rw [isLeft, Bool.and_eq_true] at hleft
    rw [isDead, Bool.and_eq_true, reportedReliably_eq, merged,
      hasAuthoritative_mergeDiscovered_gossip, if_pos hauth]
    exact hleft

/-- The calls of an update to a connection: those of the retry or none. -/
theorem wgCalls_discover_connected (hstate : p.fsm.state = .connected e)
    (hdirect : p.sessionEndpoint ≠ some e) :
    let q := p.merged source endpoints
    wgCalls (p.discover cache source endpoints clock).2.2 =
      wgCalls (q.settle (q.evicted cache e) e clock).2.2 := by
  simp only
  rw [discover_connected source endpoints clock hstate hdirect, wgCalls_append]
  split_ifs <;> rfl

/-- **An update that lists the address in use**, of a peer that is connected there
directly: if the address is trusted, nothing happens; if only gossip lists it, the
address is dropped from the cache when another layer has told something, and left when
there is another candidate. -/
theorem discover_listed (hstate : p.fsm.state = .connected e)
    (hdirect : p.sessionEndpoint ≠ some e) (hlisted : ∃ x ∈ endpoints, normalize x = e)
    (cache : EndpointCache) (source : Source) (clock : Clock) :
    let r := p.discover cache source endpoints clock
    (p.Trusted source e → r.1.fsm.state = .connected e ∧ wgCalls r.2.2 = [] ∧ r.2.1 = cache) ∧
    (¬p.Trusted source e →
      r.2.1 = (if hasAuthoritative p.discovered then cache.evict p.keyB64 e else cache) ∧
      ((r.1.fsm.state = .connected e ∧ wgCalls r.2.2 = []) ↔
        ∀ c ∈ (p.merged source endpoints).candidatesFor r.2.1, normalize c = normalize e)) := by
  intro r
  set q := p.merged source endpoints with hq
  have hcalls : wgCalls r.2.2 = wgCalls (q.settle (q.evicted cache e) e clock).2.2 :=
    wgCalls_discover_connected hstate hdirect
  have hpeer : r.1 = (q.settle (q.evicted cache e) e clock).1 := by
    change (p.discover cache source endpoints clock).1 = _
    rw [discover_connected source endpoints clock hstate hdirect]
  have hcache : r.2.1 = q.evicted cache e := by
    change (p.discover cache source endpoints clock).2.1 = _
    rw [discover_connected source endpoints clock hstate hdirect]
    exact cache_settle ..
  have hqstate : q.fsm.state = .connected e := hstate
  rw [hpeer, hcalls, hcache, settle]
  constructor
  · intro htrusted
    have hleft : ¬q.isLeft e = true := fun h => (isLeft_merged_iff hlisted).1 h htrusted
    have hdead : ¬q.isDead e = true := fun h => hleft (isLeft_of_isDead h)
    rw [if_neg hleft, evicted, if_neg hdead]
    obtain ⟨hkept, hnone⟩ := refresh_connected hqstate cache clock
    exact ⟨hkept, by rw [hnone]; rfl, rfl⟩
  · intro htrusted
    have hleft : q.isLeft e = true := (isLeft_merged_iff hlisted).2 htrusted
    have hdead : q.isDead e = hasAuthoritative p.discovered := by
      rw [Bool.eq_iff_iff, isDead_merged_iff hlisted]
      exact and_iff_right htrusted
    refine ⟨by rw [evicted, hdead]; rfl, ?_⟩
    rw [if_pos hleft]
    refine ⟨fun h => (leave_stays_iff hqstate e false).1 h.1, fun h => ?_⟩
    rw [leave_eq_self hqstate false h]
    exact ⟨hstate, rfl⟩

end PeerRuntime

/-- **Hearing about the address in use.**  In every state of a run, for a peer that is
connected on `e`, not through its relay session, and an update whose endpoints list
`e`: if the update is from LAN, DHT or DDNS, or `e` is configured, or one of these
layers has told `e`, then the peer stays connected on `e`, no endpoint is set, no
handshake is forced and the cache is as it was.  Otherwise gossip alone lists `e`: it
is evicted exactly if another layer has told something, and the connection is kept
exactly if there is no other candidate. -/
theorem update_lists_address_in_use (cfg : Config C) (u : System.Startup) (is : List Input)
    {key : String} {p : PeerRuntime C}
    (hp : (System.after cfg (System.boot cfg u) is).daemon.peer key = some p)
    {e : SocketAddrV6} (hstate : p.fsm.state = .connected e)
    (hdirect : p.sessionEndpoint ≠ some e) (source : Source) (endpoints : List SocketAddrV6)
    (hlisted : ∃ x ∈ endpoints, normalize x = e) (clock : Clock) :
    let d := (System.after cfg (System.boot cfg u) is).daemon
    let r := d.onDiscovered ⟨source, key, endpoints⟩ clock
    ∃ p', r.1.peer key = some p' ∧
      ((source ≠ .gossip ∨ p.isConfigured e = true ∨
          PeerRuntime.stillReported p.discovered e = true) →
        p'.fsm.state = .connected e ∧ wgCalls r.2 = [] ∧ r.1.cache = d.cache) ∧
      (¬(source ≠ .gossip ∨ p.isConfigured e = true ∨
          PeerRuntime.stillReported p.discovered e = true) →
        r.1.cache = (if PeerRuntime.hasAuthoritative p.discovered then d.cache.evict key e
          else d.cache) ∧
        ((p'.fsm.state = .connected e ∧ wgCalls r.2 = []) ↔
          ∀ c ∈ (p.merged source endpoints).candidatesFor r.1.cache,
            normalize c = normalize e)) := by
  intro d r
  obtain ⟨hpeer, hcache, heffects⟩ := Daemon.onDiscovered_of_peer hp source endpoints clock
  have hkey : p.keyB64 = key := by simpa using List.find?_some hp
  obtain ⟨htrusted, hgossip⟩ :=
    PeerRuntime.discover_listed hstate hdirect hlisted d.cache source clock
  refine ⟨_, hpeer, ?_⟩
  rw [show r.1.cache = _ from hcache, show r.2 = _ from heffects, ← hkey]
  exact ⟨htrusted, hgossip⟩

namespace System

/-- Node 1 is connected on the address that the DHT told, and the DHT tells it with
another. -/
theorem update_lists_address_in_use_dht :
    ∃ p', (((relayed [heardAt 1 .dht [7], tickAt 2 [plainStatus 7 2]]).daemon.onDiscovered
        ⟨.dht, (plainKey 1 0).toBase64, [plainSocket 8, plainSocket 7]⟩ fun _ => 0).1.peer
          (plainKey 1 0).toBase64) = some p' ∧
      p'.fsm.state = .connected (plainSocket 7) := by
  have hreached : ∃ p ∈ (relayed [heardAt 1 .dht [7], tickAt 2 [plainStatus 7 2]]).daemon.peer
      (plainKey 1 0).toBase64,
      p.fsm.state = .connected (plainSocket 7) ∧ p.sessionEndpoint ≠ some (plainSocket 7) := by
    decide +kernel
  obtain ⟨p, hp, hstate, hdirect⟩ := hreached
  obtain ⟨p', hp', htrusted, -⟩ := update_lists_address_in_use plainRelayConfig plainStartup _ hp
    hstate hdirect .dht [plainSocket 8, plainSocket 7]
    ⟨plainSocket 7, by simp, rfl⟩ fun _ => 0
  exact ⟨p', hp', (htrusted (Or.inl (by decide))).1⟩

/-- **Hearing from gossip about the address in use**: node 1 is connected on port 7,
gossip tells ports 7 and 8, and the connection is left for port 8. -/
theorem gossip_moves_off_address_in_use :
    ∃ p ∈ (relayed [tickAt 2 [plainStatus 7 2]]).daemon.peer (plainKey 1 0).toBase64,
      p.fsm.state = .connected (plainSocket 7) ∧ p.sessionEndpoint ≠ some (plainSocket 7) ∧
        let r := (relayed [tickAt 2 [plainStatus 7 2]]).daemon.onDiscovered
          ⟨.gossip, (plainKey 1 0).toBase64, [plainSocket 7, plainSocket 8]⟩ fun _ => secs 3
        (∃ p' ∈ r.1.peer (plainKey 1 0).toBase64, p'.fsm.state = .probing 1 0) ∧
          wgCalls r.2 = [.setPeerEndpoint p.wgPublic (plainSocket 8)] := by
  decide +kernel

end System

/-! ### Dead addresses -/

namespace PeerRuntime

variable {p : PeerRuntime C} {cache : EndpointCache} {e : SocketAddrV6} {clock : Clock}

/-- The relay alone is tried: a session stands and no upgrade is open. -/
def narrowed (p : PeerRuntime C) : Bool :=
  p.relay.any fun link => link.session.isSome && !link.upgradePending

theorem candidatesFor_eq (p : PeerRuntime C) (cache : EndpointCache) :
    p.candidatesFor cache =
      if p.narrowed then p.sessionEndpoint.toList else buildCandidates (p.sourcesFor cache) := by
  unfold candidatesFor narrowed sessionEndpoint
  cases p.relay with
  | none => rfl
  | some link =>
      cases hsession : link.session with
      | none => simp [hsession]
      | some session => cases hup : link.upgradePending <;> simp [hsession, hup]

/-- The last good endpoint, if it is another one. -/
def otherLastGood (p : PeerRuntime C) (cache : EndpointCache) (e : SocketAddrV6) :
    List SocketAddrV6 :=
  ((cache.entry p.keyB64).bind PeerCacheEntry.lastGood).toList.filter (· ≠ e)

/-- The addresses that `build_candidates` meets before one that is not the last good
one: that, and what the layers tell before it. -/
def listedBefore (p : PeerRuntime C) (cache : EndpointCache) (e : SocketAddrV6) :
    List SocketAddrV6 :=
  p.otherLastGood cache e ++ (p.discovered.map Prod.snd).takeWhile fun x => normalize x ≠ e

/-- The number of places for direct addresses. -/
def directCap (p : PeerRuntime C) : ℕ :=
  maxCandidates - if p.sessionEndpoint.isSome then 1 else 0

/-- What is dead is listed by gossip at most. -/
theorem gossip_of_isDead (h : p.isDead e = true) {x : Source × SocketAddrV6}
    (hx : x ∈ p.discovered) (he : normalize x.2 = e) : x.1 = .gossip := by
  rw [isDead, Bool.and_eq_true, reportedReliably_eq] at h
  by_contra hne
  rw [if_pos (hasAuthoritative_iff.2 ⟨x, hx, hne⟩),
    stillReported_iff.2 ⟨x, hx, hne, he⟩] at h
  cases h.2

theorem listed_iff_of_isDead (h : p.isDead e = true) :
    (∃ x ∈ p.discovered.map Prod.snd, normalize x = e) ↔
      ∃ x ∈ endpointsFrom .gossip p.discovered, normalize x = e := by
  constructor
  · rintro ⟨_, hmem, he⟩
    obtain ⟨x, hx, rfl⟩ := List.mem_map.1 hmem
    refine ⟨x.2, List.mem_map.2 ⟨x, List.mem_filter.2 ⟨hx, ?_⟩, rfl⟩, he⟩
    exact decide_eq_true (gossip_of_isDead h hx he)
  · rintro ⟨_, hmem, he⟩
    obtain ⟨x, hx, rfl⟩ := List.mem_map.1 hmem
    exact ⟨x.2, List.mem_map_of_mem (List.mem_filter.1 hx).1, he⟩

/-- The last good endpoint after an eviction. -/
theorem lastGood_evict (he : normalize e = e) :
    (((cache.evict p.keyB64 e).entry p.keyB64).bind PeerCacheEntry.lastGood).toList =
      p.otherLastGood cache e := by
  rw [otherLastGood, EndpointCache.entry_evict, if_pos rfl, he]
  cases cache.entry p.keyB64 with
  | none => rfl
  | some x =>
      rw [Option.map_some, Option.bind_some, Option.bind_some, EndpointCache.without]
      cases hgood : x.lastGood with
      | none => simp
      | some good =>
          by_cases hge : good = e
          · simp [hge]
          · simp [hge]

/-- The addresses that `build_candidates` meets after those of the layers, once an
endpoint was evicted. -/
def listedAfter (p : PeerRuntime C) (cache : EndpointCache) (e : SocketAddrV6) :
    List SocketAddrV6 :=
  p.configured ++ (sortNewestFirst (p.sourcesFor (cache.evict p.keyB64 e)).cached).map
    CachedEndpoint.endpoint

theorem direct_evicted (he : normalize e = e) :
    (p.sourcesFor (cache.evict p.keyB64 e)).direct =
      p.otherLastGood cache e ++ (p.discovered.map Prod.snd ++ p.listedAfter cache e) := by
  rw [CandidateSources.direct, ← lastGood_evict he, listedAfter, ← List.append_assoc,
    ← List.append_assoc]
  rfl

/-- An evicted endpoint is not in the cache in any form. -/
theorem ne_of_holds_evict (hnormal : cache.Normal) (he : normalize e = e) {x : SocketAddrV6}
    (hx : (cache.evict p.keyB64 e).Holds p.keyB64 x) : normalize x ≠ e := by
  intro hxe
  have hplain := hnormal.evict p.keyB64 e p.keyB64 x hx
  exact (EndpointCache.holds_evict_iff.1 hx).2 ⟨rfl, by rw [he, ← hxe, hplain]⟩

theorem ne_of_mem_otherLastGood (hnormal : cache.Normal) (he : normalize e = e)
    {x : SocketAddrV6} (hx : x ∈ p.otherLastGood cache e) : normalize x ≠ e := by
  rw [← lastGood_evict he, Option.mem_toList] at hx
  obtain ⟨entry, hentry, hgood⟩ := Option.bind_eq_some_iff.1 hx
  exact ne_of_holds_evict hnormal he ⟨entry, hentry, Or.inl hgood⟩

theorem ne_of_mem_listedAfter (hnormal : cache.Normal) (he : normalize e = e)
    (hconf : p.isConfigured e = false) {x : SocketAddrV6} (hx : x ∈ p.listedAfter cache e) :
    normalize x ≠ e := by
  rcases List.mem_append.1 hx with hx | hx
  · intro hxe
    rw [isConfigured, List.any_eq_false] at hconf
    exact hconf x hx (by simpa using hxe)
  · obtain ⟨c, hc, rfl⟩ := List.mem_map.1 hx
    have hc := EndpointCache.mem_sortNewestFirst.1 hc
    simp only [sourcesFor] at hc
    cases hentry : (cache.evict p.keyB64 e).entry p.keyB64 with
    | none =>
        rw [hentry] at hc
        cases hc
    | some entry =>
        rw [hentry] at hc
        exact ne_of_holds_evict hnormal he ⟨entry, hentry, Or.inr ⟨c, hc, rfl⟩⟩

/-- After its eviction an endpoint can only come from the layers. -/
theorem mem_direct_evicted_iff (hnormal : cache.Normal) (he : normalize e = e)
    (hconf : p.isConfigured e = false) :
    (∃ x ∈ (p.sourcesFor (cache.evict p.keyB64 e)).direct, normalize x = e) ↔
      ∃ x ∈ p.discovered.map Prod.snd, normalize x = e := by
  rw [direct_evicted he]
  constructor
  · rintro ⟨x, hx, hxe⟩
    rcases List.mem_append.1 hx with hx | hx
    · exact absurd hxe (ne_of_mem_otherLastGood hnormal he hx)
    · rcases List.mem_append.1 hx with hx | hx
      · exact ⟨x, hx, hxe⟩
      · exact absurd hxe (ne_of_mem_listedAfter hnormal he hconf hx)
  · rintro ⟨x, hx, hxe⟩
    exact ⟨x, List.mem_append_right _ (List.mem_append_left _ hx), hxe⟩

/-- What stands before it there. -/
theorem takeWhile_direct_evicted (hnormal : cache.Normal) (he : normalize e = e)
    (hlisted : ∃ x ∈ p.discovered.map Prod.snd, normalize x = e) :
    (p.sourcesFor (cache.evict p.keyB64 e)).direct.takeWhile (fun x => normalize x ≠ e) =
      p.listedBefore cache e := by
  have hgood : ∀ x ∈ p.otherLastGood cache e, decide (normalize x ≠ e) = true :=
    fun x hx => decide_eq_true (ne_of_mem_otherLastGood hnormal he hx)
  rw [direct_evicted he, List.takeWhile_append_of_pos hgood, List.takeWhile_append, if_neg,
    listedBefore]
  intro hall
  obtain ⟨x, hx, hxe⟩ := hlisted
  have heq := (List.takeWhile_prefix fun x => normalize x ≠ e).eq_of_length hall
  exact of_decide_eq_true (List.takeWhile_eq_self_iff.1 heq x hx) hxe

/-- **Whether a dead endpoint is a candidate**: the relay is not alone, gossip lists
it, and few enough addresses come before it. -/
theorem mem_candidates_of_isDead (hdead : p.isDead e = true) (hnormal : cache.Normal)
    (he : normalize e = e) (hsession : ∀ ep, p.sessionEndpoint = some ep → normalize ep ≠ e) :
    e ∈ dedupNormalized (p.candidatesFor (cache.evict p.keyB64 e)) ↔
      p.narrowed = false ∧ (∃ x ∈ endpointsFrom .gossip p.discovered, normalize x = e) ∧
        (dedupNormalized (p.listedBefore cache e)).length < p.directCap := by
  have hconf : p.isConfigured e = false := by
    rw [isDead, Bool.and_eq_true] at hdead
    simpa using hdead.1
  have hcap : (p.sourcesFor (cache.evict p.keyB64 e)).directCap = p.directCap := rfl
  rw [mem_dedupNormalized, candidatesFor_eq]
  by_cases hnarrow : p.narrowed = true
  · rw [if_pos hnarrow]
    refine iff_of_false ?_ fun h => by rw [hnarrow] at h; cases h.1
    rintro ⟨x, hx, hxe⟩
    exact hsession x (Option.mem_toList.1 hx) hxe
  rw [if_neg hnarrow]
  constructor
  · rintro ⟨x, hx, hxe⟩
    rw [normalize_of_mem_buildCandidates hx] at hxe
    subst hxe
    rcases mem_buildCandidates_iff.1 hx with hin | ⟨relay, hrelay, hre⟩
    · obtain ⟨hex, hlen⟩ := mem_take_dedupNormalized_iff.1 hin
      have hdisc := (mem_direct_evicted_iff hnormal he hconf).1 hex
      rw [takeWhile_direct_evicted hnormal he hdisc, hcap] at hlen
      exact ⟨by simpa using hnarrow, (listed_iff_of_isDead hdead).1 hdisc, hlen⟩
    · exact absurd hre (hsession relay hrelay)
  · rintro ⟨-, hgossip, hlen⟩
    have hdisc := (listed_iff_of_isDead hdead).2 hgossip
    have hex := (mem_direct_evicted_iff hnormal he hconf).2 hdisc
    refine ⟨e, mem_buildCandidates_iff.2 (Or.inl ?_), he⟩
    refine mem_take_dedupNormalized_iff.2 ⟨hex, ?_⟩
    rw [takeWhile_direct_evicted hnormal he hdisc, hcap]
    exact hlen

/-- **What an eviction presupposes**: a direct connection on the endpoint, which is dead;
and it leaves the peer with its candidates recomputed. -/
theorem discover_evicts {source : Source} {endpoints : List SocketAddrV6} (hplain : p.Plain)
    (hbefore : cache.Holds p.keyB64 e)
    (hafter : ¬(p.discover cache source endpoints clock).2.1.Holds p.keyB64 e) :
    (p.merged source endpoints).isDead e = true ∧ p.sessionEndpoint ≠ some e ∧
      (p.discover cache source endpoints clock).1.fsm.candidates =
        dedupNormalized ((p.merged source endpoints).candidatesFor (cache.evict p.keyB64 e)) := by
  rcases discover_cases p with ⟨link, session, hlink, hsession, hstate⟩ | ⟨ep, hstate, hdirect⟩ |
    ⟨i, rounds, hstate⟩
  · rw [discover_relayed source endpoints clock hlink hsession hstate, cache_leave] at hafter
    exact absurd hbefore hafter
  · have hkept : p.discover cache source endpoints clock = _ :=
      discover_connected source endpoints clock hstate hdirect
    have hdead : (p.merged source endpoints).isDead ep = true := by
      by_contra hnot
      rw [hkept] at hafter
      simp only [cache_settle, evicted, hnot] at hafter
      exact hafter hbefore
    obtain rfl : e = ep := by
      rw [hkept] at hafter
      simp only [cache_settle, evicted, hdead, if_true] at hafter
      by_contra hne
      refine hafter (EndpointCache.holds_evict_iff.2 ⟨hbefore, fun h => hne ?_⟩)
      rw [h.2, hplain.fsm.connected ep hstate]
    refine ⟨hdead, hdirect, ?_⟩
    have hstate' : (p.merged source endpoints).fsm.state = .connected e := hstate
    rw [hkept]
    simp only [settle, isLeft_of_isDead hdead, if_true, evicted, hdead]
    rw [leave_connected hstate']
    exact PeerFsm.candidates_retryFromImpl _ _ _ _
  · rw [discover_probing source endpoints clock hstate, cache_refresh] at hafter
    exact absurd hbefore hafter

end PeerRuntime

namespace System

/-- **The cache holds endpoints without flow info and scope**, if it did at startup. -/
theorem normal_after (cfg : Config C) (u : Startup) (hu : u.cache.Normal) (is : List Input) :
    (after cfg (boot cfg u) is).daemon.cache.Normal := by
  refine run_invariant (P := fun s : System C => s.daemon.cache.Normal) ?_ ?_ is
  · intro s i hs k e he
    rcases holds_step cfg he with he | ⟨st, now, ts, -, p, -, -, -, ep, -, rfl, -⟩
    · exact hs k e he
    · rfl
  · intro k e he
    refine hu k e ?_
    rwa [show (boot cfg u).daemon.cache = u.cache from cache_kickPeers _ _ _ _] at he

end System

/-- **When an evicted endpoint is gone from the candidates.**  In every state of a run
from a cache of normalized endpoints, with a relay that hands out such: if
`on_discovered` takes `e` from the cache entry of a peer, then `e` is not among the
candidates of the peer afterwards if and only if the relay alone is tried, or gossip
does not list `e`, or the places are taken by what comes before it. -/
theorem evicted_gone_iff (cfg : Config C) (u : System.Startup) (hu : u.cache.Normal)
    (is : List Input) (his : ∀ i ∈ is, i.Brings RelaySession.Plain) {key : String}
    {p : PeerRuntime C}
    (hp : (System.after cfg (System.boot cfg u) is).daemon.peer key = some p) (source : Source)
    (endpoints : List SocketAddrV6) (clock : Clock) {e : SocketAddrV6}
    (hbefore : (System.after cfg (System.boot cfg u) is).daemon.cache.Holds key e)
    (hafter : ¬((System.after cfg (System.boot cfg u) is).daemon.onDiscovered
      ⟨source, key, endpoints⟩ clock).1.cache.Holds key e) :
    let d := (System.after cfg (System.boot cfg u) is).daemon
    let q := p.merged source endpoints
    ∃ p', (d.onDiscovered ⟨source, key, endpoints⟩ clock).1.peer key = some p' ∧
      (e ∉ p'.fsm.candidates ↔
        q.narrowed = true ∨ (∀ x ∈ endpointsFrom .gossip q.discovered, normalize x ≠ e) ∨
          q.directCap ≤ (dedupNormalized (q.listedBefore d.cache e)).length) := by
  intro d q
  have hnormal := System.normal_after cfg u hu is
  have hplain := plain_after cfg u his p (List.mem_of_find?_eq_some hp)
  have he := hnormal key e hbefore
  obtain rfl : p.keyB64 = key := by simpa using List.find?_some hp
  obtain ⟨hpeer, hcache, -⟩ := Daemon.onDiscovered_of_peer hp source endpoints clock
  rw [hcache] at hafter
  obtain ⟨hdead, hdirect, hlist⟩ := PeerRuntime.discover_evicts hplain hbefore hafter
  refine ⟨_, hpeer, ?_⟩
  have hsession : ∀ ep, q.sessionEndpoint = some ep → normalize ep ≠ e := by
    intro ep hep hne
    rw [hplain.session ep hep] at hne
    exact hdirect (hne ▸ hep)
  have hmem := PeerRuntime.mem_candidates_of_isDead hdead hnormal he hsession
  rw [hlist]
  refine (not_congr hmem).trans ?_
  rw [not_and_or, not_and_or, Bool.not_eq_false, not_lt]
  simp only [not_exists, not_and]
  rfl

namespace System

theorem normal_plainStartup : plainStartup.cache.Normal := by
  rintro k e ⟨entry, hentry, -⟩
  cases hentry

/-- Node 1 is connected on port 7, and the DHT tells port 8 alone. -/
theorem evicted_gone_dht :
    ∃ p', ((relayed [tickAt 2 [plainStatus 7 2]]).daemon.onDiscovered
        ⟨.dht, (plainKey 1 0).toBase64, [plainSocket 8]⟩ fun _ => secs 3).1.peer
          (plainKey 1 0).toBase64 = some p' ∧ plainSocket 7 ∉ p'.fsm.candidates := by
  have hreached : ∃ p ∈ (relayed [tickAt 2 [plainStatus 7 2]]).daemon.peer
      (plainKey 1 0).toBase64,
      endpointsFrom .gossip (p.merged .dht [plainSocket 8]).discovered = [] := by
    decide +kernel
  obtain ⟨p, hp, hgossip⟩ := hreached
  obtain ⟨p', hp', hgone⟩ := evicted_gone_iff plainRelayConfig plainStartup normal_plainStartup
    [tickAt 2 [plainStatus 7 2]] (by simp [tickAt, Input.Brings]) hp .dht [plainSocket 8]
    (fun _ => secs 3) (show EndpointCache.Holds _ _ (plainSocket 7) by decide +kernel)
    (by decide +kernel)
  exact ⟨p', hp', hgone.2 (Or.inr (Or.inl (by rw [hgossip]; simp)))⟩

/-- **An evicted endpoint that is back**: node 1 is connected on port 7 and gossip has
told it; the DHT tells port 8, so port 7 is found dead and taken from the cache, and it
is the first candidate again. -/
theorem evicted_back :
    let s := relayed [tickAt 2 [plainStatus 7 2], heardAt 3 .gossip [7]]
    let r := s.daemon.onDiscovered ⟨.dht, (plainKey 1 0).toBase64, [plainSocket 8]⟩
      fun _ => secs 4
    s.daemon.cache.Holds (plainKey 1 0).toBase64 (plainSocket 7) ∧
      ¬r.1.cache.Holds (plainKey 1 0).toBase64 (plainSocket 7) ∧
      ∃ p ∈ r.1.peer (plainKey 1 0).toBase64,
        p.fsm.candidates = [plainSocket 7, plainSocket 8] := by
  decide +kernel

end System

end Hextet
