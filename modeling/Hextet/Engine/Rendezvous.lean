/-
# Updates that tell nothing new

`on_discovered` in `crates/engine/src/daemon.rs`.  The DHT and DDNS tasks send the
result of a lookup every 30 s, whether it changed or not, so most updates tell what is
recorded.  Such an update should do nothing.  None of the three branches compares old
and new, and it does nothing exactly when the peer is `Idle` (`repeated_update_iff`):
a peer that is reached through the relay is interrupted by every lookup
(`repeated_update_interrupts`).
-/

import Hextet.Engine.Discovery
import Hextet.Engine.PeerRule
import Hextet.Engine.Relay

namespace Hextet

open Lib

variable {C : Crypto}

/-! ### The state machine keeps still -/

namespace PeerFsm

variable {fsm : PeerFsm} {old next : List SocketAddrV6} {i : ℕ} {ep : SocketAddrV6}

/-- Nothing new, and the candidate is where it was: the index stays. -/
theorem repoint_eq_self (hold : old[i]? = some ep) (hnext : next[i]? = some ep)
    (hsub : next ⊆ old) (hnodup : next.Nodup) : repoint old next i = i := by
  have hfresh : next.findIdx? (fun c => c ∉ old) = none := by
    simpa [List.findIdx?_eq_none_iff] using fun c hc => hsub hc
  obtain ⟨hlt, hget⟩ := List.getElem?_eq_some_iff.1 hnext
  have hfind : next.findIdx? (fun c => c = ep) = some i := by
    rw [List.findIdx?_eq_some_iff_getElem]
    refine ⟨hlt, by simpa using hget, fun j hj => ?_⟩
    have hne : next[j] ≠ next[i] := fun h => hj.ne (hnodup.getElem_inj_iff.1 h)
    simpa [hget] using hne
  rw [repoint, hfresh]
  simp [hold, hfind]

/-- The candidate that `set_candidates` keeps pointing at: then nothing is new. -/
theorem subset_of_repoint (hkeep : next[repoint old next i]? = old[i]?) : next ⊆ old := by
  have hmem : ∀ c, next[repoint old next i]? = some c → c ∈ old := by
    intro c hc
    rw [hkeep] at hc
    exact List.mem_of_getElem? hc
  cases hfresh : next.findIdx? (fun c => c ∉ old) with
  | none =>
      intro c hc
      simpa using List.findIdx?_eq_none_iff.1 hfresh c hc
  | some j =>
      obtain ⟨hlt, hnew, -⟩ := List.findIdx?_eq_some_iff_getElem.1 hfresh
      have hj : repoint old next i = j := by rw [repoint, hfresh]
      refine absurd (hmem next[j] ?_) (by simpa using hnew)
      rw [hj, List.getElem?_eq_getElem hlt]

/-- `set_candidates` with another list while probing. -/
theorem setCandidates_probing {rounds : ℕ} (hstate : fsm.state = .probing i rounds)
    {candidates : List SocketAddrV6} (hnext : dedupNormalized candidates = next)
    (hne : fsm.candidates ≠ next) (now : SystemTime) :
    fsm.setCandidates candidates now =
      if next.isEmpty then ({ fsm with candidates := next, state := .probing 0 0 }, [])
      else if next[repoint fsm.candidates next i]? = fsm.candidates[i]? then
        ({ fsm with candidates := next, state := .probing (repoint fsm.candidates next i) rounds },
          [])
      else (⟨next, .probing (repoint fsm.candidates next i) rounds, now, now⟩,
        point next (repoint fsm.candidates next i)) := by
  rw [setCandidates, hnext, if_neg hne]
  simp only [hstate]

/-- **When new candidates change nothing while probing**: the list is the same; or it
is and stays at the start with nothing to try; or no candidate is new and the current
one is where it was. -/
theorem setCandidates_still_iff {rounds : ℕ} (hstate : fsm.state = .probing i rounds)
    (candidates : List SocketAddrV6) (now : SystemTime) :
    ((fsm.setCandidates candidates now).1.state = fsm.state ∧
        (fsm.setCandidates candidates now).2 = []) ↔
      fsm.candidates = dedupNormalized candidates ∨
      (dedupNormalized candidates = [] ∧ i = 0 ∧ rounds = 0) ∨
      ∃ ep, fsm.candidates[i]? = some ep ∧ (dedupNormalized candidates)[i]? = some ep ∧
        dedupNormalized candidates ⊆ fsm.candidates := by
  set next := dedupNormalized candidates with hnext
  by_cases hsame : fsm.candidates = next
  · rw [setCandidates, ← hnext, if_pos hsame]
    exact iff_of_true ⟨rfl, rfl⟩ (Or.inl hsame)
  rw [setCandidates_probing hstate hnext.symm hsame, hstate]
  by_cases hempty : next = []
  · have hold : fsm.candidates ≠ [] := fun h => hsame (h.trans hempty.symm)
    simp [hempty, hold, eq_comm]
  have hlt := repoint_lt fsm.candidates i hempty
  rw [if_neg (by simpa using hempty)]
  have hself : (∃ ep, fsm.candidates[i]? = some ep ∧ next[i]? = some ep ∧
      next ⊆ fsm.candidates) → repoint fsm.candidates next i = i := by
    rintro ⟨ep, hold, hnew, hsub⟩
    exact repoint_eq_self hold hnew hsub (nodup_dedupNormalized _)
  by_cases hkeep : next[repoint fsm.candidates next i]? = fsm.candidates[i]?
  · rw [if_pos hkeep]
    have hget := List.getElem?_eq_getElem hlt
    constructor
    · rintro ⟨hi, -⟩
      have hi : repoint fsm.candidates next i = i := (PunchState.probing.inj hi).1
      have hsub := subset_of_repoint hkeep
      rw [hi] at hkeep hlt
      exact Or.inr (Or.inr ⟨next[i], by rw [← hkeep, List.getElem?_eq_getElem hlt],
        List.getElem?_eq_getElem hlt, hsub⟩)
    · rintro (h | ⟨h, -⟩ | h)
      · exact absurd h hsame
      · exact absurd h hempty
      · exact ⟨by rw [hself h], rfl⟩
  · rw [if_neg hkeep]
    refine iff_of_false (fun h => ?_) ?_
    · rw [point_of_getElem? (List.getElem?_eq_getElem hlt)] at h
      cases h.2
    · rintro (h | ⟨h, -⟩ | h)
      · exact hsame h
      · exact hempty h
      · have hi := hself h
        obtain ⟨ep, hold, hnew, -⟩ := h
        rw [hi, hold, hnew] at hkeep
        exact hkeep rfl

/-- `set_candidates` asks for nothing or points the kernel somewhere. -/
theorem setCandidates_actions (fsm : PeerFsm) (candidates : List SocketAddrV6)
    (now : SystemTime) :
    (fsm.setCandidates candidates now).2 = [] ∨
      ∃ ep, .setEndpoint ep ∈ (fsm.setCandidates candidates now).2 := by
  unfold setCandidates
  simp only
  split
  · exact Or.inl rfl
  · split
    · exact Or.inl rfl
    · rename_i i _ _
      split_ifs with hempty hkeep
      · exact Or.inl rfl
      · exact Or.inl rfl
      · have hne : dedupNormalized candidates ≠ [] := fun h => hempty (List.isEmpty_iff.2 h)
        have hget := List.getElem?_eq_getElem (repoint_lt fsm.candidates i hne)
        exact Or.inr ⟨_, by rw [point_of_getElem? hget]; exact List.mem_cons_self⟩

/-- **When a retry changes nothing**: there is no candidate to go to. -/
theorem retryFromImpl_stays {e avoid : SocketAddrV6} (hstate : fsm.state = .connected e)
    (now : SystemTime) (flush : Bool) (h : ∀ c ∈ fsm.candidates, c = normalize avoid) :
    fsm.retryFromImpl (some avoid) now flush = (fsm, []) := by
  have hfind : fsm.candidates.findIdx? (fun c => some c ≠ some (normalize avoid)) = none := by
    simpa [List.findIdx?_eq_none_iff] using h
  rw [retryFromImpl, hstate]
  simp only [Option.map_some, hfind]

theorem retryFromImpl_moves {e avoid c : SocketAddrV6} (hstate : fsm.state = .connected e)
    (now : SystemTime) (flush : Bool) (hc : c ∈ fsm.candidates) (hne : c ≠ normalize avoid) :
    (fsm.retryFromImpl (some avoid) now flush).1.state.isProbing = true := by
  have hfind :
      (fsm.candidates.findIdx? fun c => some c ≠ some (normalize avoid)).isSome = true := by
    rw [List.findIdx?_isSome, List.any_eq_true]
    exact ⟨c, hc, by simpa using hne⟩
  obtain ⟨j, hj⟩ := Option.isSome_iff_exists.1 hfind
  rw [retryFromImpl, hstate]
  simp only [Option.map_some, hj]
  rfl

theorem candidates_retryFromImpl (fsm : PeerFsm) (avoid : Option SocketAddrV6)
    (now : SystemTime) (flush : Bool) :
    (fsm.retryFromImpl avoid now flush).1.candidates = fsm.candidates := by
  unfold retryFromImpl
  split
  · rfl
  · simp only
    split <;> rfl

end PeerFsm

/-! ### Repeated updates -/

/-- The effect carries out a `SetEndpoint`, a `Rehandshake` or a `Nudge`. -/
def Effect.isAction : Effect C → Bool
  | .setPeerEndpoint .. => true
  | .addPeer _ => true
  | .removePeer _ => true
  | .nudge _ => true
  | _ => false

namespace PeerRuntime

variable {p : PeerRuntime C} {cache : EndpointCache} {e : SocketAddrV6} {clock : Clock}

/-- `upgrade_pending` and `upgrade_retries`. -/
def upgrade (p : PeerRuntime C) : Option (Bool × ℕ) :=
  p.relay.map fun link => (link.upgradePending, link.upgradeRetries)

/-- A handler does nothing to be seen: no action, the same state, the same upgrade,
the same entries in the cache. -/
structure Still (p : PeerRuntime C) (cache : EndpointCache)
    (r : PeerRuntime C × EndpointCache × List (Effect C)) : Prop where
  actions : ∀ x ∈ r.2.2, x.isAction = false
  state : r.1.fsm.state = p.fsm.state
  upgrade : r.1.upgrade = p.upgrade
  cache : ∀ k, r.2.1.entry k = cache.entry k

/-- Nothing is left to do for what is recorded.  Through the relay: an upgrade is
open, not retried yet, and there is no direct address.  Connected elsewhere: the
address is not held by the cache if it is dead, and there is no other one if it is to
be left.  Probed: the list is the one of the machine, or gives it nothing to do. -/
def Idle (p : PeerRuntime C) (cache : EndpointCache) : Prop :=
  match p.fsm.state with
  | .connected e =>
      if p.sessionEndpoint = some e then
        p.upgrade = some (true, 0) ∧
          ∀ c ∈ buildCandidates (p.sourcesFor cache), normalize c = normalize e
      else
        (p.isDead e = true → ¬cache.Holds p.keyB64 (normalize e)) ∧
          (p.isLeft e = true → ∀ c ∈ p.candidatesFor cache, normalize c = normalize e)
  | .probing i rounds =>
      let next := dedupNormalized (p.candidatesFor cache)
      p.fsm.candidates = next ∨ (next = [] ∧ i = 0 ∧ rounds = 0) ∨
        ∃ ep, p.fsm.candidates[i]? = some ep ∧ next[i]? = some ep ∧ next ⊆ p.fsm.candidates

/-- A command to the kernel is seen. -/
theorem setPeerEndpoint_mem_applyActions {ep : SocketAddrV6} {as : List Action}
    (h : .setEndpoint ep ∈ as) :
    .setPeerEndpoint p.wgPublic ep ∈ (p.applyActions clock cache as).2 := by
  induction as generalizing clock cache with
  | nil => cases h
  | cons a as ih =>
      rw [applyActions]
      rcases List.mem_cons.1 h with rfl | h
      · exact List.mem_append_left _ List.mem_cons_self
      · exact List.mem_append_right _ (ih h)

/-- The state machine of a connected peer with its candidates recomputed. -/
def relisted (p : PeerRuntime C) (cache : EndpointCache) : PeerFsm :=
  { p.fsm with candidates := dedupNormalized (p.candidatesFor cache) }

theorem leave_connected (hstate : p.fsm.state = .connected e) (avoid : SocketAddrV6)
    (flush : Bool) :
    p.leave cache avoid flush clock =
      let x := (p.relisted cache).retryFromImpl (some avoid) (clock 1) flush
      let q := { p with fsm := x.1 }
      (q, (q.applyActions (clock.after 2) cache x.2).1,
        (q.applyActions (clock.after 2) cache x.2).2) := by
  rw [leave, refreshed, PeerFsm.setCandidates_connected hstate]
  rfl

/-- Without another candidate a retry is not seen. -/
theorem leave_eq_self (hstate : p.fsm.state = .connected e) {avoid : SocketAddrV6} (flush : Bool)
    (h : ∀ c ∈ p.candidatesFor cache, normalize c = normalize avoid) :
    p.leave cache avoid flush clock = ({ p with fsm := p.relisted cache }, cache, []) := by
  have hall : ∀ c ∈ (p.relisted cache).candidates, c = normalize avoid := by
    intro c hc
    obtain ⟨x, hx, rfl⟩ := mem_dedupNormalized.1 hc
    exact h x hx
  rw [leave_connected hstate, PeerFsm.retryFromImpl_stays (by exact hstate) (clock 1) flush hall]
  rfl

/-- **A retry keeps the connection exactly when there is no other candidate.** -/
theorem leave_stays_iff (hstate : p.fsm.state = .connected e) (avoid : SocketAddrV6)
    (flush : Bool) :
    (p.leave cache avoid flush clock).1.fsm.state = .connected e ↔
      ∀ c ∈ p.candidatesFor cache, normalize c = normalize avoid := by
  constructor
  · intro hstays c hc
    by_contra hne
    have hcand : normalize c ∈ (p.relisted cache).candidates := mem_dedupNormalized.2 ⟨c, hc, rfl⟩
    have hmoves := PeerFsm.retryFromImpl_moves (by exact hstate) (clock 1) flush hcand hne
    rw [leave_connected hstate] at hstays
    simp only at hstays
    rw [hstays] at hmoves
    cases hmoves
  · intro h
    rw [leave_eq_self hstate flush h]
    exact hstate

/-- New candidates for a connection are not seen. -/
theorem refresh_connected (hstate : p.fsm.state = .connected e) (cache : EndpointCache)
    (clock : Clock) :
    (p.refresh cache clock).1.fsm.state = .connected e ∧ (p.refresh cache clock).2.2 = [] := by
  rw [refresh, refreshed, PeerFsm.setCandidates_connected hstate]
  exact ⟨hstate, rfl⟩

theorem candidatesFor_congr {cache' : EndpointCache} (h : ∀ k, cache'.entry k = cache.entry k) :
    p.candidatesFor cache' = p.candidatesFor cache := by
  have hsources : p.sourcesFor cache' = p.sourcesFor cache := by
    unfold sourcesFor
    rw [h]
  unfold candidatesFor
  rw [hsources]

theorem merged_self (h : InLayers p.discovered) (source : Source) :
    p.merged source (endpointsFrom source p.discovered) = p := by
  rw [merged, mergeDiscovered_self h]

/-- An eviction is not seen exactly when the cache does not hold the endpoint. -/
theorem entry_evicted_iff :
    (∀ k, (p.evicted cache e).entry k = cache.entry k) ↔
      (p.isDead e = true → ¬cache.Holds p.keyB64 (normalize e)) := by
  unfold evicted
  split_ifs with hdead
  · rw [EndpointCache.entry_evict_eq_iff]
    exact ⟨fun h _ => h, fun h => h hdead⟩
  · simp [hdead]

/-- Through the relay. -/
theorem still_upgrading_iff {link : RelayLink C} {session : RelaySession}
    (hlink : p.relay = some link) (hsession : link.session = some session)
    (hstate : p.fsm.state = .connected session.endpoint) :
    Still p cache ((p.upgrading link).leave cache session.endpoint true clock) ↔
      p.upgrade = some (true, 0) ∧
        ∀ c ∈ buildCandidates (p.sourcesFor cache), normalize c = normalize session.endpoint := by
  have hlist : (p.upgrading link).candidatesFor cache = buildCandidates (p.sourcesFor cache) := by
    simp [candidatesFor, upgrading, hsession, sourcesFor, sessionEndpoint, hlink]
  have hup : (p.upgrading link).fsm.state = .connected session.endpoint := hstate
  rw [← hlist]
  constructor
  · intro h
    exact ⟨h.upgrade.symm, (leave_stays_iff hup _ true).1 (h.state.trans hstate)⟩
  · rintro ⟨hopen, hother⟩
    rw [leave_eq_self hup true hother]
    exact ⟨by simp, rfl, hopen.symm, fun _ => rfl⟩

/-- Connected elsewhere. -/
theorem still_settle_iff (hstate : p.fsm.state = .connected e) :
    Still p cache (let r := p.settle (p.evicted cache e) e clock
      (r.1, r.2.1, (if p.isDead e then [.saveCache (p.evicted cache e)] else []) ++ r.2.2)) ↔
      (p.isDead e = true → ¬cache.Holds p.keyB64 (normalize e)) ∧
        (p.isLeft e = true → ∀ c ∈ p.candidatesFor cache, normalize c = normalize e) := by
  have hsaved : ∀ x ∈ (if p.isDead e then [Effect.saveCache (p.evicted cache e)] else
      ([] : List (Effect C))), x.isAction = false := by
    intro x hx
    split_ifs at hx
    · obtain rfl := List.mem_singleton.1 hx
      rfl
    · cases hx
  have hupgrade : (p.settle (p.evicted cache e) e clock).1.upgrade = p.upgrade := by
    unfold settle
    split_ifs <;> rfl
  rw [← entry_evicted_iff]
  constructor
  · intro h
    have hcache : ∀ k, (p.evicted cache e).entry k = cache.entry k := by
      intro k
      have hk := h.cache k
      simp only [cache_settle] at hk
      exact hk
    refine ⟨hcache, fun hleft => ?_⟩
    have hkept := h.state
    simp only [settle, hleft, if_true] at hkept
    rw [← candidatesFor_congr hcache]
    exact (leave_stays_iff hstate e false).1 (hkept.trans hstate)
  · rintro ⟨hcache, hother⟩
    have hkept : (p.settle (p.evicted cache e) e clock).1.fsm.state = .connected e ∧
        (p.settle (p.evicted cache e) e clock).2.2 = [] := by
      unfold settle
      split_ifs with hleft
      · rw [leave_eq_self hstate false (by rw [candidatesFor_congr hcache]; exact hother hleft)]
        exact ⟨hstate, rfl⟩
      · exact refresh_connected hstate _ clock
    refine ⟨fun x hx => ?_, hkept.1.trans hstate.symm, hupgrade, fun k => ?_⟩
    · simp only [hkept.2, List.append_nil] at hx
      exact hsaved x hx
    · simp only [cache_settle]
      exact hcache k

/-- Probed. -/
theorem still_refresh_iff {i rounds : ℕ} (hstate : p.fsm.state = .probing i rounds) :
    Still p cache (p.refresh cache clock) ↔
      let next := dedupNormalized (p.candidatesFor cache)
      p.fsm.candidates = next ∨ (next = [] ∧ i = 0 ∧ rounds = 0) ∨
        ∃ ep, p.fsm.candidates[i]? = some ep ∧ next[i]? = some ep ∧ next ⊆ p.fsm.candidates := by
  simp only
  rw [← PeerFsm.setCandidates_still_iff hstate (p.candidatesFor cache) (clock 0)]
  have heffects : (p.refresh cache clock).2.2 =
      ({ p with fsm := (p.refreshed cache (clock 0)).1 }.applyActions (clock.after 1) cache
        (p.refreshed cache (clock 0)).2).2 := rfl
  constructor
  · intro h
    refine ⟨h.state, ?_⟩
    rcases p.fsm.setCandidates_actions (p.candidatesFor cache) (clock 0) with hnone | ⟨ep, hep⟩
    · exact hnone
    · cases h.actions _ (heffects ▸ setPeerEndpoint_mem_applyActions hep)
  · rintro ⟨hkept, hnone⟩
    refine ⟨fun x hx => ?_, hkept, rfl, fun k => by rw [cache_refresh]⟩
    rw [heffects, show (p.refreshed cache (clock 0)).2 = [] from hnone] at hx
    cases hx

/-- **An update that tells what is recorded does nothing exactly when the peer is
idle.** -/
theorem still_discover_iff (h : InLayers p.discovered) (source : Source) (clock : Clock) :
    Still p cache (p.discover cache source (endpointsFrom source p.discovered) clock) ↔
      p.Idle cache := by
  rcases discover_cases p with ⟨link, session, hlink, hsession, hstate⟩ | ⟨e, hstate, hdirect⟩ |
    ⟨i, rounds, hstate⟩
  · have hvia : p.sessionEndpoint = some session.endpoint := by
      simp [sessionEndpoint, hlink, hsession]
    rw [discover_relayed source _ clock hlink hsession hstate, merged_self h,
      still_upgrading_iff hlink hsession hstate, Idle, hstate]
    simp only [hvia, if_true]
  · rw [discover_connected source _ clock hstate hdirect, merged_self h,
      still_settle_iff hstate, Idle, hstate]
    simp only [hdirect, if_false]
  · rw [discover_probing source _ clock hstate, merged_self h, still_refresh_iff hstate, Idle,
      hstate]

end PeerRuntime

namespace Daemon

/-- `on_discovered` about a peer in the table. -/
theorem onDiscovered_of_peer {d : Daemon C} {key : String} {p : PeerRuntime C}
    (hp : d.peer key = some p) (source : Source) (endpoints : List SocketAddrV6)
    (clock : Clock) :
    let r := p.discover d.cache source endpoints clock
    (d.onDiscovered ⟨source, key, endpoints⟩ clock).1.peer key = some r.1 ∧
      (d.onDiscovered ⟨source, key, endpoints⟩ clock).1.cache = r.2.1 ∧
      (d.onDiscovered ⟨source, key, endpoints⟩ clock).2 = r.2.2 := by
  intro r
  have hfind : d.peers.find? (fun q => q.keyB64 = key) = some p := hp
  have hkey : r.1.keyB64 = key := by
    rw [(PeerRuntime.tame_discover rfl d.cache source endpoints clock).info]
    simpa using List.find?_some hfind
  rw [onDiscovered, withPeer]
  simp only [hfind]
  refine ⟨?_, rfl, rfl⟩
  rw [peer, find?_replacePeer hkey, if_pos rfl, hfind]
  rfl

end Daemon

/-- **When an update that tells what is recorded does nothing.**  In every state of a
run, for every peer and every layer: if the update carries the endpoints that are
recorded of the layer, then `on_discovered` issues no action and leaves the state of
the machine, the upgrade and the entries of the cache, if and only if the peer is
idle. -/
theorem repeated_update_iff (cfg : Config C) (u : System.Startup) (is : List Input)
    {key : String} {p : PeerRuntime C}
    (hp : (System.after cfg (System.boot cfg u) is).daemon.peer key = some p) (source : Source)
    (clock : Clock) :
    let d := (System.after cfg (System.boot cfg u) is).daemon
    let r := d.onDiscovered ⟨source, key, endpointsFrom source p.discovered⟩ clock
    ((∀ x ∈ r.2, x.isAction = false) ∧ (∀ k, r.1.cache.entry k = d.cache.entry k) ∧
        ∃ p', r.1.peer key = some p' ∧ p'.fsm.state = p.fsm.state ∧ p'.upgrade = p.upgrade) ↔
      p.Idle d.cache := by
  intro d r
  have hin := inLayers_after cfg u is p (List.mem_of_find?_eq_some hp)
  obtain ⟨hpeer, hcache, heffects⟩ := Daemon.onDiscovered_of_peer hp source
    (endpointsFrom source p.discovered) clock
  rw [← PeerRuntime.still_discover_iff hin source clock]
  constructor
  · rintro ⟨hacts, hentries, p', hp', hstate, hup⟩
    obtain rfl := Option.some.inj (hpeer.symm.trans hp')
    exact ⟨heffects ▸ hacts, hstate, hup, hcache ▸ hentries⟩
  · intro h
    exact ⟨heffects ▸ h.actions, hcache ▸ h.cache, _, hpeer, h.state, h.upgrade⟩

namespace System

/-- Node 1 is probed at its only address, and the DHT tells it again. -/
theorem repeated_update_probed :
    ∃ p, (relayed [heardAt 1 .dht [7]]).daemon.peer (plainKey 1 0).toBase64 = some p ∧
      endpointsFrom .dht p.discovered = [plainSocket 7] ∧
        ∀ x ∈ ((relayed [heardAt 1 .dht [7]]).daemon.onDiscovered
          ⟨.dht, (plainKey 1 0).toBase64, endpointsFrom .dht p.discovered⟩ fun _ => 0).2,
            x.isAction = false := by
  have hreached : ∃ p ∈ (relayed [heardAt 1 .dht [7]]).daemon.peer (plainKey 1 0).toBase64,
      endpointsFrom .dht p.discovered = [plainSocket 7] ∧ p.fsm.state = .probing 0 0 ∧
        p.fsm.candidates =
          dedupNormalized (p.candidatesFor (relayed [heardAt 1 .dht [7]]).daemon.cache) := by
    decide +kernel
  obtain ⟨p, hp, htold, hstate, hlist⟩ := hreached
  refine ⟨p, hp, htold, ((repeated_update_iff plainRelayConfig plainStartup _ hp .dht _).2 ?_).1⟩
  rw [PeerRuntime.Idle, hstate]
  exact Or.inl hlist

/-- **A repeated update that interrupts**: node 1 is reached through the relay, the DHT
tells again the address that is recorded, and the relay is left with a new handshake
and an upgrade open. -/
theorem repeated_update_interrupts :
    ∃ p ∈ (relayed ontoRelay).daemon.peer (plainKey 1 0).toBase64,
      p.fsm.state = .connected (plainSocket 100) ∧
        endpointsFrom .dht p.discovered = [plainSocket 7] ∧ p.upgrade = some (false, 0) ∧
        (∃ x ∈ ((relayed ontoRelay).daemon.onDiscovered
          ⟨.dht, (plainKey 1 0).toBase64, [plainSocket 7]⟩ fun _ => secs 10).2,
            x.isAction = true) ∧
        ∃ p' ∈ ((relayed ontoRelay).daemon.onDiscovered
          ⟨.dht, (plainKey 1 0).toBase64, [plainSocket 7]⟩ fun _ => secs 10).1.peer
            (plainKey 1 0).toBase64,
          p'.fsm.state = .probing 0 0 ∧ p'.upgrade = some (true, 0) := by
  decide +kernel

end System

end Hextet
