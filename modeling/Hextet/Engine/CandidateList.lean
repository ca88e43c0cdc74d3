/-
# How the candidates of a peer are listed

`build_candidates` in `crates/engine/src/candidates.rs`, `set_candidates` in
`crates/engine/src/fsm.rs` and the merging of `on_discovered` in
`crates/engine/src/daemon.rs`.  The list of the state machine has each address once
(`dedupNormalized`); `build_candidates` cuts the list of the direct addresses at its
cap and keeps a place for the relay (`mem_buildCandidates_iff`).  The list meets a
specification in terms of the library's own sort and removal of repetitions
(`buildCandidates_meets`).

The recorded endpoints of a peer stand in the order of their layers.  An update
replaces the part of its layer and leaves the parts of the others, and telling a
layer's part again changes nothing (`mergeDiscovered_self`).
-/

import Hextet.Engine.Cache
import Hextet.Engine.Daemon
import Hextet.Lib.Firsts
import Hextet.Lib.KeyOrder

namespace Hextet

open Lib

variable {C : Crypto}

/-! ### Addresses once each -/

theorem dedupNormalized_eq (l : List SocketAddrV6) :
    dedupNormalized l = firsts (l.map normalize) := rfl

theorem mem_dedupNormalized {l : List SocketAddrV6} {ep : SocketAddrV6} :
    ep ∈ dedupNormalized l ↔ ∃ x ∈ l, normalize x = ep := by
  rw [dedupNormalized_eq, mem_firsts, List.mem_map]

theorem nodup_dedupNormalized (l : List SocketAddrV6) : (dedupNormalized l).Nodup :=
  nodup_firsts _

/-- What the state machine holds is normalized. -/
theorem normalize_of_mem_dedupNormalized {l : List SocketAddrV6} {ep : SocketAddrV6}
    (h : ep ∈ dedupNormalized l) : normalize ep = ep := by
  obtain ⟨x, -, rfl⟩ := mem_dedupNormalized.1 h
  rfl

/-- An address makes the first `cap` exactly when fewer stand before it. -/
theorem mem_take_dedupNormalized_iff {l : List SocketAddrV6} {cap : ℕ} {ep : SocketAddrV6} :
    ep ∈ (dedupNormalized l).take cap ↔ (∃ x ∈ l, normalize x = ep) ∧
      (dedupNormalized (l.takeWhile fun x => normalize x ≠ ep)).length < cap := by
  rw [dedupNormalized_eq, mem_take_firsts_iff, List.takeWhile_map, List.mem_map]
  rfl

/-- The loop of `build_candidates`. -/
theorem foldl_pushUnique (cap : ℕ) (l : List SocketAddrV6) :
    l.foldl (fun out ep => pushUnique out ep cap) [] = (dedupNormalized l).take cap := by
  rw [dedupNormalized_eq, ← foldl_addNewUpTo, List.foldl_map]
  rfl

namespace CandidateSources

/-- The direct addresses, as `build_candidates` goes through them. -/
def direct (sources : CandidateSources) : List SocketAddrV6 :=
  sources.lastGood.toList ++ sources.discovered.map Prod.snd ++ sources.configured ++
    (sortNewestFirst sources.cached).map CachedEndpoint.endpoint

/-- `direct_cap`: one place is kept for the relay. -/
def directCap (sources : CandidateSources) : ℕ :=
  maxCandidates - if sources.relay.isSome then 1 else 0

end CandidateSources

/-- `build_candidates` in these terms. -/
theorem buildCandidates_eq (sources : CandidateSources) :
    buildCandidates sources =
      let direct := (dedupNormalized sources.direct).take sources.directCap
      match sources.relay with
      | some relay => pushUnique direct relay maxCandidates
      | none => direct := by
  simp only [← foldl_pushUnique]
  rfl

/-- The direct addresses leave a place for the relay. -/
theorem CandidateSources.length_direct_lt {sources : CandidateSources}
    (h : sources.relay.isSome = true) :
    ((dedupNormalized sources.direct).take sources.directCap).length < maxCandidates := by
  refine lt_of_le_of_lt (List.length_take_le _ _) ?_
  rw [directCap, if_pos h]
  decide

/-- **The relay comes after the direct addresses**, where it is not one of them. -/
theorem buildCandidates_eq_append (sources : CandidateSources) :
    buildCandidates sources =
      let direct := (dedupNormalized sources.direct).take sources.directCap
      direct ++ (sources.relay.map normalize).toList.filter (· ∉ direct) := by
  rw [buildCandidates_eq]
  cases hrelay : sources.relay with
  | none => simp
  | some relay =>
      have hsome : sources.relay.isSome = true := by rw [hrelay]; rfl
      have hroom := CandidateSources.length_direct_lt hsome
      simp only [pushUnique, hroom, true_and, Option.map_some, Option.toList_some]
      split_ifs with hin
      · rw [List.filter_cons_of_neg (by simpa using hin), List.filter_nil, List.append_nil]
      · rw [List.filter_cons_of_pos (by simpa using hin), List.filter_nil]

/-- **What is a candidate**: the direct addresses up to their cap, and the relay. -/
theorem mem_buildCandidates_iff {sources : CandidateSources} {ep : SocketAddrV6} :
    ep ∈ buildCandidates sources ↔
      ep ∈ (dedupNormalized sources.direct).take sources.directCap ∨
        ∃ relay ∈ sources.relay, normalize relay = ep := by
  have hrelay : ep ∈ (sources.relay.map normalize).toList ↔
      ∃ relay ∈ sources.relay, normalize relay = ep := by
    simp [Option.mem_def]
  rw [buildCandidates_eq_append, List.mem_append, List.mem_filter, hrelay, decide_eq_true_eq]
  tauto

theorem normalize_of_mem_buildCandidates {sources : CandidateSources} {ep : SocketAddrV6}
    (h : ep ∈ buildCandidates sources) : normalize ep = ep := by
  rcases mem_buildCandidates_iff.1 h with h | ⟨relay, -, rfl⟩
  · exact normalize_of_mem_dedupNormalized (List.mem_of_mem_take h)
  · rfl

/-! ### What `build_candidates` is for -/

namespace CandidateSources

/-- The normalized direct addresses: the last good one, those discovered, those
configured and those cached, the newest first.  The sort is the library's stable
one. -/
def normalizedDirect (sources : CandidateSources) : List SocketAddrV6 :=
  let newestFirst := sources.cached.mergeSort fun a b => b.lastSeenUnix ≤ a.lastSeenUnix
  (sources.lastGood.toList ++ sources.discovered.map Prod.snd ++ sources.configured ++
    newestFirst.map CachedEndpoint.endpoint).map normalize

/-- The candidates as they are specified: the direct addresses without repetitions,
cut at eight, or at seven when there is a relay, and then the relay if it is new. -/
def specified (sources : CandidateSources) : List SocketAddrV6 :=
  let kept := sources.normalizedDirect.eraseDups.take (if sources.relay.isSome then 7 else 8)
  kept ++ ((sources.relay.map normalize).toList.filter (· ∉ kept))

theorem map_normalize_direct (sources : CandidateSources) :
    sources.direct.map normalize = sources.normalizedDirect := by
  have hsort : sortNewestFirst sources.cached =
      sources.cached.mergeSort fun a b => b.lastSeenUnix ≤ a.lastSeenUnix :=
    insertionSort_eq_mergeSort (fun c : CachedEndpoint => OrderDual.toDual c.lastSeenUnix)
      sources.cached
  rw [direct, hsort]
  rfl

theorem directCap_eq (sources : CandidateSources) :
    sources.directCap = if sources.relay.isSome then 7 else 8 := by
  unfold directCap maxCandidates
  split_ifs <;> rfl

/-- The direct candidates, in the words of the specification. -/
theorem take_dedupNormalized_direct (sources : CandidateSources) :
    (dedupNormalized sources.direct).take sources.directCap =
      sources.normalizedDirect.eraseDups.take (if sources.relay.isSome then 7 else 8) := by
  rw [dedupNormalized_eq, firsts_eq_eraseDups, map_normalize_direct, directCap_eq]

end CandidateSources

theorem buildCandidates_eq_specified (sources : CandidateSources) :
    buildCandidates sources = sources.specified := by
  rw [buildCandidates_eq_append, CandidateSources.specified,
    ← CandidateSources.take_dedupNormalized_direct]

theorem nodup_buildCandidates (sources : CandidateSources) : (buildCandidates sources).Nodup := by
  have hdirect : ((dedupNormalized sources.direct).take sources.directCap).Nodup :=
    (nodup_dedupNormalized _).sublist (List.take_sublist _ _)
  have hrelay : (sources.relay.map normalize).toList.Nodup := by
    cases sources.relay with
    | none => exact List.nodup_nil
    | some relay => exact List.nodup_singleton _
  rw [buildCandidates_eq_append]
  refine hdirect.append (hrelay.filter _) fun ep hep hnew => ?_
  exact of_decide_eq_true (List.mem_filter.1 hnew).2 hep

theorem length_buildCandidates_le (sources : CandidateSources) :
    (buildCandidates sources).length ≤ maxCandidates := by
  have hdirect : ((dedupNormalized sources.direct).take sources.directCap).length ≤
      maxCandidates :=
    (List.length_take_le _ _).trans (Nat.sub_le _ _)
  rw [buildCandidates_eq]
  cases sources.relay with
  | none => exact hdirect
  | some relay =>
      simp only [pushUnique]
      split_ifs with hnew
      · rw [List.length_append]
        exact hnew.1
      · exact hdirect

/-- The direct candidates stand at the front. -/
theorem prefix_buildCandidates (sources : CandidateSources) :
    (dedupNormalized sources.direct).take sources.directCap <+: buildCandidates sources := by
  rw [buildCandidates_eq_append]
  exact List.prefix_append ..

/-- What comes later displaces nothing: the candidates of an initial part of the
direct addresses are the first candidates. -/
theorem prefix_buildCandidates_of_direct_eq {sources : CandidateSources}
    {earlier later : List SocketAddrV6} (h : sources.direct = earlier ++ later) :
    (dedupNormalized earlier).take sources.directCap <+: buildCandidates sources := by
  refine List.IsPrefix.trans ?_ (prefix_buildCandidates sources)
  refine List.IsPrefix.take ?_ _
  rw [h, dedupNormalized_eq, dedupNormalized_eq, List.map_append, firsts, firsts,
    List.foldl_append]
  exact prefix_foldl_addNew _ _

/-- **Candidate assembly meets its specification.**  The list is the specified one, has
each address once and normalized, is at most eight long and holds the relay, and the
candidates of the sources up to any point stand at its front. -/
theorem buildCandidates_meets (sources : CandidateSources) :
    buildCandidates sources = sources.specified ∧
      (buildCandidates sources).Nodup ∧
      (∀ ep ∈ buildCandidates sources, normalize ep = ep) ∧
      (buildCandidates sources).length ≤ 8 ∧
      (∀ relay ∈ sources.relay, normalize relay ∈ buildCandidates sources) ∧
      ∀ earlier later, sources.direct = earlier ++ later →
        (dedupNormalized earlier).take sources.directCap <+: buildCandidates sources := by
  refine ⟨buildCandidates_eq_specified sources, nodup_buildCandidates sources,
    fun ep => normalize_of_mem_buildCandidates, length_buildCandidates_le sources, ?_,
    fun earlier later => prefix_buildCandidates_of_direct_eq⟩
  intro relay hrelay
  exact mem_buildCandidates_iff.2 (.inr ⟨relay, hrelay, rfl⟩)

/-! ### The endpoints of the layers -/

theorem Source.priority_inj {s t : Source} : s.priority = t.priority ↔ s = t := by
  cases s <;> cases t <;> decide

/-- The endpoints that a layer told about. -/
def endpointsFrom (source : Source) (discovered : List (Source × SocketAddrV6)) :
    List SocketAddrV6 :=
  (discovered.filter fun x => x.1 = source).map Prod.snd

/-- The recorded endpoints stand in the order of their layers. -/
def InLayers (discovered : List (Source × SocketAddrV6)) : Prop :=
  InOrder (fun x => x.1.priority) discovered

/-- Lists in the order of the layers with the same parts are equal. -/
theorem InLayers.ext {l l' : List (Source × SocketAddrV6)} (h : InLayers l) (h' : InLayers l')
    (hparts : ∀ source : Source,
      (l.filter fun x => x.1 = source) = l'.filter fun x => x.1 = source) : l = l' := by
  refine InOrder.ext h h' fun k => ?_
  by_cases hk : ∃ source : Source, source.priority = k
  · obtain ⟨source, rfl⟩ := hk
    simpa only [Source.priority_inj] using hparts source
  · have hnone : ∀ l : List (Source × SocketAddrV6), l.filter (fun x => x.1.priority = k) = [] := by
      intro l
      simpa [List.filter_eq_nil_iff] using fun x _ _ hx => hk ⟨x, hx⟩
    rw [hnone, hnone]

namespace PeerRuntime

variable (discovered : List (Source × SocketAddrV6)) (source : Source)
  (endpoints : List SocketAddrV6)

theorem inLayers_mergeDiscovered : InLayers (mergeDiscovered discovered source endpoints) :=
  inOrder_insertionSort (fun x : Source × SocketAddrV6 => x.1.priority) _

/-- The part of a layer after an update: what is told, or what was there. -/
theorem filter_mergeDiscovered (layer : Source) :
    ((mergeDiscovered discovered source endpoints).filter fun x => x.1 = layer) =
      if layer = source then endpoints.map fun e => (source, e)
      else discovered.filter fun x => x.1 = layer := by
  have hsort := filter_insertionSort (fun x : Source × SocketAddrV6 => x.1.priority)
    (discovered.filter (fun x => x.1 ≠ source) ++ endpoints.map fun e => (source, e))
    layer.priority
  simp only [Source.priority_inj] at hsort
  rw [mergeDiscovered, hsort, List.filter_append, List.filter_filter]
  split_ifs with h
  · subst h
    simp
  · have hpart : (endpoints.map fun e => (source, e)).filter (fun x => x.1 = layer) = [] := by
      simp [List.filter_eq_nil_iff, Ne.symm h]
    rw [hpart, List.append_nil]
    refine List.filter_congr fun x _ => ?_
    by_cases hx : x.1 = layer <;> simp [hx, h]

theorem endpointsFrom_mergeDiscovered :
    endpointsFrom source (mergeDiscovered discovered source endpoints) = endpoints := by
  rw [endpointsFrom, filter_mergeDiscovered, if_pos rfl, List.map_map]
  exact List.map_id _

theorem endpointsFrom_mergeDiscovered_of_ne {layer : Source} (h : layer ≠ source) :
    endpointsFrom layer (mergeDiscovered discovered source endpoints) =
      endpointsFrom layer discovered := by
  rw [endpointsFrom, filter_mergeDiscovered, if_neg h, endpointsFrom]

/-- **Telling a layer's part again changes nothing.** -/
theorem mergeDiscovered_self {discovered : List (Source × SocketAddrV6)}
    (h : InLayers discovered) (source : Source) :
    mergeDiscovered discovered source (endpointsFrom source discovered) = discovered := by
  refine (inLayers_mergeDiscovered discovered source _).ext h fun layer => ?_
  rw [filter_mergeDiscovered]
  split_ifs with hlayer
  · subst hlayer
    rw [endpointsFrom, List.map_map]
    refine (List.map_congr_left fun x hx => ?_).trans (List.map_id _)
    obtain ⟨-, hx⟩ := List.mem_filter.1 hx
    exact Prod.ext (of_decide_eq_true hx).symm rfl
  · rfl

theorem mem_mergeDiscovered {x : Source × SocketAddrV6} :
    x ∈ mergeDiscovered discovered source endpoints ↔
      (x ∈ discovered ∧ x.1 ≠ source) ∨ (x.1 = source ∧ x.2 ∈ endpoints) := by
  obtain ⟨layer, e⟩ := x
  rw [mergeDiscovered, List.mem_insertionSort, List.mem_append, List.mem_filter, List.mem_map]
  simp only [decide_eq_true_eq, Prod.mk.injEq]
  refine or_congr_right ⟨?_, ?_⟩
  · rintro ⟨x, hx, rfl, rfl⟩
    exact ⟨rfl, hx⟩
  · rintro ⟨rfl, he⟩
    exact ⟨e, he, rfl, rfl⟩

end PeerRuntime

end Hextet
