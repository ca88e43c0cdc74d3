/-
# Tracked and installed routes

A `RouteManager` beside the routing table of the operating system, under any
sequence of its calls and any pattern of failures.  A backend call that fails
changes nothing in the system; a `sync` that fails keeps the memory it started
with, and a removal that fails has already forgotten everything.  So memory and
system agree along a run exactly when no removal fails at all and no `sync` fails
after its first backend call (`tracked_eq_os_iff`).
-/

import Mathlib.Data.Finset.Dedup
import Mathlib.Data.List.Perm.Basic
import Hextet.Lib.Run
import Hextet.Lib.Firsts
import Hextet.Engine.RouteManager

namespace Hextet

open Lib

/-- A call of the manager.  `ok i` says whether its backend call number `i` succeeds. -/
inductive RouteOp where
  | sync (ok : ℕ → Bool) (peerKey : String) (desired : List Ipv6Route)
  | removePeer (ok : ℕ → Bool) (peerKey : String)
  | removeAll (ok : ℕ → Bool) (drained : List (String × List Ipv6Route))

namespace RouteOp

/-- The call at a manager. -/
def exec (mgr : RouteManager) : RouteOp → RouteManager × List RouteCall × Bool
  | .sync ok peerKey desired => mgr.sync ok peerKey desired
  | .removePeer ok peerKey => mgr.removePeer ok peerKey
  | .removeAll ok drained => mgr.removeAll ok drained

/-- Two calls do not want one route for two peers. -/
def Apart : RouteOp → RouteOp → Prop
  | .sync _ p d, .sync _ p' d' => p = p' ∨ ∀ r ∈ d, r ∉ d'
  | _, _ => True

instance : (o o' : RouteOp) → Decidable (Apart o o')
  | .sync _ p d, .sync _ p' d' => inferInstanceAs (Decidable (p = p' ∨ ∀ r ∈ d, r ∉ d'))
  | .sync .., .removePeer .. => .isTrue trivial
  | .sync .., .removeAll .. => .isTrue trivial
  | .removePeer .., _ => .isTrue trivial
  | .removeAll .., _ => .isTrue trivial

instance : Std.Symm Apart where
  symm := by
    rintro (⟨_, p, d⟩ | _ | _) (⟨_, p', d'⟩ | _ | _) h
    case sync.sync =>
      rcases h with h | h
      · exact Or.inl h.symm
      · exact Or.inr fun r hr hr' => h r hr' hr
    all_goals trivial

end RouteOp

/-- The effect of a backend call that succeeds on the system's routing table. -/
def RouteCall.apply (os : Finset Ipv6Route) : RouteCall → Finset Ipv6Route
  | .add r => insert r os
  | .remove r => os.erase r

/-- The calls that succeeded: the one that ends a failed sequence did not. -/
def succeeded (calls : List RouteCall) (done : Bool) : List RouteCall :=
  if done then calls else calls.dropLast

/-- A manager beside the routes it has added to the system and not removed. -/
structure RouteWorld where
  mgr : RouteManager
  os : Finset Ipv6Route

namespace RouteWorld

/-- An empty manager, before it added anything. -/
def init : RouteWorld := ⟨RouteManager.new, ∅⟩

/-- One call of the manager. -/
def step (w : RouteWorld) (op : RouteOp) : RouteWorld :=
  let (mgr, calls, done) := op.exec w.mgr
  ⟨mgr, (succeeded calls done).foldl RouteCall.apply w.os⟩

end RouteWorld

/-- The routes a manager tracks. -/
def RouteManager.tracked (mgr : RouteManager) : Finset Ipv6Route :=
  (mgr.installed.flatMap fun p => p.2).toFinset

/-- The number of backend calls a call makes when none fails. -/
def RouteOp.planned (mgr : RouteManager) : RouteOp → ℕ
  | .sync _ peerKey desired =>
      let current := mgr.routesOf peerKey
      (current.filter (· ∉ desired)).length +
        (RouteManager.missing (current.filter (· ∈ desired)) desired).length
  | .removePeer _ peerKey => (mgr.routesOf peerKey).length
  | .removeAll _ drained => (drained.flatMap fun p => p.2).length

/-- A call that fails leaves no trace: a removal does not fail, a `sync` fails at once
if at all. -/
def FailsCleanly (w : RouteWorld) (op : RouteOp) : Prop :=
  match op with
  | .sync ok _ _ => ok 0 = false ∨ ∀ i < op.planned w.mgr, ok i = true
  | .removePeer ok _ | .removeAll ok _ => ∀ i < op.planned w.mgr, ok i = true

instance (w : RouteWorld) : (op : RouteOp) → Decidable (FailsCleanly w op)
  | .sync ok p d => inferInstanceAs
      (Decidable (ok 0 = false ∨ ∀ i < (RouteOp.sync ok p d).planned w.mgr, ok i = true))
  | .removePeer ok p => inferInstanceAs
      (Decidable (∀ i < (RouteOp.removePeer ok p).planned w.mgr, ok i = true))
  | .removeAll ok d => inferInstanceAs
      (Decidable (∀ i < (RouteOp.removeAll ok d).planned w.mgr, ok i = true))

/-- The map is drained of what it holds, in some order. -/
def Drains (w : RouteWorld) : RouteOp → Prop
  | .removeAll _ drained => drained.Perm w.mgr.installed
  | _ => True

instance (w : RouteWorld) : (op : RouteOp) → Decidable (Drains w op)
  | .sync .. | .removePeer .. => .isTrue trivial
  | .removeAll _ drained => inferInstanceAs (Decidable (drained.Perm w.mgr.installed))

/-! ## Calls in order -/

theorem attempt_of_forall {ok : ℕ → Bool} {cs : List RouteCall}
    (h : ∀ i < cs.length, ok i = true) : attempt ok cs = (cs, true) := by
  induction cs generalizing ok with
  | nil => rfl
  | cons c cs ih =>
      have hrest : attempt (fun i => ok (i + 1)) cs = (cs, true) :=
        ih fun i hi => h (i + 1) (Nat.succ_lt_succ hi)
      rw [attempt, if_pos (h 0 (Nat.succ_pos _)), hrest]

/-- A sequence with a failure ends at its first one. -/
theorem attempt_of_failure {ok : ℕ → Bool} {cs : List RouteCall}
    (h : ¬∀ i < cs.length, ok i = true) :
    ∃ k < cs.length, ok k = false ∧ (∀ i < k, ok i = true) ∧
      attempt ok cs = (cs.take (k + 1), false) := by
  induction cs generalizing ok with
  | nil => exact absurd (fun i hi => absurd hi (Nat.not_lt_zero i)) h
  | cons c cs ih =>
      cases h0 : ok 0 with
      | false =>
          refine ⟨0, Nat.succ_pos _, h0, fun i hi => absurd hi (Nat.not_lt_zero i), ?_⟩
          rw [attempt, if_neg (by simp [h0])]
          rfl
      | true =>
          have hrest : ¬∀ i < cs.length, ok (i + 1) = true := by
            intro hall
            refine h fun i hi => ?_
            cases i with
            | zero => exact h0
            | succ i => exact hall i (Nat.lt_of_succ_lt_succ hi)
          obtain ⟨k, hk, hfail, hbefore, heq⟩ := ih hrest
          refine ⟨k + 1, Nat.succ_lt_succ hk, hfail, fun i hi => ?_, ?_⟩
          · cases i with
            | zero => exact h0
            | succ i => exact hbefore i (Nat.lt_of_succ_lt_succ hi)
          · rw [attempt, if_pos h0, heq]
            rfl

theorem succeeded_of_failure {cs : List RouteCall} {k : ℕ} (hk : k < cs.length) :
    succeeded (cs.take (k + 1)) false = cs.take k := by
  rw [succeeded, if_neg Bool.false_ne_true, List.dropLast_eq_take, List.length_take,
    Nat.min_eq_left hk, List.take_take, Nat.succ_sub_one, Nat.min_eq_left (Nat.le_succ k)]

/-- What a route's fate is in a sequence that does not both add and remove it. -/
theorem mem_foldl_apply {cs : List RouteCall} {r : Ipv6Route}
    (h : .add r ∈ cs → .remove r ∉ cs) (os : Finset Ipv6Route) :
    r ∈ cs.foldl RouteCall.apply os ↔ .add r ∈ cs ∨ r ∈ os ∧ .remove r ∉ cs := by
  induction cs generalizing os with
  | nil => simp
  | cons c cs ih =>
      have hrest : .add r ∈ cs → .remove r ∉ cs := fun ha hr =>
        h (List.mem_cons_of_mem _ ha) (List.mem_cons_of_mem _ hr)
      rw [List.foldl_cons, ih hrest]
      cases c with
      | add r' =>
          by_cases hr : r = r'
          · subst hr
            have hno : RouteCall.remove r ∉ cs := fun hmem =>
              h List.mem_cons_self (List.mem_cons_of_mem _ hmem)
            simp [RouteCall.apply, hno]
          · simp [RouteCall.apply, hr]
      | remove r' =>
          by_cases hr : r = r'
          · subst hr
            have hno : RouteCall.add r ∉ cs := fun hmem =>
              h (List.mem_cons_of_mem _ hmem) List.mem_cons_self
            simp [RouteCall.apply, hno]
          · simp [RouteCall.apply, hr]

namespace RouteManager

theorem mem_missing {keep desired : List Ipv6Route} {r : Ipv6Route} :
    r ∈ missing keep desired ↔ r ∈ desired ∧ r ∉ keep := by
  have hloop : ∀ acc : List Ipv6Route, (∀ x ∈ acc, x ∉ keep) →
      (r ∈ desired.foldl (fun acc r => if r ∈ keep ++ acc then acc else acc ++ [r]) acc ↔
        r ∈ acc ∨ r ∈ desired ∧ r ∉ keep) := by
    induction desired with
    | nil => simp
    | cons d desired ih =>
        intro acc hacc
        rw [List.foldl_cons]
        split_ifs with hd
        · rw [ih acc hacc]
          rcases List.mem_append.1 hd with hd | hd
          · grind
          · have := hacc d hd
            grind
        · have hnew : ∀ x ∈ acc ++ [d], x ∉ keep := by grind
          rw [ih _ hnew]
          grind
  simpa [missing] using hloop [] (by simp)

theorem nodup_missing (keep desired : List Ipv6Route) : (missing keep desired).Nodup := by
  have hloop : ∀ acc : List Ipv6Route, acc.Nodup →
      (desired.foldl (fun acc r => if r ∈ keep ++ acc then acc else acc ++ [r]) acc).Nodup := by
    induction desired with
    | nil => exact fun acc h => h
    | cons d desired ih =>
        intro acc hacc
        rw [List.foldl_cons]
        split_ifs with hd
        · exact ih acc hacc
        · refine ih _ (hacc.append (List.nodup_singleton d) ?_)
          rintro x hx hxd
          rw [List.mem_singleton.1 hxd] at hx
          exact hd (List.mem_append_right _ hx)
  exact hloop [] .nil

end RouteManager

/-! ## Who wants a route -/

/-- Some `sync` of the sequence wants the route for the peer. -/
def Wanted (ops : List RouteOp) (peerKey : String) (r : Ipv6Route) : Prop :=
  ∃ ok desired, .sync ok peerKey desired ∈ ops ∧ r ∈ desired

/-- Disjoint wishes: a route is wanted for one peer only. -/
theorem Wanted.unique {ops : List RouteOp} (hops : ops.Pairwise RouteOp.Apart) {p q : String}
    {r : Ipv6Route} (hp : Wanted ops p r) (hq : Wanted ops q r) : p = q := by
  obtain ⟨ok, desired, hmem, hr⟩ := hp
  obtain ⟨ok', desired', hmem', hr'⟩ := hq
  by_contra hne
  have hdiff : RouteOp.sync ok p desired ≠ .sync ok' q desired' := by
    rintro h
    injection h with _ h
    exact hne h
  rcases hops.forall hmem hmem' hdiff with h | h
  · exact hne h
  · exact h r hr hr'

/-- A memory whose entries belong to different peers, hold no route twice and hold only
what is wanted for their peer. -/
structure RouteManager.Tidy (ops : List RouteOp) (mgr : RouteManager) : Prop where
  keys : (mgr.installed.map Prod.fst).Nodup
  once : ∀ e ∈ mgr.installed, e.2.Nodup
  wanted : ∀ e ∈ mgr.installed, ∀ r ∈ e.2, Wanted ops e.1 r

namespace RouteManager

variable {ops : List RouteOp} {mgr : RouteManager} {peerKey : String} {r : Ipv6Route}

theorem mem_tracked : r ∈ mgr.tracked ↔ ∃ e ∈ mgr.installed, r ∈ e.2 := by
  rw [tracked, List.mem_toFinset, List.mem_flatMap]

theorem entry_of_mem_routesOf (h : r ∈ mgr.routesOf peerKey) :
    (peerKey, mgr.routesOf peerKey) ∈ mgr.installed := by
  rw [routesOf] at h ⊢
  cases hl : mgr.installed.lookup peerKey with
  | none => simp [hl] at h
  | some rs =>
      obtain ⟨before, after, hsplit, -⟩ := List.lookup_eq_some_iff.1 hl
      simp [hsplit]

/-- The entry of a peer is the one looked up. -/
theorem Tidy.routesOf_eq (h : mgr.Tidy ops) {e : String × List Ipv6Route}
    (he : e ∈ mgr.installed) : mgr.routesOf e.1 = e.2 := by
  obtain ⟨before, after, hsplit⟩ := List.append_of_mem he
  have hkeys := h.keys
  rw [hsplit, List.map_append, List.map_cons, List.nodup_append] at hkeys
  have hlookup : mgr.installed.lookup e.1 = some e.2 := by
    refine List.lookup_eq_some_iff.2 ⟨before, after, hsplit, fun p hp => ?_⟩
    have hne : p.1 ≠ e.1 := hkeys.2.2 p.1 (List.mem_map_of_mem hp) e.1 List.mem_cons_self
    simpa using fun heq : e.1 = p.1 => hne heq.symm
  rw [routesOf, hlookup]
  rfl

/-- A route is tracked for a peer or for another one. -/
theorem Tidy.mem_tracked_iff (h : mgr.Tidy ops) (peerKey : String) :
    r ∈ mgr.tracked ↔
      r ∈ mgr.routesOf peerKey ∨ ∃ e ∈ mgr.installed, e.1 ≠ peerKey ∧ r ∈ e.2 := by
  rw [mem_tracked]
  constructor
  · rintro ⟨e, he, hr⟩
    by_cases hkey : e.1 = peerKey
    · refine Or.inl ?_
      rwa [← hkey, h.routesOf_eq he]
    · exact Or.inr ⟨e, he, hkey, hr⟩
  · rintro (hr | ⟨e, he, -, hr⟩)
    · exact ⟨_, entry_of_mem_routesOf hr, hr⟩
    · exact ⟨e, he, hr⟩

theorem mem_tracked_setRoutes {routes : List Ipv6Route} :
    r ∈ (mgr.setRoutes peerKey routes).tracked ↔
      r ∈ routes ∨ ∃ e ∈ mgr.installed, e.1 ≠ peerKey ∧ r ∈ e.2 := by
  rw [mem_tracked]
  simp [setRoutes, and_assoc]

theorem Tidy.wanted_routesOf (h : mgr.Tidy ops) (hr : r ∈ mgr.routesOf peerKey) :
    Wanted ops peerKey r := h.wanted _ (entry_of_mem_routesOf hr) r hr

theorem Tidy.nodup_routesOf (h : mgr.Tidy ops) : (mgr.routesOf peerKey).Nodup := by
  by_cases hne : mgr.routesOf peerKey = []
  · rw [hne]
    exact .nil
  · obtain ⟨r, hr⟩ := List.exists_mem_of_ne_nil _ hne
    exact h.once _ (entry_of_mem_routesOf hr)

theorem tidy_new (ops : List RouteOp) : new.Tidy ops :=
  ⟨.nil, fun _ he => absurd he List.not_mem_nil, fun _ he => absurd he List.not_mem_nil⟩

theorem Tidy.filter (h : mgr.Tidy ops) (keep : String × List Ipv6Route → Bool) :
    Tidy ops ⟨mgr.installed.filter keep⟩ where
  keys := h.keys.sublist ((List.filter_sublist ..).map _)
  once e he := h.once e (List.mem_of_mem_filter he)
  wanted e he := h.wanted e (List.mem_of_mem_filter he)

theorem Tidy.setRoutes (h : mgr.Tidy ops) {routes : List Ipv6Route} (hnodup : routes.Nodup)
    (hwanted : ∀ r ∈ routes, Wanted ops peerKey r) :
    (mgr.setRoutes peerKey routes).Tidy ops := by
  have hrest := h.filter fun p => p.1 ≠ peerKey
  refine ⟨?_, ?_, ?_⟩
  · refine List.nodup_cons.2 ⟨fun hmem => ?_, hrest.keys⟩
    obtain ⟨e, he, hkey⟩ := List.mem_map.1 hmem
    have := (List.mem_filter.1 he).2
    simp [hkey] at this
  · intro e he
    rcases List.mem_cons.1 he with rfl | he
    · exact hnodup
    · exact hrest.once e he
  · intro e he
    rcases List.mem_cons.1 he with rfl | he
    · exact hwanted
    · exact hrest.wanted e he

end RouteManager

/-! ## One call -/

namespace RouteWorld

variable {ops : List RouteOp} {w : RouteWorld} {ok : ℕ → Bool} {peerKey : String}

/-- The backend calls `sync` sets out to make. -/
def syncCalls (mgr : RouteManager) (peerKey : String) (desired : List Ipv6Route) :
    List RouteCall :=
  ((mgr.routesOf peerKey).filter (· ∉ desired)).map .remove ++
    (RouteManager.missing ((mgr.routesOf peerKey).filter (· ∈ desired)) desired).map .add

theorem length_syncCalls (ok : ℕ → Bool) (mgr : RouteManager) (peerKey : String)
    (desired : List Ipv6Route) :
    (syncCalls mgr peerKey desired).length = (RouteOp.sync ok peerKey desired).planned mgr := by
  rw [syncCalls, List.length_append, List.length_map, List.length_map, RouteOp.planned]

variable {mgr : RouteManager} {desired : List Ipv6Route} {r : Ipv6Route}

theorem add_mem_syncCalls :
    .add r ∈ syncCalls mgr peerKey desired ↔ r ∈ desired ∧ r ∉ mgr.routesOf peerKey := by
  simp only [syncCalls, List.mem_append, List.mem_map, RouteManager.mem_missing, List.mem_filter,
    RouteCall.add.injEq, reduceCtorEq, and_false, exists_false, false_or, exists_eq_right,
    decide_eq_true_eq, not_and]
  tauto

theorem remove_mem_syncCalls :
    .remove r ∈ syncCalls mgr peerKey desired ↔ r ∈ mgr.routesOf peerKey ∧ r ∉ desired := by
  simp [syncCalls]

/-- The routes of the peer after a `sync` without a failure. -/
theorem mem_synced :
    r ∈ (mgr.routesOf peerKey).filter (· ∈ desired) ++
        RouteManager.missing ((mgr.routesOf peerKey).filter (· ∈ desired)) desired ↔
      r ∈ desired := by
  rw [List.mem_append, RouteManager.mem_missing, List.mem_filter, decide_eq_true_eq]
  tauto

theorem sync_of_forall (h : ∀ i < (RouteOp.sync ok peerKey desired).planned w.mgr, ok i = true) :
    w.step (.sync ok peerKey desired) =
      ⟨w.mgr.setRoutes peerKey ((w.mgr.routesOf peerKey).filter (· ∈ desired) ++
          RouteManager.missing ((w.mgr.routesOf peerKey).filter (· ∈ desired)) desired),
        (syncCalls w.mgr peerKey desired).foldl RouteCall.apply w.os⟩ := by
  rw [← length_syncCalls] at h
  have hall := attempt_of_forall h
  rw [syncCalls] at hall
  simp only [step, RouteOp.exec, RouteManager.sync, hall, succeeded, if_true, syncCalls]

/-- A `sync` that fails keeps its memory, whatever it has done by then. -/
theorem sync_of_failure
    (h : ¬∀ i < (RouteOp.sync ok peerKey desired).planned w.mgr, ok i = true) :
    ∃ k < (syncCalls w.mgr peerKey desired).length, ok k = false ∧ (∀ i < k, ok i = true) ∧
      w.step (.sync ok peerKey desired) =
        ⟨w.mgr.setRoutes peerKey (w.mgr.routesOf peerKey),
          ((syncCalls w.mgr peerKey desired).take k).foldl RouteCall.apply w.os⟩ := by
  rw [← length_syncCalls] at h
  obtain ⟨k, hk, hfail, hbefore, heq⟩ := attempt_of_failure h
  refine ⟨k, hk, hfail, hbefore, ?_⟩
  have hdone := succeeded_of_failure hk
  rw [syncCalls] at heq hdone
  simp only [step, RouteOp.exec, RouteManager.sync, heq, hdone, syncCalls, if_neg,
    Bool.false_eq_true, not_false_eq_true]

/-- What is held for another peer is neither wanted for this one nor held for it. -/
theorem not_mem_of_held_elsewhere (hops : ops.Pairwise RouteOp.Apart) (htidy : w.mgr.Tidy ops)
    (hmem : .sync ok peerKey desired ∈ ops)
    (h : ∃ e ∈ w.mgr.installed, e.1 ≠ peerKey ∧ r ∈ e.2) :
    r ∉ desired ∧ r ∉ w.mgr.routesOf peerKey := by
  obtain ⟨e, he, hkey, hr⟩ := h
  refine ⟨fun hd => hkey ?_, fun hcur => hkey ?_⟩
  · exact (htidy.wanted e he r hr).unique hops ⟨ok, desired, hmem, hd⟩
  · exact (htidy.wanted e he r hr).unique hops (htidy.wanted_routesOf hcur)

/-- A `sync` without a failure leaves memory and system in agreement. -/
theorem tracked_sync_of_forall (hops : ops.Pairwise RouteOp.Apart) (htidy : w.mgr.Tidy ops)
    (hagree : w.mgr.tracked = w.os) (hmem : .sync ok peerKey desired ∈ ops)
    (hall : ∀ i < (RouteOp.sync ok peerKey desired).planned w.mgr, ok i = true) :
    (w.step (.sync ok peerKey desired)).mgr.tracked = (w.step (.sync ok peerKey desired)).os := by
  rw [sync_of_forall hall]
  ext r
  have hnot : .add r ∈ syncCalls w.mgr peerKey desired →
      .remove r ∉ syncCalls w.mgr peerKey desired := by
    rw [add_mem_syncCalls, remove_mem_syncCalls]
    exact fun ha hr => hr.2 ha.1
  rw [RouteManager.mem_tracked_setRoutes, mem_synced, mem_foldl_apply hnot, add_mem_syncCalls,
    remove_mem_syncCalls, ← hagree, htidy.mem_tracked_iff peerKey]
  have hother := not_mem_of_held_elsewhere (r := r) hops htidy hmem
  generalize (∃ e ∈ w.mgr.installed, e.1 ≠ peerKey ∧ r ∈ e.2) = other at hother ⊢
  tauto

/-- A call of a `sync` that went through shows in the system: its route tells the two apart. -/
theorem foldl_take_ne (hops : ops.Pairwise RouteOp.Apart) (htidy : w.mgr.Tidy ops)
    (hagree : w.mgr.tracked = w.os) (hmem : .sync ok peerKey desired ∈ ops) {n : ℕ}
    {c : RouteCall} (hc : c ∈ (syncCalls w.mgr peerKey desired).take n) :
    ((syncCalls w.mgr peerKey desired).take n).foldl RouteCall.apply w.os ≠ w.os := by
  intro hos
  have hsub := List.mem_of_mem_take hc
  cases c with
  | add r =>
      obtain ⟨hd, hcur⟩ := add_mem_syncCalls.1 hsub
      have hos' : r ∈ w.os := by
        rw [← hos, mem_foldl_apply fun _ hr => (remove_mem_syncCalls.1
          (List.mem_of_mem_take hr)).2 hd]
        exact Or.inl hc
      rw [← hagree, htidy.mem_tracked_iff peerKey] at hos'
      exact hos'.elim hcur fun h => (not_mem_of_held_elsewhere hops htidy hmem h).1 hd
  | remove r =>
      obtain ⟨hcur, hd⟩ := remove_mem_syncCalls.1 hsub
      have hos' : r ∈ w.os := by
        rw [← hagree, htidy.mem_tracked_iff peerKey]
        exact Or.inl hcur
      rw [← hos, mem_foldl_apply fun ha => absurd (add_mem_syncCalls.1
        (List.mem_of_mem_take ha)).1 hd] at hos'
      rcases hos' with ha | ⟨-, hr⟩
      · exact hd (add_mem_syncCalls.1 (List.mem_of_mem_take ha)).1
      · exact hr hc

/-- **A `sync` leaves memory and system in agreement exactly when it fails at once or
not at all.** -/
theorem sync_agrees_iff (hops : ops.Pairwise RouteOp.Apart) (htidy : w.mgr.Tidy ops)
    (hagree : w.mgr.tracked = w.os) (hmem : .sync ok peerKey desired ∈ ops) :
    (w.step (.sync ok peerKey desired)).mgr.tracked = (w.step (.sync ok peerKey desired)).os ↔
      FailsCleanly w (.sync ok peerKey desired) := by
  by_cases hall : ∀ i < (RouteOp.sync ok peerKey desired).planned w.mgr, ok i = true
  · exact iff_of_true (tracked_sync_of_forall hops htidy hagree hmem hall) (Or.inr hall)
  · obtain ⟨k, hk, hfail, hbefore, heq⟩ := sync_of_failure hall
    have hsame : (w.mgr.setRoutes peerKey (w.mgr.routesOf peerKey)).tracked = w.os := by
      ext r
      rw [RouteManager.mem_tracked_setRoutes, ← hagree, htidy.mem_tracked_iff peerKey]
    rw [heq, hsame]
    cases k with
    | zero => exact iff_of_true rfl (Or.inl hfail)
    | succ k =>
        -- the first backend call went through
        have hfirst : (syncCalls w.mgr peerKey desired)[0] ∈
            (syncCalls w.mgr peerKey desired).take (k + 1) :=
          List.mem_take_iff_getElem.2 ⟨0, by omega, rfl⟩
        refine iff_of_false (fun hos => ?_) ?_
        · exact foldl_take_ne hops htidy hagree hmem hfirst hos.symm
        · rintro (h0 | h)
          · rw [hbefore 0 (Nat.succ_pos _)] at h0
            exact Bool.noConfusion h0
          · exact hall h

/-- **Removing routes after their memory is gone agrees with it exactly when nothing
fails.** -/
theorem removal_agrees_iff {rs : List Ipv6Route} (hnodup : rs.Nodup) {os left : Finset Ipv6Route}
    (hsub : ∀ r ∈ rs, r ∈ os) (hleft : ∀ r, r ∈ left ↔ r ∈ os ∧ r ∉ rs) :
    left = (succeeded (attempt ok (rs.map .remove)).1 (attempt ok (rs.map .remove)).2).foldl
        RouteCall.apply os ↔ ∀ i < rs.length, ok i = true := by
  have hnoAdd : ∀ n r, RouteCall.add r ∉ (rs.map RouteCall.remove).take n := by
    intro n r h
    obtain ⟨x, -, hx⟩ := List.mem_map.1 (List.mem_of_mem_take h)
    exact RouteCall.noConfusion hx
  by_cases hall : ∀ i < rs.length, ok i = true
  · refine iff_of_true ?_ hall
    rw [attempt_of_forall (by simpa using hall), succeeded, if_pos rfl]
    ext r
    have hno := hnoAdd rs.length r
    rw [List.take_of_length_le (by simp)] at hno
    rw [hleft, mem_foldl_apply fun h => absurd h hno]
    simp
  · refine iff_of_false (fun hos => ?_) hall
    have hfail : ¬∀ i < (rs.map RouteCall.remove).length, ok i = true := by
      rwa [List.length_map]
    obtain ⟨k, hk, -, -, heq⟩ := attempt_of_failure hfail
    rw [heq, succeeded_of_failure hk] at hos
    rw [List.length_map] at hk
    -- the route whose removal failed stays
    have hmem : rs[k] ∈ rs := List.getElem_mem hk
    have hstays : rs[k] ∈ left := by
      rw [hos, mem_foldl_apply fun h => absurd h (hnoAdd k _)]
      refine Or.inr ⟨hsub _ hmem, fun hr => ?_⟩
      rw [← List.map_take, List.mem_map] at hr
      obtain ⟨x, hx, heq⟩ := hr
      injection heq with heq
      rw [heq] at hx
      obtain ⟨i, hi, hget⟩ := List.mem_take_iff_getElem.1 hx
      have := (hnodup.getElem_inj_iff).1 hget
      omega
    exact ((hleft _).1 hstays).2 hmem

theorem removePeer_agrees_iff (hops : ops.Pairwise RouteOp.Apart) (htidy : w.mgr.Tidy ops)
    (hagree : w.mgr.tracked = w.os) :
    (w.step (.removePeer ok peerKey)).mgr.tracked = (w.step (.removePeer ok peerKey)).os ↔
      FailsCleanly w (.removePeer ok peerKey) := by
  refine removal_agrees_iff htidy.nodup_routesOf (fun r hr => ?_) fun r => ?_
  · rw [← hagree, htidy.mem_tracked_iff peerKey]
    exact Or.inl hr
  · have hforgotten : r ∈ (w.step (.removePeer ok peerKey)).mgr.tracked ↔
        ∃ e ∈ w.mgr.installed, e.1 ≠ peerKey ∧ r ∈ e.2 := by
      rw [RouteManager.mem_tracked]
      simp [step, RouteOp.exec, RouteManager.removePeer, and_assoc]
    rw [hforgotten, ← hagree, htidy.mem_tracked_iff peerKey]
    constructor
    · rintro ⟨e, he, hkey, hr⟩
      refine ⟨Or.inr ⟨e, he, hkey, hr⟩, fun hcur => hkey ?_⟩
      exact (htidy.wanted e he r hr).unique hops (htidy.wanted_routesOf hcur)
    · rintro ⟨hr | hr, hnot⟩
      · exact absurd hr hnot
      · exact hr

theorem removeAll_agrees_iff (hops : ops.Pairwise RouteOp.Apart) (htidy : w.mgr.Tidy ops)
    (hagree : w.mgr.tracked = w.os) {drained : List (String × List Ipv6Route)}
    (hdrain : drained.Perm w.mgr.installed) :
    (w.step (.removeAll ok drained)).mgr.tracked = (w.step (.removeAll ok drained)).os ↔
      FailsCleanly w (.removeAll ok drained) := by
  have hmem : ∀ r, r ∈ drained.flatMap (fun p => p.2) ↔ r ∈ w.os := by
    intro r
    rw [← hagree, RouteManager.mem_tracked, List.mem_flatMap]
    exact exists_congr fun e => and_congr_left fun _ => hdrain.mem_iff
  have hnodup : (drained.flatMap fun p => p.2).Nodup := by
    refine List.nodup_flatMap.2 ⟨fun e he => htidy.once e (hdrain.mem_iff.1 he), ?_⟩
    have hkeys : drained.Pairwise fun e e' => e.1 ≠ e'.1 :=
      List.pairwise_map.1 ((hdrain.map Prod.fst).nodup_iff.2 htidy.keys)
    refine hkeys.imp_of_mem fun {e e'} he he' hne r hr hr' => hne ?_
    exact (htidy.wanted e (hdrain.mem_iff.1 he) r hr).unique hops
      (htidy.wanted e' (hdrain.mem_iff.1 he') r hr')
  refine removal_agrees_iff hnodup (fun r => (hmem r).1) fun r => ?_
  have hempty : r ∉ (w.step (.removeAll ok drained)).mgr.tracked := by
    simp [step, RouteOp.exec, RouteManager.removeAll, RouteManager.tracked, RouteManager.new]
  rw [hmem]
  tauto

/-- Every call keeps the memory tidy, also when it fails. -/
theorem tidy_step (htidy : w.mgr.Tidy ops) {op : RouteOp} (hmem : op ∈ ops) :
    (w.step op).mgr.Tidy ops := by
  cases op with
  | sync ok peerKey desired =>
      by_cases hall : ∀ i < (RouteOp.sync ok peerKey desired).planned w.mgr, ok i = true
      · rw [sync_of_forall hall]
        refine htidy.setRoutes ?_ fun r hr => ⟨ok, desired, hmem, mem_synced.1 hr⟩
        refine (htidy.nodup_routesOf.filter _).append (RouteManager.nodup_missing ..) ?_
        intro r hr hr'
        exact (RouteManager.mem_missing.1 hr').2 hr
      · obtain ⟨k, -, -, -, heq⟩ := sync_of_failure hall
        rw [heq]
        exact htidy.setRoutes htidy.nodup_routesOf fun r => htidy.wanted_routesOf
  | removePeer ok peerKey => exact htidy.filter _
  | removeAll ok drained => exact RouteManager.tidy_new ops

/-- A call leaves memory and system in agreement exactly when it fails cleanly. -/
theorem step_agrees_iff (hops : ops.Pairwise RouteOp.Apart) (htidy : w.mgr.Tidy ops)
    (hagree : w.mgr.tracked = w.os) {op : RouteOp} (hmem : op ∈ ops) (hdrain : Drains w op) :
    (w.step op).mgr.tracked = (w.step op).os ↔ FailsCleanly w op := by
  cases op with
  | sync ok peerKey desired => exact sync_agrees_iff hops htidy hagree hmem
  | removePeer ok peerKey => exact removePeer_agrees_iff hops htidy hagree
  | removeAll ok drained => exact removeAll_agrees_iff hops htidy hagree hdrain

end RouteWorld

/-! ## Runs -/

/-- **When tracking equals the routing table**: along a run of the manager, with wishes
disjoint between peers, after every call the tracked routes are those added to the system
and not removed exactly when no removal fails and every `sync` fails, if it does, at its
first backend call. -/
theorem tracked_eq_os_iff {ops : List RouteOp} (hops : ops.Pairwise RouteOp.Apart)
    (hdrain : Along RouteWorld.step Drains .init ops) :
    (∀ done, done <+: ops → (run RouteWorld.step .init done).mgr.tracked =
        (run RouteWorld.step .init done).os) ↔
      Along RouteWorld.step FailsCleanly .init ops := by
  have hside : Along RouteWorld.step (fun w op => op ∈ ops ∧ Drains w op) .init ops :=
    (Along.of_forall (fun _ h => h) _).and hdrain
  have hinit : RouteWorld.init.mgr.Tidy ops ∧ RouteWorld.init.mgr.tracked = RouteWorld.init.os :=
    ⟨RouteManager.tidy_new ops, rfl⟩
  refine (Along.iff_forall_prefix_of
    (P := fun w => w.mgr.Tidy ops ∧ w.mgr.tracked = w.os) (Q := fun w => w.mgr.tracked = w.os)
    (fun w op h hop hclean => ?_) (fun w h => h.2) (fun w op h hop hdirty => ?_)
    hinit hside).symm
  · exact ⟨RouteWorld.tidy_step h.1 hop.1,
      (RouteWorld.step_agrees_iff hops h.1 h.2 hop.1 hop.2).2 hclean⟩
  · exact fun hagree => hdirty ((RouteWorld.step_agrees_iff hops h.1 h.2 hop.1 hop.2).1 hagree)

theorem inRange_docRoute : 1 ≤ 64 ∧ 64 ≤ 128 := by decide

/-- A documentation prefix of length 64. -/
def docRoute (subnet : UInt8) : Ipv6Route where
  pre := ⟨⟨[0x20, 0x01, 0x0d, 0xb8, 0, 0, 0, subnet, 0, 0, 0, 0, 0, 0, 0, 0], rfl⟩⟩
  prefixLen := 64
  inRange := inRange_docRoute
  aligned := by
    refine congrArg Ipv6Addr.mk (Subtype.ext ?_)
    simpa [mask, maskByte, List.range_succ] using ⟨rfl, rfl, rfl, rfl, UInt8.and_neg_one⟩

/-- Two peers, a `sync` that fails at once and is retried, a removal and a shutdown: memory
and system agree throughout. -/
def cleanRouteOps : List RouteOp :=
  [.sync (fun _ => true) "a" [docRoute 1, docRoute 2], .sync (fun _ => false) "b" [docRoute 3],
    .sync (fun _ => true) "b" [docRoute 3], .sync (fun _ => true) "a" [docRoute 2, docRoute 4],
    .removePeer (fun _ => true) "b", .removeAll (fun _ => true) [("a", [docRoute 2, docRoute 4])]]

theorem tracked_eq_os_clean :
    (run RouteWorld.step .init (cleanRouteOps.take 4)).mgr.tracked =
        {docRoute 2, docRoute 3, docRoute 4} ∧
      (run RouteWorld.step .init (cleanRouteOps.take 4)).os =
        {docRoute 2, docRoute 3, docRoute 4} := by
  have hagree := (tracked_eq_os_iff (by decide +kernel) (by decide +kernel)).2
    (by decide +kernel) (cleanRouteOps.take 4) (List.take_prefix 4 cleanRouteOps)
  have htracked : (run RouteWorld.step .init (cleanRouteOps.take 4)).mgr.tracked =
      {docRoute 2, docRoute 3, docRoute 4} := by
    decide +kernel
  exact ⟨htracked, hagree ▸ htracked⟩

/-- **A `sync` that fails halfway forgets a route**: its first `add_route` succeeds, its second
fails, and the first route is in the system but not in the memory. -/
theorem route_forgotten :
    let ops : List RouteOp := [.sync (fun i => i == 0) "a" [docRoute 1, docRoute 2]]
    ops.Pairwise RouteOp.Apart ∧ Along RouteWorld.step Drains .init ops ∧
      (run RouteWorld.step .init ops).os = {docRoute 1} ∧
      (run RouteWorld.step .init ops).mgr.tracked = ∅ := by
  decide +kernel

end Hextet
