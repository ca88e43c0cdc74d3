/-
# The LAN table over its whole life

`LanTable::record` and `LanTable::prune` in `crates/engine/src/lan.rs`, and the rules for
received announcements in `docs/protocol/lan-discovery.md`.  The table is written by these
two calls alone, so its life is a run of them (`LanCall`).  It never tracks more than
`MAX_TRACKED` nodes, and a full table refuses a new node rather than drop one that it
heard within `ENTRY_TTL`: what strangers announce never costs a node its entry, and a node
that is tracked is never refused for lack of room (`lanTable_run`).
-/

import Hextet.Engine.Lan
import Hextet.Lib.Run

namespace Hextet

open Lib

/-- A call that writes the table. -/
inductive LanCall where
  | record (peerKey : String) (endpoints : List SocketAddrV6) (seq : UInt64) (nowUnix : ℕ)
  | prune (nowUnix : ℕ)

/-- The call announces a node. -/
def LanCall.Announces (peerKey : String) : LanCall → Prop
  | .record key _ _ _ => key = peerKey
  | .prune _ => False

/-- The time of a call. -/
def LanCall.nowUnix : LanCall → ℕ
  | .record _ _ _ nowUnix => nowUnix
  | .prune nowUnix => nowUnix

namespace LanTable

/-- The table after a call. -/
def apply (t : LanTable) : LanCall → LanTable
  | .record peerKey endpoints seq nowUnix => (t.record peerKey endpoints seq nowUnix).2
  | .prune nowUnix => t.prune nowUnix

/-- The table after some calls. -/
abbrev after (t : LanTable) (calls : List LanCall) : LanTable := run apply t calls

/-! ### The number of nodes -/

theorem tracked_prune_le (t : LanTable) (nowUnix : ℕ) : (t.prune nowUnix).tracked ≤ t.tracked :=
  List.length_filter_le ..

theorem tracked_setEntry_le (t : LanTable) (key : String) (e : LanEntry) :
    (t.setEntry key e).tracked ≤ t.tracked + 1 := by
  rw [tracked, setEntry, List.length_cons]
  exact Nat.succ_le_succ (List.length_filter_le ..)

/-- Writing the entry of a node that is tracked adds none. -/
theorem tracked_setEntry_le_of_some {t : LanTable} {key : String} {e : LanEntry}
    (h : t.entry key = some e) (e' : LanEntry) : (t.setEntry key e').tracked ≤ t.tracked := by
  obtain ⟨before, after, hsplit, -⟩ := List.lookup_eq_some_iff.1 h
  rw [tracked, setEntry, List.length_cons]
  refine List.length_filter_lt_length_iff_exists.2 ⟨(key, e), ?_, by simp⟩
  rw [hsplit]
  simp

/-- **A call keeps the table within its bound.** -/
theorem tracked_apply_le {t : LanTable} (h : t.tracked ≤ maxTracked) (call : LanCall) :
    (t.apply call).tracked ≤ maxTracked := by
  cases call with
  | prune nowUnix => exact (t.tracked_prune_le nowUnix).trans h
  | record key endpoints seq nowUnix =>
      rw [apply, record_snd]
      have hroom : (t.room key nowUnix).tracked ≤ maxTracked := by
        unfold room
        split_ifs
        · exact (t.tracked_prune_le nowUnix).trans h
        · exact h
      split_ifs with haccepts
      · cases hentry : t.entry key with
        | some e =>
            rw [room_of_some hentry]
            exact (tracked_setEntry_le_of_some hentry _).trans h
        | none =>
            rw [accepts, hentry] at haccepts
            exact (tracked_setEntry_le _ _ _).trans (of_decide_eq_true haccepts)
      · exact hroom

theorem tracked_after_le (calls : List LanCall) : (new.after calls).tracked ≤ maxTracked :=
  run_invariant (P := fun t : LanTable => t.tracked ≤ maxTracked)
    (fun _ call h => tracked_apply_le h call) (Nat.zero_le _) calls

/-! ### What happens to an entry -/

section

variable {t : LanTable} {key : String} {e : LanEntry}

/-- A call that is not about a node leaves its entry until that is past its time. -/
theorem entry_apply_of_kept (h : t.entry key = some e) {call : LanCall}
    (hother : ¬call.Announces key) (hkept : kept call.nowUnix e = true) :
    (t.apply call).entry key = some e := by
  cases call with
  | prune nowUnix =>
      rw [apply, entry_prune, h, Option.filter_some]
      exact if_pos hkept
  | record k endpoints seq nowUnix =>
      rw [apply, entry_record, if_neg fun hk => hother hk.2.symm]
      exact entry_room h hkept

/-- **However many others announce themselves, an entry stays until it is past its
time.** -/
theorem entry_after_of_kept (h : t.entry key = some e) {calls : List LanCall}
    (hcalls : ∀ call ∈ calls, ¬call.Announces key ∧ kept call.nowUnix e = true) :
    (t.after calls).entry key = some e :=
  Along.invariant (P := fun t : LanTable => t.entry key = some e)
    (fun _ _ ht hcall => entry_apply_of_kept ht hcall.1 hcall.2) h (Along.of_forall hcalls t)

end

/-- An announcement is refused: it is older than the entry of its node, or the node is new
and finds no room. -/
def Refuses (t : LanTable) (peerKey : String) (seq : UInt64) (nowUnix : ℕ) : Prop :=
  (∃ e, t.entry peerKey = some e ∧ seq < e.seq) ∨
    (t.entry peerKey = none ∧ maxTracked ≤ (t.room peerKey nowUnix).tracked)

theorem refuses_iff (t : LanTable) (key : String) (seq : UInt64) (now : ℕ) :
    t.Refuses key seq now ↔ t.accepts key seq now = false := by
  unfold Refuses accepts
  cases t.entry key with
  | some e => simp
  | none => simp

/-- **What `record` returns**: whether its node is new or has other endpoints now. -/
theorem record_fst_iff (t : LanTable) (key : String) (endpoints : List SocketAddrV6)
    (seq : UInt64) (now : ℕ) :
    let r := t.record key endpoints seq now
    r.1 = true ↔ (t.entry key = none ∧ r.2.entry key ≠ none) ∨
      ∃ e e', t.entry key = some e ∧ r.2.entry key = some e' ∧ e'.endpoints ≠ e.endpoints := by
  intro r
  simp only [r, record_fst, entry_record, and_true]
  by_cases haccepts : t.accepts key seq now = true
  · rw [haccepts]
    cases t.entry key with
    | none => simp
    | some e => simpa using ne_comm
  · rw [Bool.eq_false_iff.2 haccepts]
    cases hentry : t.entry key with
    | none =>
        have hroom : (t.room key now).entry key = none := by
          by_contra hne
          obtain ⟨e, he⟩ := Option.ne_none_iff_exists'.1 hne
          rw [entry_of_room he] at hentry
          cases hentry
        simp [hroom]
    | some e => simp [room_of_some hentry, hentry]

end LanTable

/-- **The LAN table over every run of its calls.**  At most 64 nodes are tracked.  The
entry of a node stays until it is past its time, whatever other nodes announce; an
announcement of a tracked node that is not older is taken, full table or not; `record`
returns whether the node is new or its endpoints changed; and an announcement that is
refused adds nothing and leaves every entry that is within its time as it was. -/
theorem lanTable_run (calls : List LanCall) :
    let t := LanTable.new.after calls
    t.tracked ≤ 64 ∧
      (∀ key e later, t.entry key = some e →
        (∀ call ∈ later, ¬call.Announces key ∧ call.nowUnix - e.lastSeenUnix ≤ 60) →
        (t.after later).entry key = some e) ∧
      ∀ key endpoints seq now,
        let r := t.record key endpoints seq now
        (∀ e, t.entry key = some e → e.seq ≤ seq →
          r.2.entry key = some ⟨endpoints, seq, now⟩) ∧
        (r.1 = true ↔ (t.entry key = none ∧ r.2.entry key ≠ none) ∨
          ∃ e e', t.entry key = some e ∧ r.2.entry key = some e' ∧ e'.endpoints ≠ e.endpoints) ∧
        (t.Refuses key seq now → r.1 = false ∧
          ∀ k e, (r.2.entry k = some e → t.entry k = some e) ∧
            (t.entry k = some e → now - e.lastSeenUnix ≤ 60 → r.2.entry k = some e)) := by
  intro t
  refine ⟨LanTable.tracked_after_le calls, fun key e later h hlater => ?_, ?_⟩
  · refine LanTable.entry_after_of_kept h fun call hcall => ⟨(hlater call hcall).1, ?_⟩
    exact decide_eq_true (hlater call hcall).2
  · intro key endpoints seq now r
    refine ⟨fun e he hseq => ?_, LanTable.record_fst_iff t key endpoints seq now,
      fun hrefuses => ?_⟩
    · have haccepts : t.accepts key seq now = true := by
        rw [LanTable.accepts, he]
        simpa using hseq
      rw [LanTable.entry_record, if_pos ⟨haccepts, rfl⟩]
    · have haccepts := (LanTable.refuses_iff t key seq now).1 hrefuses
      have hentry : ∀ k, r.2.entry k = (t.room key now).entry k := by
        intro k
        rw [LanTable.entry_record, if_neg]
        simp [haccepts]
      refine ⟨by rw [LanTable.record_fst, haccepts, Bool.false_and], fun k e => ⟨fun h => ?_, ?_⟩⟩
      · rw [hentry] at h
        exact LanTable.entry_of_room h
      · intro h hkept
        rw [hentry]
        exact LanTable.entry_room h (decide_eq_true hkept)

end Hextet
