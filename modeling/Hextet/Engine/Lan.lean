/-
# The LAN task

`crates/engine/src/lan.rs`.  The task keeps a table of the nodes that it hears on the
LAN, with their endpoints and the time they were last heard, and tells the daemon when
the endpoints of a node change.  An entry that was not refreshed for `ENTRY_TTL` is
dropped at the next announcement of our own.

A beacon is refused, or it is taken, and then the entry of its node is the beacon's
(`LanTable.entry_record`) and the daemon is told unless the endpoints were there already
(`LanTable.record_eq`).
-/

import Hextet.Core.Beacon
import Hextet.Engine.Candidates
import Hextet.Lib.KeyMap

namespace Hextet

open Lib

variable {C : Crypto}

/-- `ANNOUNCE_INTERVAL`: 5 s. -/
def announceInterval : ℕ := 5

/-- `ENTRY_TTL`: 60 s. -/
def entryTtl : ℕ := 60

/-- `MAX_TRACKED`. -/
def maxTracked : ℕ := 64

/-- `SEQ_SKEW_TOLERANCE_SECS`. -/
def seqSkewToleranceSecs : ℕ := 300

/-- `Entry` of the LAN table. -/
structure LanEntry where
  endpoints : List SocketAddrV6
  seq : UInt64
  lastSeenUnix : ℕ
  deriving DecidableEq

/-- `LanTable`: at most one entry for a node. -/
structure LanTable where
  entries : List (String × LanEntry)
  nodup : (entries.map Prod.fst).Nodup

namespace LanTable

/-- `LanTable::new`. -/
def new : LanTable := ⟨[], .nil⟩

/-- `LanTable::tracked`. -/
def tracked (t : LanTable) : ℕ := t.entries.length

/-- The entry of a node. -/
def entry (t : LanTable) (peerKey : String) : Option LanEntry := t.entries.lookup peerKey

/-- `LanTable::endpoints_for`. -/
def endpointsFor (t : LanTable) (peerKey : String) : List SocketAddrV6 :=
  ((t.entry peerKey).map LanEntry.endpoints).getD []

/-- `retain`. -/
def retain (t : LanTable) (p : String × LanEntry → Bool) : LanTable :=
  ⟨t.entries.filter p, t.nodup.sublist (List.filter_sublist.map Prod.fst)⟩

/-- The entry is as old as `prune` allows at a time. -/
def kept (nowUnix : ℕ) (e : LanEntry) : Bool := nowUnix - e.lastSeenUnix ≤ entryTtl

/-- `LanTable::prune`. -/
def prune (t : LanTable) (nowUnix : ℕ) : LanTable := t.retain fun x => kept nowUnix x.2

/-- Write the entry of a node. -/
def setEntry (t : LanTable) (peerKey : String) (e : LanEntry) : LanTable where
  entries := (peerKey, e) :: t.entries.filter fun x => x.1 ≠ peerKey
  nodup := by
    rw [List.map_cons, List.nodup_cons]
    refine ⟨fun h => ?_, t.nodup.sublist (List.filter_sublist.map Prod.fst)⟩
    obtain ⟨x, hx, hk⟩ := List.mem_map.1 h
    simpa [hk] using (List.mem_filter.1 hx).2

/-- `LanTable::record`: whether the endpoints changed, and the table. -/
def record (t : LanTable) (peerKey : String) (endpoints : List SocketAddrV6) (seq : UInt64)
    (nowUnix : ℕ) : Bool × LanTable :=
  match t.entry peerKey with
  | some e =>
      if seq < e.seq then (false, t)
      else (decide (e.endpoints ≠ endpoints), t.setEntry peerKey ⟨endpoints, seq, nowUnix⟩)
  | none =>
      let t := if maxTracked ≤ t.tracked then t.prune nowUnix else t
      if maxTracked ≤ t.tracked then (false, t)
      else (true, t.setEntry peerKey ⟨endpoints, seq, nowUnix⟩)

end LanTable

/-- `u64::abs_diff`. -/
def absDiff (a b : ℕ) : ℕ := (a - b) + (b - a)

/-- The part of `LanConfig` that `handle_datagram` reads. -/
structure LanConfig (C : Crypto) where
  ownPublicKey : NodePublicKey C
  lanKey : Bytes 32

namespace Lan

/-- `handle_datagram` up to the table: the beacon, if it is authentic, of another node,
of about now and with an endpoint. -/
def opened (hmac : Hmac) (cfg : LanConfig C) (buf : List UInt8) (nowUnix : ℕ) :
    Option (Beacon C) :=
  match Beacon.decode C hmac cfg.lanKey buf with
  | .ok beacon =>
      if beacon.nodePublicKey.toBase64 = cfg.ownPublicKey.toBase64 then none
      else if absDiff beacon.seq.toNat nowUnix > seqSkewToleranceSecs then none
      else if beacon.endpoints.isEmpty then none
      else some beacon
  | _ => none

/-- `handle_datagram`: the update for the daemon, and the table. -/
def handleDatagram (hmac : Hmac) (cfg : LanConfig C) (table : LanTable) (buf : List UInt8)
    (nowUnix : ℕ) : Option DiscoveredEndpoints × LanTable :=
  match opened hmac cfg buf nowUnix with
  | none => (none, table)
  | some beacon =>
      let peerKey := beacon.nodePublicKey.toBase64
      let (changed, table) := table.record peerKey beacon.endpoints beacon.seq nowUnix
      (if changed then some ⟨.lan, peerKey, beacon.endpoints⟩ else none, table)

/-- A beacon that is let through has an endpoint. -/
theorem endpoints_ne_nil {hmac : Hmac} {cfg : LanConfig C} {buf : List UInt8} {nowUnix : ℕ}
    {beacon : Beacon C} (h : opened hmac cfg buf nowUnix = some beacon) :
    beacon.endpoints ≠ [] := by
  unfold opened at h
  split at h
  · split_ifs at h with hown hskew hempty
    obtain rfl := Option.some.inj h
    simpa using hempty
  · cases h

end Lan

/-! ### What the operations do to the entries -/

namespace LanTable

/-- `prune` keeps the entries that are recent enough. -/
theorem entry_prune (t : LanTable) (nowUnix : ℕ) (k : String) :
    (t.prune nowUnix).entry k = (t.entry k).filter (kept nowUnix) :=
  lookup_filter t.nodup _ k

theorem entry_setEntry (t : LanTable) (key : String) (e : LanEntry) (k : String) :
    (t.setEntry key e).entry k = if k = key then some e else t.entry k :=
  lookup_cons_filter_ne t.entries key e k

/-- `record` makes room: the table is full and the node is not in it. -/
def prunes (t : LanTable) (peerKey : String) : Bool :=
  (t.entry peerKey).isNone && decide (maxTracked ≤ t.tracked)

/-- The table after room was made. -/
def room (t : LanTable) (peerKey : String) (nowUnix : ℕ) : LanTable :=
  if t.prunes peerKey then t.prune nowUnix else t

/-- The beacon is taken: it is not older than the entry, or there is room for one. -/
def accepts (t : LanTable) (peerKey : String) (seq : UInt64) (nowUnix : ℕ) : Bool :=
  match t.entry peerKey with
  | some e => !decide (seq < e.seq)
  | none => decide ((t.room peerKey nowUnix).tracked < maxTracked)

variable (t : LanTable) (peerKey : String) (endpoints : List SocketAddrV6) (seq : UInt64)
  (nowUnix : ℕ)

/-- **What `record` does**: room is made, a beacon that is taken is written, and it returns
true when the endpoints of that beacon are not there. -/
theorem record_eq :
    t.record peerKey endpoints seq nowUnix =
      (t.accepts peerKey seq nowUnix &&
          decide ((t.entry peerKey).map LanEntry.endpoints ≠ some endpoints),
        if t.accepts peerKey seq nowUnix then
          (t.room peerKey nowUnix).setEntry peerKey ⟨endpoints, seq, nowUnix⟩
        else t.room peerKey nowUnix) := by
  unfold record accepts room prunes
  cases hentry : t.entry peerKey with
  | some e =>
      by_cases hseq : seq < e.seq
      · simp [hseq]
      · simp [hseq]
  | none =>
      simp only [Option.isNone_none, Bool.true_and, decide_eq_true_eq]
      by_cases hfull : maxTracked ≤ t.tracked
      · simp only [hfull, if_true]
        by_cases hstill : maxTracked ≤ (t.prune nowUnix).tracked
        · simp [hstill]
        · simp [hstill, not_le.1 hstill]
      · simp [hfull, not_le.1 hfull]

theorem record_fst :
    (t.record peerKey endpoints seq nowUnix).1 =
      (t.accepts peerKey seq nowUnix &&
        decide ((t.entry peerKey).map LanEntry.endpoints ≠ some endpoints)) := by
  rw [record_eq]

theorem record_snd :
    (t.record peerKey endpoints seq nowUnix).2 =
      if t.accepts peerKey seq nowUnix then
        (t.room peerKey nowUnix).setEntry peerKey ⟨endpoints, seq, nowUnix⟩
      else t.room peerKey nowUnix := by
  rw [record_eq]

/-- **A beacon that is taken becomes the entry of its node**; the other entries are
those left after room was made. -/
theorem entry_record (k : String) :
    (t.record peerKey endpoints seq nowUnix).2.entry k =
      if t.accepts peerKey seq nowUnix = true ∧ k = peerKey then some ⟨endpoints, seq, nowUnix⟩
      else (t.room peerKey nowUnix).entry k := by
  rw [record_snd]
  by_cases haccepts : t.accepts peerKey seq nowUnix = true
  · simp [haccepts, entry_setEntry]
  · simp [haccepts]

variable {t peerKey nowUnix}

/-- Making room only drops entries. -/
theorem entry_of_room {k : String} {e : LanEntry} (h : (t.room peerKey nowUnix).entry k = some e) :
    t.entry k = some e := by
  unfold room at h
  split_ifs at h
  · rw [entry_prune, Option.filter_eq_some_iff] at h
    exact h.1
  · exact h

/-- The table of a node that is tracked is left as it is. -/
theorem room_of_some {e : LanEntry} (h : t.entry peerKey = some e) :
    t.room peerKey nowUnix = t := by
  simp [room, prunes, h]

/-- Room is made from entries that are past their time. -/
theorem entry_room {k : String} {e : LanEntry} (h : t.entry k = some e)
    (hkept : kept nowUnix e = true) : (t.room peerKey nowUnix).entry k = some e := by
  unfold room
  split_ifs
  · rw [entry_prune, h, Option.filter_some, if_pos hkept]
  · exact h

end LanTable

end Hextet
