/-
# Replayed beacons

`crates/engine/src/lan.rs`: a beacon whose sequence number is smaller than that of the
entry of its node is dropped.  The number is remembered in the entry and nowhere else,
and an entry lives for `ENTRY_TTL`, 60 s, while a beacon may be
`SEQ_SKEW_TOLERANCE_SECS`, 300 s, old: after the entry has gone, an older beacon is taken
like a first one.

Beside a run stands what was recorded (`LanReplay.World.heard`).  Exactly the runs in
which an older beacon meets an entry of its node, or a table full of entries that stay,
drop every older beacon (`older_dropped_iff`).
-/

import Hextet.Engine.LanRun

namespace Hextet

open Lib

variable {C : Crypto}

namespace LanTable

variable {t : LanTable} {peerKey : String} {endpoints : List SocketAddrV6} {seq : UInt64}
  {nowUnix : ℕ}

/-- A beacon that is older than the entry of its node does nothing. -/
theorem record_of_lt {e : LanEntry} (h : t.entry peerKey = some e) (hlt : seq < e.seq) :
    t.record peerKey endpoints seq nowUnix = (false, t) := by
  rw [record, h]
  exact if_pos hlt

/-- A prune that drops nothing. -/
theorem prune_eq_self (h : ∀ x ∈ t.entries, kept nowUnix x.2 = true) : t.prune nowUnix = t := by
  have hfilter : t.entries.filter (fun x => kept nowUnix x.2) = t.entries :=
    List.filter_eq_self.2 h
  simp only [prune, retain, hfilter]

/-- **What a beacon of a node without an entry does**: nothing, if the table is full of
entries that stay. -/
theorem record_of_none_iff (h : t.entry peerKey = none) :
    (t.record peerKey endpoints seq nowUnix).2 = t ↔
      maxTracked ≤ t.tracked ∧ ∀ x ∈ t.entries, kept nowUnix x.2 = true := by
  have hset : ∀ t' : LanTable, t'.setEntry peerKey ⟨endpoints, seq, nowUnix⟩ ≠ t := by
    intro t' heq
    have hentry := t'.entry_setEntry peerKey ⟨endpoints, seq, nowUnix⟩ peerKey
    rw [heq, h, if_pos rfl] at hentry
    cases hentry
  rw [record, h]
  simp only
  by_cases hfull : maxTracked ≤ t.tracked
  · rw [if_pos hfull]
    by_cases hstay : ∀ x ∈ t.entries, kept nowUnix x.2 = true
    · rw [prune_eq_self hstay, if_pos hfull]
      exact iff_of_true rfl ⟨hfull, hstay⟩
    · refine iff_of_false ?_ fun h' => hstay h'.2
      split_ifs
      · intro heq
        refine hstay (List.filter_eq_self.1 ?_)
        exact congrArg LanTable.entries heq
      · exact hset _
  · rw [if_neg hfull, if_neg hfull]
    exact iff_of_false (hset _) fun h' => hfull h'.1

/-- A full table of entries that stay refuses a new node. -/
theorem record_of_full (h : t.entry peerKey = none) (hfull : maxTracked ≤ t.tracked)
    (hstay : ∀ x ∈ t.entries, kept nowUnix x.2 = true) :
    t.record peerKey endpoints seq nowUnix = (false, t) := by
  rw [record, h]
  simp only
  rw [if_pos hfull, prune_eq_self hstay, if_pos hfull]

end LanTable

/-! ### Runs -/

/-- An operation on the table: a datagram is handled, or the table is pruned. -/
inductive LanOp where
  | datagram (buf : List UInt8) (nowUnix : ℕ)
  | prune (nowUnix : ℕ)

/-- The time of an operation. -/
def LanOp.time : LanOp → ℕ
  | .datagram _ now => now
  | .prune now => now

namespace LanReplay

/-- The table beside the beacons that were recorded in it. -/
structure World where
  table : LanTable
  /-- The node and the sequence number of each beacon recorded. -/
  heard : List (String × UInt64)

/-- An empty table. -/
def World.init : World := ⟨.new, []⟩

section

variable (hmac : Hmac) (cfg : LanConfig C)

/-- The beacon that an operation records. -/
def recorded (w : World) : LanOp → Option (Beacon C)
  | .datagram buf now =>
      (Lan.opened hmac cfg buf now).filter fun b =>
        w.table.accepts b.nodePublicKey.toBase64 b.seq now
  | .prune _ => none

/-- One operation. -/
def step (w : World) (op : LanOp) : World where
  table :=
    match op with
    | .datagram buf now => (Lan.handleDatagram hmac cfg w.table buf now).2
    | .prune now => w.table.prune now
  heard := w.heard ++ (recorded hmac cfg w op).toList.map fun b =>
    (b.nodePublicKey.toBase64, b.seq)

/-- A beacon with a larger sequence number of the same node was recorded. -/
def Older (w : World) (b : Beacon C) : Prop :=
  ∃ x ∈ w.heard, x.1 = b.nodePublicKey.toBase64 ∧ b.seq < x.2

/-- An older beacon changes nothing and is not told. -/
def DropsOlder (w : World) : LanOp → Prop
  | .datagram buf now =>
      ∀ b, Beacon.decode C hmac cfg.lanKey buf = .ok b → Older w b →
        Lan.handleDatagram hmac cfg w.table buf now = (none, w.table)
  | .prune _ => True

/-- An older beacon that is let through meets an entry of its node, or a full table whose
entries stay. -/
def Shielded (w : World) : LanOp → Prop
  | .datagram buf now =>
      ∀ b ∈ Lan.opened hmac cfg buf now, Older w b →
        (w.table.entry b.nodePublicKey.toBase64).isSome = true ∨
          (maxTracked ≤ w.table.tracked ∧
            ∀ x ∈ w.table.entries, LanTable.kept now x.2 = true)
  | .prune _ => True

end

/-- The entry of a node has the largest sequence number that was recorded of it. -/
def Remembers (w : World) : Prop :=
  ∀ x ∈ w.heard, ∀ e ∈ w.table.entry x.1, x.2 ≤ e.seq

variable {hmac : Hmac} {cfg : LanConfig C} {w : World}

/-- A beacon that is let through was decoded. -/
theorem decode_of_opened {buf : List UInt8} {now : ℕ} {b : Beacon C}
    (h : Lan.opened hmac cfg buf now = some b) : Beacon.decode C hmac cfg.lanKey buf = .ok b := by
  unfold Lan.opened at h
  split at h
  · rename_i b' hb'
    split_ifs at h
    rw [hb', Option.some.inj h]
  · cases h

/-- What is let through of a datagram is the beacon it decodes to, or nothing. -/
theorem opened_cases {buf : List UInt8} {b : Beacon C}
    (h : Beacon.decode C hmac cfg.lanKey buf = .ok b) (now : ℕ) :
    Lan.opened hmac cfg buf now = none ∨ Lan.opened hmac cfg buf now = some b := by
  cases ho : Lan.opened hmac cfg buf now with
  | none => exact Or.inl rfl
  | some b' =>
      have hb' := decode_of_opened ho
      rw [h] at hb'
      cases hb'
      exact Or.inr rfl

theorem handleDatagram_of_opened {buf : List UInt8} {now : ℕ} {b : Beacon C}
    (h : Lan.opened hmac cfg buf now = some b) :
    Lan.handleDatagram hmac cfg w.table buf now =
      let r := w.table.record b.nodePublicKey.toBase64 b.endpoints b.seq now
      (if r.1 then some ⟨.lan, b.nodePublicKey.toBase64, b.endpoints⟩ else none, r.2) := by
  rw [Lan.handleDatagram, h]

/-- **Where the entries remember, an older beacon is dropped exactly if it is shielded
against.** -/
theorem dropsOlder_iff (h : Remembers w) (op : LanOp) :
    DropsOlder hmac cfg w op ↔ Shielded hmac cfg w op := by
  cases op with
  | prune now => exact Iff.rfl
  | datagram buf now =>
      constructor
      · intro hdrops b hb hold
        have heq := hdrops b (decode_of_opened hb) hold
        rw [handleDatagram_of_opened hb] at heq
        cases hentry : w.table.entry b.nodePublicKey.toBase64 with
        | some e => exact Or.inl rfl
        | none => exact Or.inr ((LanTable.record_of_none_iff hentry).1 (congrArg Prod.snd heq))
      · intro hshield b hb hold
        rcases opened_cases hb now with hnone | hsome
        · rw [Lan.handleDatagram, hnone]
        · rw [handleDatagram_of_opened hsome]
          cases hentry : w.table.entry b.nodePublicKey.toBase64 with
          | some e =>
              obtain ⟨x, hx, hkey, hlt⟩ := hold
              have hle := h x hx e (by rw [hkey]; exact hentry)
              rw [LanTable.record_of_lt hentry (UInt64.lt_of_lt_of_le hlt hle)]
              rfl
          | none =>
              have hfull := (hshield b hsome hold).resolve_left (by simp [hentry])
              rw [LanTable.record_of_full hentry hfull.1 hfull.2]
              rfl

/-- What is recorded is not older than what was. -/
theorem le_of_recorded (h : Remembers w) {op : LanOp} (hshield : Shielded hmac cfg w op)
    {b : Beacon C} (hb : recorded hmac cfg w op = some b) {x : String × UInt64}
    (hx : x ∈ w.heard) (hkey : x.1 = b.nodePublicKey.toBase64) : x.2 ≤ b.seq := by
  cases op with
  | prune now => cases hb
  | datagram buf now =>
      obtain ⟨hopened, haccepts⟩ := Option.filter_eq_some_iff.1 hb
      by_contra hnot
      have hold : Older w b := ⟨x, hx, hkey, UInt64.not_le.1 hnot⟩
      unfold LanTable.accepts at haccepts
      cases hentry : w.table.entry b.nodePublicKey.toBase64 with
      | some e =>
          have hle := h x hx e (by rw [hkey]; exact hentry)
          simp only [hentry, Bool.not_eq_true', decide_eq_false_iff_not] at haccepts
          exact haccepts (UInt64.lt_of_lt_of_le (UInt64.not_le.1 hnot) hle)
      | none =>
          obtain ⟨hfull, hstay⟩ := (hshield b hopened hold).resolve_left (by simp [hentry])
          have hroom : w.table.room b.nodePublicKey.toBase64 now = w.table := by
            unfold LanTable.room
            split_ifs
            · exact LanTable.prune_eq_self hstay
            · rfl
          simp only [hentry, hroom, decide_eq_true_eq] at haccepts
          exact absurd hfull (Nat.not_le.2 haccepts)

/-- The entries after an operation: that of the beacon recorded, or one from before. -/
theorem entry_step {op : LanOp} {k : String} {e : LanEntry}
    (he : (step hmac cfg w op).table.entry k = some e) :
    (∃ b, recorded hmac cfg w op = some b ∧ b.nodePublicKey.toBase64 = k ∧ e.seq = b.seq) ∨
      (w.table.entry k = some e ∧
        ∀ b, recorded hmac cfg w op = some b → b.nodePublicKey.toBase64 ≠ k) := by
  cases op with
  | prune now =>
      have he' : (w.table.prune now).entry k = some e := he
      rw [LanTable.entry_prune, Option.filter_eq_some_iff] at he'
      exact Or.inr ⟨he'.1, fun b hb => by cases hb⟩
  | datagram buf now =>
      have he' : (Lan.handleDatagram hmac cfg w.table buf now).2.entry k = some e := he
      cases hopened : Lan.opened hmac cfg buf now with
      | none =>
          rw [Lan.handleDatagram, hopened] at he'
          exact Or.inr ⟨he', fun b hb => by simp [recorded, hopened] at hb⟩
      | some b =>
          rw [handleDatagram_of_opened hopened] at he'
          simp only [LanTable.entry_record] at he'
          by_cases hacc : w.table.accepts b.nodePublicKey.toBase64 b.seq now = true
          · have hrec : recorded hmac cfg w (.datagram buf now) = some b := by
              simp [recorded, hopened, Option.filter_some, hacc]
            by_cases hk : k = b.nodePublicKey.toBase64
            · rw [if_pos ⟨hacc, hk⟩] at he'
              exact Or.inl ⟨b, hrec, hk.symm, by rw [← Option.some.inj he']⟩
            · rw [if_neg fun h => hk h.2] at he'
              refine Or.inr ⟨LanTable.entry_of_room he', fun b' hb' => ?_⟩
              rw [hrec] at hb'
              cases hb'
              exact fun h => hk h.symm
          · rw [if_neg fun h => hacc h.1] at he'
            refine Or.inr ⟨LanTable.entry_of_room he', fun b' hb' => ?_⟩
            simp [recorded, hopened, Option.filter_some, hacc] at hb'

/-- **A shielded operation keeps the memory.** -/
theorem Remembers.step (h : Remembers w) {op : LanOp} (hshield : Shielded hmac cfg w op) :
    Remembers (step hmac cfg w op) := by
  intro x hx e he
  rcases entry_step he with ⟨b, hrec, hkey, hseq⟩ | ⟨hentry, hother⟩
  · rw [hseq]
    rcases List.mem_append.1 hx with hx | hx
    · exact le_of_recorded h hshield hrec hx hkey.symm
    · obtain ⟨b', hb', rfl⟩ := List.mem_map.1 hx
      rw [hrec] at hb'
      obtain rfl := Option.some.inj (Option.mem_toList.1 hb')
      exact UInt64.le_refl _
  · rcases List.mem_append.1 hx with hx | hx
    · exact h x hx e hentry
    · obtain ⟨b', hb', rfl⟩ := List.mem_map.1 hx
      exact absurd rfl (hother b' (Option.mem_toList.1 hb'))

/-- **When the LAN drops every older beacon**: along a run of datagrams and prunes, no beacon
with a sequence number smaller than that of one recorded before of the same node changes the
table or is told, exactly if each one that is let through meets an entry of its node, or a
full table whose entries stay. -/
theorem older_dropped_iff (hmac : Hmac) (cfg : LanConfig C) (ops : List LanOp) :
    Along (step hmac cfg) (DropsOlder hmac cfg) .init ops ↔
      Along (step hmac cfg) (Shielded hmac cfg) .init ops := by
  have hinit : Remembers World.init := by
    intro x hx
    cases hx
  have hcongr : Along (step hmac cfg) (Shielded hmac cfg) World.init ops ↔
      Along (step hmac cfg) (DropsOlder hmac cfg) World.init ops :=
    Along.congr (P := Remembers) (fun w op h hop => h.step hop)
      (fun w op h => (dropsOlder_iff h op).symm) hinit ops
  exact hcongr.symm

/-- Node 9 on the LAN. -/
def plainLanConfig : LanConfig Crypto.plain := ⟨plainKey 9 0, LanSystem.plainLanKey⟩

/-- The datagram of a beacon of node 1. -/
def plainDatagram (port : UInt16) (seq : UInt64) : List UInt8 :=
  ((LanSystem.plainBeacon 1 port seq).encode LanSystem.plainHmac
    LanSystem.plainLanKey).toOption.getD []

/-- The beacon of second 100 is heard and forgotten; then that of second 90 comes again. -/
def replayAfterExpiry : List LanOp :=
  [.datagram (plainDatagram 7 100) 100, .prune 161, .datagram (plainDatagram 8 90) 161]

/-- **An older beacon is taken once the entry of its node has expired.** -/
theorem replay_taken_after_expiry :
    (replayAfterExpiry.map LanOp.time).Pairwise (· ≤ ·) ∧
      ¬Along (step LanSystem.plainHmac plainLanConfig)
        (DropsOlder LanSystem.plainHmac plainLanConfig) .init replayAfterExpiry := by
  refine ⟨by decide, ?_⟩
  rintro ⟨-, -, hdrops, -⟩
  have hdecode : Beacon.decode Crypto.plain LanSystem.plainHmac plainLanConfig.lanKey
      (plainDatagram 8 90) = .ok (LanSystem.plainBeacon 1 8 90) := by decide +kernel
  have hupdate := congrArg Prod.fst (hdrops _ hdecode ⟨((plainKey 1 0).toBase64, 100), by
    decide +kernel, by decide +kernel, by decide⟩)
  revert hupdate
  decide +kernel

end LanReplay

end Hextet
