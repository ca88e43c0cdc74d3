/-
# Sessions of the relay server

What an event does to the sessions of `serve`: nothing, or a prune, or the removal of the
pair an Unregister names, or the renewal of a session, or a new session, or a move of one
task (`RelayServer.Move`).  The history of accepted Registers is kept beside the server.

From this follow, for every run, the contract of the table (`session_table`): table and
senders have the same keys, at most 256; only an Unregister of the pair removes a session
that was renewed within its lifetime; the port of a session never changes and is the one
acknowledged; the two parties of a pair have a side each.
-/

import Hextet.Engine.RelayServer
import Hextet.Lib.Run

namespace Hextet

open Lib

variable {C : Crypto}

/-! ### The table -/

namespace RelayTable

variable (t : RelayTable) (key : SessionKey) (nowUnix : ℕ) (k : SessionKey)

theorem mem_prune_fst :
    k ∈ (t.prune nowUnix).1 ↔ ∃ x, t.sessions.get? k = some x ∧ stale nowUnix x = true := by
  rw [prune, List.mem_map]
  constructor
  · rintro ⟨e, he, rfl⟩
    obtain ⟨hmem, hstale⟩ := List.mem_filter.1 he
    exact ⟨e.2, KeyMap.mem_entries.1 hmem, hstale⟩
  · rintro ⟨x, hget, hstale⟩
    exact ⟨(k, x), List.mem_filter.2 ⟨KeyMap.mem_entries.2 hget, hstale⟩, rfl⟩

/-- `prune` keeps the sessions that are not stale. -/
theorem get?_prune : (t.prune nowUnix).2.sessions.get? k =
    (t.sessions.get? k).filter fun x => !stale nowUnix x := by
  by_cases hmem : k ∈ (t.prune nowUnix).1
  · obtain ⟨x, hx, hstale⟩ := (t.mem_prune_fst nowUnix k).1 hmem
    refine (KeyMap.get?_foldl_erase_of_mem hmem).trans ?_
    simp [hx, Option.filter_some, hstale]
  · refine (KeyMap.get?_foldl_erase_of_not_mem hmem).trans ?_
    cases hx : t.sessions.get? k with
    | none => rfl
    | some x =>
        have hfresh : ¬stale nowUnix x = true := fun hstale =>
          hmem ((t.mem_prune_fst nowUnix k).2 ⟨x, hx, hstale⟩)
        simp [Option.filter_some, hfresh]

theorem len_prune_le : (t.prune nowUnix).2.len ≤ t.len := KeyMap.size_foldl_erase_le _

end RelayTable

/-- A session after the party on a side announced an address. -/
def Session.touch (x : Session) (side : Fin 2) (addr : SocketAddrV6) (nowUnix : ℕ) : Session :=
  ⟨x.port, Function.update x.addrs side (some addr), nowUnix⟩

theorem RelayTable.get?_touchAddr (t : RelayTable) (key : SessionKey) (side : Fin 2)
    (addr : SocketAddrV6) (nowUnix : ℕ) (k : SessionKey) :
    (t.touchAddr key side addr nowUnix).2.sessions.get? k =
      if k = key then (t.sessions.get? k).map fun x => x.touch side addr nowUnix
      else t.sessions.get? k := by
  unfold touchAddr
  cases hget : t.sessions.get? key with
  | none =>
      by_cases hk : k = key
      · simp [hk, hget]
      · simp [hk]
  | some x =>
      by_cases hk : k = key
      · subst hk
        by_cases hsame : x.addrs side = some addr
        · have hupdate : Function.update x.addrs side (some addr) = x.addrs := by
            rw [← hsame, Function.update_eq_self]
          simp [hget, hsame, Session.touch, hupdate]
        · simp [hget, hsame, Session.touch]
      · by_cases hsame : x.addrs side = some addr
        · simp [hk, hsame]
        · simp [hk, hsame]

/-- The time of the wall clock at an event of `serve`. -/
def RelayInput.nowUnix? : RelayInput → Option ℕ
  | .prune nowUnix => some nowUnix
  | .control _ _ nowUnix _ _ => some nowUnix
  | _ => none

/-! ### Accepted Registers -/

/-- An accepted Register: its frame, the data address it announces and the time. -/
structure Registration (C : Crypto) where
  frame : RelayFrame C
  addr : SocketAddrV6
  nowUnix : ℕ

namespace Registration

/-- The pair it is for. -/
def key (r : Registration C) : SessionKey := r.frame.sessionKey

/-- The side it is for. -/
def side (r : Registration C) : Fin 2 := r.frame.side

/-- It comes from a party of a pair of two that may use the relay. -/
structure Admitted (cfg : RelayConfig C) (r : Registration C) : Prop where
  pair : r.frame.selfKey.bytes ≠ r.frame.peerKey.bytes
  allowed : cfg.policy.allows r.frame.selfKey.bytes = true

end Registration

/-! ### A task keeps its pair and its socket -/

namespace Forwarder

variable (f : Forwarder)

@[simp] theorem key_trySend (addrs : SessionAddrs) : (f.trySend addrs).key = f.key := by
  unfold trySend
  split_ifs <;> rfl

@[simp] theorem port_trySend (addrs : SessionAddrs) : (f.trySend addrs).port = f.port := by
  unfold trySend
  split_ifs <;> rfl

@[simp] theorem running_trySend (addrs : SessionAddrs) :
    (f.trySend addrs).running = f.running := by
  unfold trySend
  split_ifs <;> rfl

/-- A task whose channel has a sender goes on. -/
@[simp] theorem running_takeUpdate_true : (f.takeUpdate true).running = f.running := by
  unfold takeUpdate
  split <;> rfl

theorem sameTask_takeUpdate (hasSender : Bool) :
    (f.takeUpdate hasSender).key = f.key ∧ (f.takeUpdate hasSender).port = f.port := by
  unfold takeUpdate
  split
  · exact ⟨rfl, rfl⟩
  · split_ifs <;> exact ⟨rfl, rfl⟩

/-- A datagram leaves all of a task but the count of packets as it was. -/
theorem onDatagram_snd (datagram : List UInt8) (src : SocketAddr) (now : Instant) :
    ∃ limiter, (f.onDatagram datagram src now).2 = { f with limiter } := by
  unfold onDatagram
  cases src with
  | v4 => exact ⟨f.limiter, rfl⟩
  | v6 src =>
      simp only
      split
      · exact ⟨f.limiter, rfl⟩
      · split
        · exact ⟨f.limiter, rfl⟩
        · split
          · exact ⟨f.limiter, rfl⟩
          · exact ⟨_, rfl⟩

theorem sameTask_onDatagram (datagram : List UInt8) (src : SocketAddr) (now : Instant) :
    (f.onDatagram datagram src now).2.key = f.key ∧
      (f.onDatagram datagram src now).2.port = f.port := by
  obtain ⟨limiter, h⟩ := f.onDatagram_snd datagram src now
  rw [h]
  exact ⟨rfl, rfl⟩

end Forwarder

namespace RelayServer

/-- The session of a pair. -/
def session (s : RelayServer) (key : SessionKey) : Option Session := s.table.sessions.get? key

theorem contains_eq (s : RelayServer) (key : SessionKey) :
    s.table.contains key = (s.session key).isSome := rfl

theorem contains_eq_false_iff {s : RelayServer} {key : SessionKey} :
    s.table.contains key = false ↔ s.session key = none := by
  rw [contains_eq, Option.isSome_eq_false_iff, Option.isNone_iff_eq_none]

theorem port_eq {s : RelayServer} {key : SessionKey} {x : Session} (hx : s.session key = some x) :
    s.table.port key = some x.port := by
  rw [RelayTable.port, show s.table.sessions.get? key = some x from hx]
  rfl

theorem addrs_eq {s : RelayServer} {key : SessionKey} {x : Session}
    (hx : s.session key = some x) : s.table.addrs key = x.addrs := by
  rw [RelayTable.addrs, show s.table.sessions.get? key = some x from hx]
  rfl

/-- The Register that an input brings, if it is accepted. -/
def accepted (cfg : RelayConfig C) (s : RelayServer) : RelayInput → Option (Registration C)
  | .control datagram src nowUnix now bind =>
      match opened cfg datagram src nowUnix with
      | none => none
      | some (frame, src) =>
          if frame.kind = .register ∧ frame.port ≠ 0 ∧
              (s.ensured frame.sessionKey nowUnix now bind).2 = true then
            some ⟨frame, dataAddr src frame, nowUnix⟩
          else none
  | _ => none

theorem opened_spec {cfg : RelayConfig C} {datagram : List UInt8} {src : SocketAddr} {nowUnix : ℕ}
    {frame : RelayFrame C} {src' : SocketAddrV6}
    (h : opened cfg datagram src nowUnix = some (frame, src')) :
    frame.selfKey.bytes ≠ frame.peerKey.bytes ∧
      cfg.policy.allows frame.selfKey.bytes = true := by
  unfold opened at h
  cases src with
  | v4 => cases h
  | v6 src =>
      simp only at h
      split at h
      next frame' hdecode =>
        split_ifs at h with hskew hpolicy
        cases h
        exact ⟨RelayFrame.selfKey_ne_peerKey hdecode, by simpa using hpolicy⟩
      next => cases h

/-! ### Moves -/

variable (s : RelayServer) (key : SessionKey) (nowUnix : ℕ) (k : SessionKey)

@[simp] theorem session_pruned : (s.pruned nowUnix).session k =
    (s.session k).filter fun x => !RelayTable.stale nowUnix x := s.table.get?_prune nowUnix k

@[simp] theorem tasks_pruned : (s.pruned nowUnix).tasks = s.tasks := rfl

/-- A prune drops the sender of a session with the session. -/
theorem sender_pruned : (s.pruned nowUnix).senders.get? k =
    if (s.session k).any (RelayTable.stale nowUnix) = true then none else s.senders.get? k := by
  have hmem := s.table.mem_prune_fst nowUnix k
  split_ifs with hstale
  · obtain ⟨x, hx, hold⟩ := (Option.any_eq_true _ _).1 hstale
    exact KeyMap.get?_foldl_erase_of_mem (hmem.2 ⟨x, hx, hold⟩)
  · refine KeyMap.get?_foldl_erase_of_not_mem fun h => hstale ?_
    obtain ⟨x, hx, hold⟩ := hmem.1 h
    exact (Option.any_eq_true _ _).2 ⟨x, hx, hold⟩

variable {s nowUnix k} in
theorem sender_of_pruned {i : ℕ} (h : (s.pruned nowUnix).senders.get? k = some i) :
    s.senders.get? k = some i := by
  rw [sender_pruned] at h
  split_ifs at h
  exact h

/-- A pair gets a session when there is room. -/
theorem spawned_of_room (h : s.table.len < maxSessions) (port : UInt16) (now : Instant) :
    s.spawned key port nowUnix now =
      (⟨⟨s.table.sessions.insert key ⟨port, noAddrs, nowUnix⟩⟩,
        s.senders.insert key s.tasks.length, s.tasks ++ [.spawn key port now]⟩, true) := by
  simp only [spawned, RelayTable.insert, if_neg (not_le.2 h), if_true]

@[simp] theorem session_announced (side : Fin 2) (addr : SocketAddrV6) :
    (s.announced key side addr nowUnix).session k =
      if k = key then (s.session k).map fun x => x.touch side addr nowUnix else s.session k := by
  have htable : (s.announced key side addr nowUnix).table =
      (s.table.touchAddr key side addr nowUnix).2 := by
    unfold announced
    split <;> rfl
  rw [session, htable, RelayTable.get?_touchAddr]
  rfl

@[simp] theorem senders_announced (side : Fin 2) (addr : SocketAddrV6) :
    (s.announced key side addr nowUnix).senders = s.senders := by
  unfold announced
  split <;> rfl

theorem len_announced (side : Fin 2) (addr : SocketAddrV6) :
    (s.announced key side addr nowUnix).table.len = s.table.len := by
  have hlen : (s.table.touchAddr key side addr nowUnix).2.len = s.table.len := by
    unfold RelayTable.touchAddr
    split
    · rfl
    · split_ifs
      · exact KeyMap.size_modify _
      · exact KeyMap.size_modify _
  unfold announced
  split
  · exact hlen
  · exact hlen

/-- A task is told the addresses that the table has after an announcement, if it has room
for them. -/
theorem tasks_announced (side : Fin 2) (addr : SocketAddrV6) (i : ℕ) :
    (s.announced key side addr nowUnix).tasks[i]? = s.tasks[i]?.map fun f =>
      if s.senders.get? key = some i then
        f.trySend ((s.announced key side addr nowUnix).table.addrs key)
      else f := by
  unfold announced
  split
  next j hj =>
    rw [List.getElem?_modify, hj]
    by_cases hji : j = i
    · simp [hji]
    · simp [hji]
  next hnone => simp [hnone]

@[simp] theorem session_onUnregister :
    (s.onUnregister key).session k = if k = key then none else s.session k := by
  unfold onUnregister
  split_ifs with hin hk hk
  · exact (KeyMap.get?_erase ..).trans (if_pos hk)
  · exact (KeyMap.get?_erase ..).trans (if_neg hk)
  · rw [hk]
    simpa [contains_eq] using hin
  · rfl

theorem sender_onUnregister (hkeys : ∀ k, (s.senders.get? k).isSome = s.table.contains k) :
    (s.onUnregister key).senders.get? k = if k = key then none else s.senders.get? k := by
  unfold onUnregister
  by_cases hin : s.table.contains key = true
  · rw [if_pos hin]
    exact KeyMap.get?_erase ..
  · rw [if_neg hin]
    split_ifs with hk
    · have := hkeys key
      rw [hk]
      simpa [Bool.not_eq_true _ ▸ hin] using this
    · rfl

@[simp] theorem tasks_onUnregister : (s.onUnregister key).tasks = s.tasks := by
  unfold onUnregister
  split_ifs <;> rfl

theorem len_onUnregister_le : (s.onUnregister key).table.len ≤ s.table.len := by
  unfold onUnregister
  split_ifs
  · exact KeyMap.size_erase_le
  · exact le_rfl

theorem tasks_onTask (i j : ℕ) (g : Forwarder → Forwarder) :
    (s.onTask i g).tasks[j]? = s.tasks[j]?.map fun f =>
      if i = j ∧ f.running = true then g f else f := by
  rw [onTask, List.getElem?_modify]
  by_cases hij : i = j
  · simp [hij]
  · simp [hij]

/-- What an event does to the server, with the Register it accepts. -/
inductive Move (cfg : RelayConfig C) (s : RelayServer) :
    RelayInput → RelayServer → Option (Registration C) → Prop
  | stay (datagram : List UInt8) (src : SocketAddr) (nowUnix : ℕ) (now : Instant)
      (bind : Option UInt16) : Move cfg s (.control datagram src nowUnix now bind) s none
  | prune (nowUnix : ℕ) : Move cfg s (.prune nowUnix) (s.pruned nowUnix) none
  | refuse (datagram : List UInt8) (src : SocketAddr) (nowUnix : ℕ) (now : Instant)
      (bind : Option UInt16) :
      Move cfg s (.control datagram src nowUnix now bind) (s.pruned nowUnix) none
  | remove (datagram : List UInt8) (src : SocketAddr) (nowUnix : ℕ) (now : Instant)
      (bind : Option UInt16) (frame : RelayFrame C) (src' : SocketAddrV6)
      (hopen : opened cfg datagram src nowUnix = some (frame, src'))
      (hkind : frame.kind = .unregister) :
      Move cfg s (.control datagram src nowUnix now bind) (s.onUnregister frame.sessionKey) none
  | renew (datagram : List UInt8) (src : SocketAddr) (now : Instant) (bind : Option UInt16)
      (r : Registration C) (hr : r.Admitted cfg) (hin : s.table.contains r.key = true) :
      Move cfg s (.control datagram src r.nowUnix now bind)
        (s.announced r.key r.side r.addr r.nowUnix) (some r)
  | create (datagram : List UInt8) (src : SocketAddr) (now : Instant) (port : UInt16)
      (r : Registration C) (hr : r.Admitted cfg) (hout : s.table.contains r.key = false)
      (hroom : (s.pruned r.nowUnix).table.len < maxSessions) :
      Move cfg s (.control datagram src r.nowUnix now (some port))
        (((s.pruned r.nowUnix).spawned r.key port r.nowUnix now).1.announced r.key r.side
          r.addr r.nowUnix) (some r)
  | take (i : ℕ) : Move cfg s (.update i) (s.onTask i fun f => f.takeUpdate (s.hasSender i)) none
  | fail (i : ℕ) :
      Move cfg s (.socketError i) (s.onTask i fun f => { f with running := false }) none
  | data (i : ℕ) (datagram : List UInt8) (src : SocketAddr) (now : Instant) :
      Move cfg s (.data i datagram src now)
        (s.onTask i fun f => (f.onDatagram datagram src now).2) none

theorem Move.admitted {s s' : RelayServer} {cfg : RelayConfig C} {input : RelayInput}
    {r : Registration C} (h : Move cfg s input s' (some r)) : r.Admitted cfg := by
  cases h with
  | renew _ _ _ _ _ hr => exact hr
  | create _ _ _ _ _ hr => exact hr

/-- A newcomer finds room. -/
theorem Move.room {s s' : RelayServer} {cfg : RelayConfig C} {input : RelayInput}
    {r : Registration C} (h : Move cfg s input s' (some r))
    (hout : s.table.contains r.key = false) : (s.pruned r.nowUnix).table.len < maxSessions := by
  cases h with
  | renew _ _ _ _ _ _ hin =>
      rw [hin] at hout
      cases hout
  | create _ _ _ _ _ _ _ hroom => exact hroom

/-- Whether a pair has a session after a Register asked for one. -/
theorem ensured_cases (now : Instant) (bind : Option UInt16) :
    (s.table.contains key = true ∧ s.ensured key nowUnix now bind = (s, true)) ∨
    (s.table.contains key = false ∧ s.ensured key nowUnix now bind = (s.pruned nowUnix, false)) ∨
    (s.table.contains key = false ∧ (s.pruned nowUnix).table.len < maxSessions ∧
      ∃ port, bind = some port ∧ s.ensured key nowUnix now bind =
        (((s.pruned nowUnix).spawned key port nowUnix now).1, true)) := by
  unfold ensured
  by_cases hin : s.table.contains key = true
  · exact Or.inl ⟨hin, if_pos hin⟩
  have hout : s.table.contains key = false := by simpa using hin
  simp only [if_neg hin]
  by_cases hfull : maxSessions ≤ (s.pruned nowUnix).table.len
  · exact Or.inr (Or.inl ⟨hout, if_pos hfull⟩)
  simp only [if_neg hfull]
  cases bind with
  | none => exact Or.inr (Or.inl ⟨hout, rfl⟩)
  | some port =>
      have hroom := not_le.1 hfull
      refine Or.inr (Or.inr ⟨hout, hroom, port, rfl, ?_⟩)
      simp only [spawned_of_room _ _ _ hroom]

/-- **Every event is a move.** -/
theorem move (cfg : RelayConfig C) (input : RelayInput) :
    Move cfg s input (handle cfg s input).1 (accepted cfg s input) := by
  cases input with
  | prune nowUnix => exact .prune nowUnix
  | update i => exact .take i
  | socketError i => exact .fail i
  | data i datagram src now => exact .data i datagram src now
  | control datagram src nowUnix now bind =>
      simp only [handle, onControl, accepted]
      cases hopen : opened cfg datagram src nowUnix with
      | none => exact .stay ..
      | some x =>
          obtain ⟨frame, src'⟩ := x
          obtain ⟨hpair, hallowed⟩ := opened_spec hopen
          cases hkind : frame.kind with
          | registerAck => simpa [hkind] using Move.stay datagram src nowUnix now bind
          | unregister =>
              simpa [hkind] using Move.remove datagram src nowUnix now bind frame src' hopen hkind
          | register =>
              by_cases hport : frame.port = 0
              · simpa [hkind, onRegister, hport] using Move.stay datagram src nowUnix now bind
              obtain ⟨hin, heq⟩ | ⟨-, heq⟩ | ⟨hout, hroom, port, rfl, heq⟩ :=
                s.ensured_cases frame.sessionKey nowUnix now bind
              · simpa [hkind, onRegister, hport, heq, Registration.key, Registration.side] using
                  Move.renew datagram src now bind
                    (⟨frame, dataAddr src' frame, nowUnix⟩ : Registration C) ⟨hpair, hallowed⟩ hin
              · simpa [hkind, onRegister, hport, heq] using
                  Move.refuse datagram src nowUnix now bind
              · simpa [hkind, onRegister, hport, heq, Registration.key, Registration.side] using
                  Move.create datagram src now port
                    (⟨frame, dataAddr src' frame, nowUnix⟩ : Registration C) ⟨hpair, hallowed⟩ hout
                    hroom

theorem move_of_accepted {s : RelayServer} {cfg : RelayConfig C} {input : RelayInput}
    {r : Registration C} (hr : accepted cfg s input = some r) :
    Move cfg s input (handle cfg s input).1 (some r) := hr ▸ s.move cfg input

/-- The acknowledgement of a Register. -/
def ackOf (r : Registration C) : RelayFrame C :=
  ⟨.registerAck, (s.table.port r.key).getD 0, UInt64.ofNat r.nowUnix, r.frame.selfKey,
    r.frame.peerKey⟩

/-- A control datagram is answered by the acknowledgement of the Register it brings. -/
theorem onControl_snd (cfg : RelayConfig C) (datagram : List UInt8) (src : SocketAddr)
    (now : Instant) (bind : Option UInt16) :
    ∃ dst : Registration C → SocketAddrV6, (s.onControl cfg datagram src nowUnix now bind).2 =
      (accepted cfg s (.control datagram src nowUnix now bind)).toList.map fun r =>
        .ack ((s.onControl cfg datagram src nowUnix now bind).1.ackOf r) (dst r) := by
  simp only [onControl, accepted]
  cases hopen : opened cfg datagram src nowUnix with
  | none => exact ⟨fun r => r.addr, rfl⟩
  | some x =>
      obtain ⟨frame, dst⟩ := x
      refine ⟨fun _ => dst, ?_⟩
      cases hkind : frame.kind with
      | registerAck => simp [hkind]
      | unregister => simp [hkind]
      | register =>
          by_cases hport : frame.port = 0
          · simp [hkind, onRegister, hport]
          · cases hensured : s.ensured frame.sessionKey nowUnix now bind with
            | mk s₁ ok =>
                cases ok with
                | false => simp [hkind, onRegister, hport, hensured]
                | true => simp [hkind, onRegister, hport, hensured, ackOf, Registration.key]

/-- **An acknowledgement answers an accepted Register**, with the port that its pair has. -/
theorem ack_spec {cfg : RelayConfig C} {input : RelayInput} {frame : RelayFrame C}
    {dst : SocketAddrV6} (h : .ack frame dst ∈ (s.handle cfg input).2) :
    ∃ r, accepted cfg s input = some r ∧ frame = (s.handle cfg input).1.ackOf r := by
  cases input with
  | prune nowUnix => cases h
  | update i => cases h
  | socketError i => cases h
  | data i datagram src now =>
      obtain ⟨x, -, hx⟩ := List.mem_map.1 h
      cases hx
  | control datagram src nowUnix now bind =>
      obtain ⟨dst', houts⟩ := s.onControl_snd nowUnix cfg datagram src now bind
      rw [handle, houts] at h
      obtain ⟨r, hr, heq⟩ := List.mem_map.1 h
      cases heq
      exact ⟨r, Option.mem_toList.1 hr, rfl⟩

/-! ### What holds in every state -/

/-- The table is not over its bound, the pairs with a sender are those with a session, and
the sender of a pair feeds a task that was spawned for it, on the port of the session. -/
structure Sound (s : RelayServer) : Prop where
  bounded : s.table.len ≤ maxSessions
  keys : ∀ k, (s.senders.get? k).isSome = (s.session k).isSome
  task : ∀ k i, s.senders.get? k = some i →
    ∃ f, s.tasks[i]? = some f ∧ f.key = k ∧ (s.session k).map Session.port = some f.port

theorem sound_new : new.Sound := ⟨Nat.zero_le _, fun _ => rfl, fun _ _ h => by cases h⟩

variable {s}

theorem Sound.pruned (h : s.Sound) (nowUnix : ℕ) : (s.pruned nowUnix).Sound where
  bounded := (s.table.len_prune_le nowUnix).trans h.bounded
  keys k := by
    rw [sender_pruned, session_pruned]
    have hk := h.keys k
    cases hx : s.session k with
    | none =>
        rw [hx] at hk
        simpa using hk
    | some x =>
        rw [hx] at hk
        cases hstale : RelayTable.stale nowUnix x with
        | true => simp [Option.filter_some, hstale]
        | false => simpa [Option.filter_some, hstale] using hk
  task k i hi := by
    rw [sender_pruned] at hi
    split_ifs at hi with hstale
    obtain ⟨f, hf, hkey, hport⟩ := h.task k i hi
    refine ⟨f, hf, hkey, ?_⟩
    obtain ⟨x, hx, hxport⟩ := Option.map_eq_some_iff.1 hport
    have hfresh : RelayTable.stale nowUnix x = false := by simpa [hx] using hstale
    rw [session_pruned, hx]
    simpa [Option.filter_some, hfresh] using hxport

theorem Sound.spawned (h : s.Sound) (hroom : s.table.len < maxSessions) (key : SessionKey)
    (hout : s.session key = none) (port : UInt16) (nowUnix : ℕ) (now : Instant) :
    (s.spawned key port nowUnix now).1.Sound := by
  rw [spawned_of_room _ _ _ hroom]
  refine ⟨?_, fun k => ?_, fun k i hi => ?_⟩
  · exact (KeyMap.size_insert_of_none hout _).trans_le hroom
  · have hk := h.keys k
    simp only [session, KeyMap.get?_insert] at hk ⊢
    split_ifs
    · rfl
    · exact hk
  · simp only [session, KeyMap.get?_insert] at hi ⊢
    split_ifs at hi ⊢ with hk
    · cases hi
      exact ⟨.spawn key port now, by simp, hk.symm, rfl⟩
    · obtain ⟨f, hf, hkey, hport⟩ := h.task k i hi
      obtain ⟨hlt, -⟩ := List.getElem?_eq_some_iff.1 hf
      exact ⟨f, by rw [List.getElem?_append_left hlt, hf], hkey, hport⟩

theorem Sound.announced (h : s.Sound) (key : SessionKey) (side : Fin 2) (addr : SocketAddrV6)
    (nowUnix : ℕ) : (s.announced key side addr nowUnix).Sound where
  bounded := (s.len_announced key nowUnix side addr).trans_le h.bounded
  keys k := by
    rw [senders_announced, session_announced, h.keys]
    split_ifs <;> simp
  task k i hi := by
    rw [senders_announced] at hi
    obtain ⟨f, hf, hkey, hport⟩ := h.task k i hi
    have hf' : (s.announced key side addr nowUnix).tasks[i]? = _ := s.tasks_announced ..
    rw [hf, Option.map_some] at hf'
    refine ⟨_, hf', ?_, ?_⟩
    · split_ifs
      · exact (Forwarder.key_trySend ..).trans hkey
      · exact hkey
    · have hport' : ((s.announced key side addr nowUnix).session k).map Session.port =
          some f.port := by
        rw [session_announced]
        split_ifs
        · rw [Option.map_map]
          exact hport
        · exact hport
      rw [hport']
      split_ifs
      · rw [Forwarder.port_trySend]
      · rfl

theorem Sound.onUnregister (h : s.Sound) (key : SessionKey) : (s.onUnregister key).Sound where
  bounded := (s.len_onUnregister_le key).trans h.bounded
  keys k := by
    rw [s.sender_onUnregister key k h.keys, session_onUnregister]
    split_ifs
    · rfl
    · exact h.keys k
  task k i hi := by
    rw [s.sender_onUnregister key k h.keys] at hi
    rw [session_onUnregister, tasks_onUnregister]
    split_ifs at hi ⊢
    exact h.task k i hi

theorem Sound.onTask (h : s.Sound) (i : ℕ) {g : Forwarder → Forwarder}
    (hg : ∀ f, (g f).key = f.key ∧ (g f).port = f.port) : (s.onTask i g).Sound where
  bounded := h.bounded
  keys := h.keys
  task k j hj := by
    obtain ⟨f, hf, hkey, hport⟩ := h.task k j hj
    have hf' := s.tasks_onTask i j g
    rw [hf, Option.map_some] at hf'
    refine ⟨_, hf', ?_⟩
    split_ifs
    · exact ⟨(hg f).1.trans hkey, hport.trans (congrArg some (hg f).2.symm)⟩
    · exact ⟨hkey, hport⟩

/-- **Every move keeps the server sound.** -/
theorem Sound.move {cfg : RelayConfig C} {input : RelayInput} {s' : RelayServer}
    {r : Option (Registration C)} (hmove : Move cfg s input s' r) (h : s.Sound) : s'.Sound := by
  cases hmove with
  | stay => exact h
  | prune nowUnix => exact h.pruned nowUnix
  | refuse => exact h.pruned _
  | remove => exact h.onUnregister _
  | renew => exact h.announced ..
  | create _ _ now port r hr hout hroom =>
      refine Sound.announced (Sound.spawned (h.pruned _) hroom _ ?_ ..) ..
      rw [session_pruned, contains_eq_false_iff.1 hout]
      rfl
  | take i => exact h.onTask i fun f => f.sameTask_takeUpdate _
  | fail i => exact h.onTask i fun f => ⟨rfl, rfl⟩
  | data i datagram src now => exact h.onTask i fun f => f.sameTask_onDatagram ..

/-- The sessions after a pair got a new one. -/
theorem session_created (hroom : s.table.len < maxSessions) (key : SessionKey) (port : UInt16)
    (nowUnix : ℕ) (now : Instant) (k : SessionKey) :
    (s.spawned key port nowUnix now).1.session k =
      if k = key then some ⟨port, noAddrs, nowUnix⟩ else s.session k := by
  rw [spawned_of_room _ _ _ hroom]
  exact KeyMap.get?_insert ..

/-- An event other than an accepted Register writes no session. -/
theorem session_of_move {cfg : RelayConfig C} {input : RelayInput} {s' : RelayServer}
    {r : Option (Registration C)} (hmove : Move cfg s input s' r) {k : SessionKey}
    (hk : ∀ x ∈ r, x.key ≠ k) {x : Session} (hx : s'.session k = some x) :
    s.session k = some x := by
  have hpruned : ∀ nowUnix, (s.pruned nowUnix).session k = some x → s.session k = some x := by
    intro nowUnix h
    rw [session_pruned] at h
    exact (Option.filter_eq_some_iff.1 h).1
  cases hmove with
  | stay => exact hx
  | prune nowUnix => exact hpruned _ hx
  | refuse => exact hpruned _ hx
  | remove =>
      rw [session_onUnregister] at hx
      split_ifs at hx
      exact hx
  | renew _ _ _ _ r =>
      rw [session_announced, if_neg fun h => hk r rfl h.symm] at hx
      exact hx
  | create _ _ now port r _ _ hroom =>
      have hne : ¬k = r.key := fun h => hk r rfl h.symm
      rw [session_announced, if_neg hne, session_created hroom, if_neg hne] at hx
      exact hpruned _ hx
  | take i => exact hx
  | fail i => exact hx
  | data i datagram src now => exact hx

/-- **An accepted Register writes the session of its pair**: the port it had or a new one, and
on its side the address it announces. -/
theorem session_of_accepted {cfg : RelayConfig C} {input : RelayInput} {s' : RelayServer}
    {r : Registration C} (hmove : Move cfg s input s' (some r)) :
    ∃ x, s'.session r.key = some (x.touch r.side r.addr r.nowUnix) ∧
      (s.session r.key = some x ∨ s.session r.key = none ∧ x.addrs = noAddrs) := by
  cases hmove with
  | renew _ _ _ _ _ _ hin =>
      obtain ⟨x, hx⟩ := Option.isSome_iff_exists.1 hin
      refine ⟨x, ?_, Or.inl hx⟩
      rw [session_announced, if_pos rfl, session, hx]
      rfl
  | create _ _ now port _ _ hout hroom =>
      refine ⟨⟨port, noAddrs, r.nowUnix⟩, ?_, Or.inr ⟨contains_eq_false_iff.1 hout, rfl⟩⟩
      rw [session_announced, if_pos rfl, session_created hroom, if_pos rfl]
      rfl

/-- The port of a session does not change. -/
theorem port_of_move {cfg : RelayConfig C} {input : RelayInput} {s' : RelayServer}
    {r : Option (Registration C)} (hmove : Move cfg s input s' r) {k : SessionKey} {x x' : Session}
    (hx : s.session k = some x) (hx' : s'.session k = some x') : x'.port = x.port := by
  by_cases hk : ∃ y ∈ r, y.key = k
  · obtain ⟨y, rfl, rfl⟩ := hk
    obtain ⟨x₀, hafter, hbefore | hbefore⟩ := session_of_accepted hmove
    · rw [hx] at hbefore
      cases hbefore
      rw [hx'] at hafter
      cases hafter
      rfl
    · rw [hx] at hbefore
      cases hbefore.1
  · have hsame := session_of_move hmove (fun y hy hyk => hk ⟨y, hy, hyk⟩) hx'
    rw [hx] at hsame
    cases hsame
    rfl

/-- **What removes a session**: an Unregister of its pair, or an event at a time when it is
stale. -/
theorem removed_of_move {cfg : RelayConfig C} {input : RelayInput} {s' : RelayServer}
    {r : Option (Registration C)} (hmove : Move cfg s input s' r) {k : SessionKey} {x : Session}
    (hx : s.session k = some x) (hx' : s'.session k = none) :
    (∃ datagram src nowUnix now bind frame src', input = .control datagram src nowUnix now bind ∧
      opened cfg datagram src nowUnix = some (frame, src') ∧ frame.kind = .unregister ∧
      frame.sessionKey = k) ∨
    ∃ nowUnix, input.nowUnix? = some nowUnix ∧ RelayTable.stale nowUnix x = true := by
  have hpruned : ∀ nowUnix, (s.pruned nowUnix).session k = none →
      RelayTable.stale nowUnix x = true := by
    intro nowUnix h
    rw [session_pruned, hx, Option.filter_some] at h
    simpa using h
  cases hmove with
  | stay => exact absurd hx' (hx ▸ Option.some_ne_none x)
  | prune nowUnix => exact Or.inr ⟨nowUnix, rfl, hpruned nowUnix hx'⟩
  | refuse _ _ nowUnix => exact Or.inr ⟨nowUnix, rfl, hpruned nowUnix hx'⟩
  | remove datagram src nowUnix now bind frame src' hopen hkind =>
      rw [session_onUnregister] at hx'
      split_ifs at hx' with hk
      · exact Or.inl ⟨datagram, src, nowUnix, now, bind, frame, src', rfl, hopen, hkind, hk.symm⟩
      · rw [hx] at hx'
        cases hx'
  | renew =>
      rw [session_announced, hx] at hx'
      split_ifs at hx'
      cases hx'
  | create _ _ now port r _ _ hroom =>
      rw [session_announced, session_created hroom] at hx'
      split_ifs at hx' with hk
      · cases hx'
      · exact Or.inr ⟨r.nowUnix, rfl, hpruned _ hx'⟩
  | take i => exact absurd hx' (hx ▸ Option.some_ne_none x)
  | fail i => exact absurd hx' (hx ▸ Option.some_ne_none x)
  | data i datagram src now => exact absurd hx' (hx ▸ Option.some_ne_none x)

end RelayServer

/-! ### Runs -/

/-- The server beside the Registers it has accepted, the latest first. -/
structure RelayRun (C : Crypto) where
  server : RelayServer
  registrations : List (Registration C)

namespace RelayRun

/-- The start of `serve`. -/
def init : RelayRun C := ⟨.new, []⟩

/-- One event. -/
def step (cfg : RelayConfig C) (w : RelayRun C) (input : RelayInput) : RelayRun C :=
  ⟨(w.server.handle cfg input).1, (w.server.accepted cfg input).toList ++ w.registrations⟩

/-- The state after some events. -/
def after (cfg : RelayConfig C) (inputs : List RelayInput) : RelayRun C :=
  run (step cfg) init inputs

/-- The latest accepted Register of a pair. -/
def latest (w : RelayRun C) (k : SessionKey) : Option (Registration C) :=
  w.registrations.find? fun r => r.key = k

/-- A session was last seen when the latest Register of its pair was accepted. -/
def Renewed (w : RelayRun C) : Prop :=
  ∀ k x, w.server.session k = some x →
    ∃ r, w.latest k = some r ∧ r.nowUnix = x.lastSeenUnix

variable (cfg : RelayConfig C)

theorem sound_after (inputs : List RelayInput) : (after cfg inputs).server.Sound :=
  run_invariant (P := fun w : RelayRun C => w.server.Sound)
    (fun w input h => h.move (w.server.move cfg input)) RelayServer.sound_new inputs

theorem latest_step_of_ne {w : RelayRun C} {input : RelayInput} {k : SessionKey}
    (h : ∀ r ∈ w.server.accepted cfg input, r.key ≠ k) :
    (w.step cfg input).latest k = w.latest k := by
  rw [latest, step]
  cases hr : w.server.accepted cfg input with
  | none => rfl
  | some r =>
      have hne : ¬r.key = k := h r hr
      simp [latest, hne]

theorem renewed_after (inputs : List RelayInput) : (after cfg inputs).Renewed := by
  refine run_invariant (P := fun w : RelayRun C => w.Renewed) (fun w input h k x hx => ?_)
    (fun k x hx => by cases hx) inputs
  have hmove := w.server.move cfg input
  by_cases hk : ∃ r ∈ w.server.accepted cfg input, r.key = k
  · obtain ⟨r, hr, rfl⟩ := hk
    rw [Option.mem_def] at hr
    obtain ⟨x₀, hafter, -⟩ := RelayServer.session_of_accepted (RelayServer.move_of_accepted hr)
    rw [step] at hx
    rw [hafter] at hx
    cases hx
    exact ⟨r, by simp [latest, step, hr], rfl⟩
  · have hne : ∀ r ∈ w.server.accepted cfg input, r.key ≠ k := fun r hr hrk => hk ⟨r, hr, hrk⟩
    rw [latest_step_of_ne cfg hne]
    exact h k x (RelayServer.session_of_move hmove hne hx)

/-- As long as a pair has a session, it has the same port. -/
theorem port_run {w : RelayRun C} {k : SessionKey} {x : Session} (hx : w.server.session k = some x)
    {inputs : List RelayInput}
    (hstays : ∀ done, done <+: inputs →
      (run (step cfg) w done).server.table.contains k = true) :
    (run (step cfg) w inputs).server.table.port k = some x.port := by
  induction inputs generalizing w x with
  | nil =>
      rw [run_nil]
      exact RelayServer.port_eq hx
  | cons input inputs ih =>
      have hnext := hstays [input] (List.cons_prefix_cons.2 ⟨rfl, List.nil_prefix⟩)
      obtain ⟨x', hx'⟩ := Option.isSome_iff_exists.1 hnext
      have hport := RelayServer.port_of_move (w.server.move cfg input) hx hx'
      rw [run_cons, ← hport]
      refine ih hx' fun done hdone => ?_
      exact hstays (input :: done) (List.cons_prefix_cons.2 ⟨rfl, hdone⟩)

/-- Accepted Registers are admitted. -/
theorem admitted_after (inputs : List RelayInput) :
    ∀ r ∈ (after cfg inputs).registrations, r.Admitted cfg := by
  refine run_invariant (P := fun w : RelayRun C => ∀ r ∈ w.registrations, r.Admitted cfg)
    (fun w input h r hr => ?_) (fun r hr => by cases hr) inputs
  rcases List.mem_append.1 hr with hr | hr
  · exact (RelayServer.move_of_accepted (Option.mem_toList.1 hr)).admitted
  · exact h r hr

end RelayRun

open RelayRun in
/-- **The contract of the session table**, after any events and at any next one.  Table and
senders have the same keys, at most 256.  A session goes only by an Unregister of its own
pair or more than its lifetime after the latest Register of the pair was accepted, and a
newcomer gets a session only if there is room after a prune.  While a pair has a session it
has one port, and every acknowledgement names the port its pair has.  An accepted Register
writes the address of its side, and two Registers of a pair are for one side exactly when
they come from one party. -/
theorem session_table (cfg : RelayConfig C) (inputs : List RelayInput) :
    let w := after cfg inputs
    (∀ k, (w.server.senders.get? k).isSome = w.server.table.contains k) ∧
    w.server.table.len ≤ maxSessions ∧
    (∀ input k, w.server.table.contains k = true →
      (w.step cfg input).server.table.contains k = false →
        (∃ datagram src nowUnix now bind frame src',
          input = .control datagram src nowUnix now bind ∧
          RelayServer.opened cfg datagram src nowUnix = some (frame, src') ∧
          frame.kind = .unregister ∧ frame.sessionKey = k) ∨
        ∃ nowUnix r, input.nowUnix? = some nowUnix ∧ w.latest k = some r ∧
          r.nowUnix + sessionTtlSecs < nowUnix) ∧
    (∀ input r, w.server.accepted cfg input = some r → w.server.table.contains r.key = false →
      (w.server.pruned r.nowUnix).table.len < maxSessions) ∧
    (∀ k later, (∀ done, done <+: later → (after cfg (inputs ++ done)).server.table.contains k) →
      (after cfg (inputs ++ later)).server.table.port k = w.server.table.port k) ∧
    (∀ input frame dst, .ack frame dst ∈ (w.server.handle cfg input).2 →
      (w.step cfg input).server.table.port frame.sessionKey = some frame.port) ∧
    (∀ input r, w.server.accepted cfg input = some r →
      (w.step cfg input).server.table.addrs r.key r.side = some r.addr) ∧
    ∀ r ∈ w.registrations, ∀ r' ∈ w.registrations, r.key = r'.key →
      (r.side = r'.side ↔ r.frame.selfKey = r'.frame.selfKey) := by
  intro w
  have hsound := sound_after cfg inputs
  refine ⟨hsound.keys, hsound.bounded, fun input k hin hout => ?_, fun input r hr hout => ?_,
    fun k later hstays => ?_, fun input frame dst hack => ?_, fun input r hr => ?_,
    fun r hr r' hr' hkey => ?_⟩
  · obtain ⟨x, hx⟩ := Option.isSome_iff_exists.1 hin
    have hnone : (w.step cfg input).server.session k = none :=
      RelayServer.contains_eq_false_iff.1 hout
    rcases RelayServer.removed_of_move (w.server.move cfg input) hx hnone with
      h | ⟨nowUnix, hnow, hstale⟩
    · exact Or.inl h
    · obtain ⟨r, hr, htime⟩ := renewed_after cfg inputs k x hx
      refine Or.inr ⟨nowUnix, r, hnow, hr, ?_⟩
      rw [RelayTable.stale, decide_eq_true_iff] at hstale
      omega
  · exact (RelayServer.move_of_accepted hr).room hout
  · have hin := hstays [] List.nil_prefix
    rw [List.append_nil] at hin
    obtain ⟨x, hx⟩ := Option.isSome_iff_exists.1 hin
    rw [RelayServer.port_eq hx, after, run_append]
    refine port_run cfg hx fun done hdone => ?_
    have := hstays done hdone
    rwa [after, run_append] at this
  · obtain ⟨r, hr, rfl⟩ := w.server.ack_spec hack
    obtain ⟨x, hx, -⟩ := RelayServer.session_of_accepted (RelayServer.move_of_accepted hr)
    have hport := RelayServer.port_eq hx
    refine hport.trans (congrArg some ?_)
    exact (congrArg (Option.getD · 0) hport).symm
  · obtain ⟨x, hx, -⟩ := RelayServer.session_of_accepted (RelayServer.move_of_accepted hr)
    refine (congrFun (RelayServer.addrs_eq hx) r.side).trans ?_
    simp [Session.touch]
  · exact RelayFrame.side_eq_iff (admitted_after cfg inputs r hr).pair
      (admitted_after cfg inputs r' hr').pair hkey

end Hextet
