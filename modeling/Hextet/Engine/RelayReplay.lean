/-
# Replayed control frames

The MAC of a control frame does not cover the address it comes from, and a frame is taken
again as long as its time stamp is within five minutes of the clock.  A node without the
relay key can therefore send a datagram that the server has processed once more, from
another address.  Apart from the time a session was last seen that changes the table
exactly when it is a Register from another address than the one the table has, or a
Register or an Unregister that finds the pair in another state than the original left it
(`replay_renews_iff`).  From the address of the original a replay changes nothing, as long
as the pair is as the original left it (`onlyRenews_of_processed`).
-/

import Hextet.Engine.RelayForward

namespace Hextet

open Lib

variable {C : Crypto}

namespace RelayServer

/-- The sessions are the same, but for the times they were last seen. -/
def SameButSeen (s s' : RelayServer) : Prop :=
  ∀ k, (s.session k).map (fun x => (x.port, x.addrs)) =
    (s'.session k).map fun x => (x.port, x.addrs)

/-- A Register has nothing to write but a time: it has no port; or its pair has a session, with
the announced address on its side; or its pair has none and can get none, and no session is
stale. -/
def RegisterOnlyRenews (s : RelayServer) (frame : RelayFrame C) (src : SocketAddrV6)
    (nowUnix : ℕ) (bind : Option UInt16) : Prop :=
  frame.port = 0 ∨
    if s.table.contains frame.sessionKey = true then
      s.table.addrs frame.sessionKey frame.side = some (dataAddr src frame)
    else
      (∀ k x, s.session k = some x → RelayTable.stale nowUnix x = false) ∧
        (maxSessions ≤ s.table.len ∨ bind = none)

/-- A control datagram is dropped or has nothing to write but a time. -/
def OnlyRenews (cfg : RelayConfig C) (s : RelayServer) (datagram : List UInt8) (src : SocketAddr)
    (nowUnix : ℕ) (bind : Option UInt16) : Prop :=
  ∀ frame src', opened cfg datagram src nowUnix = some (frame, src') →
    match frame.kind with
    | .register => s.RegisterOnlyRenews frame src' nowUnix bind
    | .unregister => s.table.contains frame.sessionKey = false
    | .registerAck => True

theorem SameButSeen.addrs {s s' : RelayServer} (h : s.SameButSeen s') (k : SessionKey) :
    s.table.addrs k = s'.table.addrs k := by
  have hk := congrArg (fun o => (Option.map Prod.snd o).getD noAddrs) (h k)
  rw [RelayTable.addrs, RelayTable.addrs]
  simpa only [Option.map_map, Function.comp_def, session] using hk

variable (s : RelayServer) (key : SessionKey) (nowUnix : ℕ)

/-- A prune changes nothing exactly when no session is stale. -/
theorem sameButSeen_pruned_iff : s.SameButSeen (s.pruned nowUnix) ↔
    ∀ k x, s.session k = some x → RelayTable.stale nowUnix x = false := by
  constructor
  · intro h k x hx
    have hk := h k
    rw [session_pruned, hx] at hk
    by_contra hstale
    simp [Option.filter_some, hstale] at hk
  · intro h k
    rw [session_pruned]
    cases hx : s.session k with
    | none => rfl
    | some x => simp [Option.filter_some, h k x hx]

/-- Without stale sessions a prune keeps the number of sessions. -/
theorem len_pruned (h : ∀ k x, s.session k = some x → RelayTable.stale nowUnix x = false) :
    (s.pruned nowUnix).table.len = s.table.len := by
  have hnil : (s.table.prune nowUnix).1 = [] := by
    refine List.eq_nil_iff_forall_not_mem.2 fun k hk => ?_
    obtain ⟨x, hx, hstale⟩ := (s.table.mem_prune_fst nowUnix k).1 hk
    rw [h k x hx] at hstale
    cases hstale
  have htable : (s.pruned nowUnix).table.sessions =
      (s.table.prune nowUnix).1.foldl KeyMap.erase s.table.sessions := rfl
  rw [RelayTable.len, htable, hnil]
  rfl

/-- The removal of a pair changes nothing exactly when it has no session. -/
theorem sameButSeen_onUnregister_iff : s.SameButSeen (s.onUnregister key) ↔
    s.table.contains key = false := by
  constructor
  · intro h
    have hk := h key
    rw [session_onUnregister, if_pos rfl, Option.map_none] at hk
    exact contains_eq_false_iff.2 (Option.map_eq_none_iff.1 hk)
  · intro h k
    rw [session_onUnregister]
    split_ifs with hk
    · rw [hk, contains_eq_false_iff.1 h]
    · rfl

/-- An announcement changes nothing but a time exactly when the address is there. -/
theorem sameButSeen_announced_iff (hin : s.table.contains key = true) (side : Fin 2)
    (addr : SocketAddrV6) : s.SameButSeen (s.announced key side addr nowUnix) ↔
      s.table.addrs key side = some addr := by
  obtain ⟨x, hx⟩ := Option.isSome_iff_exists.1 hin
  rw [addrs_eq hx]
  constructor
  · intro h
    have hk := h key
    rw [session_announced, if_pos rfl, show s.session key = some x from hx] at hk
    simp only [Option.map_some, Session.touch, Option.some.injEq, Prod.mk.injEq, true_and] at hk
    rw [hk, Function.update_self]
  · intro h k
    rw [session_announced]
    split_ifs with hk
    · rw [hk, show s.session key = some x from hx]
      simp only [Option.map_some, Session.touch, ← h, Function.update_eq_self]
    · rfl

/-- A new session is a change. -/
theorem not_sameButSeen_of_new {s s' : RelayServer} {key : SessionKey} {x : Session}
    (hout : s.table.contains key = false) (hx : s'.session key = some x) : ¬s.SameButSeen s' := by
  intro h
  have hk := h key
  rw [contains_eq_false_iff.1 hout, hx] at hk
  cases hk

/-- **A Register only renews** exactly when it has nothing else to write. -/
theorem sameButSeen_onRegister_iff (frame : RelayFrame C) (src : SocketAddrV6) (now : Instant)
    (bind : Option UInt16) :
    s.SameButSeen (s.onRegister frame src nowUnix now bind).1 ↔
      s.RegisterOnlyRenews frame src nowUnix bind := by
  unfold onRegister RegisterOnlyRenews
  by_cases hport : frame.port = 0
  · simp only [if_pos hport]
    exact iff_of_true (fun k => rfl) (Or.inl hport)
  simp only [if_neg hport]
  by_cases hin : s.table.contains frame.sessionKey = true
  · have hensured : s.ensured frame.sessionKey nowUnix now bind = (s, true) := if_pos hin
    rw [hensured]
    simp only [hport, false_or, if_pos hin]
    exact s.sameButSeen_announced_iff _ nowUnix hin _ _
  have hout : s.table.contains frame.sessionKey = false := by simpa using hin
  simp only [hport, false_or, if_neg hin]
  by_cases hrefused : maxSessions ≤ (s.pruned nowUnix).table.len ∨ bind = none
  · -- the stale sessions are gone all the same
    have hensured : s.ensured frame.sessionKey nowUnix now bind = (s.pruned nowUnix, false) := by
      simp only [ensured, if_neg hin]
      split_ifs with hfull
      · rfl
      · rw [hrefused.resolve_left hfull]
    rw [hensured]
    simp only [sameButSeen_pruned_iff]
    constructor
    · intro hfresh
      rw [s.len_pruned nowUnix hfresh] at hrefused
      exact ⟨hfresh, hrefused⟩
    · exact fun h => h.1
  · obtain ⟨hroom, hbind⟩ := not_or.1 hrefused
    obtain ⟨port, hport'⟩ := Option.ne_none_iff_exists'.1 hbind
    have hensured : s.ensured frame.sessionKey nowUnix now bind =
        (s.pruned nowUnix).spawned frame.sessionKey port nowUnix now := by
      simp only [ensured, if_neg hin, if_neg hroom, hport']
    obtain ⟨s₁, hs₁⟩ : ∃ s₁, (s.pruned nowUnix).spawned frame.sessionKey port nowUnix now =
        (s₁, true) := by
      rw [spawned_of_room _ _ _ (not_le.1 hroom)]
      exact ⟨_, rfl⟩
    have hspawned := session_created (not_le.1 hroom) frame.sessionKey port nowUnix now
      frame.sessionKey
    rw [hs₁, if_pos rfl] at hspawned
    have hnew := s₁.session_announced frame.sessionKey nowUnix frame.sessionKey frame.side
      (dataAddr src frame)
    rw [if_pos rfl, show s₁.session _ = _ from hspawned] at hnew
    rw [hensured, hs₁]
    refine iff_of_false (not_sameButSeen_of_new hout hnew) ?_
    rintro ⟨hfresh, h⟩
    rw [← s.len_pruned nowUnix hfresh] at h
    exact hrefused h

/-- A control datagram only renews exactly when it has nothing else to write. -/
theorem sameButSeen_onControl_iff (cfg : RelayConfig C) (datagram : List UInt8) (src : SocketAddr)
    (now : Instant) (bind : Option UInt16) :
    s.SameButSeen (s.onControl cfg datagram src nowUnix now bind).1 ↔
      s.OnlyRenews cfg datagram src nowUnix bind := by
  unfold onControl OnlyRenews
  cases hopen : opened cfg datagram src nowUnix with
  | none => exact iff_of_true (fun k => rfl) fun _ _ h => by cases h
  | some x =>
      obtain ⟨frame, src'⟩ := x
      have honly : ∀ P : RelayFrame C → SocketAddrV6 → Prop,
          (∀ f a, some (frame, src') = some (f, a) → P f a) ↔ P frame src' := by
        intro P
        constructor
        · exact fun h => h frame src' rfl
        · rintro h f a heq
          cases heq
          exact h
      rw [honly]
      cases hkind : frame.kind <;> simp only [hkind]
      case register => exact s.sameButSeen_onRegister_iff nowUnix frame src' now bind
      case unregister => exact s.sameButSeen_onUnregister_iff frame.sessionKey
      case registerAck => exact iff_of_true (fun k => rfl) trivial

/-- The clock decides only whether a datagram is taken, not what it says. -/
theorem opened_unique {cfg : RelayConfig C} {datagram : List UInt8} {src : SocketAddr} {n n' : ℕ}
    {x y : RelayFrame C × SocketAddrV6} (h : opened cfg datagram src n = some x)
    (h' : opened cfg datagram src n' = some y) : x = y := by
  unfold opened at h h'
  cases src with
  | v4 => cases h
  | v6 src =>
      simp only at h h'
      split at h
      next frame hdecode =>
        simp only [hdecode] at h'
        split_ifs at h h'
        exact (Option.some.inj h).symm.trans (Option.some.inj h')
      next => cases h

/-- A session that the pair of a Register has after it holds the announced address on the
sender's side. -/
theorem addrs_of_onRegister {frame : RelayFrame C} {src : SocketAddrV6} {now : Instant}
    {bind : Option UInt16} (hport : frame.port ≠ 0) {x : Session}
    (hx : (s.onRegister frame src nowUnix now bind).1.session frame.sessionKey = some x) :
    x.addrs frame.side = some (dataAddr src frame) := by
  unfold onRegister at hx
  rw [if_neg hport] at hx
  have hannounced : ∀ s₁ : RelayServer,
      (s₁.announced frame.sessionKey frame.side (dataAddr src frame) nowUnix).session
        frame.sessionKey = some x → x.addrs frame.side = some (dataAddr src frame) := by
    intro s₁ h
    rw [session_announced, if_pos rfl] at h
    obtain ⟨y, -, rfl⟩ := Option.map_eq_some_iff.1 h
    exact Function.update_self ..
  obtain ⟨-, heq⟩ | ⟨hout, heq⟩ | ⟨-, -, port, -, heq⟩ :=
    s.ensured_cases frame.sessionKey nowUnix now bind
  · rw [heq] at hx
    exact hannounced _ hx
  · rw [heq] at hx
    simp [contains_eq_false_iff.1 hout] at hx
  · rw [heq] at hx
    exact hannounced _ hx

/-- **What the original left, its replay finds.**  A datagram was processed, and since then
the pair has kept its session, with the address on the sender's side, or has none as it
then had none: the same bytes from the same address have nothing to write.  A Register
must have got its pair the session. -/
theorem onlyRenews_of_processed {cfg : RelayConfig C} {datagram : List UInt8} {src : SocketAddr}
    {frame : RelayFrame C} {src' : SocketAddrV6} (now₀ : Instant) (bind₀ : Option UInt16)
    (hopen : opened cfg datagram src nowUnix = some (frame, src')) {t : RelayServer}
    (hkept : (t.session frame.sessionKey).map (fun x => x.addrs frame.side) =
      ((s.onControl cfg datagram src nowUnix now₀ bind₀).1.session frame.sessionKey).map
        fun x => x.addrs frame.side)
    (hgot : frame.kind = .register → t.table.contains frame.sessionKey = true)
    (nowUnix' : ℕ) (bind : Option UInt16) : t.OnlyRenews cfg datagram src nowUnix' bind := by
  intro f a hf
  cases opened_unique hopen hf
  simp only [onControl, hopen] at hkept
  cases hkind : frame.kind with
  | registerAck => trivial
  | unregister =>
      simp only [hkind, session_onUnregister, if_true, Option.map_none, Option.map_eq_none_iff]
        at hkept
      exact contains_eq_false_iff.2 hkept
  | register =>
      have hin := hgot hkind
      obtain ⟨y, hy⟩ := Option.isSome_iff_exists.1 hin
      simp only [hkind, show t.session frame.sessionKey = some y from hy, Option.map_some] at hkept
      obtain ⟨x, hx, hxy⟩ := Option.map_eq_some_iff.1 hkept.symm
      by_cases hport : frame.port = 0
      · exact Or.inl hport
      · refine Or.inr ?_
        rw [if_pos hin, addrs_eq hy, ← hxy]
        exact s.addrs_of_onRegister nowUnix hport hx

end RelayServer

/-- **When a replay only renews.**  At any time after a control datagram was processed the same
bytes arrive once more, from any address: the sessions change at most in the times they were
last seen exactly when the datagram then has nothing else to write.  From the address of the
original that is so as long as the pair is as the original left it
(`onlyRenews_of_processed`). -/
theorem replay_renews_iff (cfg : RelayConfig C) (before later : List RelayInput)
    (datagram : List UInt8) (src₀ : SocketAddr) (nowUnix₀ : ℕ) (now₀ : Instant)
    (bind₀ : Option UInt16) (src : SocketAddr) (nowUnix : ℕ) (now : Instant)
    (bind : Option UInt16) :
    let w := RelayRun.after cfg
      (before ++ .control datagram src₀ nowUnix₀ now₀ bind₀ :: later)
    w.server.SameButSeen (w.step cfg (.control datagram src nowUnix now bind)).server ↔
      w.server.OnlyRenews cfg datagram src nowUnix bind :=
  RelayServer.sameButSeen_onControl_iff _ nowUnix cfg datagram src now bind

/-- Node 1 has registered its pair with node 2, from `2001:db8::1`. -/
def oneRegistered : RelayRun Crypto.plain :=
  RelayRun.after plainRelay [plainControl .register 1 2 1 100]

/-- The datagram of that registration. -/
def registerDatagram : List UInt8 :=
  RelayFrame.encode plainRelay.hmac plainRelay.relayKey
    ⟨.register, 4193, 100, plainKey 1 0, plainKey 2 0⟩

/-- A minute later it arrives again from where it came from: nothing moves. -/
theorem replay_renews_plain : oneRegistered.server.SameButSeen
    (oneRegistered.step plainRelay
      (.control registerDatagram (.v6 (relayClient 1 40000)) 160 0 none)).server := by
  have hrenews : oneRegistered.server.OnlyRenews plainRelay registerDatagram
      (.v6 (relayClient 1 40000)) 160 none := by
    have hopen : RelayServer.opened plainRelay registerDatagram (.v6 (relayClient 1 40000)) 100 =
        some (⟨.register, 4193, 100, plainKey 1 0, plainKey 2 0⟩, relayClient 1 40000) := by
      decide +kernel
    refine RelayServer.onlyRenews_of_processed .new 100 0 (some 50000) hopen rfl (fun _ => ?_) 160
      none
    decide +kernel
  exact (replay_renews_iff plainRelay [] [] registerDatagram (.v6 (relayClient 1 40000)) 100 0
    (some 50000) (.v6 (relayClient 1 40000)) 160 0 none).2 hrenews

/-- The same datagram a minute later, from `2001:db8::42`. -/
def replayed : RelayInput :=
  .control registerDatagram (.v6 (relayClient 0x42 40000)) 160 0 none

/-- **A replay moves a side**: the data address of node 1 is then that of the sender. -/
theorem replay_moves_side :
    ¬oneRegistered.server.SameButSeen (oneRegistered.step plainRelay replayed).server ∧
      let key := sessionKeyOf (plainKey 1 0).bytes (plainKey 2 0).bytes
      oneRegistered.server.table.addrs key 0 = some (relayClient 1 4193) ∧
        (oneRegistered.step plainRelay replayed).server.table.addrs key 0 =
          some (relayClient 0x42 4193) := by
  have hmoved : oneRegistered.server.table.addrs
        (sessionKeyOf (plainKey 1 0).bytes (plainKey 2 0).bytes) 0 = some (relayClient 1 4193) ∧
      (oneRegistered.step plainRelay replayed).server.table.addrs
        (sessionKeyOf (plainKey 1 0).bytes (plainKey 2 0).bytes) 0 =
          some (relayClient 0x42 4193) := by
    decide +kernel
  refine ⟨fun h => ?_, hmoved⟩
  have hsame := congrFun (h.addrs (sessionKeyOf (plainKey 1 0).bytes (plainKey 2 0).bytes)) 0
  rw [hmoved.1, hmoved.2] at hsame
  exact absurd hsame (by decide)

end Hextet
