/-
# The path through the relay

A task forwards by the addresses it took from its channel last, and an announcement that
finds the channel full is lost.  What the task will know once it has read its channel
(`Forwarder.told`) is what the table says exactly as long as no Register that changes an
address is lost so (`tasks_told_iff`).

Two nodes that both registered, of which neither has moved since, then have one endpoint for
each other, and what either sends there comes to the other (`relay_path`).  What came before,
a move, a session that was removed or an announcement that was lost, does not matter.
-/

import Hextet.Engine.RelayAnswers

namespace Hextet

open Lib

variable {C : Crypto}

/-! ### What the tasks are told -/

/-- The addresses that a task will have once it has read its channel. -/
def Forwarder.told (f : Forwarder) : SessionAddrs := f.queue.getLast?.getD f.addrs

namespace Forwarder

variable (f : Forwarder)

/-- A task is told what finds room in its channel. -/
theorem told_trySend_of_room (addrs : SessionAddrs) (h : f.running = true)
    (hroom : f.queue.length < channelCap) : (f.trySend addrs).told = addrs := by
  rw [trySend, if_pos ⟨h, hroom⟩]
  simp [told]

theorem told_trySend (addrs : SessionAddrs) :
    (f.trySend addrs).told = addrs ∨ (f.trySend addrs).told = f.told ∧
      ¬(f.running = true ∧ f.queue.length < channelCap) := by
  by_cases h : f.running = true ∧ f.queue.length < channelCap
  · exact Or.inl (f.told_trySend_of_room addrs h.1 h.2)
  · exact Or.inr ⟨by rw [trySend, if_neg h], h⟩

/-- To read the channel changes nothing of what a task will know. -/
theorem told_takeUpdate (hasSender : Bool) : (f.takeUpdate hasSender).told = f.told := by
  unfold takeUpdate
  split
  next next rest hqueue =>
    rw [told, told, hqueue]
    cases rest with
    | nil => rfl
    | cons a rest => simp [List.getLast?_eq_some_getLast]
  next hqueue => split_ifs <;> rfl

theorem told_onDatagram (datagram : List UInt8) (src : SocketAddr) (now : Instant) :
    (f.onDatagram datagram src now).2.told = f.told := by
  obtain ⟨limiter, h⟩ := f.onDatagram_snd datagram src now
  rw [h]
  rfl

end Forwarder

namespace RelayServer

/-- The task of the pair, if it has a session, will know what the table says. -/
def ToldOf (s : RelayServer) (k : SessionKey) : Prop :=
  ∀ i f, s.senders.get? k = some i → s.tasks[i]? = some f → f.told = s.table.addrs k

/-- The task of every session will know what the table says. -/
def Told (s : RelayServer) : Prop := ∀ k, s.ToldOf k

/-- A Register, if one is accepted, changes no address, or the task of its pair runs and has room
in its channel. -/
def Reaches (cfg : RelayConfig C) (s : RelayServer) (input : RelayInput) : Prop :=
  ∀ r ∈ s.accepted cfg input, ∀ i ∈ s.senders.get? r.key, ∀ f ∈ s.tasks[i]?,
    s.table.addrs r.key r.side = some r.addr ∨
      f.running = true ∧ f.queue.length < channelCap

instance (cfg : RelayConfig C) (s : RelayServer) (input : RelayInput) :
    Decidable (Reaches cfg s input) := inferInstanceAs (Decidable (∀ _ ∈ _, ∀ _ ∈ _, ∀ _ ∈ _, _))

/-- The same of the Registers of one pair. -/
def ReachesOf (cfg : RelayConfig C) (k : SessionKey) (s : RelayServer) (input : RelayInput) :
    Prop :=
  ∀ r ∈ s.accepted cfg input, r.key = k → ∀ i ∈ s.senders.get? k, ∀ f ∈ s.tasks[i]?,
    s.table.addrs k r.side = some r.addr ∨ f.running = true ∧ f.queue.length < channelCap

instance (cfg : RelayConfig C) (k : SessionKey) (s : RelayServer) (input : RelayInput) :
    Decidable (ReachesOf cfg k s input) :=
  inferInstanceAs (Decidable (∀ _ ∈ _, _ → ∀ _ ∈ _, ∀ _ ∈ _, _))

section

variable {s : RelayServer} {k : SessionKey}

theorem ToldOf.onTask (h : s.ToldOf k) (i : ℕ) {g : Forwarder → Forwarder}
    (hg : ∀ f, (g f).told = f.told) : (s.onTask i g).ToldOf k := by
  intro j f hj hf
  rw [tasks_onTask] at hf
  obtain ⟨f₀, hf₀, rfl⟩ := Option.map_eq_some_iff.1 hf
  have htold := h j f₀ hj hf₀
  split_ifs
  · exact (hg f₀).trans htold
  · exact htold

theorem ToldOf.pruned (h : s.ToldOf k) (nowUnix : ℕ) : (s.pruned nowUnix).ToldOf k := by
  intro i f hi hf
  refine (h i f (sender_of_pruned hi) hf).trans ?_
  rw [sender_pruned] at hi
  split_ifs at hi with hstale
  have hsame : (s.pruned nowUnix).session k = s.session k := by
    rw [session_pruned]
    cases hx : s.session k with
    | none => rfl
    | some x =>
        rw [hx, Option.any_some] at hstale
        simp [Option.filter_some, hstale]
  exact (congrArg (fun x => (Option.map Session.addrs x).getD noAddrs) hsame).symm

theorem ToldOf.spawned (h : s.ToldOf k) (hsound : s.Sound) (hroom : s.table.len < maxSessions)
    (key : SessionKey) (port : UInt16) (nowUnix : ℕ) (now : Instant) :
    (s.spawned key port nowUnix now).1.ToldOf k := by
  rw [spawned_of_room _ _ _ hroom]
  intro i f hi hf
  simp only [KeyMap.get?_insert] at hi
  split_ifs at hi with hk
  · cases hi
    rw [List.getElem?_concat_length] at hf
    cases hf
    simp [Forwarder.told, Forwarder.spawn, RelayTable.addrs, KeyMap.get?_insert, hk]
  · obtain ⟨f₀, hf₀, -⟩ := hsound.task k i hi
    obtain ⟨hlt, -⟩ := List.getElem?_eq_some_iff.1 hf₀
    rw [List.getElem?_append_left hlt] at hf
    simpa [RelayTable.addrs, KeyMap.get?_insert, hk] using h i f hi hf

/-- The addresses of another pair are not touched by an announcement. -/
theorem addrs_announced_of_ne {key : SessionKey} (hk : k ≠ key) (side : Fin 2)
    (addr : SocketAddrV6) (nowUnix : ℕ) :
    (s.announced key side addr nowUnix).table.addrs k = s.table.addrs k := by
  have hsame : (s.announced key side addr nowUnix).session k = s.session k := by
    rw [session_announced, if_neg hk]
  exact congrArg (fun x => (Option.map Session.addrs x).getD noAddrs) hsame

/-- The task of another pair is not told of an announcement. -/
theorem task_announced_of_ne (hsound : s.Sound) {key : SessionKey} (hk : k ≠ key) {i : ℕ}
    (hi : s.senders.get? k = some i) (side : Fin 2) (addr : SocketAddrV6) (nowUnix : ℕ) :
    (s.announced key side addr nowUnix).tasks[i]? = s.tasks[i]? := by
  obtain ⟨f, hf, hkey, -⟩ := hsound.task k i hi
  have hother : ¬s.senders.get? key = some i := by
    intro hsame
    obtain ⟨f', hf', hkey', -⟩ := hsound.task key i hsame
    rw [hf] at hf'
    cases hf'
    exact hk (hkey.symm.trans hkey')
  rw [tasks_announced, hf, Option.map_some, if_neg hother]

/-- **An announcement keeps the task told**, if it is for another pair, changes nothing or finds
room. -/
theorem ToldOf.announced (h : s.ToldOf k) (hsound : s.Sound) {key : SessionKey} {x : Session}
    (hx : s.session key = some x) {side : Fin 2} {addr : SocketAddrV6} {nowUnix : ℕ}
    (hreach : key = k → ∀ i, s.senders.get? k = some i → ∀ f ∈ s.tasks[i]?,
      x.addrs side = some addr ∨ f.running = true ∧ f.queue.length < channelCap) :
    (s.announced key side addr nowUnix).ToldOf k := by
  intro i f hi hf
  rw [senders_announced] at hi
  by_cases hk : k = key
  · subst hk
    rw [tasks_announced, addrs_announced hx] at hf
    obtain ⟨f₀, hf₀, rfl⟩ := Option.map_eq_some_iff.1 hf
    rw [if_pos hi, addrs_announced hx]
    rcases hreach rfl i hi f₀ hf₀ with hsame | ⟨hrunning, hroom⟩
    · -- the table has the address already
      have hupdate : Function.update x.addrs side (some addr) = x.addrs := by
        rw [← hsame, Function.update_eq_self]
      have htold : f₀.told = x.addrs := (h i f₀ hi hf₀).trans (addrs_eq hx)
      rcases f₀.told_trySend (Function.update x.addrs side (some addr)) with heq | ⟨heq, -⟩
      · exact heq
      · rw [heq, htold, hupdate]
    · exact f₀.told_trySend_of_room _ hrunning hroom
  · rw [task_announced_of_ne hsound hk hi] at hf
    rw [addrs_announced_of_ne hk]
    exact h i f hi hf

/-- **Every event keeps the task of a pair told**, if what is announced for it reaches it. -/
theorem ToldOf.move (h : s.ToldOf k) (hsound : s.Sound) {cfg : RelayConfig C} {input : RelayInput}
    {s' : RelayServer} {r : Option (Registration C)} (hmove : Move cfg s input s' r)
    (hreach : ∀ y ∈ r, y.key = k → ∀ i, s.senders.get? k = some i → ∀ f ∈ s.tasks[i]?,
      s.table.addrs k y.side = some y.addr ∨
        f.running = true ∧ f.queue.length < channelCap) : s'.ToldOf k := by
  cases hmove with
  | stay => exact h
  | prune nowUnix => exact h.pruned nowUnix
  | refuse => exact h.pruned _
  | take i => exact h.onTask i fun f => f.told_takeUpdate _
  | fail i => exact h.onTask i fun f => rfl
  | data i datagram src now => exact h.onTask i fun f => f.told_onDatagram datagram src now
  | remove _ _ _ _ _ frame =>
      intro i f hi hf
      rw [s.sender_onUnregister _ k hsound.keys] at hi
      rw [tasks_onUnregister] at hf
      split_ifs at hi with hk
      have hsame : (s.onUnregister frame.sessionKey).session k = s.session k := by
        rw [session_onUnregister, if_neg hk]
      refine (h i f hi hf).trans ?_
      exact (congrArg (fun x => (Option.map Session.addrs x).getD noAddrs) hsame).symm
  | renew _ _ _ _ y hy hin =>
      obtain ⟨x, hx⟩ := Option.isSome_iff_exists.1 hin
      refine h.announced hsound hx fun hk i hi f hf => ?_
      have := hreach y rfl hk i hi f hf
      rwa [addrs_eq (hk ▸ hx)] at this
  | create _ _ now port y hy hout hroom =>
      have hout' : (s.pruned y.nowUnix).session y.key = none := by
        rw [session_pruned, contains_eq_false_iff.1 hout]
        rfl
      have hspawned := (hsound.pruned y.nowUnix).spawned hroom _ hout' port y.nowUnix now
      have hx : ((s.pruned y.nowUnix).spawned y.key port y.nowUnix now).1.session y.key =
          some ⟨port, noAddrs, y.nowUnix⟩ := by
        rw [session_created hroom, if_pos rfl]
      have htold := (h.pruned y.nowUnix).spawned (hsound.pruned _) hroom y.key port y.nowUnix now
      refine htold.announced hspawned hx ?_
      -- the task is new and its channel empty
      rintro rfl i hi f hf
      rw [spawned_of_room _ _ _ hroom] at hi hf
      simp only [KeyMap.get?_insert, if_true, Option.some.injEq] at hi
      subst hi
      rw [Option.mem_def, List.getElem?_concat_length] at hf
      cases hf
      exact Or.inr ⟨rfl, Nat.zero_lt_succ _⟩

/-- A pair without a session has no task to tell. -/
theorem toldOf_of_out (hsound : s.Sound) (hout : s.table.contains k = false) : s.ToldOf k := by
  intro i f hi
  have hkeys := hsound.keys k
  rw [hi, ← contains_eq, hout] at hkeys
  cases hkeys

/-- **An announcement that is lost** leaves a task behind the table. -/
theorem not_told_of_lost (h : s.Told) (hsound : s.Sound) {cfg : RelayConfig C}
    {input : RelayInput} (hlost : ¬Reaches cfg s input) : ¬(s.handle cfg input).1.Told := by
  simp only [Reaches, not_forall] at hlost
  obtain ⟨y, hy, i, hi, f, hf, hlost⟩ := hlost
  rw [Option.mem_def] at hy hi hf
  rw [not_or] at hlost
  obtain ⟨hchange, hfull⟩ := hlost
  have hin : s.table.contains y.key = true := by
    rw [contains_eq, ← hsound.keys, hi]
    rfl
  have hmove := move_of_accepted hy
  intro htold
  generalize (s.handle cfg input).1 = s' at hmove htold
  cases hmove with
  | create _ _ now port y hy hout =>
      rw [hin] at hout
      cases hout
  | renew =>
      obtain ⟨x, hx⟩ := Option.isSome_iff_exists.1 hin
      have hafter : (s.announced y.key y.side y.addr y.nowUnix).tasks[i]? =
          some (f.trySend (Function.update x.addrs y.side (some y.addr))) := by
        rw [tasks_announced, hf, Option.map_some, if_pos hi,
          addrs_announced hx]
      have hnew := htold y.key i _ (by rw [senders_announced]; exact hi) hafter
      have hsame : f.trySend (Function.update x.addrs y.side (some y.addr)) = f := by
        rw [Forwarder.trySend, if_neg hfull]
      rw [hsame, h y.key i f hi hf, addrs_announced hx] at hnew
      refine hchange ?_
      rw [hnew, Function.update_self]

end

end RelayServer

/-- **When the tasks know what the table says**: along a run, every task will know the addresses
that the table has for its pair once it has read its channel, exactly when no Register that
changes an address comes while the channel of the task is full or the task has ended. -/
theorem tasks_told_iff (cfg : RelayConfig C) (inputs : List RelayInput) :
    (∀ done, done <+: inputs → (RelayRun.after cfg done).server.Told) ↔
      Along (RelayRun.step cfg) (fun w input => w.server.Reaches cfg input) .init inputs := by
  refine (Along.iff_forall_prefix
    (P := fun w : RelayRun C => w.server.Sound ∧ w.server.Told)
    (Q := fun w : RelayRun C => w.server.Told) (fun w input h hok => ?_) (fun w h => h.2)
    (fun w input h hbad => RelayServer.not_told_of_lost h.2 h.1 hbad)
    ⟨RelayServer.sound_new, fun k i f hi => by cases hi⟩ inputs).symm
  have hmove := w.server.move cfg input
  exact ⟨h.1.move hmove, fun k => (h.2 k).move h.1 hmove fun y hy hk => hk ▸ hok y hy⟩

/-! ### From one node to the other -/

/-- What comes from the address of a side goes to the address of the other side. -/
theorem Forwarder.destination_of_sides {f : Forwarder} {side : Fin 2} {src dst : SocketAddrV6}
    (hsrc : f.addrs side = some src) (hdst : f.addrs side.rev = some dst) :
    f.destination src = some dst := by
  unfold destination
  rcases Fin.exists_fin_two.1 ⟨side, rfl⟩ with rfl | rfl
  · rw [if_pos hsrc.symm]
    exact hdst
  · have hdst : f.addrs 0 = some dst := hdst
    split_ifs with h₀ h₁
    · -- both sides are at one address
      rw [hsrc, h₀, hdst]
    · exact hdst
    · exact absurd hsrc.symm h₁

/-- **A task passes on** what comes from the address of a side, is no control frame, does not fill
the buffer and is within the limit. -/
theorem RelayServer.handle_data {cfg : RelayConfig C} {s : RelayServer} {i : ℕ} {f : Forwarder}
    (hf : s.tasks[i]? = some f) (hrunning : f.running = true) {datagram : List UInt8}
    (hframe : isRelayFrame datagram = false) (hlen : datagram.length < forwardBuf)
    {src dst : SocketAddrV6} (hdst : f.destination (normalize src) = some dst) {now : Instant}
    (hpass : (f.limiter.allow now).1 = true) :
    (s.handle cfg (.data i datagram (.v6 src) now)).2 = [.forwarded i datagram (.v6 src) dst] := by
  have htake : datagram.take forwardBuf = datagram := List.take_of_length_le hlen.le
  have hsent : (f.onDatagram datagram (.v6 src) now).1 = some (datagram, dst) := by
    simp [Forwarder.onDatagram, htake, hframe, hlen.ne, hdst, hpass]
  simp [handle, onData, hf, Option.filter_some, hrunning, hsent]

/-- A Register for a pair, beside one of the same side: it is from the same party to the same
party. -/
theorem Registration.same_party {cfg : RelayConfig C} {r r' : Registration C}
    (hr : r.Admitted cfg) (hr' : r'.Admitted cfg) (hkey : r.key = r'.key)
    (hside : r.side = r'.side) :
    r.frame.selfKey = r'.frame.selfKey ∧ r.frame.peerKey = r'.frame.peerKey := by
  obtain ⟨hself, hpeer⟩ := r.frame.party_side hr.pair
  obtain ⟨hself', hpeer'⟩ := r'.frame.party_side hr'.pair
  have hkey : r.frame.sessionKey = r'.frame.sessionKey := hkey
  have hside : r.frame.side = r'.frame.side := hside
  rw [hkey, hside] at hself hpeer
  exact ⟨NodePublicKey.ext_bytes (hself.symm.trans hself'),
    NodePublicKey.ext_bytes (hpeer.symm.trans hpeer')⟩

/-- Registers of the two parties of a pair are for its two sides. -/
theorem Registration.side_of_peer {cfg : RelayConfig C} {r r' : Registration C}
    (hr : r.Admitted cfg) (hr' : r'.Admitted cfg) (hself : r'.frame.selfKey = r.frame.peerKey)
    (hpeer : r'.frame.peerKey = r.frame.selfKey) : r'.key = r.key ∧ r'.side = r.side.rev := by
  have hkey : r'.frame.sessionKey = r.frame.sessionKey := by
    rw [RelayFrame.sessionKey, RelayFrame.sessionKey, hself, hpeer, sessionKeyOf_comm]
  refine ⟨hkey, eq_rev_of_ne fun hside => hr.pair ?_⟩
  have hsame := (RelayFrame.side_eq_iff hr'.pair hr.pair hkey).1 hside
  rw [← hsame, hself]

namespace RelayNet

variable {cfg : RelayConfig C}

/-- The event leaves the session of the pair, and has the party of the call nowhere else than
where it called from. -/
def Stays (cfg : RelayConfig C) (call : RelayCall C) (w : RelayRun C) (event : RelayInput) : Prop :=
  Spares cfg call.key w event ∧ ∀ r ∈ w.server.accepted cfg event,
    r.frame.selfKey = call.selfKey → r.frame.peerKey = call.peerKey → r.addr = call.dataAddr

instance (call : RelayCall C) (w : RelayRun C) (event : RelayInput) :
    Decidable (Stays cfg call w event) := inferInstanceAs (Decidable (_ ∧ ∀ _ ∈ _, _ → _ → _))

/-- The relay accepted a Register of the party of the call for its pair, from where it called,
and the pair had the port; since then its session was not removed and the party has not
moved. -/
def Settled (cfg : RelayConfig C) (history : List RelayInput) (call : RelayCall C)
    (port : UInt16) : Prop :=
  ∃ past event rest r, history = (past ++ [event]) ++ rest ∧
    (RelayRun.after cfg past).server.accepted cfg event = some r ∧
    r.frame.selfKey = call.selfKey ∧ r.frame.peerKey = call.peerKey ∧ r.addr = call.dataAddr ∧
    (RelayRun.after cfg (past ++ [event])).server.table.port call.key = some port ∧
    Along (RelayRun.step cfg) (Stays cfg call) (.after cfg (past ++ [event])) rest

/-- Since the pair had no session for the last time, no announcement for it was lost on the way
to its task. -/
def Announced (cfg : RelayConfig C) (history : List RelayInput) (k : SessionKey) : Prop :=
  ∃ past rest, history = past ++ rest ∧
    (RelayRun.after cfg past).server.table.contains k = false ∧
    Along (RelayRun.step cfg) (fun w input => w.server.ReachesOf cfg k input)
      (.after cfg past) rest

/-- The run after a prefix, and what came later. -/
theorem after_append (cfg : RelayConfig C) (past rest : List RelayInput) :
    RelayRun.after cfg (past ++ rest) = run (RelayRun.step cfg) (.after cfg past) rest :=
  run_append ..

/-- **A step of the relay keeps where a party is**, if it stays. -/
theorem stays_step {call : RelayCall C} {r : Registration C} (hr : r.Admitted cfg)
    (hself : r.frame.selfKey = call.selfKey) (hpeer : r.frame.peerKey = call.peerKey)
    {w : RelayRun C} {event : RelayInput} (hstays : Stays cfg call w event) {x : Session}
    (hx : w.server.session call.key = some x) (haddr : x.addrs r.side = some call.dataAddr) :
    ∃ x', (w.step cfg event).server.session call.key = some x' ∧ x'.port = x.port ∧
      x'.addrs r.side = some call.dataAddr := by
  have hkey : r.key = call.key := RelayFrame.sessionKey_eq hself hpeer
  have hmove := w.server.move cfg event
  obtain ⟨x', hx'⟩ := Option.isSome_iff_exists.1 (hstays.1 (congrArg Option.isSome hx))
  refine ⟨x', hx', (RelayServer.later_of_move hmove hx hx').port, ?_⟩
  by_cases hk : ∃ y ∈ w.server.accepted cfg event, y.key = call.key
  · obtain ⟨y, hy, hyk⟩ := hk
    rw [hy] at hmove
    obtain ⟨x₀, hafter, hbefore | ⟨hbefore, -⟩⟩ := RelayServer.session_of_accepted hmove
    · rw [hyk, hx] at hbefore
      cases hbefore
      obtain rfl : x.touch y.side y.addr y.nowUnix = x' :=
        Option.some.inj (hafter.symm.trans (hyk.symm ▸ hx'))
      by_cases hside : y.side = r.side
      · -- a Register of the same side is one of the same party
        obtain ⟨hyself, hypeer⟩ :=
          Registration.same_party hmove.admitted hr (hyk.trans hkey.symm) hside
        have hstill := hstays.2 y hy (hyself.trans hself) (hypeer.trans hpeer)
        simp [Session.touch, hside, hstill]
      · simpa [Session.touch, Ne.symm hside] using haddr
    · rw [hyk, hx] at hbefore
      cases hbefore
  · have hsame := RelayServer.session_of_move hmove (fun y hy hyk => hk ⟨y, hy, hyk⟩) hx'
    rw [hx] at hsame
    cases hsame
    exact haddr

/-- **Where the relay takes a settled party to be**: where it called from. -/
theorem addr_of_settled {history : List RelayInput} {call : RelayCall C} {port : UInt16}
    (hsettled : Settled cfg history call port) :
    ∃ r : Registration C, r.Admitted cfg ∧ r.frame.selfKey = call.selfKey ∧
      r.frame.peerKey = call.peerKey ∧
      ∃ x, (RelayRun.after cfg history).server.session call.key = some x ∧ x.port = port ∧
        x.addrs r.side = some call.dataAddr := by
  obtain ⟨past, event, rest, r, rfl, hr, hself, hpeer, haddr, hport, hrest⟩ := hsettled
  have hmove := RelayServer.move_of_accepted hr
  have hkey : r.key = call.key := RelayFrame.sessionKey_eq hself hpeer
  have hserver : (RelayRun.after cfg (past ++ [event])).server =
      ((RelayRun.after cfg past).server.handle cfg event).1 := by
    rw [after_append]
    rfl
  -- the session at that moment
  obtain ⟨x₀, hx₀, -⟩ := RelayServer.session_of_accepted hmove
  rw [← hserver, hkey] at hx₀
  rw [RelayServer.port_eq hx₀] at hport
  have haddr₀ : (x₀.touch r.side r.addr r.nowUnix).addrs r.side = some call.dataAddr := by
    simp [Session.touch, haddr]
  refine ⟨r, hmove.admitted, hself, hpeer, ?_⟩
  rw [after_append cfg (past ++ [event])]
  refine hrest.invariant (P := fun w : RelayRun C => ∃ x, w.server.session call.key = some x ∧
    x.port = port ∧ x.addrs r.side = some call.dataAddr) (fun w event hw hstays => ?_)
    ⟨_, hx₀, Option.some.inj hport, haddr₀⟩
  obtain ⟨x, hx, rfl, hat⟩ := hw
  exact stays_step hmove.admitted hself hpeer hstays hx hat

/-- **What the task of a pair is told**, if no announcement was lost since it has a session. -/
theorem toldOf_of_announced {history : List RelayInput} {k : SessionKey}
    (h : Announced cfg history k) : (RelayRun.after cfg history).server.ToldOf k := by
  obtain ⟨past, rest, rfl, hout, hrest⟩ := h
  rw [after_append]
  have hsound := RelayRun.sound_after cfg past
  refine (hrest.invariant (P := fun w : RelayRun C => w.server.Sound ∧ w.server.ToldOf k)
    (fun w event hw hreach => ?_) ⟨hsound, RelayServer.toldOf_of_out hsound hout⟩).2
  have hmove := w.server.move cfg event
  exact ⟨hw.1.move hmove, hw.2.move hw.1 hmove hreach⟩

/-- **The relay connects.**  In a network that delivers what was sent where it was sent: two nodes
called for their pair and got a session each; the relay accepted a Register of each, and since
then neither moved and the session was not removed, and no announcement for the pair was lost
since it has one.  Then both have the same endpoint, the task of the pair is on its port, and once
that has read its channel, whatever it receives from the WireGuard socket of the one node it
sends to that of the other: every datagram that is no control frame, does not fill the buffer and
is within the limit. -/
theorem relay_path (cfg : RelayConfig C) (control : SocketAddrV6)
    (inputs : List (RelayNetInput C))
    (hdelivered : Along (step cfg control) (Delivered cfg) init inputs) :
    let w := run (step cfg control) init inputs
    ∀ call ∈ w.calls, ∀ call' ∈ w.calls, call'.selfKey = call.peerKey →
      call'.peerKey = call.selfKey → ∀ x x', call.session? = some x → call'.session? = some x' →
        Settled cfg w.history call x.endpoint.port →
        Settled cfg w.history call' x'.endpoint.port → Announced cfg w.history call.key →
          x'.endpoint = x.endpoint ∧
          ∃ (i : ℕ) (f : Forwarder), w.relay.server.senders.get? call.key = some i ∧
            w.relay.server.tasks[i]? = some f ∧ f.key = call.key ∧ f.port = x.endpoint.port ∧
            (f.running = true → f.queue = [] → ∀ datagram src now,
              isRelayFrame datagram = false → datagram.length < forwardBuf →
                normalize src = call.dataAddr → (f.limiter.allow now).1 = true →
                  (w.relay.server.handle cfg (.data i datagram (.v6 src) now)).2 =
                    [.forwarded i datagram (.v6 src) call'.dataAddr]) := by
  intro w call hcall call' hcall' hself hpeer x x' hx hx' hsettled hsettled' hannounced
  have hsteady : w.Steady cfg :=
    run_invariant (P := Steady cfg) (fun w i h => steady_step h i) (show Steady cfg init from rfl)
      inputs
  have hcontrol : w.AtControl control :=
    hdelivered.invariant (fun w i h hi => h.step hi) atControl_init
  have hkey : call'.key = call.key := RelayRequest.key_comm hself hpeer
  obtain ⟨-, hendpoint⟩ := hcontrol.calls call hcall x hx
  obtain ⟨-, hendpoint'⟩ := hcontrol.calls call' hcall' x' hx'
  obtain ⟨r, hr, hrself, hrpeer, y, hy, hport, haddr⟩ := addr_of_settled hsettled
  obtain ⟨r', hr', hrself', hrpeer', y', hy', hport', haddr'⟩ := addr_of_settled hsettled'
  rw [hkey, hy] at hy'
  cases hy'
  -- the two calls are for the two sides of one session
  obtain ⟨-, hside⟩ := Registration.side_of_peer hr hr' (by rw [hrself', hself, hrpeer])
    (by rw [hrpeer', hpeer, hrself])
  have hsound := RelayRun.sound_after cfg w.history
  have htold := toldOf_of_announced hannounced
  rw [← show w.relay = .after cfg w.history from hsteady] at hsound htold hy
  obtain ⟨i, hi⟩ := Option.isSome_iff_exists.1 ((hsound.keys call.key).trans (by rw [hy]; rfl))
  obtain ⟨f, hf, hfkey, hfport⟩ := hsound.task call.key i hi
  rw [hy, Option.map_some, Option.some.injEq] at hfport
  refine ⟨?_, i, f, hi, hf, hfkey, hfport.symm.trans hport, ?_⟩
  · rw [hendpoint, hendpoint', ← hport, ← hport']
  · intro hrunning hqueue datagram src now hframe hlen hsrc hpass
    have hknows : f.addrs = y.addrs := by
      have := htold i f hi hf
      rw [RelayServer.addrs_eq hy, Forwarder.told, hqueue] at this
      exact this
    rw [← hknows] at haddr haddr'
    rw [hside] at haddr'
    refine RelayServer.handle_data hf hrunning hframe hlen ?_ hpass
    rw [hsrc]
    exact Forwarder.destination_of_sides haddr haddr'

/-- Node 1 registers from another host and takes that back; then nodes 1 and 2 register, and the
task reads its channel. -/
def plainPath : List (RelayNetInput Crypto.plain) :=
  plainRegistration 0 1 2 3 98 plainRelayControl ++
    [.unregister plainRelayControl ⟨[plainRelayControl], plainKey 1 0, plainKey 2 0, 4193⟩ 99
        (relayClient 3 40000),
      .relay (plainControl .unregister 1 2 3 99)] ++
    plainRegistration 1 1 2 1 100 plainRelayControl ++
    plainRegistration 2 2 1 2 101 plainRelayControl ++ [.relay (.update 1), .relay (.update 1)]

/-- What node 1 then sends to port 50000 goes to node 2. -/
theorem relay_path_plain :
    let w := run (step plainRelay plainRelayControl) init plainPath
    ∃ call ∈ w.calls, ∃ call' ∈ w.calls, ∃ x, call.session? = some x ∧
      call'.session?.map RelaySession.endpoint = some x.endpoint ∧
      ∃ i, (w.relay.server.handle plainRelay
        (.data i [4, 0, 0, 0, 9] (.v6 (relayClient 1 4193)) 0)).2 =
          [.forwarded i [4, 0, 0, 0, 9] (.v6 (relayClient 1 4193)) (relayClient 2 4193)] := by
  intro w
  have hcall : ∃ call ∈ w.calls, call.selfKey = plainKey 1 0 ∧ call.peerKey = plainKey 2 0 ∧
      call.session? = some ⟨relayClient 9 50000, plainRelayControl⟩ ∧
      relayClient 1 4193 = call.dataAddr ∧
      Along (RelayRun.step plainRelay) (Stays plainRelay call)
        (.after plainRelay (w.history.take 3)) (w.history.drop 3) := by
    decide +kernel
  have hcall' : ∃ call ∈ w.calls, call.selfKey = plainKey 2 0 ∧ call.peerKey = plainKey 1 0 ∧
      call.session? = some ⟨relayClient 9 50000, plainRelayControl⟩ ∧
      relayClient 2 4193 = call.dataAddr ∧
      Along (RelayRun.step plainRelay) (Stays plainRelay call)
        (.after plainRelay (w.history.take 4)) (w.history.drop 4) := by
    decide +kernel
  obtain ⟨call, hmem, hself, hpeer, hx, hfrom, hstays⟩ := hcall
  obtain ⟨call', hmem', hself', hpeer', hx', hto, hstays'⟩ := hcall'
  have hkey : call.key = sessionKeyOf (plainKey 1 0).bytes (plainKey 2 0).bytes := by
    rw [RelayRequest.key, hself, hpeer]
  have hkey' : call'.key = call.key :=
    RelayRequest.key_comm (hself'.trans hpeer.symm) (hpeer'.trans hself.symm)
  have hsettled : Settled plainRelay w.history call 50000 :=
    ⟨w.history.take 2, plainControl .register 1 2 1 100, w.history.drop 3,
      ⟨⟨.register, 4193, 100, plainKey 1 0, plainKey 2 0⟩, relayClient 1 4193, 100⟩, rfl, rfl,
      hself.symm, hpeer.symm, hfrom, by rw [hkey]; decide +kernel, hstays⟩
  have hsettled' : Settled plainRelay w.history call' 50000 :=
    ⟨w.history.take 3, plainControl .register 2 1 2 101, w.history.drop 4,
      ⟨⟨.register, 4193, 101, plainKey 2 0, plainKey 1 0⟩, relayClient 2 4193, 101⟩, rfl, rfl,
      hself'.symm, hpeer'.symm, hto, by rw [hkey', hkey]; decide +kernel, hstays'⟩
  have hannounced : Announced plainRelay w.history call.key := by
    rw [hkey]
    exact ⟨w.history.take 2, w.history.drop 2, rfl, by decide +kernel, by decide +kernel⟩
  obtain ⟨hendpoint, i, f, hi, hf, -, -, hpath⟩ := relay_path plainRelay plainRelayControl
    plainPath (by decide +kernel) call hmem call' hmem' (hself'.trans hpeer.symm)
    (hpeer'.trans hself.symm) _ _ hx hx' hsettled hsettled' hannounced
  have hread : ∀ i ∈ w.relay.server.senders.get?
      (sessionKeyOf (plainKey 1 0).bytes (plainKey 2 0).bytes), ∀ f ∈ w.relay.server.tasks[i]?,
        f.running = true ∧ f.queue = [] ∧ (f.limiter.allow 0).1 = true := by
    decide +kernel
  obtain ⟨hrunning, hqueue, hpass⟩ := hread i (hkey ▸ hi) f hf
  refine ⟨call, hmem, call', hmem', _, hx, ?_, i, ?_⟩
  · rw [hx', Option.map_some, hendpoint]
  · rw [hto]
    exact hpath hrunning hqueue _ _ _ (by decide) (by decide) hfrom hpass

end RelayNet

end Hextet
