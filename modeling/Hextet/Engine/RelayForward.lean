/-
# What the relay forwards

A task forwards by the addresses it last took from its channel, which are older than the
table's by any number of updates, and the server drops updates that do not fit.  What
holds of the addresses at every announcement holds of the table, of the channels and of
the tasks (`RelayServer.Holds`), however far a task is behind.

So a datagram goes from an address that one party of the pair announced to one that the
other party announced (`forwards_between_parties`), and it never goes back to where it
came from exactly as long as no Register announces the address of the other side
(`never_reflects_iff`).  A task and the session it serves end separately: a session whose
socket failed is acknowledged like any other, so the acknowledged ports are served exactly
as long as no pair registers again after such a failure (`acks_served_iff`).
-/

import Hextet.Core.PlainCrypto
import Hextet.Engine.RelaySessions

namespace Hextet

open Lib

variable {C : Crypto}

namespace RelayServer

/-- Whatever addresses of a pair are held anywhere have a property. -/
structure Holds (Φ : SessionKey → SessionAddrs → Prop) (s : RelayServer) : Prop where
  table : ∀ k x, s.session k = some x → Φ k x.addrs
  tasks : ∀ (i : ℕ) (f : Forwarder), s.tasks[i]? = some f →
    Φ f.key f.addrs ∧ ∀ q ∈ f.queue, Φ f.key q

variable {Φ : SessionKey → SessionAddrs → Prop} {s : RelayServer}

theorem Holds.mono {Ψ : SessionKey → SessionAddrs → Prop} (h : Holds Φ s)
    (himp : ∀ k a, Φ k a → Ψ k a) : Holds Ψ s where
  table k x hx := himp k _ (h.table k x hx)
  tasks i f hf := ⟨himp _ _ (h.tasks i f hf).1, fun q hq => himp _ _ ((h.tasks i f hf).2 q hq)⟩

theorem Holds.onTask (h : Holds Φ s) (i : ℕ) {g : Forwarder → Forwarder}
    (hg : ∀ f, Φ f.key f.addrs → (∀ q ∈ f.queue, Φ f.key q) →
      Φ (g f).key (g f).addrs ∧ ∀ q ∈ (g f).queue, Φ (g f).key q) : Holds Φ (s.onTask i g) where
  table := h.table
  tasks j f hf := by
    rw [tasks_onTask] at hf
    obtain ⟨f₀, hf₀, rfl⟩ := Option.map_eq_some_iff.1 hf
    obtain ⟨haddrs, hqueue⟩ := h.tasks j f₀ hf₀
    split_ifs
    · exact hg f₀ haddrs hqueue
    · exact ⟨haddrs, hqueue⟩

/-- An announcement: what the table then holds of the pair goes to its task. -/
theorem Holds.announced (hsound : s.Sound) (h : Holds Φ s) {key : SessionKey} {side : Fin 2}
    {addr : SocketAddrV6} {nowUnix : ℕ} (hnew : Φ key
      ((s.announced key side addr nowUnix).table.addrs key)) :
    Holds Φ (s.announced key side addr nowUnix) where
  table k x hx := by
    by_cases hk : k = key
    · subst hk
      have haddrs : (s.announced k side addr nowUnix).table.addrs k = x.addrs := by
        rw [RelayTable.addrs]
        exact congrArg (fun o => (Option.map Session.addrs o).getD noAddrs) hx
      rwa [haddrs] at hnew
    · rw [session_announced, if_neg hk] at hx
      exact h.table k x hx
  tasks i f hf := by
    rw [tasks_announced] at hf
    obtain ⟨f₀, hf₀, rfl⟩ := Option.map_eq_some_iff.1 hf
    obtain ⟨haddrs, hqueue⟩ := h.tasks i f₀ hf₀
    split_ifs with hsender
    · -- the sender of a pair feeds a task of that pair
      obtain ⟨f, hf, hkey, -⟩ := hsound.task key i hsender
      rw [hf₀] at hf
      cases hf
      unfold Forwarder.trySend
      split_ifs
      · refine ⟨haddrs, fun q hq => ?_⟩
        rcases List.mem_append.1 hq with hq | hq
        · exact hqueue q hq
        · rw [List.mem_singleton.1 hq]
          exact hkey ▸ hnew
      · exact ⟨haddrs, hqueue⟩
    · exact ⟨haddrs, hqueue⟩

theorem Holds.pruned (h : Holds Φ s) (nowUnix : ℕ) : Holds Φ (s.pruned nowUnix) where
  table k x hx := by
    rw [session_pruned] at hx
    exact h.table k x (Option.filter_eq_some_iff.1 hx).1
  tasks := h.tasks

theorem Holds.spawned (h : Holds Φ s) (hroom : s.table.len < maxSessions)
    (hnone : ∀ k, Φ k noAddrs) (key : SessionKey) (port : UInt16) (nowUnix : ℕ) (now : Instant) :
    Holds Φ (s.spawned key port nowUnix now).1 where
  table k x hx := by
    rw [session_created hroom] at hx
    split_ifs at hx
    · cases hx
      exact hnone k
    · exact h.table k x hx
  tasks i f hf := by
    rw [spawned_of_room _ _ _ hroom] at hf
    rcases List.mem_append.1 (List.mem_of_getElem? hf) with hmem | hmem
    · obtain ⟨j, hj⟩ := List.getElem?_of_mem hmem
      exact h.tasks j f hj
    · rw [List.mem_singleton.1 hmem]
      exact ⟨hnone _, fun q hq => absurd hq List.not_mem_nil⟩

theorem Holds.onUnregister (h : Holds Φ s) (key : SessionKey) : Holds Φ (s.onUnregister key) where
  table k x hx := by
    rw [session_onUnregister] at hx
    split_ifs at hx
    exact h.table k x hx
  tasks i f hf := by
    rw [tasks_onUnregister] at hf
    exact h.tasks i f hf

theorem addrs_of_none {key : SessionKey} (h : s.session key = none) :
    s.table.addrs key = noAddrs := by
  rw [RelayTable.addrs, show s.table.sessions.get? key = none from h]
  rfl

/-- What is held of the addresses of a pair, the table holds. -/
theorem Holds.addrs (h : Holds Φ s) (hnone : ∀ k, Φ k noAddrs) (key : SessionKey) :
    Φ key (s.table.addrs key) := by
  cases hx : s.session key with
  | none =>
      rw [addrs_of_none hx]
      exact hnone key
  | some x =>
      rw [addrs_eq hx]
      exact h.table key x hx

/-- The addresses of a pair after an announcement. -/
theorem addrs_announced {key : SessionKey} {x : Session} (hx : s.session key = some x)
    (side : Fin 2) (addr : SocketAddrV6) (nowUnix : ℕ) :
    (s.announced key side addr nowUnix).table.addrs key =
      Function.update x.addrs side (some addr) := by
  have hafter : (s.announced key side addr nowUnix).session key =
      some (x.touch side addr nowUnix) := by
    rw [session_announced, if_pos rfl, hx]
    rfl
  exact addrs_eq hafter

/-- **The rule of the addresses**: a property that no addresses have, and that every
announcement keeps, is kept by every move. -/
theorem Holds.move {cfg : RelayConfig C} {input : RelayInput} {s' : RelayServer}
    {r : Option (Registration C)} (hmove : Move cfg s input s' r) (hsound : s.Sound)
    (h : Holds Φ s) (hnone : ∀ k, Φ k noAddrs)
    (hnew : ∀ x ∈ r, Φ x.key (Function.update (s.table.addrs x.key) x.side (some x.addr))) :
    Holds Φ s' := by
  cases hmove with
  | stay => exact h
  | prune nowUnix => exact h.pruned nowUnix
  | refuse => exact h.pruned _
  | remove => exact h.onUnregister _
  | renew _ _ _ _ r hr hin =>
      obtain ⟨x, hx⟩ := Option.isSome_iff_exists.1 hin
      have hΦ := hnew r rfl
      rw [addrs_eq hx] at hΦ
      refine h.announced hsound ?_
      rwa [addrs_announced hx]
  | create _ _ now port r hr hout hroom =>
      have hgone : s.session r.key = none := contains_eq_false_iff.1 hout
      have hΦ := hnew r rfl
      rw [addrs_of_none hgone] at hΦ
      have hout' : (s.pruned r.nowUnix).session r.key = none := by
        rw [session_pruned, hgone]
        rfl
      have hspawned : ((s.pruned r.nowUnix).spawned r.key port r.nowUnix now).1.session r.key =
          some ⟨port, noAddrs, r.nowUnix⟩ := by
        rw [session_created hroom, if_pos rfl]
      refine Holds.announced ((hsound.pruned _).spawned hroom _ hout' ..)
        ((h.pruned _).spawned hroom hnone ..) ?_
      rwa [addrs_announced hspawned]
  | take i =>
      refine h.onTask i fun f haddrs hqueue => ?_
      unfold Forwarder.takeUpdate
      split
      next next rest hq =>
        rw [hq] at hqueue
        exact ⟨hqueue _ List.mem_cons_self, fun q hq => hqueue q (List.mem_cons_of_mem _ hq)⟩
      next hq => split_ifs <;> exact ⟨haddrs, hq ▸ hqueue⟩
  | fail i => exact h.onTask i fun f haddrs hqueue => ⟨haddrs, hqueue⟩
  | data i datagram src now =>
      refine h.onTask i fun f haddrs hqueue => ?_
      obtain ⟨limiter, heq⟩ := f.onDatagram_snd datagram src now
      rw [heq]
      exact ⟨haddrs, hqueue⟩

theorem holds_new : Holds Φ new where
  table k x hx := by cases hx
  tasks i f hf := by simp [new] at hf

end RelayServer

/-! ### From one party to the other -/

/-- Every address of the pair was announced for its side. -/
def Announced (rs : List (Registration C)) (k : SessionKey) (addrs : SessionAddrs) : Prop :=
  ∀ side a, addrs side = some a → ∃ r ∈ rs, r.key = k ∧ r.side = side ∧ r.addr = a

/-- The addresses of a pair go from one announcement to the next. -/
theorem Announced.update {rs : List (Registration C)} (r : Registration C) {addrs : SessionAddrs}
    (h : Announced rs r.key addrs) :
    Announced (r :: rs) r.key (Function.update addrs r.side (some r.addr)) := by
  intro side a ha
  by_cases hside : side = r.side
  · subst hside
    rw [Function.update_self] at ha
    cases ha
    exact ⟨r, List.mem_cons_self, rfl, rfl, rfl⟩
  · rw [Function.update_of_ne hside] at ha
    obtain ⟨r', hr', h'⟩ := h side a ha
    exact ⟨r', List.mem_cons_of_mem _ hr', h'⟩

namespace RelayRun

variable (cfg : RelayConfig C)

/-- **Every address held anywhere was announced.** -/
theorem announced_after (inputs : List RelayInput) :
    (after cfg inputs).server.Holds (Announced (after cfg inputs).registrations) := by
  have hboth : (after cfg inputs).server.Sound ∧
      (after cfg inputs).server.Holds (Announced (after cfg inputs).registrations) := by
    refine run_invariant (P := fun w : RelayRun C => w.server.Sound ∧
      w.server.Holds (Announced w.registrations)) (fun w input h => ?_)
      ⟨RelayServer.sound_new, RelayServer.holds_new⟩ inputs
    have hmove := w.server.move cfg input
    refine ⟨h.1.move hmove, ?_⟩
    have hgrow : w.server.Holds (Announced (w.step cfg input).registrations) := by
      refine h.2.mono fun k a ha side b hb => ?_
      obtain ⟨r, hr, h'⟩ := ha side b hb
      exact ⟨r, List.mem_append_right _ hr, h'⟩
    refine RelayServer.Holds.move hmove h.1 hgrow (fun k side a ha => by cases ha) fun r hr => ?_
    have hold : Announced w.registrations r.key (w.server.table.addrs r.key) :=
      h.2.addrs (fun k side a ha => by cases ha) r.key
    have hregs : (w.step cfg input).registrations = r :: w.registrations := by
      rw [step, Option.mem_def.1 hr]
      rfl
    rw [hregs]
    exact hold.update r
  exact hboth.2

end RelayRun

namespace Forwarder

variable {f : Forwarder}

/-- A datagram goes from the address of one side to the address of the other. -/
theorem destination_spec {src dst : SocketAddrV6} (h : f.destination src = some dst) :
    ∃ side, f.addrs side = some src ∧ f.addrs side.rev = some dst := by
  unfold destination at h
  split_ifs at h with h₀ h₁
  · exact ⟨0, h₀.symm, h⟩
  · exact ⟨1, h₁.symm, h⟩

/-- **What a task sends**: the datagram it received, if it is not a control frame and does not
fill the buffer. -/
theorem onDatagram_spec {datagram sent : List UInt8} {src : SocketAddr} {now : Instant}
    {dst : SocketAddrV6} (h : (f.onDatagram datagram src now).1 = some (sent, dst)) :
    sent = datagram ∧ isRelayFrame datagram = false ∧ datagram.length < forwardBuf ∧
      ∃ from6, src = .v6 from6 ∧ f.destination (normalize from6) = some dst := by
  unfold onDatagram at h
  cases src with
  | v4 => cases h
  | v6 from6 =>
      simp only at h
      split at h
      · cases h
      next hframe =>
        split at h
        · cases h
        next hfull =>
          split at h
          · cases h
          next dst' hdst =>
            split_ifs at h
            cases h
            have hlen : datagram.length < forwardBuf := by
              rw [List.length_take] at hfull
              omega
            have htake : datagram.take forwardBuf = datagram := List.take_of_length_le hlen.le
            rw [htake] at hframe ⊢
            exact ⟨rfl, by simpa using hframe, hlen, from6, rfl, hdst⟩

end Forwarder

namespace RelayServer

/-- A datagram is sent by a task that runs, when it receives it. -/
theorem forwarded_spec {cfg : RelayConfig C} {s : RelayServer} {input : RelayInput} {i : ℕ}
    {datagram : List UInt8} {src : SocketAddr} {dst : SocketAddrV6}
    (h : .forwarded i datagram src dst ∈ (s.handle cfg input).2) :
    ∃ f now from6, s.tasks[i]? = some f ∧ input = .data i datagram src now ∧ src = .v6 from6 ∧
      isRelayFrame datagram = false ∧ datagram.length < forwardBuf ∧
      f.destination (normalize from6) = some dst := by
  cases input with
  | prune nowUnix => cases h
  | update i => cases h
  | socketError i => cases h
  | control d src' nowUnix now bind =>
      obtain ⟨dst', houts⟩ := s.onControl_snd nowUnix cfg d src' now bind
      rw [handle, houts] at h
      obtain ⟨r, -, heq⟩ := List.mem_map.1 h
      cases heq
  | data j d src' now =>
      simp only [handle, onData, List.mem_map, Option.mem_toList] at h
      obtain ⟨⟨sent, dst'⟩, hsent, heq⟩ := h
      cases heq
      obtain ⟨f, hf, hout⟩ := Option.bind_eq_some_iff.1 hsent
      obtain ⟨hf, -⟩ := Option.filter_eq_some_iff.1 hf
      obtain ⟨rfl, hframe, hlen, from6, rfl, hdst⟩ := Forwarder.onDatagram_spec hout
      exact ⟨f, now, from6, hf, rfl, rfl, hframe, hlen, hdst⟩

end RelayServer

/-- The party on the other side of a Register's pair. -/
theorem Registration.selfKey_of_rev {cfg : RelayConfig C} {r r' : Registration C}
    (hr : r.Admitted cfg) (hr' : r'.Admitted cfg) (hkey : r'.key = r.key)
    (hside : r'.side = r.side.rev) : r'.frame.selfKey = r.frame.peerKey := by
  refine NodePublicKey.ext_bytes ?_
  rw [← (r'.frame.party_side hr'.pair).1, ← (r.frame.party_side hr.pair).2]
  exact congrArg₂ RelayFrame.party hkey hside

/-- Both keys of a pair are allowed when both parties were. -/
theorem Registration.allows_pair {cfg : RelayConfig C} {r r' : Registration C}
    (hr : r.Admitted cfg) (hr' : r'.Admitted cfg)
    (hpeer : r'.frame.selfKey = r.frame.peerKey) :
    cfg.policy.allows r.key.1 = true ∧ cfg.policy.allows r.key.2 = true := by
  have hself := hr.allowed
  have hother := hr'.allowed
  rw [hpeer] at hother
  rcases sessionKeyOf_cases r.frame.selfKey.bytes r.frame.peerKey.bytes with h | h
  · rw [Registration.key, RelayFrame.sessionKey, h]
    exact ⟨hself, hother⟩
  · rw [Registration.key, RelayFrame.sessionKey, h]
    exact ⟨hother, hself⟩

/-- **The relay forwards only between registered sides.**  A datagram that a task sends is the
one it just received, from an address that an accepted Register of one party of its pair
announced, to an address that an accepted Register of the other party announced; it is no
control frame and does not fill the buffer; and an allowlist has both keys of the pair. -/
theorem forwards_between_parties (cfg : RelayConfig C) (inputs : List RelayInput)
    {input : RelayInput} {i : ℕ} {datagram : List UInt8} {src : SocketAddr} {dst : SocketAddrV6}
    (h : .forwarded i datagram src dst ∈
      ((RelayRun.after cfg inputs).server.handle cfg input).2) :
    ∃ f now from6, (RelayRun.after cfg inputs).server.tasks[i]? = some f ∧
      input = .data i datagram src now ∧ src = .v6 from6 ∧
      isRelayFrame datagram = false ∧ datagram.length < forwardBuf ∧
      (∃ r ∈ (RelayRun.after cfg inputs).registrations,
        ∃ r' ∈ (RelayRun.after cfg inputs).registrations,
          r.key = f.key ∧ r.addr = normalize from6 ∧ r'.key = f.key ∧ r'.addr = dst ∧
          r'.frame.selfKey = r.frame.peerKey) ∧
      ∀ list, cfg.policy = .allowlist list → f.key.1 ∈ list ∧ f.key.2 ∈ list := by
  obtain ⟨f, now, from6, hf, hinput, hsrc, hframe, hlen, hdst⟩ := RelayServer.forwarded_spec h
  obtain ⟨side, hfrom, hto⟩ := Forwarder.destination_spec hdst
  have hknown := ((RelayRun.announced_after cfg inputs).tasks i f hf).1
  obtain ⟨r, hr, hkey, hside, haddr⟩ := hknown side _ hfrom
  obtain ⟨r', hr', hkey', hside', haddr'⟩ := hknown side.rev _ hto
  have hadmitted := RelayRun.admitted_after cfg inputs r hr
  have hadmitted' := RelayRun.admitted_after cfg inputs r' hr'
  have hpeer : r'.frame.selfKey = r.frame.peerKey :=
    Registration.selfKey_of_rev hadmitted hadmitted' (hkey'.trans hkey.symm)
      (hside'.trans (congrArg Fin.rev hside).symm)
  refine ⟨f, now, from6, hf, hinput, hsrc, hframe, hlen,
    ⟨r, hr, r', hr', hkey, haddr, hkey', haddr', hpeer⟩, fun list hlist => ?_⟩
  have hallows := Registration.allows_pair hadmitted hadmitted' hpeer
  rw [hlist, hkey] at hallows
  simpa [RelayPolicy.allows] using hallows

/-- A relay for every member of a network whose MAC is its key. -/
def plainRelay : RelayConfig Crypto.plain :=
  ⟨fun key _ => key, ⟨List.replicate 32 7, rfl⟩, .anyMember⟩

/-- `2001:db8::n`. -/
def relayClient (n : UInt8) (port : UInt16) : SocketAddrV6 :=
  ⟨⟨⟨[0x20, 0x01, 0x0d, 0xb8, 0, 0, 0, 0, 0, 0, 0, 0, 0, 0, 0, n], rfl⟩⟩, port, 0, 0⟩

/-- The control datagram of node `self` about its pair with `peer`, sent and received at a
time, from the host `n`. -/
def plainControl (kind : RelayKind) (self peer : ℕ) (n : UInt8) (nowUnix : ℕ) : RelayInput :=
  .control (RelayFrame.encode plainRelay.hmac plainRelay.relayKey
    ⟨kind, 4193, UInt64.ofNat nowUnix, plainKey self 0, plainKey peer 0⟩)
    (.v6 (relayClient n 40000)) nowUnix 0 (some 50000)

/-- Nodes 1 and 2 register their pair, and the task learns of both. -/
def bothRegistered : List RelayInput :=
  [plainControl .register 1 2 1 100, plainControl .register 2 1 2 101, .update 0, .update 0]

/-- What node 1 then sends goes to node 2. -/
theorem forwards_between_parties_plain :
    ∃ r ∈ (RelayRun.after plainRelay bothRegistered).registrations,
      ∃ r' ∈ (RelayRun.after plainRelay bothRegistered).registrations,
        r.addr = relayClient 1 4193 ∧ r'.addr = relayClient 2 4193 ∧
        r'.frame.selfKey = r.frame.peerKey := by
  have hsent : .forwarded 0 [4, 0, 0, 0, 9] (.v6 (relayClient 1 4193)) (relayClient 2 4193) ∈
      ((RelayRun.after plainRelay bothRegistered).server.handle plainRelay
        (.data 0 [4, 0, 0, 0, 9] (.v6 (relayClient 1 4193)) 0)).2 := by
    decide +kernel
  obtain ⟨f, now, from6, -, -, hsrc, -, -, ⟨r, hr, r', hr', -, haddr, -, haddr', hpeer⟩, -⟩ :=
    forwards_between_parties plainRelay bothRegistered hsent
  cases hsrc
  exact ⟨r, hr, r', hr', haddr, haddr', hpeer⟩

/-! ### Back to where it came from -/

/-- The two sides are not at one address. -/
def DistinctSides (_ : SessionKey) (addrs : SessionAddrs) : Prop :=
  ∀ side a, addrs side = some a → addrs side.rev ≠ some a

/-- The Register, if one is accepted, does not announce the address of the other side. -/
def KeepsSidesDistinct (cfg : RelayConfig C) (w : RelayRun C) (input : RelayInput) : Prop :=
  ∀ r ∈ w.server.accepted cfg input, w.server.table.addrs r.key r.side.rev ≠ some r.addr

/-- No session has its two sides at one address, and no task would send a datagram back to the
address it came from. -/
def NeverReflects (cfg : RelayConfig C) (w : RelayRun C) : Prop :=
  (∀ k, DistinctSides k (w.server.table.addrs k)) ∧
    ∀ input i datagram src dst,
      .forwarded i datagram (.v6 src) dst ∈ (w.server.handle cfg input).2 → dst ≠ normalize src

theorem rev_ne (side : Fin 2) : side.rev ≠ side := by
  revert side
  decide

theorem eq_rev_of_ne {side side' : Fin 2} (h : side' ≠ side) : side' = side.rev := by
  revert side side'
  decide

theorem distinctSides_update {k : SessionKey} {addrs : SessionAddrs} {side : Fin 2}
    {addr : SocketAddrV6} (hother : addrs side.rev ≠ some addr) :
    DistinctSides k (Function.update addrs side (some addr)) := by
  intro side' a ha
  by_cases hside : side' = side
  · subst hside
    rw [Function.update_self] at ha
    cases ha
    rwa [Function.update_of_ne (rev_ne side')]
  · obtain rfl := eq_rev_of_ne hside
    rw [Function.update_of_ne (rev_ne side)] at ha
    rw [Fin.rev_rev, Function.update_self]
    rintro h
    cases h
    exact hother ha

/-- A server all of whose addresses are distinct does not reflect. -/
theorem neverReflects_of_holds {cfg : RelayConfig C} {w : RelayRun C}
    (h : w.server.Holds DistinctSides) : NeverReflects cfg w := by
  refine ⟨fun k => h.addrs (fun _ _ _ ha => by cases ha) k, ?_⟩
  intro input i datagram src dst hsent hsame
  obtain ⟨f, now, from6, hf, -, hsrc, -, -, hdst⟩ := RelayServer.forwarded_spec hsent
  cases hsrc
  obtain ⟨side, hfrom, hto⟩ := Forwarder.destination_spec hdst
  rw [hsame] at hto
  exact (h.tasks i f hf).1 side _ hfrom hto

/-- **When the relay never reflects**: along a run, no session ever has its two sides at one
address and no datagram can go back to where it came from, exactly when no accepted Register
announces the address that the table has for the other side of its pair. -/
theorem never_reflects_iff (cfg : RelayConfig C) (inputs : List RelayInput) :
    (∀ done, done <+: inputs → NeverReflects cfg (RelayRun.after cfg done)) ↔
      Along (RelayRun.step cfg) (KeepsSidesDistinct cfg) .init inputs := by
  have hnone : ∀ k, DistinctSides k noAddrs := fun k side a ha => by cases ha
  refine (Along.iff_forall_prefix
    (P := fun w : RelayRun C => w.server.Sound ∧ w.server.Holds DistinctSides)
    (Q := NeverReflects cfg) (fun w input h hok => ?_) (fun w h => neverReflects_of_holds h.2)
    (fun w input h hbad hgood => hbad fun r hr hsame => ?_)
    ⟨RelayServer.sound_new, RelayServer.holds_new⟩ inputs).symm
  · have hmove := w.server.move cfg input
    exact ⟨h.1.move hmove, RelayServer.Holds.move hmove h.1 h.2 hnone fun r hr =>
      distinctSides_update (hok r hr)⟩
  · -- both sides of the pair are then at the announced address
    obtain ⟨x, hx, hold⟩ :=
      RelayServer.session_of_accepted (RelayServer.move_of_accepted (Option.mem_def.1 hr))
    have haddrs : x.addrs = w.server.table.addrs r.key := by
      rcases hold with hold | ⟨hold, hempty⟩
      · exact (RelayServer.addrs_eq hold).symm
      · rw [hempty, RelayServer.addrs_of_none hold]
    have hafter := RelayServer.addrs_eq hx
    have hdistinct := hgood.1 r.key
    refine hdistinct r.side r.addr ?_ ?_
    · exact (congrFun hafter r.side).trans (by simp [Session.touch])
    · refine (congrFun hafter r.side.rev).trans ?_
      simp only [Session.touch, Function.update_of_ne (rev_ne r.side), haddrs]
      exact hsame

/-- **Two nodes behind one address**: nodes 1 and 2 register with one source address and one
port, and what comes from there goes back there. -/
theorem reflects :
    ¬NeverReflects plainRelay (RelayRun.after plainRelay
      [plainControl .register 1 2 1 100, plainControl .register 2 1 1 101, .update 0, .update 0]) ∧
    .forwarded 0 [4, 0, 0, 0, 9] (.v6 (relayClient 1 4193)) (relayClient 1 4193) ∈
      ((RelayRun.after plainRelay [plainControl .register 1 2 1 100,
        plainControl .register 2 1 1 101, .update 0, .update 0]).server.handle plainRelay
          (.data 0 [4, 0, 0, 0, 9] (.v6 (relayClient 1 4193)) 0)).2 := by
  have hsent : .forwarded 0 [4, 0, 0, 0, 9] (.v6 (relayClient 1 4193)) (relayClient 1 4193) ∈
      ((RelayRun.after plainRelay [plainControl .register 1 2 1 100,
        plainControl .register 2 1 1 101, .update 0, .update 0]).server.handle plainRelay
          (.data 0 [4, 0, 0, 0, 9] (.v6 (relayClient 1 4193)) 0)).2 := by
    decide +kernel
  exact ⟨fun h => h.2 _ _ _ _ _ hsent rfl, hsent⟩

/-! ### Acknowledged and served -/

/-- The server beside the pairs whose session has lost its task to a read error. -/
structure ServedRun (C : Crypto) where
  server : RelayServer
  broken : List SessionKey

namespace ServedRun

/-- The start of `serve`. -/
def init : ServedRun C := ⟨.new, []⟩

/-- The pair whose session socket fails to be read, if the event is that. -/
def fault (s : RelayServer) : RelayInput → Option SessionKey
  | .socketError i => (s.tasks[i]?).bind fun f =>
      if f.running = true ∧ s.senders.get? f.key = some i then some f.key else none
  | _ => none

/-- One event; a pair is no longer broken when its session is removed. -/
def step (cfg : RelayConfig C) (w : ServedRun C) (input : RelayInput) : ServedRun C :=
  let server := (w.server.handle cfg input).1
  ⟨server, ((fault w.server input).toList ++ w.broken).filter fun k => server.table.contains k⟩

/-- The Register, if one is accepted, is not for a broken pair. -/
def SparesBroken (cfg : RelayConfig C) (w : ServedRun C) (input : RelayInput) : Prop :=
  ∀ r ∈ w.server.accepted cfg input, r.key ∉ w.broken

/-- A task runs for every pair that is acknowledged, on the port that is acknowledged. -/
def AcksServed (cfg : RelayConfig C) (w : ServedRun C) (input : RelayInput) : Prop :=
  ∀ frame dst, .ack frame dst ∈ (w.server.handle cfg input).2 →
    ∃ f ∈ (w.server.handle cfg input).1.tasks,
      f.key = frame.sessionKey ∧ f.port = frame.port ∧ f.running = true

/-- A new socket gets a port that no open socket has. -/
def FreshPort (w : ServedRun C) : RelayInput → Prop
  | .control _ _ _ _ (some port) => ∀ f ∈ w.server.tasks, f.running = true → f.port ≠ port
  | _ => True

/-- The task of a session runs exactly when its pair is not broken. -/
structure Tended (w : ServedRun C) : Prop where
  sound : w.server.Sound
  running : ∀ k i f, w.server.senders.get? k = some i → w.server.tasks[i]? = some f →
    (f.running = true ↔ k ∉ w.broken)
  open_ : ∀ k ∈ w.broken, w.server.table.contains k = true

theorem mem_broken_step {cfg : RelayConfig C} {w : ServedRun C} {input : RelayInput}
    {k : SessionKey} : k ∈ (w.step cfg input).broken ↔
      (fault w.server input = some k ∨ k ∈ w.broken) ∧
        (w.step cfg input).server.table.contains k = true := by
  simp [step, or_and_right]

/-- Only a read error breaks a pair. -/
theorem mem_broken_step_iff {cfg : RelayConfig C} {w : ServedRun C} {input : RelayInput}
    (hread : ∀ j, input ≠ .socketError j) {k : SessionKey}
    (hin : (w.step cfg input).server.table.contains k = true) :
    k ∈ (w.step cfg input).broken ↔ k ∈ w.broken := by
  have hnone : fault w.server input = none := by
    cases input with
    | socketError j => exact absurd rfl (hread j)
    | prune | control | update | data => rfl
  rw [mem_broken_step, hnone, hin]
  simp

/-- An announcement leaves a task what it was, but for its channel. -/
theorem task_of_announced {s : RelayServer} {key : SessionKey} {side : Fin 2}
    {addr : SocketAddrV6} {nowUnix i : ℕ} {f' : Forwarder}
    (h : (s.announced key side addr nowUnix).tasks[i]? = some f') :
    ∃ f, s.tasks[i]? = some f ∧ f'.key = f.key ∧ f'.port = f.port ∧ f'.running = f.running := by
  rw [RelayServer.tasks_announced] at h
  obtain ⟨f, hf, rfl⟩ := Option.map_eq_some_iff.1 h
  refine ⟨f, hf, ?_⟩
  split_ifs
  · exact ⟨f.key_trySend _, f.port_trySend _, f.running_trySend _⟩
  · exact ⟨rfl, rfl, rfl⟩

/-- The task of a session and its pair, after an event that is not a read error: if the pair
had the session, its task runs as before, and if it is new, so is its task. -/
theorem running_of_move {cfg : RelayConfig C} {s s' : RelayServer} {input : RelayInput}
    {r : Option (Registration C)} (hmove : RelayServer.Move cfg s input s' r) (hsound : s.Sound)
    (hread : ∀ j, input ≠ .socketError j) {k : SessionKey} {i : ℕ} {f' : Forwarder}
    (hi : s'.senders.get? k = some i) (hf' : s'.tasks[i]? = some f') :
    (∃ f, s.senders.get? k = some i ∧ s.tasks[i]? = some f ∧ f'.running = f.running) ∨
      s.table.contains k = false ∧ f'.running = true := by
  cases hmove with
  | stay => exact Or.inl ⟨f', hi, hf', rfl⟩
  | prune nowUnix => exact Or.inl ⟨f', RelayServer.sender_of_pruned hi, hf', rfl⟩
  | refuse => exact Or.inl ⟨f', RelayServer.sender_of_pruned hi, hf', rfl⟩
  | remove _ _ _ _ _ frame =>
      rw [s.sender_onUnregister _ k hsound.keys] at hi
      rw [RelayServer.tasks_onUnregister] at hf'
      split_ifs at hi
      exact Or.inl ⟨f', hi, hf', rfl⟩
  | renew =>
      rw [RelayServer.senders_announced] at hi
      obtain ⟨f, hf, -, -, hrunning⟩ := task_of_announced hf'
      exact Or.inl ⟨f, hi, hf, hrunning⟩
  | create _ _ now port r hr hout hroom =>
      rw [RelayServer.senders_announced] at hi
      obtain ⟨f, hf, -, -, hrunning⟩ := task_of_announced hf'
      rw [hrunning]
      rw [RelayServer.spawned_of_room _ _ _ hroom] at hi hf
      simp only [KeyMap.get?_insert] at hi
      split_ifs at hi with hk
      · cases hi
        simp only [RelayServer.tasks_pruned, List.getElem?_concat_length] at hf
        cases hf
        exact Or.inr ⟨hk ▸ hout, rfl⟩
      · have hi' := RelayServer.sender_of_pruned hi
        obtain ⟨f₀, hf₀, -⟩ := hsound.task k i hi'
        obtain ⟨hlt, -⟩ := List.getElem?_eq_some_iff.1 hf₀
        simp only [RelayServer.tasks_pruned, List.getElem?_append_left hlt] at hf
        exact Or.inl ⟨f, hi', hf, rfl⟩
  | take j =>
      rw [RelayServer.tasks_onTask] at hf'
      obtain ⟨f, hf, rfl⟩ := Option.map_eq_some_iff.1 hf'
      refine Or.inl ⟨f, hi, hf, ?_⟩
      split_ifs with h
      · have hsender : s.hasSender j = true := by
          rw [RelayServer.hasSender, List.any_eq_true]
          exact ⟨(k, i), KeyMap.mem_entries.2 hi, by simp [h.1]⟩
        rw [hsender, Forwarder.running_takeUpdate_true]
      · rfl
  | fail j => exact absurd rfl (hread j)
  | data j datagram src now =>
      rw [RelayServer.tasks_onTask] at hf'
      obtain ⟨f, hf, rfl⟩ := Option.map_eq_some_iff.1 hf'
      refine Or.inl ⟨f, hi, hf, ?_⟩
      obtain ⟨limiter, heq⟩ := f.onDatagram_snd datagram src now
      split_ifs
      · rw [heq]
      · rfl

/-- A read error ends the task, and its pair is broken. -/
theorem running_fail {cfg : RelayConfig C} {w : ServedRun C} (h : w.Tended) {j : ℕ}
    {k : SessionKey} {i : ℕ} {f' : Forwarder} (hi : w.server.senders.get? k = some i)
    (hf' : (w.step cfg (.socketError j)).server.tasks[i]? = some f') :
    f'.running = true ↔ k ∉ (w.step cfg (.socketError j)).broken := by
  obtain ⟨f, hf, hkey, -⟩ := h.sound.task k i hi
  have hin : (w.step cfg (.socketError j)).server.table.contains k = true :=
    (h.sound.keys k).symm.trans (congrArg Option.isSome hi)
  have hf'' := w.server.tasks_onTask j i fun f => { f with running := false }
  rw [hf] at hf''
  cases hf'.symm.trans hf''
  rw [mem_broken_step, hin]
  have hrunning := h.running k i f hi hf
  by_cases hj : j = i ∧ f.running = true
  · obtain ⟨rfl, hrun⟩ := hj
    have hfault : fault w.server (.socketError j) = some k := by
      simp [fault, hf, hrun, hkey, hi]
    simp [hrun, hfault]
  · have hfault : fault w.server (.socketError j) ≠ some k := by
      intro hsome
      obtain ⟨g, hg, hcond⟩ := Option.bind_eq_some_iff.1 hsome
      split_ifs at hcond with hcase
      cases hcond
      rw [hi] at hcase
      obtain rfl := Option.some.inj hcase.2
      rw [hf] at hg
      cases hg
      exact hj ⟨rfl, hcase.1⟩
    simp only [if_neg hj]
    rw [hrunning]
    simp only [hfault, false_or, and_true]

theorem tended_step {cfg : RelayConfig C} {w : ServedRun C} (h : w.Tended) (input : RelayInput) :
    (w.step cfg input).Tended where
  sound := h.sound.move (w.server.move cfg input)
  open_ k hk := (mem_broken_step.1 hk).2
  running k i f' hi hf' := by
    by_cases hread : ∃ j, input = .socketError j
    · obtain ⟨j, rfl⟩ := hread
      exact running_fail h hi hf'
    have hread' : ∀ j, input ≠ .socketError j := fun j hj => hread ⟨j, hj⟩
    have hmove := w.server.move cfg input
    have hin : (w.step cfg input).server.table.contains k = true :=
      ((h.sound.move hmove).keys k).symm.trans (congrArg Option.isSome hi)
    rw [mem_broken_step_iff hread' hin]
    rcases running_of_move hmove h.sound hread' hi hf' with
      ⟨f, hi₀, hf₀, hsame⟩ | ⟨hout, hnew⟩
    · rw [hsame]
      exact h.running k i f hi₀ hf₀
    · refine iff_of_true hnew fun hk => ?_
      rw [h.open_ k hk] at hout
      cases hout

theorem tended_init : (init : ServedRun C).Tended where
  sound := RelayServer.sound_new
  running k i f hi := by cases hi
  open_ k hk := absurd hk List.not_mem_nil

/-- The session of an accepted Register has a task on the port that is acknowledged, and it
runs exactly when the pair was not broken. -/
theorem task_of_accepted {cfg : RelayConfig C} {w : ServedRun C} (h : w.Tended)
    {input : RelayInput} {r : Registration C} (hr : w.server.accepted cfg input = some r) :
    ∃ i f, (w.step cfg input).server.senders.get? r.key = some i ∧
      (w.step cfg input).server.tasks[i]? = some f ∧ f.key = r.key ∧
      f.port = ((w.step cfg input).server.table.port r.key).getD 0 ∧
      (f.running = true ↔ r.key ∉ w.broken) := by
  have hafter : (w.step cfg input).Tended := tended_step h input
  have hread : ∀ j, input ≠ .socketError j := by
    rintro j rfl
    cases hr
  obtain ⟨x, hx, -⟩ := RelayServer.session_of_accepted (RelayServer.move_of_accepted hr)
  have hin : (w.step cfg input).server.table.contains r.key = true := congrArg Option.isSome hx
  obtain ⟨i, hi⟩ := Option.isSome_iff_exists.1 ((hafter.sound.keys r.key).trans hin)
  obtain ⟨f, hf, hkey, hport⟩ := hafter.sound.task r.key i hi
  refine ⟨i, f, hi, hf, hkey, ?_, ?_⟩
  · rw [show (w.step cfg input).server.table.port r.key = some f.port from hport]
    rfl
  · rw [hafter.running r.key i f hi hf, mem_broken_step_iff hread hin]

/-- What is acknowledged is served if the pair is not broken. -/
theorem acksServed_of_sparesBroken {cfg : RelayConfig C} {w : ServedRun C} (h : w.Tended)
    {input : RelayInput} (hok : SparesBroken cfg w input) : AcksServed cfg w input := by
  intro frame dst hack
  obtain ⟨r, hr, rfl⟩ := w.server.ack_spec hack
  obtain ⟨i, f, -, hf, hkey, hport, hrunning⟩ := task_of_accepted h hr
  exact ⟨f, List.mem_of_getElem? hf, hkey, hport, hrunning.2 (hok r hr)⟩

/-- A task that still runs for a pair whose session it no longer serves has another port than
that session. -/
def Alone (s : RelayServer) : Prop :=
  ∀ k i f, s.senders.get? k = some i → s.tasks[i]? = some f → ∀ (j : ℕ) (g : Forwarder),
    s.tasks[j]? = some g → j ≠ i → g.key = k → g.running = true → g.port ≠ f.port

/-- A sender is an old one, or the new one of a pair that had no session. -/
theorem sender_of_move {cfg : RelayConfig C} {s s' : RelayServer} {input : RelayInput}
    {r : Option (Registration C)} (hmove : RelayServer.Move cfg s input s' r) (hsound : s.Sound)
    {k : SessionKey} {i : ℕ} (hi : s'.senders.get? k = some i) :
    s.senders.get? k = some i ∨ i = s.tasks.length := by
  cases hmove with
  | stay => exact Or.inl hi
  | prune nowUnix => exact Or.inl (RelayServer.sender_of_pruned hi)
  | refuse => exact Or.inl (RelayServer.sender_of_pruned hi)
  | remove =>
      rw [s.sender_onUnregister _ k hsound.keys] at hi
      split_ifs at hi
      exact Or.inl hi
  | renew =>
      rw [RelayServer.senders_announced] at hi
      exact Or.inl hi
  | create _ _ now port r hr hout hroom =>
      rw [RelayServer.senders_announced, RelayServer.spawned_of_room _ _ _ hroom] at hi
      simp only [KeyMap.get?_insert] at hi
      split_ifs at hi
      · exact Or.inr (Option.some.inj hi).symm
      · exact Or.inl (RelayServer.sender_of_pruned hi)
  | take => exact Or.inl hi
  | fail => exact Or.inl hi
  | data => exact Or.inl hi

/-- A task is an old one, with its pair and its port and not started again, or the one of a
new session, on the port its socket got. -/
theorem task_of_move {cfg : RelayConfig C} {s s' : RelayServer} {input : RelayInput}
    {r : Option (Registration C)} (hmove : RelayServer.Move cfg s input s' r) {j : ℕ}
    {g' : Forwarder} (hg' : s'.tasks[j]? = some g') :
    (∃ g, s.tasks[j]? = some g ∧ g'.key = g.key ∧ g'.port = g.port ∧
      (g'.running = true → g.running = true)) ∨
    j = s.tasks.length ∧ s.table.contains g'.key = false ∧
      ∃ datagram src nowUnix now, input = .control datagram src nowUnix now (some g'.port) := by
  have htask : ∀ i (u : Forwarder → Forwarder), (∀ f, (u f).key = f.key ∧ (u f).port = f.port) →
      (s.onTask i u).tasks[j]? = some g' → ∃ g, s.tasks[j]? = some g ∧ g'.key = g.key ∧
        g'.port = g.port ∧ (g'.running = true → g.running = true) := by
    intro i u hu h
    rw [RelayServer.tasks_onTask] at h
    obtain ⟨g, hg, rfl⟩ := Option.map_eq_some_iff.1 h
    refine ⟨g, hg, ?_⟩
    split_ifs with hcase
    · exact ⟨(hu g).1, (hu g).2, fun _ => hcase.2⟩
    · exact ⟨rfl, rfl, id⟩
  cases hmove with
  | stay => exact Or.inl ⟨g', hg', rfl, rfl, id⟩
  | prune => exact Or.inl ⟨g', hg', rfl, rfl, id⟩
  | refuse => exact Or.inl ⟨g', hg', rfl, rfl, id⟩
  | remove =>
      rw [RelayServer.tasks_onUnregister] at hg'
      exact Or.inl ⟨g', hg', rfl, rfl, id⟩
  | renew =>
      obtain ⟨g, hg, hkey, hport, hrunning⟩ := task_of_announced hg'
      exact Or.inl ⟨g, hg, hkey, hport, fun h => hrunning ▸ h⟩
  | create datagram src now port r hr hout hroom =>
      obtain ⟨g, hg, hkey, hport, hrunning⟩ := task_of_announced hg'
      rw [RelayServer.spawned_of_room _ _ _ hroom] at hg
      rcases lt_or_ge j s.tasks.length with hlt | hge
      · simp only [RelayServer.tasks_pruned, List.getElem?_append_left hlt] at hg
        exact Or.inl ⟨g, hg, hkey, hport, fun h => hrunning ▸ h⟩
      · have hnew : j = s.tasks.length ∧ Forwarder.spawn r.key port now = g := by
          simp only [RelayServer.tasks_pruned, List.getElem?_append_right hge] at hg
          obtain ⟨hlt, hget⟩ := List.getElem?_eq_some_iff.1 hg
          rw [List.length_singleton] at hlt
          refine ⟨by omega, ?_⟩
          simpa using hget
        obtain ⟨rfl, rfl⟩ := hnew
        refine Or.inr ⟨rfl, ?_, datagram, src, r.nowUnix, now, ?_⟩
        · rw [hkey]
          exact hout
        · rw [hport]
          rfl
  | take i => exact Or.inl (htask i _ (fun f => f.sameTask_takeUpdate _) hg')
  | fail i =>
      exact Or.inl (htask i (fun f => { f with running := false }) (fun f => ⟨rfl, rfl⟩) hg')
  | data i datagram src now => exact Or.inl (htask i _ (fun f => f.sameTask_onDatagram ..) hg')

theorem alone_step {cfg : RelayConfig C} {w : ServedRun C} (h : w.Tended)
    (halone : Alone w.server) {input : RelayInput} (hfresh : FreshPort w input) :
    Alone (w.step cfg input).server := by
  intro k i f' hi hf' j g' hg' hji hkey hrunning
  have hmove := w.server.move cfg input
  rcases sender_of_move hmove h.sound hi with hi₀ | rfl
  · obtain ⟨f₀, hf₀, -⟩ := h.sound.task k i hi₀
    obtain ⟨hlt, -⟩ := List.getElem?_eq_some_iff.1 hf₀
    have hin : w.server.table.contains k = true :=
      (h.sound.keys k).symm.trans (congrArg Option.isSome hi₀)
    obtain ⟨f, hf, -, hport, -⟩ | ⟨rfl, -⟩ := task_of_move hmove hf'
    · obtain ⟨g, hg, hgkey, hgport, hgrunning⟩ | ⟨-, hout, -⟩ := task_of_move hmove hg'
      · rw [hgport, hport]
        exact halone k i f hi₀ hf j g hg hji (hgkey ▸ hkey) (hgrunning hrunning)
      · rw [hkey, hin] at hout
        cases hout
    · exact absurd hlt (lt_irrefl _)
  · obtain ⟨f, hf, -⟩ | ⟨-, -, datagram, src, nowUnix, now, rfl⟩ := task_of_move hmove hf'
    · obtain ⟨hlt, -⟩ := List.getElem?_eq_some_iff.1 hf
      exact absurd hlt (lt_irrefl _)
    · obtain ⟨g, hg, -, hgport, hgrunning⟩ | ⟨rfl, -⟩ := task_of_move hmove hg'
      · rw [hgport]
        exact hfresh g (List.mem_of_getElem? hg) (hgrunning hrunning)
      · exact absurd rfl hji

/-- A broken pair that registers is acknowledged and not served. -/
theorem sparesBroken_of_acksServed {cfg : RelayConfig C} {w : ServedRun C} (h : w.Tended)
    (halone : Alone w.server) {input : RelayInput} (hfresh : FreshPort w input)
    (hserved : AcksServed cfg w input) : SparesBroken cfg w input := by
  intro r hr hbroken
  obtain ⟨i, f, hi, hf, hkey, hport, hrunning⟩ := task_of_accepted h hr
  cases input with
  | control datagram src nowUnix now bind =>
      obtain ⟨dst, houts⟩ := w.server.onControl_snd nowUnix cfg datagram src now bind
      rw [Option.mem_def.1 hr] at houts
      obtain ⟨g, hg, hgkey, hgport, hgrunning⟩ := hserved _ (dst r) (by
        rw [RelayServer.handle, houts]
        exact List.mem_singleton_self _)
      obtain ⟨j, hj⟩ := List.getElem?_of_mem hg
      have hji : j ≠ i := by
        rintro rfl
        cases hj.symm.trans hf
        exact hrunning.1 hgrunning hbroken
      exact alone_step h halone hfresh r.key i f hi hf j g hj hji hgkey hgrunning
        (hgport.trans hport.symm)
  | prune | update | socketError | data => cases hr

end ServedRun

open ServedRun in
/-- **When every acknowledged port is served**: if no pair registers between a read error on
its session socket and the removal of the session, then at every acknowledgement of a run a
task for the pair runs on the port that is acknowledged; and it is the only case, as long as
a new socket gets a port that no open socket has. -/
theorem acks_served_iff (cfg : RelayConfig C) (inputs : List RelayInput) :
    (Along (step cfg) (SparesBroken cfg) init inputs →
      Along (step cfg) (AcksServed cfg) init inputs) ∧
    (Along (step cfg) FreshPort init inputs → Along (step cfg) (AcksServed cfg) init inputs →
      Along (step cfg) (SparesBroken cfg) init inputs) := by
  constructor
  · have hside : Along (step cfg) (fun _ _ => True) init inputs :=
      Along.of_forall (fun _ _ => trivial) _
    exact Along.imp_of_invariant (P := Tended) (fun w input h _ => tended_step h input)
      (fun w input h _ => acksServed_of_sparesBroken h) tended_init hside
  · refine Along.imp_of_invariant (P := fun w => w.Tended ∧ Alone w.server)
      (fun w input h hfresh => ⟨tended_step h.1 input, alone_step h.1 h.2 hfresh⟩)
      (fun w input h => sparesBroken_of_acksServed h.1 h.2) ⟨tended_init, ?_⟩
    intro k i f hi
    cases hi

/-- **A dead port is acknowledged**: node 1 registers and gets port 50000, the socket of the
session fails, and node 1 renews: the acknowledgement names port 50000, and no task runs. -/
theorem dead_port_acknowledged :
    let w := run (ServedRun.step plainRelay) .init
      [plainControl .register 1 2 1 100, .socketError 0]
    let answer := w.server.handle plainRelay (plainControl .register 1 2 1 130)
    .ack ⟨.registerAck, 50000, 130, plainKey 1 0, plainKey 2 0⟩ (relayClient 1 40000) ∈ answer.2 ∧
      ∀ f ∈ answer.1.tasks, f.running = false := by
  decide +kernel

end Hextet
