/-
# The LAN task and the daemon

`serve` in `crates/engine/src/lan.rs` and the LAN branch of the main loop in
`crates/engine/src/daemon.rs`, connected by a channel.  The LAN task holds a table of
what it heard and sends an update when the endpoints of a node change; the daemon holds
its own copy in the `discovered` list of a peer and drops what it is told about a node
that it does not have.

What will be told of a node once the channel is empty (`left`) is what the table holds,
or nothing at all (`Agree`).  The second happens to a node that is admitted after it was
heard.
-/

import Hextet.Lib.Mailbox
import Hextet.Engine.Discovery
import Hextet.Engine.Lan

namespace Hextet

open Lib

variable {C : Crypto}

/-! ### What the other handlers leave of a layer -/

namespace Daemon

theorem ledger_tickPeers (statuses : List PeerStatus) (now : SystemTime) (cache : EndpointCache)
    (mgr : RouteManager) (ts : ℕ → PeerTick) (ps : List (PeerRuntime C)) :
    ledger (tickPeers statuses now cache mgr ts ps).1 = ledger ps := by
  induction ps generalizing cache mgr ts with
  | nil => rfl
  | cons p ps ih =>
      have hkey := congrArg PeerInfo.keyB64 (PeerRuntime.tick_frame (rfl : p.toPeerInfo = _) cache
        mgr (observe statuses p.wgPublic) now (ts 0)).1
      have hdisc := p.discovered_tick cache mgr (observe statuses p.wgPublic) now (ts 0)
      refine (congrArg₂ (· :: ·) ?_ (ih _ _ _) : _)
      exact Prod.ext hkey hdisc

/-- `on_relay_registered` leaves what the layers told. -/
theorem told_onRelayRegistered (d : Daemon C) (done : RelayRegistered) (now : Instant)
    (clock : Clock) (source : Source) (key : String) :
    (d.onRelayRegistered done now clock).1.told source key = d.told source key := by
  simp only [onRelayRegistered, withPeer]
  split
  · rfl
  · rename_i p hp
    have hkey' : (p.relayRegistered d.cache done.session now clock).1.keyB64 = done.peerKey := by
      rw [(PeerRuntime.tame_relayRegistered rfl d.cache done.session now clock).info]
      simpa using List.find?_some hp
    rw [told, peer, find?_replacePeer hkey', told, peer]
    split_ifs with hk
    · rw [hk, hp, Option.map_some, Option.map_some, Option.map_some,
        PeerRuntime.discovered_relayRegistered]
    · rfl

/-- What happens to what a layer told that does not tell: it stays, or the node enters with
nothing told, or it leaves. -/
def Untouched (before after : Option (List SocketAddrV6)) : Prop :=
  after = before ∨ (before = none ∧ after = some []) ∨ after = none

/-- A gossip event does not touch what the other layers told. -/
theorem told_onGossip {d : Daemon C} (hnodup : d.keys.Nodup) (ctx : Ctx) (clock : Clock)
    {x : GossipEvent C} (hx : x.FromGossip) {layer : Source} (hlayer : layer ≠ .gossip)
    (key : String) :
    Untouched (d.told layer key) ((d.onGossip ctx clock x).1.told layer key) := by
  cases x with
  | discovered update =>
      have hsource : update.source = .gossip := hx
      refine Or.inl ((d.told_onDiscovered update clock layer key).trans (if_neg ?_))
      rintro ⟨-, rfl⟩
      exact hlayer hsource
  | memberAdmitted node name address =>
      rw [onGossip, told_onMemberAdmitted]
      cases htold : d.told layer key with
      | some eps => exact Or.inl rfl
      | none =>
          split_ifs
          · exact Or.inr (Or.inl ⟨rfl, rfl⟩)
          · exact Or.inl rfl
  | revoked node =>
      rw [onGossip, told_onRevoked hnodup]
      split_ifs
      · exact Or.inr (Or.inr rfl)
      · exact Or.inl rfl

theorem told_of_ledger {d d' : Daemon C} (h : ledger d'.peers = ledger d.peers) (source : Source)
    (key : String) : d'.told source key = d.told source key := by
  rw [told_eq_lookup, told_eq_lookup, h]

end Daemon

/-- The layer that an input tells from. -/
def Input.layer? : Input → Option Source
  | .discovered update _ => some update.source
  | _ => none

namespace System

/-- The events in flight from the gossip task are its own. -/
theorem fromGossip_step (cfg : Config C) {s : System C} (h : ∀ x ∈ s.queue, x.FromGossip)
    (i : Input) : ∀ x ∈ (s.step cfg i).queue, x.FromGossip := by
  intro x hx
  rcases mem_queue_step hx with hx | ⟨d, -, hx⟩
  · exact h x hx
  · exact fromGossip_of_mem (Option.mem_toList.2 hx)

/-- **An input does not touch what a layer told**, but gossip and the one it tells from. -/
theorem told_step (cfg : Config C) {s : System C} (hs : Sound Set.univ s)
    (hq : ∀ x ∈ s.queue, x.FromGossip) {layer : Source} (hlayer : layer ≠ .gossip) {i : Input}
    (hi : i.layer? ≠ some layer) (key : String) :
    Daemon.Untouched (s.daemon.told layer key) ((s.step cfg i).daemon.told layer key) := by
  cases i with
  | datagram d => exact Or.inl rfl
  | discovered update clock =>
      refine Or.inl ((s.daemon.told_onDiscovered update clock layer key).trans (if_neg ?_))
      rintro ⟨-, rfl⟩
      exact hi rfl
  | relay done now clock => exact Or.inl (s.daemon.told_onRelayRegistered done now clock layer key)
  | tick statuses now ts =>
      cases statuses with
      | none => exact Or.inl rfl
      | some statuses =>
          refine Or.inl (Daemon.told_of_ledger ?_ layer key)
          exact Daemon.ledger_tickPeers statuses now _ _ ts _
  | kick now clocks =>
      refine Or.inl (Daemon.told_of_ledger ?_ layer key)
      exact Daemon.ledger_kickPeers _ now clocks _
  | gossip clock saved =>
      cases hqueue : s.queue with
      | nil =>
          rw [step, hqueue]
          exact Or.inl rfl
      | cons event rest =>
          have hevent := hq event (by rw [hqueue]; exact List.mem_cons_self)
          have hstep : (s.step cfg (.gossip clock saved)).daemon =
              (s.daemon.onGossip cfg.ctx clock event).1 := by
            rw [step, hqueue]
            rfl
          rw [hstep]
          exact Daemon.told_onGossip hs.keys_nodup cfg.ctx clock hevent hlayer key

end System

/-! ### The two tasks -/

/-- The LAN task and the rest, with the channel between them. -/
structure LanSystem (C : Crypto) where
  system : System C
  /-- The table of the LAN task. -/
  table : LanTable
  /-- The updates in flight to the main loop. -/
  channel : List DiscoveredEndpoints

/-- What happens next: the LAN task receives a datagram or announces itself, the main
loop takes an update of the LAN task, or anything that is not about the LAN. -/
inductive LanEvent where
  | datagram (buf : List UInt8)
  | announce
  | deliver (clock : Clock)
  | engine (i : Input) (h : i.layer? ≠ some .lan)

/-- An event and its time, in Unix seconds. -/
structure LanInput where
  unix : ℕ
  event : LanEvent

namespace LanSystem

section Steps

variable (hmac : Hmac) (lanKey : Bytes 32) (cfg : Config C)

/-- What `serve` passes to `handle_datagram`. -/
def lanConfig : LanConfig C := ⟨cfg.own, lanKey⟩

/-- One event.  `announce` prunes the table; what it sends is not read here. -/
def step (σ : LanSystem C) (x : LanInput) : LanSystem C :=
  match x.event with
  | .datagram buf =>
      let (update, table) := Lan.handleDatagram hmac (lanConfig lanKey cfg) σ.table buf x.unix
      { σ with table := table, channel := σ.channel ++ update.toList }
  | .announce => { σ with table := σ.table.prune x.unix }
  | .deliver clock =>
      match σ.channel with
      | [] => σ
      | update :: rest =>
          { σ with system := σ.system.step cfg (.discovered update clock), channel := rest }
  | .engine i _ => { σ with system := σ.system.step cfg i }

/-- The start: nothing heard. -/
def boot (u : System.Startup) : LanSystem C := ⟨System.boot cfg u, .new, []⟩

/-- The beacon that an event lets into the table. -/
def taken (σ : LanSystem C) (x : LanInput) : Option (Beacon C) :=
  match x.event with
  | .datagram buf =>
      (Lan.opened hmac (lanConfig lanKey cfg) buf x.unix).filter fun b =>
        σ.table.accepts b.nodePublicKey.toBase64 b.seq x.unix
  | _ => none

end Steps

/-- What the LAN has told of a node in the runtime table. -/
def told (σ : LanSystem C) (key : String) : Option (List SocketAddrV6) :=
  σ.system.daemon.told .lan key

/-- The endpoints of the last update of a node among some. -/
def lastUpdate (key : String) (us : List DiscoveredEndpoints) : Option (List SocketAddrV6) :=
  lastSent DiscoveredEndpoints.peerKey DiscoveredEndpoints.endpoints key us

theorem lastUpdate_cons (key : String) (u : DiscoveredEndpoints) (us : List DiscoveredEndpoints) :
    lastUpdate key (u :: us) =
      (lastUpdate key us).or (if u.peerKey = key then some u.endpoints else none) := rfl

/-- What will be told of a node when the channel is empty. -/
def left (σ : LanSystem C) (key : String) : Option (List SocketAddrV6) :=
  (lastUpdate key σ.channel).or (σ.told key)

/-! ### What the steps do -/

/-- The table and the channel are in agreement: no update is empty, and what will be
told of a node that the table holds is what the table holds, if anything. -/
structure Agree (σ : LanSystem C) : Prop where
  sound : System.Sound Set.univ σ.system
  gossip : ∀ x ∈ σ.system.queue, x.FromGossip
  updates : ∀ u ∈ σ.channel, u.source = .lan ∧ u.endpoints ≠ []
  last : ∀ key e, σ.table.entry key = some e → ∀ eps, σ.left key = some eps → eps ≠ [] →
    eps = e.endpoints

section

variable {hmac : Hmac} {lanKey : Bytes 32} {cfg : Config C} {σ : LanSystem C} {unix : ℕ}

variable (hmac lanKey cfg) in
/-- **A datagram**: the table takes the beacon or not, and an update is sent if it was
taken and changes the endpoints. -/
theorem datagram_cases (σ : LanSystem C) (unix : ℕ) (buf : List UInt8) :
    (step hmac lanKey cfg σ ⟨unix, .datagram buf⟩ = σ ∧
      Lan.opened hmac (lanConfig lanKey cfg) buf unix = none) ∨
    ∃ b, Lan.opened hmac (lanConfig lanKey cfg) buf unix = some b ∧
      (step hmac lanKey cfg σ ⟨unix, .datagram buf⟩).system = σ.system ∧
      (∀ k, (step hmac lanKey cfg σ ⟨unix, .datagram buf⟩).table.entry k =
        if σ.table.accepts b.nodePublicKey.toBase64 b.seq unix = true ∧
            k = b.nodePublicKey.toBase64 then some ⟨b.endpoints, b.seq, unix⟩
        else (σ.table.room b.nodePublicKey.toBase64 unix).entry k) ∧
      (step hmac lanKey cfg σ ⟨unix, .datagram buf⟩).channel =
        if σ.table.accepts b.nodePublicKey.toBase64 b.seq unix = true ∧
            (σ.table.entry b.nodePublicKey.toBase64).map LanEntry.endpoints ≠ some b.endpoints then
          σ.channel ++ [⟨.lan, b.nodePublicKey.toBase64, b.endpoints⟩]
        else σ.channel := by
  simp only [step, Lan.handleDatagram]
  cases hopen : Lan.opened hmac (lanConfig lanKey cfg) buf unix with
  | none => exact Or.inl ⟨by simp, rfl⟩
  | some b =>
      refine Or.inr ⟨b, rfl, trivial, fun k => LanTable.entry_record .., ?_⟩
      simp only [LanTable.record_fst, Bool.and_eq_true, decide_eq_true_eq]
      split_ifs <;> simp

variable (hmac lanKey cfg) in
/-- A delivery: the main loop takes the first update in flight, if there is one. -/
theorem deliver_cases (σ : LanSystem C) (unix : ℕ) (clock : Clock) :
    (σ.channel = [] ∧ step hmac lanKey cfg σ ⟨unix, .deliver clock⟩ = σ) ∨
    ∃ u rest, σ.channel = u :: rest ∧ step hmac lanKey cfg σ ⟨unix, .deliver clock⟩ =
      ⟨σ.system.step cfg (.discovered u clock), σ.table, rest⟩ := by
  simp only [step]
  cases σ.channel with
  | nil => exact Or.inl ⟨rfl, rfl⟩
  | cons u rest => exact Or.inr ⟨u, rest, rfl, rfl⟩

/-- The update that a beacon makes. -/
def updateOf (b : Beacon C) : DiscoveredEndpoints :=
  ⟨.lan, b.nodePublicKey.toBase64, b.endpoints⟩

/-- The beacon repeats the endpoints that the table has of its node. -/
def Repeats (σ : LanSystem C) (b : Beacon C) : Prop :=
  (σ.table.entry b.nodePublicKey.toBase64).map LanEntry.endpoints = some b.endpoints

instance (σ : LanSystem C) (b : Beacon C) : Decidable (σ.Repeats b) :=
  inferInstanceAs (Decidable (_ = _))

theorem taken_datagram {buf : List UInt8} {b : Beacon C} :
    taken hmac lanKey cfg σ ⟨unix, .datagram buf⟩ = some b ↔
      Lan.opened hmac (lanConfig lanKey cfg) buf unix = some b ∧
        σ.table.accepts b.nodePublicKey.toBase64 b.seq unix = true := by
  rw [taken, Option.filter_eq_some_iff]

/-- What is taken comes in a datagram. -/
theorem exists_of_taken {x : LanInput} {b : Beacon C} (h : taken hmac lanKey cfg σ x = some b) :
    ∃ buf, x.event = .datagram buf ∧
      Lan.opened hmac (lanConfig lanKey cfg) buf x.unix = some b ∧
      σ.table.accepts b.nodePublicKey.toBase64 b.seq x.unix = true := by
  obtain ⟨unix, event⟩ := x
  cases event with
  | datagram buf => exact ⟨buf, rfl, taken_datagram.1 h⟩
  | announce => cases h
  | deliver clock => cases h
  | engine i hi => cases h

/-- **A beacon that is taken** is the entry of its node then, and an update follows
unless it repeats the endpoints. -/
theorem step_taken {x : LanInput} {b : Beacon C} (h : taken hmac lanKey cfg σ x = some b) :
    (step hmac lanKey cfg σ x).system = σ.system ∧
      (step hmac lanKey cfg σ x).table.entry b.nodePublicKey.toBase64 =
        some ⟨b.endpoints, b.seq, x.unix⟩ ∧
      (step hmac lanKey cfg σ x).channel =
        if σ.Repeats b then σ.channel else σ.channel ++ [updateOf b] := by
  obtain ⟨unix, event⟩ := x
  obtain ⟨buf, rfl, hopen, hacc⟩ := exists_of_taken h
  rcases datagram_cases hmac lanKey cfg σ unix buf with
    ⟨-, hnone⟩ | ⟨b', hopen', hsys, hentry, hchan⟩
  · rw [hopen] at hnone
    cases hnone
  · obtain rfl : b = b' := Option.some.inj (hopen.symm.trans hopen')
    refine ⟨hsys, by rw [hentry, if_pos ⟨hacc, rfl⟩], ?_⟩
    rw [hchan]
    by_cases hrep : σ.Repeats b
    · rw [if_pos hrep, if_neg fun h => h.2 hrep]
    · rw [if_neg hrep, if_pos ⟨hacc, hrep⟩]
      rfl

/-- **The entries after an event** are the beacon that was taken and entries from
before. -/
theorem entry_of_step {x : LanInput} {k : String} {e : LanEntry}
    (h : (step hmac lanKey cfg σ x).table.entry k = some e) :
    (∃ b, taken hmac lanKey cfg σ x = some b ∧ k = b.nodePublicKey.toBase64 ∧
      e = ⟨b.endpoints, b.seq, x.unix⟩) ∨
    (σ.table.entry k = some e ∧
      ∀ b, taken hmac lanKey cfg σ x = some b → k ≠ b.nodePublicKey.toBase64) := by
  obtain ⟨unix, event⟩ := x
  cases event with
  | datagram buf =>
      rcases datagram_cases hmac lanKey cfg σ unix buf with
        ⟨hsame, hnone⟩ | ⟨b, hopen, -, hentry, -⟩
      · rw [hsame] at h
        refine Or.inr ⟨h, fun b hb => ?_⟩
        rw [(taken_datagram.1 hb).1] at hnone
        cases hnone
      · rw [hentry] at h
        split_ifs at h with htake
        · exact Or.inl ⟨b, taken_datagram.2 ⟨hopen, htake.1⟩, htake.2, (Option.some.inj h).symm⟩
        · refine Or.inr ⟨LanTable.entry_of_room h, fun b' hb' => ?_⟩
          obtain ⟨hopen', hacc⟩ := taken_datagram.1 hb'
          obtain rfl : b = b' := Option.some.inj (hopen.symm.trans hopen')
          exact fun hk => htake ⟨hacc, hk⟩
  | announce =>
      have hprune : (σ.table.prune unix).entry k = some e := h
      rw [LanTable.entry_prune, Option.filter_eq_some_iff] at hprune
      exact Or.inr ⟨hprune.1, fun b hb => by cases hb⟩
  | deliver clock =>
      refine Or.inr ⟨?_, fun b hb => by cases hb⟩
      rcases deliver_cases hmac lanKey cfg σ unix clock with ⟨-, hstep⟩ | ⟨u, rest, -, hstep⟩
      · rwa [hstep] at h
      · rwa [hstep] at h
  | engine i hi => exact Or.inr ⟨h, fun b hb => by cases hb⟩

/-- The updates in flight after an event are that of the beacon which was taken and
updates from before. -/
theorem mem_channel_of_step {x : LanInput} {u : DiscoveredEndpoints}
    (h : u ∈ (step hmac lanKey cfg σ x).channel) :
    (∃ b, taken hmac lanKey cfg σ x = some b ∧ u = updateOf b) ∨ u ∈ σ.channel := by
  obtain ⟨unix, event⟩ := x
  cases event with
  | datagram buf =>
      rcases datagram_cases hmac lanKey cfg σ unix buf with ⟨hsame, -⟩ | ⟨b, hopen, -, -, hchan⟩
      · exact Or.inr (hsame ▸ h)
      · rw [hchan] at h
        split_ifs at h with hsent
        · rcases List.mem_append.1 h with h | h
          · exact Or.inr h
          · exact Or.inl ⟨b, taken_datagram.2 ⟨hopen, hsent.1⟩, List.mem_singleton.1 h⟩
        · exact Or.inr h
  | announce => exact Or.inr h
  | deliver clock =>
      rcases deliver_cases hmac lanKey cfg σ unix clock with ⟨-, hstep⟩ | ⟨v, rest, hchan, hstep⟩
      · rw [hstep] at h
        exact Or.inr h
      · rw [hstep] at h
        exact Or.inr (hchan ▸ List.mem_cons_of_mem v h)
  | engine i hi => exact Or.inr h

/-- A datagram that lets nothing in changes nothing of what will be told. -/
theorem left_not_taken {buf : List UInt8}
    (h : taken hmac lanKey cfg σ ⟨unix, .datagram buf⟩ = none) (k : String) :
    (step hmac lanKey cfg σ ⟨unix, .datagram buf⟩).left k = σ.left k := by
  rcases datagram_cases hmac lanKey cfg σ unix buf with ⟨hsame, -⟩ | ⟨b, hopen, hsys, -, hchan⟩
  · rw [hsame]
  · have hno : ¬σ.table.accepts b.nodePublicKey.toBase64 b.seq unix = true := by
      intro hacc
      rw [taken_datagram.2 ⟨hopen, hacc⟩] at h
      cases h
    rw [if_neg fun hsent => hno hsent.1] at hchan
    rw [left, left, told, told, hsys, hchan]

/-- A beacon that is taken is what will be told of its node, unless it repeats the
endpoints. -/
theorem left_taken {x : LanInput} {b : Beacon C} (h : taken hmac lanKey cfg σ x = some b)
    (k : String) :
    (step hmac lanKey cfg σ x).left k =
      if k = b.nodePublicKey.toBase64 ∧ ¬σ.Repeats b then some b.endpoints else σ.left k := by
  obtain ⟨hsys, -, hchan⟩ := step_taken h
  rw [left, told, hsys, hchan]
  by_cases hrep : σ.Repeats b
  · rw [if_pos hrep, if_neg fun h => h.2 hrep]
    rfl
  · rw [if_neg hrep, lastUpdate, lastSent_append, updateOf]
    by_cases hk : k = b.nodePublicKey.toBase64
    · rw [if_pos hk.symm, if_pos ⟨hk, hrep⟩, Option.some_or]
    · rw [if_neg (Ne.symm hk), if_neg fun h => hk h.1]
      rfl

/-- The update that is taken from the channel is told, if the node is in the table. -/
theorem told_deliver {u : DiscoveredEndpoints} {rest : List DiscoveredEndpoints} {clock : Clock}
    (hsource : u.source = .lan) (k : String) :
    told (⟨σ.system.step cfg (.discovered u clock), σ.table, rest⟩ : LanSystem C) k =
      if k = u.peerKey then (σ.told k).map fun _ => u.endpoints else σ.told k := by
  refine (σ.system.daemon.told_onDiscovered u clock .lan k).trans ?_
  rw [hsource]
  simp only [and_true]
  rfl

/-- What will be told after a delivery was to be told before: the updates behind the one
that is taken are read first on both sides. -/
theorem left_of_deliver (hσ : Agree σ) {clock : Clock} {k : String} {eps : List SocketAddrV6}
    (h : (step hmac lanKey cfg σ ⟨unix, .deliver clock⟩).left k = some eps) :
    σ.left k = some eps := by
  rcases deliver_cases hmac lanKey cfg σ unix clock with ⟨-, hstep⟩ | ⟨u, rest, hchan, hstep⟩
  · rwa [hstep] at h
  · have hsource : u.source = .lan := (hσ.updates u (hchan ▸ List.mem_cons_self)).1
    rw [hstep, left, told_deliver hsource] at h
    rw [left, hchan, lastUpdate_cons]
    cases hlast : lastUpdate k rest with
    | some eps' => simpa [hlast] using h
    | none =>
        rw [hlast, Option.none_or] at h
        by_cases hk : k = u.peerKey
        · rw [if_pos hk, Option.map_eq_some_iff] at h
          obtain ⟨_, -, rfl⟩ := h
          simp [hk]
        · rw [if_neg hk] at h
          simp [Ne.symm hk, h]

/-- What will be told after an input of the rest was to be told before, or is nothing, of
a node that has just entered. -/
theorem left_of_engine (hσ : Agree σ) {i : Input} (hi : i.layer? ≠ some .lan) {k : String}
    {eps : List SocketAddrV6}
    (h : (step hmac lanKey cfg σ ⟨unix, .engine i hi⟩).left k = some eps) :
    σ.left k = some eps ∨ (σ.told k = none ∧ eps = []) := by
  have hleft : (lastUpdate k σ.channel).or ((σ.system.step cfg i).daemon.told .lan k) =
    some eps := h
  rw [left]
  cases hlast : lastUpdate k σ.channel with
  | some eps' =>
      rw [hlast] at hleft
      exact Or.inl hleft
  | none =>
      rw [hlast, Option.none_or] at hleft
      rw [Option.none_or]
      rcases System.told_step cfg hσ.sound hσ.gossip (by decide) hi k with
        hsame | ⟨hout, hin⟩ | hgone
      · exact Or.inl (hsame.symm.trans hleft)
      · exact Or.inr ⟨hout, Option.some.inj (hleft.symm.trans hin)⟩
      · rw [hgone] at hleft
        cases hleft

/-- **What will be told after an event** is the beacon that was taken, or was there to be
told before, or is nothing, of a node that has just entered. -/
theorem left_of_step (hσ : Agree σ) {x : LanInput} {k : String} {eps : List SocketAddrV6}
    (h : (step hmac lanKey cfg σ x).left k = some eps) :
    (∃ b, taken hmac lanKey cfg σ x = some b ∧ k = b.nodePublicKey.toBase64 ∧
      ¬σ.Repeats b ∧ eps = b.endpoints) ∨
    (σ.left k = some eps ∧
      ∀ b, taken hmac lanKey cfg σ x = some b → k = b.nodePublicKey.toBase64 → σ.Repeats b) ∨
    (σ.told k = none ∧ eps = []) := by
  obtain ⟨unix, event⟩ := x
  cases event with
  | datagram buf =>
      cases htaken : taken hmac lanKey cfg σ ⟨unix, .datagram buf⟩ with
      | none =>
          rw [left_not_taken htaken] at h
          exact Or.inr (Or.inl ⟨h, fun b hb => by cases hb⟩)
      | some b =>
          rw [left_taken htaken] at h
          split_ifs at h with hsent
          · exact Or.inl ⟨b, rfl, hsent.1, hsent.2, (Option.some.inj h).symm⟩
          · refine Or.inr (Or.inl ⟨h, fun b' hb' hk => ?_⟩)
            obtain rfl := Option.some.inj hb'
            exact not_not.1 fun hrep => hsent ⟨hk, hrep⟩
  | announce => exact Or.inr (Or.inl ⟨h, fun b hb => by cases hb⟩)
  | deliver clock =>
      exact Or.inr (Or.inl ⟨left_of_deliver hσ h, fun b hb => by cases hb⟩)
  | engine i hi =>
      exact Or.inr ((left_of_engine hσ hi h).imp_left fun hleft => ⟨hleft, fun b hb => by cases hb⟩)

theorem endpoints_of_taken {x : LanInput} {b : Beacon C}
    (h : taken hmac lanKey cfg σ x = some b) : b.endpoints ≠ [] := by
  obtain ⟨buf, -, hopen, -⟩ := exists_of_taken h
  exact Lan.endpoints_ne_nil hopen

variable (hmac lanKey cfg) in
/-- An event is at most one input of the rest. -/
theorem system_step (σ : LanSystem C) (x : LanInput) :
    (step hmac lanKey cfg σ x).system = σ.system ∨
      ∃ i, (step hmac lanKey cfg σ x).system = σ.system.step cfg i := by
  obtain ⟨unix, event⟩ := x
  cases event with
  | datagram buf => exact Or.inl rfl
  | announce => exact Or.inl rfl
  | deliver clock =>
      rcases deliver_cases hmac lanKey cfg σ unix clock with ⟨-, hstep⟩ | ⟨u, rest, -, hstep⟩
      · exact Or.inl (by rw [hstep])
      · exact Or.inr ⟨.discovered u clock, by rw [hstep]⟩
  | engine i hi => exact Or.inr ⟨i, rfl⟩

/-- **The table and the channel stay in agreement.** -/
theorem Agree.step (hσ : Agree σ) (x : LanInput) : Agree (step hmac lanKey cfg σ x) where
  sound := by
    rcases system_step hmac lanKey cfg σ x with hsys | ⟨i, hsys⟩
    · rw [hsys]
      exact hσ.sound
    · rw [hsys]
      exact hσ.sound.step fun _ _ _ _ => Set.mem_univ _
  gossip := by
    rcases system_step hmac lanKey cfg σ x with hsys | ⟨i, hsys⟩
    · rw [hsys]
      exact hσ.gossip
    · rw [hsys]
      exact System.fromGossip_step cfg hσ.gossip i
  updates := by
    intro u hu
    rcases mem_channel_of_step hu with ⟨b, htaken, rfl⟩ | hu
    · exact ⟨rfl, endpoints_of_taken htaken⟩
    · exact hσ.updates u hu
  last := by
    intro k e he eps hleft heps
    rcases left_of_step hσ hleft with ⟨b, htaken, hk, -, rfl⟩ | ⟨hbefore, hrep⟩ | ⟨-, rfl⟩
    · rw [hk, (step_taken htaken).2.1] at he
      rw [← Option.some.inj he]
    · rcases entry_of_step he with ⟨b, htaken, hk, rfl⟩ | ⟨he, -⟩
      · -- The beacon repeats what the table had, which is what was left to be told.
        obtain ⟨e', he', hsame⟩ := Option.map_eq_some_iff.1 (hrep b htaken hk)
        rw [← hsame]
        exact hσ.last k e' (hk ▸ he') eps hbefore heps
      · exact hσ.last k e he eps hbefore heps
    · exact absurd rfl heps

/-- At the start nothing was told. -/
theorem told_boot (cfg : Config C) (u : System.Startup) {k : String} {eps : List SocketAddrV6}
    (h : (boot cfg u).told k = some eps) : eps = [] := by
  obtain ⟨p, hp, rfl⟩ := Option.map_eq_some_iff.1 h
  rw [System.discovered_boot (List.mem_of_find?_eq_some hp)]
  rfl

theorem Agree.boot (cfg : Config C) {u : System.Startup} (hw : MembersFile.Written C u.members) :
    Agree (boot cfg u) where
  sound := System.Sound.boot cfg u hw (fun _ _ => Set.mem_univ _) fun _ _ => Set.mem_univ _
  gossip := fun _ hx => by cases hx
  updates := fun _ hu => by cases hu
  last := fun _ _ he => by cases he

theorem told_ne_none_iff {k : String} :
    σ.told k ≠ none ↔ k ∈ σ.system.daemon.keys := by
  rw [told, Daemon.told, ne_eq, Option.map_eq_none_iff, Daemon.peer_eq_none_iff, not_not]

theorem exists_left {k : String} (h : σ.told k ≠ none) :
    ∃ eps, σ.left k = some eps := by
  obtain ⟨eps, heps⟩ := Option.ne_none_iff_exists'.1 h
  rw [left, heps]
  cases lastUpdate k σ.channel with
  | none => exact ⟨eps, rfl⟩
  | some eps' => exact ⟨eps', rfl⟩

/-- Nothing will be told of a node in the table exactly when nothing was and nothing is
in flight. -/
theorem Agree.left_eq_nil_iff (hσ : Agree σ) {k : String} :
    σ.left k = some [] ↔ σ.told k = some [] ∧ ∀ u ∈ σ.channel, u.peerKey ≠ k := by
  rw [left]
  cases hlast : lastUpdate k σ.channel with
  | none =>
      rw [Option.none_or]
      exact (and_iff_left (lastSent_eq_none_iff.1 hlast)).symm
  | some eps =>
      obtain ⟨u, hu, hkey, rfl⟩ := exists_of_lastSent hlast
      refine iff_of_false (fun h => ?_) fun h => h.2 u hu hkey
      exact (hσ.updates u hu).2 (Option.some.inj h)

end

/-! ### Nodes that were heard -/

/-- The two tasks, and the nodes of which a beacon was taken since they entered the
runtime table. -/
structure Watched (C : Crypto) where
  lan : LanSystem C
  heard : List String

namespace Watched

section

variable (hmac : Hmac) (lanKey : Bytes 32) (cfg : Config C)

/-- One event: a beacon that is taken is heard, and a node that leaves the runtime table
is not heard any more. -/
def step (w : Watched C) (x : LanInput) : Watched C :=
  let lan := w.lan.step hmac lanKey cfg x
  let heard := (w.lan.taken hmac lanKey cfg x).toList.map (·.nodePublicKey.toBase64) ++ w.heard
  ⟨lan, heard.filter fun key => key ∈ lan.system.daemon.keys⟩

/-- The start: nothing heard. -/
def boot (u : System.Startup) : Watched C := ⟨LanSystem.boot cfg u, []⟩

/-- The beacon that is taken is not one that repeats what the table has of a node of
which the daemon has nothing from the LAN, with nothing in flight. -/
def Careful (w : Watched C) (x : LanInput) : Prop :=
  ∀ b ∈ w.lan.taken hmac lanKey cfg x, w.lan.Repeats b →
    ¬(w.lan.told b.nodePublicKey.toBase64 = some [] ∧
      ∀ u ∈ w.lan.channel, u.peerKey ≠ b.nodePublicKey.toBase64)

instance (w : Watched C) (x : LanInput) : Decidable (Careful hmac lanKey cfg w x) :=
  inferInstanceAs (Decidable (∀ _ ∈ _, _))

end

/-- **What the daemon has from the LAN is what the LAN table has**, of a node that is in
both and was heard since it entered the runtime table, when no update of it is in
flight. -/
def InStep (w : Watched C) : Prop :=
  ∀ key ∈ w.heard, ∀ p, w.lan.system.daemon.peer key = some p →
    (w.lan.table.entry key).isSome = true → (∀ u ∈ w.lan.channel, u.peerKey ≠ key) →
    endpointsFrom .lan p.discovered = w.lan.table.endpointsFor key

/-- The invariant: of a node that was heard something will be told. -/
structure Told (w : Watched C) : Prop where
  agree : Agree w.lan
  heard : ∀ key ∈ w.heard, w.lan.told key ≠ none ∧ ∃ eps, w.lan.left key = some eps ∧ eps ≠ []

variable {hmac : Hmac} {lanKey : Bytes 32} {cfg : Config C} {w : Watched C}

/-- A node that stays in the runtime table has left to be told what it had, if no beacon
of it is taken. -/
theorem left_of_stays (hw : Agree w.lan) {x : LanInput} {key : String}
    (hquiet : ∀ b, w.lan.taken hmac lanKey cfg x = some b → key = b.nodePublicKey.toBase64 →
      w.lan.Repeats b)
    (hbefore : w.lan.told key ≠ none)
    (hafter : (w.lan.step hmac lanKey cfg x).told key ≠ none) :
    (w.lan.step hmac lanKey cfg x).left key = w.lan.left key := by
  obtain ⟨eps, heps⟩ := exists_left hafter
  rcases left_of_step hw heps with ⟨b, htaken, hk, hrep, -⟩ | ⟨hleft, -⟩ | ⟨hout, -⟩
  · exact absurd (hquiet b htaken hk) hrep
  · rw [heps, hleft]
  · exact absurd hout hbefore

/-- **A careful step keeps the invariant.** -/
theorem Told.step (hw : w.Told) {x : LanInput} (hx : Careful hmac lanKey cfg w x) :
    (w.step hmac lanKey cfg x).Told where
  agree := hw.agree.step x
  heard := by
    intro key hkey
    obtain ⟨hheard, hin⟩ := List.mem_filter.1 hkey
    have hafter : (w.lan.step hmac lanKey cfg x).told key ≠ none :=
      told_ne_none_iff.2 (of_decide_eq_true hin)
    refine ⟨hafter, ?_⟩
    rcases List.mem_append.1 hheard with hnew | hold
    · obtain ⟨b, hb, rfl⟩ := List.mem_map.1 hnew
      have htaken : w.lan.taken hmac lanKey cfg x = some b := Option.mem_toList.1 hb
      have hleft := left_taken htaken b.nodePublicKey.toBase64
      have hsys := (step_taken htaken).1
      by_cases hrep : w.lan.Repeats b
      · -- A repeated list was told, or is about to be.
        have hbefore : w.lan.told b.nodePublicKey.toBase64 ≠ none := by
          rw [told_ne_none_iff, ← hsys]
          exact of_decide_eq_true hin
        rw [if_neg fun h => h.2 hrep] at hleft
        obtain ⟨eps, heps⟩ := exists_left hbefore
        refine ⟨eps, hleft.trans heps, ?_⟩
        rintro rfl
        exact hx b htaken hrep (hw.agree.left_eq_nil_iff.1 heps)
      · rw [if_pos ⟨rfl, hrep⟩] at hleft
        exact ⟨b.endpoints, hleft, endpoints_of_taken htaken⟩
    · obtain ⟨hbefore, eps, hleft, heps⟩ := hw.heard key hold
      by_cases hquiet : ∀ b, w.lan.taken hmac lanKey cfg x = some b →
          key = b.nodePublicKey.toBase64 → w.lan.Repeats b
      · exact ⟨eps, (left_of_stays hw.agree hquiet hbefore hafter).trans hleft, heps⟩
      · push Not at hquiet
        obtain ⟨b, htaken, rfl, hrep⟩ := hquiet
        exact ⟨b.endpoints, (left_taken htaken _).trans (if_pos ⟨rfl, hrep⟩),
          endpoints_of_taken htaken⟩

/-- The invariant gives the agreement. -/
theorem Told.inStep (hw : w.Told) : w.InStep := by
  intro key hkey p hp hentry hdrained
  obtain ⟨e, he⟩ := Option.isSome_iff_exists.1 hentry
  obtain ⟨-, eps, hleft, heps⟩ := hw.heard key hkey
  have htold : w.lan.left key = some (endpointsFrom .lan p.discovered) := by
    rw [left, lastUpdate, lastSent_eq_none_iff.2 hdrained, Option.none_or, told, Daemon.told, hp]
    rfl
  obtain rfl := Option.some.inj (htold.symm.trans hleft)
  rw [hw.agree.last key e he _ hleft heps, LanTable.endpointsFor, he]
  rfl

/-- A step that is not careful breaks the agreement. -/
theorem not_inStep_of_not_careful {x : LanInput} (hx : ¬Careful hmac lanKey cfg w x) :
    ¬(w.step hmac lanKey cfg x).InStep := by
  unfold Careful at hx
  push Not at hx
  obtain ⟨b, htaken, hrep, htold, hdrained⟩ := hx
  obtain ⟨hsys, hentry, hchan⟩ := step_taken htaken
  rw [if_pos hrep] at hchan
  obtain ⟨p, hp, hnothing⟩ := Option.map_eq_some_iff.1 htold
  intro hgood
  have hin : b.nodePublicKey.toBase64 ∈ (w.step hmac lanKey cfg x).heard := by
    refine List.mem_filter.2 ⟨List.mem_append_left _ (List.mem_map.2 ⟨b, ?_, rfl⟩), ?_⟩
    · exact Option.mem_toList.2 htaken
    · rw [decide_eq_true_eq, ← told_ne_none_iff, told, hsys, ← told, htold]
      simp
  have hsame := hgood _ hin p (by rw [Watched.step, hsys]; exact hp)
    (by rw [Watched.step, hentry]; rfl) (by rw [Watched.step, hchan]; exact hdrained)
  rw [hnothing, Watched.step, LanTable.endpointsFor, hentry] at hsame
  exact endpoints_of_taken htaken hsame.symm

/-- **When no announcement is lost to a late admission.**  In every state of a run, what
the daemon has from the LAN of a node that was heard since it entered the runtime table
is what the LAN table has, exactly when no beacon is taken that repeats the endpoints the
table has of a node while the daemon has none from the LAN and none is in flight. -/
theorem announcements_in_step_iff (hmac : Hmac) (lanKey : Bytes 32) (cfg : Config C)
    (u : System.Startup) (hw : MembersFile.Written C u.members) (xs : List LanInput) :
    Along (step hmac lanKey cfg) (Careful hmac lanKey cfg) (boot cfg u) xs ↔
      ∀ ys, ys <+: xs → InStep (run (step hmac lanKey cfg) (boot cfg u) ys) := by
  have hboot : Told (boot cfg u) := ⟨.boot cfg hw, fun _ hk => by cases hk⟩
  exact Along.iff_forall_prefix (P := Told) (fun _ _ h hx => h.step hx) (fun _ h => h.inStep)
    (fun _ _ _ hx => not_inStep_of_not_careful hx) hboot xs

end Watched

/-! ### Node 2 is admitted late -/

/-- The MAC shows its key. -/
def plainHmac : Hmac := fun key _ => key

/-- The key of the LAN. -/
def plainLanKey : Bytes 32 := ⟨List.replicate 32 7, by simp⟩

/-- Node `n` announces itself at `2001:db8::1`. -/
def plainBeacon (n : ℕ) (port : UInt16) (seq : UInt64) : Beacon Crypto.plain :=
  ⟨plainKey n 0, port, seq, [plainAddr]⟩

/-- The datagram of a beacon. -/
def plainAnnounce (n : ℕ) (port : UInt16) (seq : UInt64) : LanEvent :=
  .datagram (((plainBeacon n port seq).encode plainHmac plainLanKey).toOption.getD [])

/-- Node 2 is heard, and then admitted. -/
def heardThenAdmitted : List LanInput :=
  [⟨100, plainAnnounce 2 7 100⟩, ⟨100, .deliver fun _ => 0⟩,
    ⟨101, .engine (.datagram (admission (plainKey 2 0))) (by decide)⟩,
    ⟨101, .engine (.gossip (fun _ => 0) true) (by decide)⟩]

/-- If it then announces itself on another port, the daemon learns of it. -/
theorem announcements_in_step_moved :
    let w := run (Watched.step plainHmac plainLanKey plainConfig)
      (Watched.boot plainConfig plainStartup)
      (heardThenAdmitted ++ [⟨105, plainAnnounce 2 8 105⟩, ⟨105, .deliver fun _ => 0⟩])
    (plainKey 2 0).toBase64 ∈ w.heard ∧ w.InStep := by
  refine ⟨by decide +kernel, ?_⟩
  exact (Watched.announcements_in_step_iff plainHmac plainLanKey plainConfig plainStartup .new _).1
    (by decide +kernel) _ List.prefix_rfl

/-- **Node 2 announces itself once more, as before**: it is in the runtime table, was
heard there, and the daemon has no endpoint of it. -/
theorem announcement_lost :
    ¬(run (Watched.step plainHmac plainLanKey plainConfig) (Watched.boot plainConfig plainStartup)
      (heardThenAdmitted ++ [⟨105, plainAnnounce 2 7 105⟩])).InStep := by
  rw [run_append]
  refine Watched.not_inStep_of_not_careful ?_
  decide +kernel

end LanSystem

end Hextet
