/-
# The age of what the LAN told

The LAN task drops an entry that was not refreshed for `ENTRY_TTL`
(`LanTable::prune` in `crates/engine/src/lan.rs`); the daemon decides with its own copy
which addresses are alive (`still_reported_by_authoritative_source` in
`crates/engine/src/daemon.rs`).  `prune` sends no update, so the copy of a node that
falls silent stays (`silent_node_still_reported`).

If the main loop takes what the LAN task sends before its next announcement, the copy is
as old as the TTL and an announcement interval allow exactly when no node in it falls
silent (`lan_records_in_time_iff`).
-/

import Hextet.Engine.LanRun

namespace Hextet

open Lib

variable {C : Crypto}

namespace LanSystem

/-- What the daemon has from the LAN, or is to have. -/
def Carries (σ : LanSystem C) (key : String) (e : SocketAddrV6) : Prop :=
  (∃ eps, σ.told key = some eps ∧ e ∈ eps) ∨
    ∃ u ∈ σ.channel, u.peerKey = key ∧ e ∈ u.endpoints

section

variable {hmac : Hmac} {lanKey : Bytes 32} {cfg : Config C} {σ : LanSystem C}

/-- What was told after an event was told before, or in flight, or is nothing. -/
theorem told_of_step (hσ : Agree σ) {x : LanInput} {k : String} {eps : List SocketAddrV6}
    (h : (step hmac lanKey cfg σ x).told k = some eps) :
    σ.told k = some eps ∨ (∃ u ∈ σ.channel, u.peerKey = k ∧ u.endpoints = eps) ∨ eps = [] := by
  obtain ⟨unix, event⟩ := x
  cases event with
  | datagram buf => exact Or.inl h
  | announce => exact Or.inl h
  | deliver clock =>
      rcases deliver_cases hmac lanKey cfg σ unix clock with ⟨-, hstep⟩ | ⟨u, rest, hchan, hstep⟩
      · rw [hstep] at h
        exact Or.inl h
      · have hu : u ∈ σ.channel := hchan ▸ List.mem_cons_self
        rw [hstep, told_deliver (hσ.updates u hu).1] at h
        split_ifs at h with hk
        · obtain ⟨_, -, rfl⟩ := Option.map_eq_some_iff.1 h
          exact Or.inr (Or.inl ⟨u, hu, hk.symm, rfl⟩)
        · exact Or.inl h
  | engine i hi =>
      have hafter : (σ.system.step cfg i).daemon.told .lan k = some eps := h
      rcases System.told_step cfg hσ.sound hσ.gossip (by decide) hi k with
        hsame | ⟨-, hin⟩ | hgone
      · exact Or.inl (hsame.symm.trans hafter)
      · exact Or.inr (Or.inr (Option.some.inj (hafter.symm.trans hin)))
      · rw [hgone] at hafter
        cases hafter

/-- **What is carried after an event** was in the beacon that was taken, or carried
before. -/
theorem carries_of_step (hσ : Agree σ) {x : LanInput} {k : String} {e : SocketAddrV6}
    (h : (step hmac lanKey cfg σ x).Carries k e) :
    (∃ b, taken hmac lanKey cfg σ x = some b ∧ k = b.nodePublicKey.toBase64 ∧ e ∈ b.endpoints) ∨
      σ.Carries k e := by
  rcases h with ⟨eps, htold, he⟩ | ⟨u, hu, hk, he⟩
  · rcases told_of_step hσ htold with htold | ⟨u, hu, hk, rfl⟩ | rfl
    · exact Or.inr (Or.inl ⟨eps, htold, he⟩)
    · exact Or.inr (Or.inr ⟨u, hu, hk, he⟩)
    · cases he
  · rcases mem_channel_of_step hu with ⟨b, htaken, rfl⟩ | hu
    · exact Or.inl ⟨b, htaken, hk.symm, he⟩
    · exact Or.inr (Or.inr ⟨u, hu, hk, he⟩)

end

/-! ### A clock and a log -/

/-- A beacon that was taken. -/
structure Hearing where
  key : String
  unix : ℕ
  endpoints : List SocketAddrV6

/-- An endpoint of a node was heard at most `age` seconds before a time. -/
def HeardWithin (log : List Hearing) (key : String) (e : SocketAddrV6) (now age : ℕ) : Prop :=
  ∃ h ∈ log, h.key = key ∧ e ∈ h.endpoints ∧ now ≤ h.unix + age

instance (log : List Hearing) (key : String) (e : SocketAddrV6) (now age : ℕ) :
    Decidable (HeardWithin log key e now age) :=
  inferInstanceAs (Decidable (∃ _ ∈ _, _))

theorem HeardWithin.mono {log log' : List Hearing} {key : String} {e : SocketAddrV6}
    {now age : ℕ} (h : HeardWithin log key e now age) (hlog : log ⊆ log') :
    HeardWithin log' key e now age := by
  obtain ⟨r, hr, hrest⟩ := h
  exact ⟨r, hlog hr, hrest⟩

/-- The two tasks, the time, the time of our last announcement and the beacons that were
taken. -/
structure Timed (C : Crypto) where
  lan : LanSystem C
  now : ℕ
  announced : ℕ
  log : List Hearing

namespace Timed

section

variable (hmac : Hmac) (lanKey : Bytes 32) (cfg : Config C)

/-- One event. -/
def step (τ : Timed C) (x : LanInput) : Timed C where
  lan := τ.lan.step hmac lanKey cfg x
  now := x.unix
  announced := match x.event with
    | .announce => x.unix
    | _ => τ.announced
  log := (τ.lan.taken hmac lanKey cfg x).toList.map
    (fun b => ⟨b.nodePublicKey.toBase64, x.unix, b.endpoints⟩) ++ τ.log

/-- The start: `serve` announces at once. -/
def boot (u : System.Startup) (unix : ℕ) : Timed C := ⟨LanSystem.boot cfg u, unix, unix, []⟩

/-- The clock does not run back, and an announcement is made every `ANNOUNCE_INTERVAL`. -/
def OnTime (τ : Timed C) (x : LanInput) : Prop :=
  τ.now ≤ x.unix ∧ x.unix ≤ τ.announced + announceInterval

instance (τ : Timed C) (x : LanInput) : Decidable (OnTime τ x) :=
  inferInstanceAs (Decidable (_ ∧ _))

/-- The event prunes the table: an announcement, or a beacon of an unknown node when the
table is full. -/
def prunes (τ : Timed C) (x : LanInput) : Bool :=
  match x.event with
  | .announce => true
  | .datagram buf =>
      (Lan.opened hmac (lanConfig lanKey cfg) buf x.unix).any fun b =>
        τ.lan.table.prunes b.nodePublicKey.toBase64
  | _ => false

/-- Nobody falls silent: when the table is pruned, the entry of every node of which the
daemon has endpoints from the LAN is recent enough. -/
def Refreshed (τ : Timed C) (x : LanInput) : Prop :=
  prunes hmac lanKey cfg τ x = true → ∀ key ∈ τ.lan.system.daemon.keys,
    τ.lan.told key ≠ some [] → ∃ e ∈ τ.lan.table.entry key, LanTable.kept x.unix e = true

/-- The main loop keeps up: no update is in flight when an announcement is made. -/
def Drained (τ : Timed C) (x : LanInput) : Prop :=
  match x.event with
  | .announce => τ.lan.channel = []
  | _ => True

end

/-- **What the daemon has from the LAN is not too old**: every endpoint was in a beacon
of its node that was taken at most `ENTRY_TTL` and an announcement interval ago, the LAN
table has an entry of the node, and the endpoint is in it unless an update is in
flight. -/
def InTime (τ : Timed C) : Prop :=
  ∀ p ∈ τ.lan.system.daemon.peers, ∀ x ∈ p.discovered, x.1 = .lan →
    HeardWithin τ.log p.keyB64 x.2 τ.now (entryTtl + announceInterval) ∧
      ∃ e ∈ τ.lan.table.entry p.keyB64,
        (∀ u ∈ τ.lan.channel, u.peerKey ≠ p.keyB64) → x.2 ∈ e.endpoints

instance (hmac : Hmac) (lanKey : Bytes 32) (cfg : Config C) (τ : Timed C) (x : LanInput) :
    Decidable (Refreshed hmac lanKey cfg τ x) :=
  inferInstanceAs (Decidable (_ → _))

instance (τ : Timed C) : (x : LanInput) → Decidable (Drained τ x)
  | ⟨_, .announce⟩ => inferInstanceAs (Decidable (τ.lan.channel = []))
  | ⟨_, .datagram _⟩ => .isTrue trivial
  | ⟨_, .deliver _⟩ => .isTrue trivial
  | ⟨_, .engine _ _⟩ => .isTrue trivial

instance (τ : Timed C) : Decidable τ.InTime :=
  inferInstanceAs (Decidable (∀ _ ∈ _, _))

/-! ### The invariant -/

/-- Of a node that will be told something the table has an entry, and one since our last
announcement if an update is in flight; the entries are logged, and what is carried was
heard within `ENTRY_TTL` of our last announcement. -/
structure Young (τ : Timed C) : Prop where
  agree : Agree τ.lan
  order : τ.announced ≤ τ.now
  onTime : τ.now ≤ τ.announced + announceInterval
  held : ∀ key eps, τ.lan.left key = some eps → eps ≠ [] → ∃ e, τ.lan.table.entry key = some e
  flight : ∀ u ∈ τ.lan.channel, ∃ e, τ.lan.table.entry u.peerKey = some e ∧
    τ.announced ≤ e.lastSeenUnix
  logged : ∀ key e, τ.lan.table.entry key = some e →
    ⟨key, e.lastSeenUnix, e.endpoints⟩ ∈ τ.log
  carried : ∀ key e, τ.lan.Carries key e → HeardWithin τ.log key e τ.announced entryTtl

variable {hmac : Hmac} {lanKey : Bytes 32} {cfg : Config C} {τ : Timed C} {x : LanInput}

theorem mem_log_of_taken {b : Beacon C} (h : τ.lan.taken hmac lanKey cfg x = some b) :
    ⟨b.nodePublicKey.toBase64, x.unix, b.endpoints⟩ ∈ (τ.step hmac lanKey cfg x).log :=
  List.mem_append_left _ (List.mem_map.2 ⟨b, Option.mem_toList.2 h, rfl⟩)

theorem log_subset (τ : Timed C) (x : LanInput) : τ.log ⊆ (τ.step hmac lanKey cfg x).log :=
  List.subset_append_right _ _

theorem announced_step (τ : Timed C) (x : LanInput) :
    (∃ unix, x = ⟨unix, .announce⟩) ∨ (τ.step hmac lanKey cfg x).announced = τ.announced := by
  obtain ⟨unix, event⟩ := x
  cases event with
  | announce => exact Or.inl ⟨unix, rfl⟩
  | datagram buf => exact Or.inr rfl
  | deliver clock => exact Or.inr rfl
  | engine i hi => exact Or.inr rfl

/-- An entry that was there at a prune and is there after it was recent enough. -/
theorem kept_of_prunes (hprunes : prunes hmac lanKey cfg τ x = true) {key : String}
    {e e' : LanEntry} (h : τ.lan.table.entry key = some e)
    (h' : (τ.step hmac lanKey cfg x).lan.table.entry key = some e') :
    LanTable.kept x.unix e = true := by
  obtain ⟨unix, event⟩ := x
  have hfilter : (τ.lan.table.prune unix).entry key = some e' → LanTable.kept unix e = true := by
    intro hpruned
    rw [LanTable.entry_prune, h, Option.filter_eq_some_iff] at hpruned
    obtain ⟨heq, hkept⟩ := hpruned
    rwa [← Option.some.inj heq] at hkept
  cases event with
  | announce => exact hfilter h'
  | datagram buf =>
      rcases datagram_cases hmac lanKey cfg τ.lan unix buf with
        ⟨-, hnone⟩ | ⟨b, hopen, -, hentry, -⟩
      · simp [prunes, hnone] at hprunes
      · have hfull : τ.lan.table.prunes b.nodePublicKey.toBase64 = true := by
          simpa [prunes, hopen] using hprunes
        rw [Timed.step, hentry, LanTable.room, if_pos hfull] at h'
        split_ifs at h' with htake
        · -- The beacon is of an unknown node, and this one is known.
          rw [LanTable.prunes, ← htake.2, h] at hfull
          cases hfull
        · exact hfilter h'
  | deliver clock => cases hprunes
  | engine i hi => cases hprunes

theorem system_of_prunes (hprunes : prunes hmac lanKey cfg τ x = true) :
    (τ.step hmac lanKey cfg x).lan.system = τ.lan.system := by
  obtain ⟨unix, event⟩ := x
  cases event with
  | announce => rfl
  | datagram buf => rfl
  | deliver clock => cases hprunes
  | engine i hi => cases hprunes

/-- The entry of a node stays or becomes new, if the event does not prune it. -/
theorem entry_stays {key : String} {e : LanEntry} (h : τ.lan.table.entry key = some e)
    (hkept : prunes hmac lanKey cfg τ x = true → LanTable.kept x.unix e = true) :
    ∃ e', (τ.step hmac lanKey cfg x).lan.table.entry key = some e' ∧
      (e' = e ∨ e'.lastSeenUnix = x.unix) := by
  obtain ⟨unix, event⟩ := x
  cases event with
  | datagram buf =>
      rcases datagram_cases hmac lanKey cfg τ.lan unix buf with
        ⟨hsame, -⟩ | ⟨b, hopen, -, hentry, -⟩
      · exact ⟨e, by rw [Timed.step, hsame]; exact h, Or.inl rfl⟩
      · rw [Timed.step, hentry]
        split_ifs
        · exact ⟨_, rfl, Or.inr rfl⟩
        · refine ⟨e, ?_, Or.inl rfl⟩
          rw [LanTable.room]
          split_ifs with hprunes
          · have hk : LanTable.kept unix e = true := hkept (by simpa [prunes, hopen] using hprunes)
            rw [LanTable.entry_prune, h, Option.filter_some, if_pos hk]
          · exact h
  | announce =>
      have hk : LanTable.kept unix e = true := hkept rfl
      refine ⟨e, ?_, Or.inl rfl⟩
      change (τ.lan.table.prune unix).entry key = some e
      rw [LanTable.entry_prune, h, Option.filter_some, if_pos hk]
  | deliver clock =>
      refine ⟨e, ?_, Or.inl rfl⟩
      rcases deliver_cases hmac lanKey cfg τ.lan unix clock with ⟨-, hstep⟩ | ⟨u, rest, -, hstep⟩
      · rw [Timed.step, hstep]
        exact h
      · rw [Timed.step, hstep]
        exact h
  | engine i hi => exact ⟨e, h, Or.inl rfl⟩

/-- An entry since our last announcement is kept until the next. -/
theorem kept_of_announced {e : LanEntry} (hon : OnTime τ x)
    (h : τ.announced ≤ e.lastSeenUnix) : LanTable.kept x.unix e = true := by
  refine decide_eq_true ?_
  have hnext : x.unix ≤ τ.announced + 5 := hon.2
  change x.unix - e.lastSeenUnix ≤ 60
  omega

/-- A node of which something is left to be told keeps its entry. -/
theorem Young.kept (hτ : τ.Young) (hon : OnTime τ x) (href : Refreshed hmac lanKey cfg τ x)
    {key : String} {eps : List SocketAddrV6} (hleft : τ.lan.left key = some eps) (heps : eps ≠ [])
    {e : LanEntry} (he : τ.lan.table.entry key = some e)
    (hprunes : prunes hmac lanKey cfg τ x = true) : LanTable.kept x.unix e = true := by
  rw [left, Option.or_eq_some_iff] at hleft
  rcases hleft with hlast | ⟨-, htold⟩
  · obtain ⟨u, hu, rfl, -⟩ := exists_of_lastSent hlast
    obtain ⟨e', he', hseen⟩ := hτ.flight u hu
    obtain rfl := Option.some.inj (he.symm.trans he')
    exact kept_of_announced hon hseen
  · have hin : key ∈ τ.lan.system.daemon.keys :=
      told_ne_none_iff.1 (by rw [htold]; exact Option.some_ne_none eps)
    obtain ⟨e', he', hkept⟩ := href hprunes key hin
      fun hnil => heps (Option.some.inj (htold.symm.trans hnil))
    obtain rfl := Option.some.inj (he.symm.trans he')
    exact hkept

/-- At an announcement, what the daemon has was heard within `ENTRY_TTL`. -/
theorem Young.carried_announce (hτ : τ.Young) {unix : ℕ} (hon : OnTime τ ⟨unix, .announce⟩)
    (href : Refreshed hmac lanKey cfg τ ⟨unix, .announce⟩) (hdrained : τ.lan.channel = [])
    {key : String} {e : SocketAddrV6} (h : τ.lan.Carries key e) :
    HeardWithin τ.log key e unix entryTtl := by
  rcases h with ⟨eps, htold, he⟩ | ⟨u, hu, -⟩
  · have hleft : τ.lan.left key = some eps := by rw [left, hdrained]; exact htold
    have heps : eps ≠ [] := List.ne_nil_of_mem he
    obtain ⟨entry, hentry⟩ := hτ.held key eps hleft heps
    have hkept : unix - entry.lastSeenUnix ≤ entryTtl :=
      of_decide_eq_true (hτ.kept hon href hleft heps hentry rfl)
    refine ⟨_, hτ.logged key entry hentry, rfl, ?_, ?_⟩
    · exact hτ.agree.last key entry hentry eps hleft heps ▸ he
    · show unix ≤ entry.lastSeenUnix + entryTtl
      omega
  · rw [hdrained] at hu
    cases hu

/-- **An event on time that prunes nobody of whom the daemon was told keeps the
invariant.** -/
theorem Young.step (hτ : τ.Young) (hon : OnTime τ x) (hdrained : Drained τ x)
    (href : Refreshed hmac lanKey cfg τ x) : (τ.step hmac lanKey cfg x).Young where
  agree := hτ.agree.step x
  order := by
    rcases announced_step τ x with ⟨unix, rfl⟩ | hsame
    · exact le_rfl
    · rw [hsame]
      exact hτ.order.trans hon.1
  onTime := by
    rcases announced_step τ x with ⟨unix, rfl⟩ | hsame
    · exact Nat.le_add_right unix announceInterval
    · rw [hsame]
      exact hon.2
  held := by
    intro key eps hleft heps
    rcases left_of_step hτ.agree hleft with ⟨b, htaken, rfl, -⟩ | ⟨hbefore, -⟩ | ⟨-, rfl⟩
    · exact ⟨_, (step_taken htaken).2.1⟩
    · obtain ⟨e, he⟩ := hτ.held key eps hbefore heps
      obtain ⟨e', he', -⟩ := entry_stays he (hτ.kept hon href hbefore heps he)
      exact ⟨e', he'⟩
    · exact absurd rfl heps
  flight := by
    intro u hu
    have hnow : τ.announced ≤ x.unix := hτ.order.trans hon.1
    rcases announced_step τ x with ⟨unix, rfl⟩ | hsame
    · have hnil : τ.lan.channel = [] := hdrained
      rw [show (τ.step hmac lanKey cfg ⟨unix, .announce⟩).lan.channel = τ.lan.channel from rfl,
        hnil] at hu
      cases hu
    · rw [hsame]
      rcases mem_channel_of_step hu with ⟨b, htaken, rfl⟩ | hu
      · exact ⟨_, (step_taken htaken).2.1, hnow⟩
      · obtain ⟨e, he, hseen⟩ := hτ.flight u hu
        obtain ⟨e', he', rfl | hnew⟩ := entry_stays he fun _ => kept_of_announced hon hseen
        · exact ⟨e', he', hseen⟩
        · exact ⟨e', he', hnew ▸ hnow⟩
  logged := by
    intro key e he
    rcases entry_of_step he with ⟨b, htaken, rfl, rfl⟩ | ⟨he, -⟩
    · exact mem_log_of_taken htaken
    · exact log_subset τ x (hτ.logged key e he)
  carried := by
    intro key e hcarries
    rcases carries_of_step hτ.agree hcarries with ⟨b, htaken, rfl, he⟩ | hbefore
    · refine ⟨_, mem_log_of_taken htaken, rfl, he, ?_⟩
      obtain ⟨unix, event⟩ := x
      obtain ⟨buf, rfl, -⟩ := exists_of_taken htaken
      exact (hτ.order.trans hon.1).trans (Nat.le_add_right _ _)
    · rcases announced_step τ x with ⟨unix, rfl⟩ | hsame
      · exact (hτ.carried_announce hon href hdrained hbefore).mono (log_subset τ _)
      · rw [hsame]
        exact (hτ.carried key e hbefore).mono (log_subset τ x)

theorem Young.boot (cfg : Config C) {u : System.Startup} (hw : MembersFile.Written C u.members)
    (unix : ℕ) : (boot cfg u unix).Young where
  agree := .boot cfg hw
  order := le_rfl
  onTime := Nat.le_add_right unix announceInterval
  held := by
    intro key eps hleft heps
    exact absurd (told_boot cfg u hleft) heps
  flight := fun _ hu => by cases hu
  logged := fun _ _ he => by cases he
  carried := by
    rintro key e (⟨eps, htold, he⟩ | ⟨u, hu, -⟩)
    · rw [told_boot cfg u htold] at he
      cases he
    · cases hu

/-- The invariant bounds the age. -/
theorem Young.inTime (hτ : τ.Young) : τ.InTime := by
  intro p hp y hy hsource
  have hmem : y.2 ∈ endpointsFrom .lan p.discovered :=
    List.mem_map_of_mem (List.mem_filter.2 ⟨hy, by simpa using hsource⟩)
  have htold : τ.lan.told p.keyB64 = some (endpointsFrom .lan p.discovered) := by
    rw [told, Daemon.told, Daemon.peer_of_mem hτ.agree.sound.keys_nodup hp]
    rfl
  obtain ⟨h, hh, hkey, he, hage⟩ := hτ.carried p.keyB64 y.2 (Or.inl ⟨_, htold, hmem⟩)
  refine ⟨⟨h, hh, hkey, he, ?_⟩, ?_⟩
  · have hlate := hτ.onTime
    omega
  · cases hlast : lastUpdate p.keyB64 τ.lan.channel with
    | none =>
        have hleft : τ.lan.left p.keyB64 = some (endpointsFrom .lan p.discovered) := by
          rw [left, hlast]
          exact htold
        have heps := List.ne_nil_of_mem hmem
        obtain ⟨entry, hentry⟩ := hτ.held _ _ hleft heps
        exact ⟨entry, hentry, fun _ => hτ.agree.last _ entry hentry _ hleft heps ▸ hmem⟩
    | some eps =>
        obtain ⟨u, hu, hukey, -⟩ := exists_of_lastSent hlast
        obtain ⟨entry, hentry, -⟩ := hτ.flight u hu
        exact ⟨entry, hukey ▸ hentry, fun h => absurd hukey (h u hu)⟩

/-- **A prune that drops a node of which the daemon was told** leaves the daemon with what
the table does not have. -/
theorem Young.not_inTime (hτ : τ.Young) (h : ¬Refreshed hmac lanKey cfg τ x) :
    ¬(τ.step hmac lanKey cfg x).InTime := by
  unfold Refreshed at h
  push Not at h
  obtain ⟨hprunes, key, hin, htold, hdropped⟩ := h
  obtain ⟨eps, heps⟩ := Option.ne_none_iff_exists'.1 (told_ne_none_iff.2 hin)
  obtain ⟨p, hp, rfl⟩ := Option.map_eq_some_iff.1 heps
  obtain rfl : p.keyB64 = key := by simpa using List.find?_some hp
  -- The daemon has an endpoint of the node.
  obtain ⟨e, he⟩ := List.exists_mem_of_ne_nil _ fun hnil => htold (heps.trans (congrArg some hnil))
  obtain ⟨y, hy, rfl⟩ := List.mem_map.1 he
  obtain ⟨hy, hsource⟩ := List.mem_filter.1 hy
  have hmem := List.mem_of_find?_eq_some hp
  obtain ⟨-, entry, hentry, -⟩ := hτ.inTime p hmem y hy (of_decide_eq_true hsource)
  intro hgood
  obtain ⟨-, entry', hentry', -⟩ := hgood p (by rw [system_of_prunes hprunes]; exact hmem) y hy
    (of_decide_eq_true hsource)
  exact hdropped entry hentry (kept_of_prunes hprunes hentry hentry')

/-- **When what the LAN told does not outlive its entry.**  In a run in which an
announcement is made every `ANNOUNCE_INTERVAL` and no update is in flight then, every
endpoint that the daemon has from the LAN was heard at most `ENTRY_TTL` and an
announcement interval ago and is in the LAN table, in every state, exactly when no prune
drops the entry of a node of which the daemon has endpoints from the LAN. -/
theorem lan_records_in_time_iff (hmac : Hmac) (lanKey : Bytes 32) (cfg : Config C)
    (u : System.Startup) (hw : MembersFile.Written C u.members) (unix : ℕ) (xs : List LanInput)
    (hon : Along (step hmac lanKey cfg) OnTime (boot cfg u unix) xs)
    (hdrained : Along (step hmac lanKey cfg) Drained (boot cfg u unix) xs) :
    Along (step hmac lanKey cfg) (Refreshed hmac lanKey cfg) (boot cfg u unix) xs ↔
      ∀ ys, ys <+: xs → InTime (run (step hmac lanKey cfg) (boot cfg u unix) ys) :=
  Along.iff_forall_prefix_of (P := Young) (fun _ _ hτ hside href => hτ.step hside.1 hside.2 href)
    (fun _ hτ => hτ.inTime) (fun _ _ hτ _ hno => hτ.not_inTime hno) (.boot cfg hw unix)
    (hon.and hdrained)

end Timed

/-! ### Node 1 falls silent -/

/-- Node 1 is heard, and we announce ourselves. -/
def heardOnce : List LanInput :=
  [⟨100, plainAnnounce 1 7 100⟩, ⟨100, .deliver fun _ => 0⟩, ⟨105, .announce⟩]

/-- As long as it is heard, what the daemon has of it is in time. -/
theorem lan_records_in_time_refreshed :
    let τ := run (Timed.step plainHmac plainLanKey plainConfig)
      (Timed.boot plainConfig plainStartup 100) (heardOnce ++ [⟨107, plainAnnounce 1 8 107⟩])
    τ.lan.told (plainKey 1 0).toBase64 = some [⟨plainAddr, 7, 0, 0⟩] ∧ τ.InTime := by
  refine ⟨by decide +kernel, ?_⟩
  exact (Timed.lan_records_in_time_iff plainHmac plainLanKey plainConfig plainStartup .new 100 _
    (by decide +kernel) (by decide +kernel)).1 (by decide +kernel) _ List.prefix_rfl

/-- **Node 1 is not heard any more**, and we announce ourselves every 5 s: after 70 s the
table has no entry of it, and the daemon counts its address as reported. -/
theorem silent_node_still_reported :
    let xs := heardOnce ++ (List.range 13).map fun n => ⟨110 + 5 * n, .announce⟩
    let τ := run (Timed.step plainHmac plainLanKey plainConfig)
      (Timed.boot plainConfig plainStartup 100) xs
    Along (Timed.step plainHmac plainLanKey plainConfig) Timed.OnTime
      (Timed.boot plainConfig plainStartup 100) xs ∧
    ¬τ.InTime ∧
    ∃ p ∈ τ.lan.system.daemon.peer (plainKey 1 0).toBase64,
      PeerRuntime.stillReported p.discovered ⟨plainAddr, 7, 0, 0⟩ = true ∧
      τ.lan.table.entry p.keyB64 = none ∧
      ¬HeardWithin τ.log p.keyB64 ⟨plainAddr, 7, 0, 0⟩ τ.now (entryTtl + announceInterval) := by
  decide +kernel

end LanSystem

end Hextet
