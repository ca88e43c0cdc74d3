/-
# Registrations in flight

`crates/engine/src/daemon.rs`: a registration runs in a task of its own and its
result comes back through a channel, after any number of other events.  `pending`
is all that the link knows of it, and `retry_after` all that it knows of a failure.

Beside a run the chronicle of a peer counts the registrations that were started and
the results that came back.  As long as a result comes only for a registration that
is in flight (`Answers`), the two differ by one while `pending` is set and agree
otherwise, and a failure is followed by the cooldown unless a direct connection was
seen (`registrations_exclusive`).
-/

import Hextet.Engine.Link

namespace Hextet

open Lib

variable {C : Crypto}

namespace Chronicle

/-- The registrations started for the peer. -/
def started (c : Chronicle C) : ℕ := c.first.tally registrations c.events

/-- The results that came back for the peer. -/
def returned (c : Chronicle C) : ℕ := c.events.countP PeerEvent.isRelay

theorem started_add (c : Chronicle C) (e : PeerEvent) :
    (c.add e).started = c.started + registrations (c.peer.asks e) := by
  rw [started, add, PeerRuntime.tally_append]
  rfl

theorem returned_add (c : Chronicle C) (e : PeerEvent) :
    (c.add e).returned = c.returned + e.isRelay.toNat := by
  rw [returned, add, List.countP_append, List.countP_singleton]
  cases e.isRelay <;> rfl

end Chronicle

/-- A result for a peer with a link comes only while a registration is in flight for
it. -/
def Answers (x : System C × List (Chronicle C)) : Input → Prop
  | .relay done _ _ => ∀ c ∈ x.2, c.peer.keyB64 = done.peerKey → c.peer.relay.isSome = true →
      c.returned < c.started
  | _ => True

instance (x : System C × List (Chronicle C)) : (i : Input) → Decidable (Answers x i)
  | .datagram _ => .isTrue trivial
  | .gossip _ _ => .isTrue trivial
  | .discovered _ _ => .isTrue trivial
  | .relay _ _ _ => inferInstanceAs (Decidable (∀ c ∈ _, _ → _ → _))
  | .tick _ _ _ => .isTrue trivial
  | .kick _ _ => .isTrue trivial

/-! ### At most one -/

/-- The result of a registration comes to a link that waits for it. -/
def PeerRuntime.Awaits (p : PeerRuntime C) (e : PeerEvent) : Prop :=
  e.isRelay = true → ∀ link, p.relay = some link → link.pending = true

/-- What is in flight for a peer is what its link waits for, and was so for every result
that came. -/
structure Chronicle.Exclusive (c : Chronicle C) : Prop where
  pending : ∀ link, c.peer.relay = some link → c.started = c.returned + link.pending.toNat
  awaited : Along PeerRuntime.next PeerRuntime.Awaits c.first c.events

namespace Chronicle.Exclusive

variable {c : Chronicle C} {e : PeerEvent}

/-- **A call keeps a link and its registrations in step**, if a result is awaited. -/
theorem add (h : c.Exclusive) (he : c.peer.Awaits e) : (c.add e).Exclusive := by
  refine ⟨fun link' hlink' => ?_, Along.append.2 ⟨h.awaited, he, trivial⟩⟩
  rw [Chronicle.peer_add] at hlink'
  obtain ⟨link, m, n, hlink, hm, -, hmove⟩ := PeerRuntime.linkMove_of_next hlink'
  rw [Chronicle.started_add, Chronicle.returned_add, h.pending link hlink, hm]
  have hawaits := fun hrelay => he hrelay link hlink
  cases hmove with
  | keep hrelay => rw [hrelay]; rfl
  | upgrade => rfl
  | failed => rw [hawaits rfl]; rfl
  | answered => rw [hawaits rfl]; rfl
  | register hpending => rw [hpending]; rfl
  | release => rfl
  | retry renew _ _ hrenew =>
      cases renew with
      | false => rw [Bool.or_false]; rfl
      | true => rw [(hrenew rfl).1]; rfl
  | giveUp renew hrenew =>
      cases renew with
      | false => rw [Bool.or_false]; rfl
      | true => rw [(hrenew rfl).1]; rfl

/-- A call that brings no result needs no waiting link. -/
theorem add_of_not_relay (h : c.Exclusive) (he : e.isRelay = false) : (c.add e).Exclusive :=
  h.add fun hrelay => absurd (he.symm.trans hrelay) Bool.false_ne_true

end Chronicle.Exclusive

theorem chronicleRule_exclusive : ChronicleRule Answers (Chronicle.Exclusive (C := C)) where
  enter h := by
    refine ⟨fun link hlink => ?_, trivial⟩
    rw [(h.link link hlink).pending]
    rfl
  kick h _ _ _ := h.add_of_not_relay rfl
  discover h _ _ _ _ := h.add_of_not_relay rfl
  relay {c} x done now clock h hside hc hkey cache := by
    refine h.add fun _ link hlink => ?_
    have hlt := hside c hc hkey (by rw [hlink]; rfl)
    rw [h.pending link hlink] at hlt
    cases hpending : link.pending with
    | true => rfl
    | false =>
        rw [hpending] at hlt
        exact absurd hlt (lt_irrefl _)
  tick h _ _ _ _ _ := h.add_of_not_relay rfl

/-! ### The cooldown -/

/-- The reading of the monotonic clock that a call makes. -/
def PeerEvent.instant? : PeerEvent → Option Instant
  | .relay _ _ now _ => some now
  | .tick _ _ _ _ t => some t.instant
  | _ => none

namespace PeerRuntime

/-- The link waits for nothing and cools until an instant. -/
def CoolsUntil (p : PeerRuntime C) (deadline : Instant) : Prop :=
  ∀ link, p.relay = some link → link.pending = false ∧ link.retryAfter = some deadline

variable {p : PeerRuntime C} {deadline : Instant} {e : PeerEvent}

theorem cooling_of_lt {link : RelayLink C} (h : link.retryAfter = some deadline) {now : Instant}
    (hnow : now < deadline) : link.cooling now = true := by
  simpa [RelayLink.cooling, h] using hnow

/-- A failure starts the cooldown. -/
theorem coolsUntil_failed (p : PeerRuntime C) (cache : EndpointCache) (now : Instant)
    (clock : Clock) :
    (p.next (.relay cache none now clock)).CoolsUntil (now + relayRetryCooldown) := by
  intro link' hlink'
  obtain ⟨link, m, n, -, -, -, hmove⟩ := linkMove_of_next hlink'
  cases hmove with
  | keep hrelay => cases hrelay
  | failed => exact ⟨rfl, rfl⟩

/-- **A call before the deadline starts no registration.** -/
theorem CoolsUntil.registrations_eq_zero (h : p.CoolsUntil deadline)
    (htime : ∀ now ∈ e.instant?, now < deadline) : registrations (p.asks e) = 0 := by
  cases hlink : p.relay with
  | none => exact (next_of_relay_eq_none hlink e).2.1
  | some link =>
      have hcooling : ∀ now ∈ e.instant?, link.cooling now = true :=
        fun now hnow => cooling_of_lt (h link hlink).2 (htime now hnow)
      obtain ⟨l, -, hmove⟩ := linkMove_next hlink e
      generalize registrations (p.asks e) = m, rehandshakes (p.asks e) = n at hmove ⊢
      cases hmove with
      | keep => rfl
      | upgrade => rfl
      | failed => rfl
      | answered => rfl
      | register _ hnot => cases hnot.symm.trans (hcooling _ rfl)
      | release => rfl
      | retry renew _ _ hrenew =>
          cases renew with
          | false => rfl
          | true => cases (hrenew rfl).2.symm.trans (hcooling _ rfl)
      | giveUp renew hrenew =>
          cases renew with
          | false => rfl
          | true => cases (hrenew rfl).2.symm.trans (hcooling _ rfl)

/-- **A call before the deadline keeps the cooldown**, if it brings no result that was
not awaited and sees no direct connection. -/
theorem CoolsUntil.next (h : p.CoolsUntil deadline) (he : p.Awaits e) (hdirect : ¬p.SeesDirect e)
    (htime : ∀ now ∈ e.instant?, now < deadline) : (p.next e).CoolsUntil deadline := by
  intro link' hlink'
  obtain ⟨link, m, n, hlink, hm, -, hmove⟩ := linkMove_of_next hlink'
  obtain ⟨hpending, hretry⟩ := h link hlink
  have hawaits := fun hrelay => (he hrelay link hlink).symm.trans hpending
  have hnone := hm.symm.trans (h.registrations_eq_zero htime)
  cases hmove with
  | keep => exact ⟨hpending, hretry⟩
  | upgrade => exact ⟨hpending, hretry⟩
  | failed => cases hawaits rfl
  | answered => cases hawaits rfl
  | register => cases hnone
  | release hsees => exact absurd hsees hdirect
  | retry renew =>
      cases renew with
      | false => exact ⟨by simpa using hpending, hretry⟩
      | true => cases hnone
  | giveUp renew =>
      cases renew with
      | false => exact ⟨by simpa using hpending, hretry⟩
      | true => cases hnone

/-- Calls before the deadline keep the cooldown. -/
theorem CoolsUntil.after (h : p.CoolsUntil deadline) {es : List PeerEvent}
    (hes : Along PeerRuntime.next Awaits p es)
    (hdirect : Along PeerRuntime.next (fun q e => ¬SeesDirect q e) p es)
    (htime : ∀ e ∈ es, ∀ now ∈ e.instant?, now < deadline) : (p.after es).CoolsUntil deadline := by
  induction es generalizing p with
  | nil => exact h
  | cons e es ih =>
      rw [List.forall_mem_cons] at htime
      exact ih (h.next hes.1 hdirect.1 htime.1) hes.2 hdirect.2 htime.2

end PeerRuntime

/-- Instants in order: an earlier call reads no later instant. -/
theorem instant_le_of_pairwise {a b : List PeerEvent} {e : PeerEvent} {now : Instant}
    (h : ((a ++ e :: b).filterMap PeerEvent.instant?).Pairwise (· ≤ ·))
    (hnow : e.instant? = some now) : ∀ e' ∈ a, ∀ t ∈ e'.instant?, t ≤ now := by
  intro e' he' t ht
  rw [List.filterMap_append, List.pairwise_append] at h
  refine h.2.2 t (List.mem_filterMap.2 ⟨e', he', ht⟩) now ?_
  exact List.mem_filterMap.2 ⟨e, List.mem_cons_self, hnow⟩

/-- **No registration in the cooldown**: from a failure to a registration, without a direct
connection in between, at least `RELAY_RETRY_COOLDOWN` passes. -/
theorem Chronicle.Exclusive.cooldown {c : Chronicle C} (h : c.Exclusive)
    {before between rest : List PeerEvent} {cache cache' : EndpointCache} {failedAt : Instant}
    {clock : Clock} {mgr : RouteManager} {obs : Observation} {now : SystemTime} {t : PeerTick}
    (hevents : c.events = before ++ .relay cache none failedAt clock :: between ++
      .tick cache' mgr obs now t :: rest)
    (htime : (c.events.filterMap PeerEvent.instant?).Pairwise (· ≤ ·))
    (hregister : 0 < registrations
      ((c.first.after (before ++ .relay cache none failedAt clock :: between)).asks
        (.tick cache' mgr obs now t)))
    (hdirect : Along PeerRuntime.next (fun p e => ¬p.SeesDirect e)
      (c.first.after (before ++ [.relay cache none failedAt clock])) between) :
    failedAt + relayRetryCooldown ≤ t.instant := by
  by_contra hlt
  rw [hevents] at htime
  have hbefore : ∀ e ∈ between, ∀ s ∈ e.instant?, s < failedAt + relayRetryCooldown := by
    intro e he s hs
    refine lt_of_le_of_lt (instant_le_of_pairwise htime rfl e ?_ s hs) (not_le.1 hlt)
    exact List.mem_append_right _ (List.mem_cons_of_mem _ he)
  have hawaited := h.awaited
  rw [hevents, Along.append, Along.append] at hawaited
  obtain ⟨⟨-, -, hbetween⟩, htick, -⟩ := hawaited
  have hafter : c.first.after (before ++ .relay cache none failedAt clock :: between) =
      ((c.first.after before).next (.relay cache none failedAt clock)).after between := by
    rw [PeerRuntime.after, run_append]
    rfl
  have hfailed : c.first.after (before ++ [.relay cache none failedAt clock]) =
      (c.first.after before).next (.relay cache none failedAt clock) := by
    rw [PeerRuntime.after, run_append]
    rfl
  rw [hfailed] at hdirect
  have hcools := ((c.first.after before).coolsUntil_failed cache failedAt clock).after hbetween
    hdirect hbefore
  rw [hafter, hcools.registrations_eq_zero fun s hs => ?_] at hregister
  · exact absurd hregister (lt_irrefl 0)
  · obtain rfl := Option.some.inj hs
    exact not_le.1 hlt

/-- **Registrations are exclusive and respect the cooldown.**  In every run in which a
result comes only while a registration of the peer is in flight, for every link in the
table: as many registrations are in flight as `pending` says, and between a failure and
the next registration at least `RELAY_RETRY_COOLDOWN` passes on the monotonic clock,
unless `drive_relay` saw the peer connected on an endpoint other than that of its
session in between. -/
theorem registrations_exclusive (cfg : Config C) (u : System.Startup) (is : List Input)
    (his : Along (chronicledStep cfg) Answers (chronicledBoot cfg u) is) :
    let x := chronicledAfter cfg u is
    x.1 = System.after cfg (System.boot cfg u) is ∧ x.1.daemon.peers = x.2.map Chronicle.peer ∧
      ∀ c ∈ x.2,
        (∀ link ∈ c.peer.relay, c.started = c.returned + if link.pending then 1 else 0) ∧
        ∀ before cache failedAt clock between cache' mgr obs now t rest,
          c.events = before ++ .relay cache none failedAt clock :: between ++
            .tick cache' mgr obs now t :: rest →
          (c.events.filterMap PeerEvent.instant?).Pairwise (· ≤ ·) →
          0 < registrations
            ((c.first.after (before ++ .relay cache none failedAt clock :: between)).asks
              (.tick cache' mgr obs now t)) →
          Along PeerRuntime.next (fun p e => ¬p.SeesDirect e)
            (c.first.after (before ++ [.relay cache none failedAt clock])) between →
          failedAt + relayRetryCooldown ≤ t.instant := by
  obtain ⟨hsystem, htable⟩ := chronicled cfg u is
  refine ⟨hsystem, htable, fun c hc => ?_⟩
  have hexclusive := chronicleRule_exclusive.after cfg u his c hc
  refine ⟨fun link hlink => ?_, ?_⟩
  · rw [hexclusive.pending link hlink]
    cases link.pending <;> rfl
  · intro before cache failedAt clock between cache' mgr obs now t rest hevents htime hregister
      hdirect
    exact hexclusive.cooldown hevents htime hregister hdirect

namespace System

/-- A registration for node 1 has failed. -/
def failedAt (n : ℕ) : Input :=
  .relay ⟨(plainKey 1 0).toBase64, none⟩ (secs n) fun _ => secs n

/-- Node 1 is told about by the DHT and tried for two rounds; its registration fails, and
another one starts a minute later. -/
def throughCooldown : List Input :=
  [heardAt 1 .dht [7], tickAt 4 [], tickAt 7 [], failedAt 8, tickAt 67 [], tickAt 68 []]

end System

/-- Before the failure, during the cooldown and after it. -/
theorem registrations_exclusive_failed :
    let x := chronicledAfter plainRelayConfig plainStartup
    (∀ c ∈ (x System.throughCooldown).2,
        ∀ link ∈ c.peer.relay, c.started = c.returned + if link.pending then 1 else 0) ∧
      (∃ c ∈ (x (System.throughCooldown.take 3)).2, c.started = 1 ∧ c.returned = 0) ∧
      (∃ c ∈ (x (System.throughCooldown.take 5)).2, c.started = 1 ∧ c.returned = 1) ∧
      ∃ c ∈ (x System.throughCooldown).2, c.started = 2 ∧ c.returned = 1 := by
  refine ⟨fun c hc => ?_, by decide +kernel, by decide +kernel, by decide +kernel⟩
  exact ((registrations_exclusive plainRelayConfig plainStartup System.throughCooldown
    (by decide +kernel)).2.2 c hc).1

end Hextet
