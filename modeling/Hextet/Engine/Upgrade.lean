/-
# Upgrade attempts are bounded

`crates/engine/src/daemon.rs`: a peer on the relay is moved to a direct path by a
`Rehandshake`, which flushes the working session, so every attempt costs a gap.  An
attempt is made by `on_discovered`, and again by `drive_relay` for each time the
peer falls back to the relay, at most `UPGRADE_MAX_RETRIES` times.

What is left of the retries is a potential: no call but `on_discovered` raises it,
and each `Rehandshake` of another call takes one from it (`rehandshakes_next_le`).
A stretch of calls from one `on_discovered` to the next therefore asks for at most
one more than the potential can be (`upgrades_bounded`).
-/

import Hextet.Engine.Link

namespace Hextet

open Lib

variable {C : Crypto}

/-- The call is `on_discovered`. -/
def PeerEvent.isDiscover : PeerEvent → Bool
  | .discover .. => true
  | _ => false

/-- The retries left while an upgrade is open. -/
def RelayLink.retriesLeft (link : RelayLink C) : ℕ :=
  if link.upgradePending then upgradeMaxRetries - link.upgradeRetries else 0

namespace PeerRuntime

/-- The retries left for a peer. -/
def retriesLeft (p : PeerRuntime C) : ℕ := (p.relay.map RelayLink.retriesLeft).getD 0

theorem retriesLeft_le (p : PeerRuntime C) : p.retriesLeft ≤ upgradeMaxRetries := by
  cases hlink : p.relay with
  | none => simp [retriesLeft, hlink]
  | some link =>
      simp only [retriesLeft, hlink, Option.map_some, Option.getD_some, RelayLink.retriesLeft]
      split_ifs
      · exact Nat.sub_le ..
      · exact Nat.zero_le _

/-- **A call other than `on_discovered` pays for its `Rehandshake`s** with retries. -/
theorem rehandshakes_next_le (p : PeerRuntime C) {e : PeerEvent} (he : e.isDiscover = false) :
    rehandshakes (p.asks e) + (p.next e).retriesLeft ≤ p.retriesLeft := by
  cases hlink : p.relay with
  | none =>
      obtain ⟨hrelay, -, hre⟩ := next_of_relay_eq_none hlink e
      simp [retriesLeft, hrelay, hre]
  | some link =>
      obtain ⟨link', hlink', hmove⟩ := linkMove_next hlink e
      simp only [retriesLeft, hlink, hlink', Option.map_some, Option.getD_some]
      generalize registrations (p.asks e) = m, rehandshakes (p.asks e) = n at hmove
      cases hmove with
      | keep => exact (Nat.zero_add _).le
      | upgrade => cases he
      | failed => exact (Nat.zero_add _).le
      | answered => exact (Nat.zero_add _).le
      | register => exact (Nat.zero_add _).le
      | release => exact Nat.zero_le _
      | retry renew hup hretries _ hn =>
          simp only [RelayLink.retriesLeft, hup, if_true]
          omega
      | giveUp => exact Nat.zero_le _

/-- `on_discovered` asks for one `Rehandshake` at most. -/
theorem rehandshakes_discover_le (p : PeerRuntime C) {e : PeerEvent} (he : e.isDiscover = true) :
    rehandshakes (p.asks e) ≤ 1 := by
  cases hlink : p.relay with
  | none =>
      obtain ⟨-, -, hre⟩ := next_of_relay_eq_none hlink e
      exact hre.le.trans (Nat.zero_le _)
  | some link =>
      obtain ⟨link', -, hmove⟩ := linkMove_next hlink e
      generalize registrations (p.asks e) = m, rehandshakes (p.asks e) = n at hmove ⊢
      cases hmove with
      | keep => exact Nat.zero_le _
      | upgrade _ hn => exact hn
      | failed => cases he
      | answered => cases he
      | register => cases he
      | release => cases he
      | retry => cases he
      | giveUp => cases he

/-- Calls other than `on_discovered` ask for no more `Rehandshake`s than retries are
left. -/
theorem tally_rehandshakes_le (p : PeerRuntime C) {es : List PeerEvent}
    (hes : ∀ e ∈ es, e.isDiscover = false) :
    p.tally rehandshakes es ≤ p.retriesLeft := by
  induction es generalizing p with
  | nil => exact Nat.zero_le _
  | cons e es ih =>
      rw [List.forall_mem_cons] at hes
      have hone := p.rehandshakes_next_le hes.1
      have hrest := ih (p.next e) hes.2
      rw [tally]
      omega

/-- **A stretch of calls of which at most the first is `on_discovered`** asks for at most
`UPGRADE_MAX_RETRIES + 1` `Rehandshake`s, from whatever state. -/
theorem tally_rehandshakes_stretch_le (p : PeerRuntime C) {es : List PeerEvent}
    (hes : ∀ e ∈ es.tail, e.isDiscover = false) :
    p.tally rehandshakes es ≤ upgradeMaxRetries + 1 := by
  cases es with
  | nil => exact Nat.zero_le _
  | cons e es =>
      rw [List.tail_cons] at hes
      have hrest := (p.next e).tally_rehandshakes_le hes
      rw [tally]
      cases he : e.isDiscover with
      | true =>
          have hone := p.rehandshakes_discover_le he
          have hleft := (p.next e).retriesLeft_le
          omega
      | false =>
          have hone := p.rehandshakes_next_le he
          have hleft := p.retriesLeft_le
          omega

end PeerRuntime

/-- **Upgrade attempts are bounded.**  In every run, for every peer and every stretch of the
calls made for it in which only the first may be `on_discovered`, at most
`UPGRADE_MAX_RETRIES + 1` `Rehandshake`s are asked for. -/
theorem upgrades_bounded (cfg : Config C) (u : System.Startup) (is : List Input) :
    let x := chronicledAfter cfg u is
    x.1 = System.after cfg (System.boot cfg u) is ∧ x.1.daemon.peers = x.2.map Chronicle.peer ∧
      ∀ c ∈ x.2, ∀ before stretch rest, c.events = before ++ stretch ++ rest →
        (∀ e ∈ stretch.tail, e.isDiscover = false) →
          (c.first.after before).tally rehandshakes stretch ≤ upgradeMaxRetries + 1 := by
  obtain ⟨hsystem, htable⟩ := chronicled cfg u is
  exact ⟨hsystem, htable, fun c _ before _ _ _ hstretch =>
    (c.first.after before).tally_rehandshakes_stretch_le hstretch⟩

end Hextet
