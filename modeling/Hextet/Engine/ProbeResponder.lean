/-
# The probe responder

`crates/engine/src/probe_responder.rs`.  The daemon answers authenticated probe requests, at
most one a second from an address.  `RateLimiter` remembers when it last let an address pass.
At 64 addresses it first forgets those that passed a minute or more ago, and if there are
still 64 it forgets all.

Every call is logged with its answer and whether it cleared the table.  The table is sound
and, between two clears, complete for the last minute of the log (`Tracks`).  So an address
passes twice in a second only across a clear, a clear needs 64 addresses that passed within a
minute, and nobody is refused who did not pass in the second before (`rateLimiter_bounds`).
-/

import Hextet.Core.Probe
import Hextet.Engine.Runtime
import Hextet.Lib.KeyMap
import Hextet.Lib.Log

namespace Hextet

open Lib

/-- `MIN_REQUEST_INTERVAL`: 1 s. -/
def minRequestInterval : ℕ := 1000000000

/-- `RATE_TABLE_MAX`. -/
def rateTableMax : ℕ := 64

/-- `RATE_ENTRY_TTL`: 60 s. -/
def rateEntryTtl : ℕ := 60000000000

/-- `RateLimiter`. -/
structure RateLimiter where
  seen : KeyMap Ipv6Addr Instant

namespace RateLimiter

/-- `RateLimiter::new`. -/
def new : RateLimiter := ⟨.empty⟩

/-- `RateLimiter::tracked`. -/
def tracked (l : RateLimiter) : ℕ := l.seen.size

/-- The address passed less than a second ago. -/
def refuses (l : RateLimiter) (ip : Ipv6Addr) (now : Instant) : Bool :=
  (l.seen.get? ip).any fun prev => decide (now - prev < minRequestInterval)

/-- What is left of the table when the old entries are dropped. -/
def retained (l : RateLimiter) (now : Instant) : KeyMap Ipv6Addr Instant :=
  l.seen.retain fun _ t => decide (now - t < rateEntryTtl)

/-- `RateLimiter::allow`: whether the request passes, and the limiter. -/
def allow (l : RateLimiter) (ip : Ipv6Addr) (now : Instant) : Bool × RateLimiter :=
  if l.refuses ip now then (false, l)
  else
    let seen :=
      if rateTableMax ≤ l.seen.size then
        if rateTableMax ≤ (l.retained now).size then .empty else l.retained now
      else l.seen
    (true, ⟨seen.insert ip now⟩)

/-- The call reaches `clear`. -/
def clears (l : RateLimiter) (ip : Ipv6Addr) (now : Instant) : Bool :=
  !l.refuses ip now && decide (rateTableMax ≤ l.seen.size) &&
    decide (rateTableMax ≤ (l.retained now).size)

/-- A call of `allow` with what became of it. -/
structure Call where
  ip : Ipv6Addr
  time : Instant
  allowed : Bool
  cleared : Bool
  deriving DecidableEq

/-- The log entry of a call. -/
def call (l : RateLimiter) (r : Ipv6Addr × Instant) : Call :=
  ⟨r.1, r.2, (l.allow r.1 r.2).1, l.clears r.1 r.2⟩

/-- Some calls: the limiter after them, and the log. -/
def calls (l : RateLimiter) (requests : List (Ipv6Addr × Instant)) : RateLimiter × List Call :=
  requests.foldl (fun s r => ((s.1.allow r.1 r.2).2, s.2 ++ [s.1.call r])) (l, [])

theorem calls_concat (l : RateLimiter) (requests : List (Ipv6Addr × Instant))
    (r : Ipv6Addr × Instant) :
    l.calls (requests ++ [r]) =
      (((l.calls requests).1.allow r.1 r.2).2,
        (l.calls requests).2 ++ [(l.calls requests).1.call r]) :=
  List.foldl_concat ..

/-! ### One call -/

variable {l : RateLimiter} {ip : Ipv6Addr} {now : Instant}

/-- `duration_since` saturates at zero. -/
theorem since_lt_iff {a b w : ℕ} (hw : 0 < w) : a - b < w ↔ a < b + w := by omega

theorem refuses_iff :
    l.refuses ip now = true ↔
      ∃ prev, l.seen.get? ip = some prev ∧ now < prev + minRequestInterval := by
  have hpos : 0 < minRequestInterval := by decide
  unfold refuses
  cases l.seen.get? ip with
  | none => simp
  | some prev =>
      rw [Option.any_some, decide_eq_true_iff, since_lt_iff hpos]
      constructor
      · exact fun hlt => ⟨prev, rfl, hlt⟩
      · rintro ⟨prev', hprev, hlt⟩
        rw [Option.some.inj hprev]
        exact hlt

/-- What a call does: it refuses, it clears the table, or it keeps the entries of the last
minute; a request that passes is entered. -/
theorem allow_cases (l : RateLimiter) (ip : Ipv6Addr) (now : Instant) :
    l.refuses ip now = true ∧ l.clears ip now = false ∧ l.allow ip now = (false, l) ∨
      l.refuses ip now = false ∧ l.clears ip now = true ∧ rateTableMax ≤ (l.retained now).size ∧
        l.allow ip now = (true, ⟨KeyMap.empty.insert ip now⟩) ∨
      l.refuses ip now = false ∧ l.clears ip now = false ∧
        ∃ kept : KeyMap Ipv6Addr Instant, l.allow ip now = (true, ⟨kept.insert ip now⟩) ∧
          kept.size < rateTableMax ∧
          (∀ a t, kept.get? a = some t → l.seen.get? a = some t) ∧
          ∀ a t, l.seen.get? a = some t → now < t + rateEntryTtl → kept.get? a = some t := by
  cases hrefuses : l.refuses ip now with
  | true => simp [allow, clears, hrefuses]
  | false =>
      by_cases hfull : rateTableMax ≤ l.seen.size
      · by_cases hstill : rateTableMax ≤ (l.retained now).size
        · simp [allow, clears, hrefuses, hfull, hstill]
        · right
          right
          refine ⟨rfl, by simp [clears, hstill], l.retained now, ?_, not_le.1 hstill, ?_, ?_⟩
          · simp [allow, hrefuses, hfull, hstill]
          · intro a t ht
            rw [retained, KeyMap.get?_retain] at ht
            exact (Option.filter_eq_some_iff.1 ht).1
          · intro a t ht hlt
            have hyoung : now - t < rateEntryTtl := (since_lt_iff (by decide)).2 hlt
            rw [retained, KeyMap.get?_retain, ht]
            simp [hyoung]
      · right
        right
        refine ⟨rfl, by simp [clears, hfull], l.seen, ?_, not_le.1 hfull, fun _ _ h => h,
          fun _ _ h _ => h⟩
        simp [allow, hrefuses, hfull]

/-! ### A run -/

/-- The table against the log: there are at most 64 entries, an entry is the time of a request
of the address that passed, and a request that passed in the last minute, with no clear
since, has an entry that is not older. -/
structure Tracks (l : RateLimiter) (log : List Call) : Prop where
  tracked_le : l.tracked ≤ 64
  sound : ∀ ip t, l.seen.get? ip = some t → ∃ c ∈ log, c.ip = ip ∧ c.time = t ∧ c.allowed = true
  complete : ∀ before c after, log = before ++ c :: after → c.allowed = true →
    (∀ c' ∈ after, c'.cleared = false) →
      (∃ t, l.seen.get? c.ip = some t ∧ c.time ≤ t) ∨ ∃ c' ∈ after, c.time + rateEntryTtl ≤ c'.time

theorem tracks_new : Tracks new [] where
  tracked_le := Nat.zero_le _
  sound ip t h := by simp [new] at h
  complete before c after h := by simp at h

theorem Tracks.refused {log : List Call} {c : Call} (h : Tracks l log)
    (hc : c.allowed = false) : Tracks l (log ++ [c]) := by
  refine ⟨h.tracked_le, fun a t hget => ?_, fun before c' after hsplit hc' hno => ?_⟩
  · obtain ⟨c', hc', hfacts⟩ := h.sound a t hget
    exact ⟨c', List.mem_append_left _ hc', hfacts⟩
  · rcases split_concat hsplit with ⟨-, rfl, -⟩ | ⟨after', rfl, hlog⟩
    · rw [hc] at hc'
      cases hc'
    · rcases h.complete before c' after' hlog hc' fun c hc =>
          hno c (List.mem_append_left _ hc) with hentry | ⟨c, hc, hold⟩
      · exact Or.inl hentry
      · exact Or.inr ⟨c, List.mem_append_left _ hc, hold⟩

/-- The entries of a table with one more are those of the log with one more. -/
theorem exists_of_get?_insert {kept : KeyMap Ipv6Addr Instant} {log : List Call} {cleared : Bool}
    (hkept : ∀ a t, kept.get? a = some t → ∃ c ∈ log, c.ip = a ∧ c.time = t ∧ c.allowed = true)
    {a : Ipv6Addr} {t : Instant} (hget : (kept.insert ip now).get? a = some t) :
    ∃ c ∈ log ++ [⟨ip, now, true, cleared⟩], c.ip = a ∧ c.time = t ∧ c.allowed = true := by
  rw [KeyMap.get?_insert] at hget
  split_ifs at hget with ha
  · obtain rfl := Option.some.inj hget
    exact ⟨_, List.mem_append_right _ (List.mem_singleton_self _), ha.symm, rfl, rfl⟩
  · obtain ⟨c, hc, hfacts⟩ := hkept a t hget
    exact ⟨c, List.mem_append_left _ hc, hfacts⟩

/-- After a clear nothing is promised of the calls before it. -/
theorem tracks_cleared {log : List Call} :
    Tracks ⟨KeyMap.empty.insert ip now⟩ (log ++ [⟨ip, now, true, true⟩]) := by
  refine ⟨?_, fun a t hget => exists_of_get?_insert (by simp) hget,
    fun before c after hsplit hc hno => ?_⟩
  · have hone : (KeyMap.empty.insert ip now : KeyMap Ipv6Addr Instant).size ≤ 0 + 1 :=
      KeyMap.size_insert_le now
    exact hone.trans (by decide)
  · rcases split_concat hsplit with ⟨-, rfl, -⟩ | ⟨after', rfl, -⟩
    · exact Or.inl ⟨now, by simp, le_rfl⟩
    · have := hno _ (List.mem_append_right _ (List.mem_singleton_self _))
      cases this

/-- Entering a request, when the entries of the last minute are kept. -/
theorem Tracks.entered {log : List Call} {kept : KeyMap Ipv6Addr Instant} (h : Tracks l log)
    (hle : ∀ c ∈ log, c.time ≤ now) (hsize : kept.size < rateTableMax)
    (hkept : ∀ a t, kept.get? a = some t → l.seen.get? a = some t)
    (hyoung : ∀ a t, l.seen.get? a = some t → now < t + rateEntryTtl → kept.get? a = some t) :
    Tracks ⟨kept.insert ip now⟩ (log ++ [⟨ip, now, true, false⟩]) := by
  refine ⟨(KeyMap.size_insert_le now).trans hsize,
    fun a t hget => exists_of_get?_insert (fun a t ht => h.sound a t (hkept a t ht)) hget,
    fun before c after hsplit hc hno => ?_⟩
  rcases split_concat hsplit with ⟨-, rfl, -⟩ | ⟨after', rfl, hlog⟩
  · exact Or.inl ⟨now, by simp, le_rfl⟩
  · have hmem : c ∈ log := by simp [hlog]
    rcases h.complete before c after' hlog hc fun c' hc' =>
        hno c' (List.mem_append_left _ hc') with ⟨t, hget, hct⟩ | ⟨c', hc', hold⟩
    · by_cases hip : c.ip = ip
      · exact Or.inl ⟨now, by simp [hip], hle c hmem⟩
      · by_cases hexpired : c.time + rateEntryTtl ≤ now
        · exact Or.inr ⟨_, List.mem_append_right _ (List.mem_singleton_self _), hexpired⟩
        · have hrecent : now < t + rateEntryTtl :=
            (not_le.1 hexpired).trans_le (Nat.add_le_add_right hct _)
          refine Or.inl ⟨t, ?_, hct⟩
          rw [KeyMap.get?_insert, if_neg hip]
          exact hyoung c.ip t hget hrecent
    · exact Or.inr ⟨c', List.mem_append_left _ hc', hold⟩

/-- **A call keeps the table in step with the log.** -/
theorem Tracks.allow {log : List Call} (h : Tracks l log) (hle : ∀ c ∈ log, c.time ≤ now) :
    Tracks (l.allow ip now).2 (log ++ [l.call (ip, now)]) := by
  rcases allow_cases l ip now with ⟨-, hclears, heq⟩ | ⟨-, hclears, -, heq⟩ |
      ⟨-, hclears, kept, heq, hsize, hkept, hyoung⟩
  · rw [call, heq, hclears]
    exact h.refused rfl
  · rw [call, heq, hclears]
    exact tracks_cleared
  · rw [call, heq, hclears]
    exact h.entered hle hsize hkept hyoung

/-- What is claimed of a call after those before it: it passes within a second of another one
of the address only across a clear; it clears only when 64 addresses passed within a minute;
and it is refused only within a second of one of the address that passed. -/
structure Fair (before : List Call) (c : Call) : Prop where
  spaced : c.allowed = true → ∀ l₁ c₁ l₂, before = l₁ ++ c₁ :: l₂ → c₁.allowed = true →
    c₁.ip = c.ip → c.time < c₁.time + minRequestInterval → ∃ c' ∈ l₂, c'.cleared = true
  cleared : c.cleared = true → ∃ ips : List Ipv6Addr, ips.Nodup ∧ 64 ≤ ips.length ∧
    ∀ a ∈ ips, ∃ c' ∈ before, c'.ip = a ∧ c'.allowed = true ∧ c'.time ≤ c.time ∧
      c.time < c'.time + rateEntryTtl
  refused : c.allowed = false → ∃ c' ∈ before, c'.ip = c.ip ∧ c'.allowed = true ∧
    c'.time ≤ c.time ∧ c.time < c'.time + minRequestInterval

/-- **A call is fair** when the table is in step with the log. -/
theorem Tracks.fair {log : List Call} (h : Tracks l log) (hle : ∀ c ∈ log, c.time ≤ now) :
    Fair log (l.call (ip, now)) where
  spaced hallowed l₁ c₁ l₂ hsplit hc₁ hip hlt := by
    by_contra hno
    have hclear : ∀ c' ∈ l₂, c'.cleared = false := fun c' hc' =>
      Bool.eq_false_iff.2 fun hc => hno ⟨c', hc', hc⟩
    have hsecond : minRequestInterval ≤ rateEntryTtl := by decide
    rcases h.complete l₁ c₁ l₂ hsplit hc₁ hclear with ⟨t, hget, hct⟩ | ⟨c', hc', hold⟩
    · have hrefuses : l.refuses ip now = true := by
        have hget : l.seen.get? ip = some t := (show c₁.ip = ip from hip) ▸ hget
        exact refuses_iff.2 ⟨t, hget, lt_of_lt_of_le hlt (Nat.add_le_add_right hct _)⟩
      simp [call, RateLimiter.allow, hrefuses] at hallowed
    · -- the log would reach beyond the present
      have hmem : c' ∈ log := by simp [hsplit, hc']
      have hpast := hle c' hmem
      have hfuture := lt_of_lt_of_le hlt (Nat.add_le_add_left hsecond c₁.time)
      exact absurd (hold.trans hpast) (not_le.2 hfuture)
  cleared hcleared := by
    have hsize : rateTableMax ≤ (l.retained now).size := by
      simp only [call, clears, Bool.and_eq_true, decide_eq_true_eq] at hcleared
      exact hcleared.2
    refine ⟨(l.retained now).entries.map Prod.fst, (l.retained now).nodup, ?_, fun a ha => ?_⟩
    · rw [List.length_map]
      exact hsize
    · obtain ⟨⟨a', t⟩, hx, rfl⟩ := List.mem_map.1 ha
      have hget := KeyMap.mem_entries.1 hx
      rw [retained, KeyMap.get?_retain] at hget
      obtain ⟨hget, hyoung⟩ := Option.filter_eq_some_iff.1 hget
      obtain ⟨c', hc', hip, rfl, hallowed⟩ := h.sound a' t hget
      exact ⟨c', hc', hip, hallowed, hle c' hc',
        (since_lt_iff (by decide)).1 (of_decide_eq_true hyoung)⟩
  refused hrefused := by
    rcases allow_cases l ip now with ⟨hrefuses, -, -⟩ | ⟨-, -, -, heq⟩ | ⟨-, -, kept, heq, -⟩
    · obtain ⟨prev, hget, hlt⟩ := refuses_iff.1 hrefuses
      obtain ⟨c', hc', hip, rfl, hallowed⟩ := h.sound ip prev hget
      exact ⟨c', hc', hip, hallowed, hle c' hc', hlt⟩
    · simp [call, heq] at hrefused
    · simp [call, heq] at hrefused

theorem time_of_mem_calls {requests : List (Ipv6Addr × Instant)} {c : Call}
    (h : c ∈ (l.calls requests).2) : ∃ r ∈ requests, c.time = r.2 := by
  induction requests using List.reverseRecOn with
  | nil => simp [calls] at h
  | append_singleton requests r ih =>
      rw [calls_concat] at h
      rcases List.mem_append.1 h with h | h
      · obtain ⟨r', hr', htime⟩ := ih h
        exact ⟨r', List.mem_append_left _ hr', htime⟩
      · rw [List.mem_singleton.1 h]
        exact ⟨r, by simp, rfl⟩

/-- **Calls in the order of time** keep the table in step with the log, and are fair. -/
theorem tracks_calls {requests : List (Ipv6Addr × Instant)}
    (h : requests.Pairwise fun r r' => r.2 ≤ r'.2) :
    Tracks (new.calls requests).1 (new.calls requests).2 ∧ Logged Fair (new.calls requests).2 := by
  induction requests using List.reverseRecOn with
  | nil => exact ⟨tracks_new, Logged.nil⟩
  | append_singleton requests r ih =>
      obtain ⟨hsorted, -, hlast⟩ := List.pairwise_append.1 h
      obtain ⟨htracks, hfair⟩ := ih hsorted
      have hle : ∀ c ∈ (new.calls requests).2, c.time ≤ r.2 := fun c hc => by
        obtain ⟨r', hr', htime⟩ := time_of_mem_calls hc
        rw [htime]
        exact hlast r' hr' r (List.mem_singleton_self r)
      rw [calls_concat]
      exact ⟨htracks.allow hle, hfair.concat (htracks.fair hle)⟩

/-- **The rate limit of probes.**  For any requests in the order of time: at every moment at
most 64 addresses are tracked; two requests of an address that pass less than a second apart
have a clear of the table between them; a clear happens only when 64 distinct addresses passed
within the last minute; and a request is refused only when the address passed less than a
second before. -/
theorem rateLimiter_bounds {requests : List (Ipv6Addr × Instant)}
    (h : requests.Pairwise fun r r' => r.2 ≤ r'.2) :
    (∀ past : List (Ipv6Addr × Instant), past <+: requests → (new.calls past).1.tracked ≤ 64) ∧
      (∀ (l₁ : List Call) (c₁ : Call) (l₂ : List Call) (c₂ : Call) (l₃ : List Call),
        (new.calls requests).2 = l₁ ++ c₁ :: l₂ ++ c₂ :: l₃ →
        c₁.allowed = true → c₂.allowed = true → c₁.ip = c₂.ip →
          c₂.time < c₁.time + 1000000000 → ∃ c ∈ l₂, c.cleared = true) ∧
      (∀ (before : List Call) (c : Call) (after : List Call),
        (new.calls requests).2 = before ++ c :: after → c.cleared = true →
        ∃ ips : List Ipv6Addr, ips.Nodup ∧ 64 ≤ ips.length ∧
          ∀ a ∈ ips, ∃ c' ∈ before, c'.ip = a ∧ c'.allowed = true ∧ c'.time ≤ c.time ∧
            c.time < c'.time + 60000000000) ∧
      ∀ (before : List Call) (c : Call) (after : List Call),
        (new.calls requests).2 = before ++ c :: after → c.allowed = false →
        ∃ c' ∈ before, c'.ip = c.ip ∧ c'.allowed = true ∧ c'.time ≤ c.time ∧
          c.time < c'.time + 1000000000 := by
  obtain ⟨-, hfair⟩ := tracks_calls h
  have hsecond : 1000000000 = minRequestInterval := rfl
  have hminute : 60000000000 = rateEntryTtl := rfl
  rw [hsecond, hminute]
  refine ⟨fun past hprefix => ?_, ?_, fun before c after hsplit => ?_,
    fun before c after hsplit => ?_⟩
  · exact (tracks_calls (h.sublist hprefix.sublist)).1.tracked_le
  · intro l₁ c₁ l₂ c₂ l₃ hsplit h₁ h₂ hip hlt
    exact (hfair _ c₂ l₃ hsplit).spaced h₂ l₁ c₁ l₂ rfl h₁ hip hlt
  · exact (hfair before c after hsplit).cleared
  · exact (hfair before c after hsplit).refused

/-- A second request after half a second is refused. -/
theorem rateLimiter_bounds_two :
    (new.calls [(⟨⟨List.replicate 16 0, rfl⟩⟩, 0), (⟨⟨List.replicate 16 0, rfl⟩⟩, 500000000)]).2.map
        Call.allowed = [true, false] ∧
      ∀ past, past <+: [(⟨⟨List.replicate 16 0, rfl⟩⟩, 0),
          (⟨⟨List.replicate 16 0, rfl⟩⟩, 500000000)] →
        (new.calls past).1.tracked ≤ 64 :=
  ⟨by decide, (rateLimiter_bounds (by simp)).1⟩

end RateLimiter

end Hextet
