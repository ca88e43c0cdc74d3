/-
# Rotation through the candidates

`crates/engine/src/fsm.rs`, the probing branch of `tick`: without a handshake that it
accepts, a machine leaves its candidate when 2.5 s have passed since the last rotation,
and a wrap to the first candidate counts a lap.

Which ticks rotate depends on their times alone (`rotations`).  One rotation adds one to
the index (`tick_of_due`), so `k` of them add `k`, modulo the length of the list, and
each multiple of the length passed is a lap (`rotation_counts_laps`).
-/

import Hextet.Engine.FsmRun
import Mathlib.Data.List.Chain

namespace Hextet

open Lib

/-- `u32::MAX`. -/
def u32Max : ℕ := 2 ^ 32 - 1

/-- Of some times in order those at which a rotation is due: 2.5 s after the one before. -/
def rotations (last : SystemTime) : List SystemTime → List SystemTime
  | [] => []
  | t :: ts =>
      if rotateInterval ≤ t - last then t :: rotations t ts else rotations last ts

/-- Rotations are 2.5 s apart. -/
theorem isChain_rotations (last : SystemTime) (ts : List SystemTime) :
    (last :: rotations last ts).IsChain fun t t' => rotateInterval ≤ t' - t := by
  induction ts generalizing last with
  | nil => exact List.isChain_singleton last
  | cons t ts ih =>
      unfold rotations
      split_ifs with hdue
      · exact List.isChain_cons_cons.2 ⟨hdue, ih t⟩
      · exact ih last

namespace PeerFsm

/-- A probing machine takes the handshake that a tick sees as one with its candidate. -/
def Accepts (fsm : PeerFsm) (t : SystemTime × Observation) : Prop :=
  handshakeIsFresh t.2.lastHandshake t.1 = true ∧
    (t.2.lastHandshake.any (fun h => fsm.lastTransition ≤ h) = true ∨ fsm.candidates.length = 1)

instance (fsm : PeerFsm) (t : SystemTime × Observation) : Decidable (fsm.Accepts t) :=
  inferInstanceAs (Decidable (_ ∧ _))

/-- One tick, without its actions. -/
def ticked (fsm : PeerFsm) (t : SystemTime × Observation) : PeerFsm := (fsm.tick t.1 t.2).1

/-- The actions of some ticks, each with the time of its tick. -/
def tickActions (fsm : PeerFsm) : List (SystemTime × Observation) → List (SystemTime × List Action)
  | [] => []
  | t :: ts => (t.1, (fsm.tick t.1 t.2).2) :: (fsm.ticked t).tickActions ts

/-- What a rotation to an index asks for: the candidate is pointed at, if there is another
one, and nudged. -/
def enter (candidates : List SocketAddrV6) (i : ℕ) : List Action :=
  if candidates.length = 1 then [.nudge] else point candidates i

variable {fsm : PeerFsm} {i r : ℕ} {t : SystemTime × Observation}

/-- A tick before the rotation is due does nothing. -/
theorem tick_of_not_due (hstate : fsm.state = .probing i r) (hno : ¬fsm.Accepts t)
    (hdue : ¬rotateInterval ≤ t.1 - fsm.lastRotate) : fsm.tick t.1 t.2 = (fsm, []) := by
  have htick : fsm.tick t.1 t.2 = fsm.tickProbing t.1 t.2 i r := by rw [tick, hstate]
  rw [Accepts] at hno
  rw [htick, tickProbing, if_neg hno]
  split_ifs
  · rfl
  · rfl
  · rename_i hnot
    exact absurd (not_lt.1 hnot) hdue

/-- **A tick when the rotation is due** goes to the next candidate, and a wrap counts. -/
theorem tick_of_due (hstate : fsm.state = .probing i r) (hi : i < fsm.candidates.length)
    (hno : ¬fsm.Accepts t) (hdue : rotateInterval ≤ t.1 - fsm.lastRotate) :
    ∃ m, fsm.tick t.1 t.2 = (m, enter fsm.candidates ((i + 1) % fsm.candidates.length)) ∧
      m.candidates = fsm.candidates ∧ m.lastRotate = t.1 ∧
      m.state = .probing ((i + 1) % fsm.candidates.length)
        (if (i + 1) % fsm.candidates.length = 0 then saturatingSucc r else r) := by
  have htick : fsm.tick t.1 t.2 = fsm.tickProbing t.1 t.2 i r := by rw [tick, hstate]
  have hempty : ¬fsm.candidates.isEmpty = true := by
    rw [List.isEmpty_iff]
    rintro hnil
    rw [hnil] at hi
    exact Nat.not_lt_zero i hi
  rw [Accepts] at hno
  rw [htick, tickProbing, if_neg hno, if_neg hempty, if_neg (not_lt.2 hdue)]
  by_cases hone : fsm.candidates.length = 1
  · -- the only candidate is at index 0 and stays there
    have hi₀ : i = 0 := by omega
    subst hi₀
    refine ⟨⟨fsm.candidates, .probing 0 (saturatingSucc r), fsm.lastTransition, t.1⟩, ?_, rfl,
      rfl, ?_⟩
    · simp [hone, enter]
    · simp [hone]
  · have hnext : (i + 1) % fsm.candidates.length ≠ i := by
      intro heq
      rcases Nat.lt_or_ge (i + 1) fsm.candidates.length with hlt | hge
      · rw [Nat.mod_eq_of_lt hlt] at heq
        omega
      · have hlast : i + 1 = fsm.candidates.length := by omega
        rw [hlast, Nat.mod_self] at heq
        omega
    simp only [if_pos hnext, enter, if_neg hone]
    exact ⟨_, rfl, rfl, rfl, rfl⟩

/-- One rotation more before `k` of them. -/
theorem index_succ (n i k : ℕ) : ((i + 1) % n + k) % n = (i + (k + 1)) % n := by
  rw [Nat.mod_add_mod]
  congr 1
  omega

/-- A rotation acts. -/
theorem enter_ne_nil {candidates : List SocketAddrV6} (hpos : 0 < candidates.length) (j : ℕ) :
    enter candidates (j % candidates.length) ≠ [] := by
  unfold enter
  split_ifs
  · simp
  · rw [point_of_getElem? (List.getElem?_eq_getElem (Nat.mod_lt j hpos))]
    simp

/-- The lap count stays a `u32`. -/
theorem lap_le (hr : r ≤ u32Max) (wraps : Prop) [Decidable wraps] :
    (if wraps then saturatingSucc r else r) ≤ u32Max := by
  split_ifs
  · exact min_le_right _ _
  · exact hr

/-- Laps add up: one more if the first rotation wraps. -/
theorem laps_succ {n i : ℕ} (hi : i < n) (r k : ℕ) :
    min ((if (i + 1) % n = 0 then saturatingSucc r else r) + ((i + 1) % n + k) / n) u32Max =
      min (r + (i + (k + 1)) / n) u32Max := by
  rcases Nat.lt_or_ge (i + 1) n with hlt | hge
  · rw [Nat.mod_eq_of_lt hlt, if_neg (Nat.succ_ne_zero i)]
    congr 3
    omega
  · have hlast : i + 1 = n := by omega
    have hdiv : (i + (k + 1)) / n = k / n + 1 := by
      rw [show i + (k + 1) = k + n by omega, Nat.add_div_right k (by omega)]
    rw [hlast, Nat.mod_self, if_pos rfl, hdiv, Nat.zero_add, saturatingSucc]
    generalize k / n = q
    simp only [u32Max]
    omega

/-- **Rotation is fair and counts laps exactly.**  For a machine that probes the candidate at
an index of its list, and any ticks without a handshake that it accepts: with `k` rotations
due, it ends at index `(i + k) mod n` with `(i + k) / n` laps more, up to `u32::MAX`; the
ticks that act are those at which a rotation is due, each with the actions of the index
entered; and they are 2.5 s apart. -/
theorem rotation_counts_laps (hstate : fsm.state = .probing i r)
    (hi : i < fsm.candidates.length) (hr : r ≤ u32Max)
    {ts : List (SystemTime × Observation)}
    (hno : Along ticked (fun fsm t => ¬fsm.Accepts t) fsm ts) :
    let n := fsm.candidates.length
    let times := rotations fsm.lastRotate (ts.map Prod.fst)
    (run ticked fsm ts).candidates = fsm.candidates ∧
      (run ticked fsm ts).state =
        .probing ((i + times.length) % n) (min (r + (i + times.length) / n) u32Max) ∧
      (fsm.tickActions ts).filter (fun x => x.2 ≠ []) =
        times.mapIdx (fun j t => (t, enter fsm.candidates ((i + (j + 1)) % n))) ∧
      (fsm.lastRotate :: times).IsChain fun t t' => rotateInterval ≤ t' - t := by
  induction ts generalizing fsm i r with
  | nil =>
      refine ⟨rfl, ?_, rfl, isChain_rotations fsm.lastRotate []⟩
      simp [rotations, Nat.mod_eq_of_lt hi, Nat.div_eq_of_lt hi, min_eq_left hr, hstate]
  | cons t ts ih =>
      have hchain := isChain_rotations fsm.lastRotate ((t :: ts).map Prod.fst)
      obtain ⟨hnow, hlater⟩ := hno
      by_cases hdue : rotateInterval ≤ t.1 - fsm.lastRotate
      · obtain ⟨m, heq, hlist, hrotate, hnext⟩ := tick_of_due hstate hi hnow hdue
        have hticked : fsm.ticked t = m := congrArg Prod.fst heq
        have htimes : rotations fsm.lastRotate ((t :: ts).map Prod.fst) =
            t.1 :: rotations t.1 (ts.map Prod.fst) := by
          rw [List.map_cons, rotations, if_pos hdue]
        rw [hticked] at hlater
        have hpos : 0 < fsm.candidates.length := Nat.zero_lt_of_lt hi
        have hrest := ih hnext (by rw [hlist]; exact Nat.mod_lt _ hpos) (lap_le hr _) hlater
        rw [hlist, hrotate] at hrest
        obtain ⟨hkeep, hend, hacts, -⟩ := hrest
        rw [htimes] at hchain ⊢
        refine ⟨?_, ?_, ?_, hchain⟩
        · rw [run_cons, hticked, hkeep]
        · rw [run_cons, hticked, hend, index_succ, laps_succ hi, List.length_cons]
        · rw [tickActions, heq, hticked,
            List.filter_cons_of_pos (by simpa using enter_ne_nil hpos _), hacts, List.mapIdx_cons]
          simp only [index_succ]
      · have hticked : fsm.ticked t = fsm := congrArg Prod.fst (tick_of_not_due hstate hnow hdue)
        have htimes : rotations fsm.lastRotate ((t :: ts).map Prod.fst) =
            rotations fsm.lastRotate (ts.map Prod.fst) := by
          rw [List.map_cons, rotations, if_neg hdue]
        rw [hticked] at hlater
        rw [htimes, run_cons, hticked, tickActions, tick_of_not_due hstate hnow hdue, hticked,
          List.filter_cons_of_neg (by simp)]
        exact ih hstate hi hr hlater

/-- Two candidates and four ticks, two of them 2.5 s after a rotation: one lap. -/
theorem rotation_counts_laps_two :
    let fsm := PeerFsm.new [localEndpoint 1, localEndpoint 2] 0
    let ts : List (SystemTime × Observation) :=
      [(1000000000, ⟨none, none⟩), (3000000000, ⟨none, none⟩), (4000000000, ⟨none, none⟩),
        (5500000000, ⟨none, none⟩)]
    (run ticked fsm ts).state = .probing 0 1 ∧
      (fsm.tickActions ts).filter (fun x => x.2 ≠ []) =
        [(3000000000, [.setEndpoint (localEndpoint 2), .nudge]),
          (5500000000, [.setEndpoint (localEndpoint 1), .nudge])] := by
  intro fsm ts
  have hstate : fsm.state = .probing 0 0 := rfl
  have hno : Along ticked (fun fsm t => ¬fsm.Accepts t) fsm ts := by decide
  obtain ⟨-, hend, hacts, -⟩ := rotation_counts_laps hstate (by decide) (by decide) hno
  exact ⟨hend.trans (by decide), hacts.trans (by decide)⟩

end PeerFsm

end Hextet
