/-
# Routes as sets of addresses

`crates/core/src/route.rs`.  The masks work byte by byte, with one partial byte; on the
bits of an address they keep the first `len` and clear the others (`bits_applyMask`).  So a
route contains the addresses that start with its prefix, bit by bit, and `overlaps`, which
tests the two network addresses only, says whether the two sets of addresses meet.  Two
sets that meet are nested, as intervals of a tree are (`route_sets`).
-/

import Hextet.Core.Route
import Hextet.Lib.Bits

namespace Hextet

open Lib

/-- The bits of an address. -/
def Ipv6Addr.bits (a : Ipv6Addr) : List Bool := Lib.bits a.octets.1

theorem Ipv6Addr.length_bits (a : Ipv6Addr) : a.bits.length = 128 := by
  rw [bits, Lib.length_bits, a.octets.2]

theorem Ipv6Addr.bits_inj {a b : Ipv6Addr} : a.bits = b.bits ↔ a = b := by
  refine ⟨fun h => ?_, congrArg _⟩
  have hoctets : a.octets = b.octets := Subtype.ext (bits_injective h)
  cases a
  cases b
  simpa using hoctets

/-! ### Masks on bits -/

/-- **The mask has ones up to its length.** -/
theorem testBit_maskByte (len i : ℕ) {j : ℕ} (hj : j < 8) :
    (maskByte len i).toNat.testBit (7 - j) = decide (8 * i + j < len) := by
  have hmixed : ∀ (r : Fin 8) (j : Fin 8), 0 < r.val →
      ((0xff : UInt8) <<< UInt8.ofNat (8 - r.val)).toNat.testBit (7 - j.val) =
        decide (j.val < r.val) := by decide
  have hfull : ∀ j : Fin 8, (0xff : UInt8).toNat.testBit (7 - j.val) = true := by decide
  unfold maskByte
  split_ifs with hwhole hrest
  · rw [hfull ⟨j, hj⟩, eq_comm, decide_eq_true_iff]
    omega
  · rw [hmixed ⟨len % 8, Nat.mod_lt _ (by decide)⟩ ⟨j, hj⟩ hrest.2]
    simp only [decide_eq_decide]
    omega
  · rw [UInt8.toNat_zero, Nat.zero_testBit, eq_comm, decide_eq_false_iff_not]
    omega

/-- The bits of a masked address: those before `len`, then zeros. -/
theorem getElem?_bits_applyMask (a : Ipv6Addr) (len : ℕ) {k : ℕ} (hk : k < 128) :
    (applyMask a len).bits[k]? = (a.bits[k]?).map fun bit => bit && decide (k < len) := by
  have hindex : k / 8 < 16 := by omega
  have hbit : 8 * (k / 8) + k % 8 = k := Nat.div_add_mod k 8
  rw [Ipv6Addr.bits, Ipv6Addr.bits, getElem?_bits, getElem?_bits, applyMask_octets a len hindex,
    Option.map_map, Option.map_map]
  refine congrArg (fun f => Option.map f _) (funext fun x => ?_)
  rw [Function.comp_apply, Function.comp_apply, UInt8.toNat_and, Nat.testBit_land,
    testBit_maskByte len _ (Nat.mod_lt _ (by decide)), hbit]

theorem bits_applyMask (a : Ipv6Addr) {len : ℕ} (hlen : len ≤ 128) :
    (applyMask a len).bits = a.bits.take len ++ List.replicate (128 - len) false := by
  have htake : (a.bits.take len).length = len := by
    rw [List.length_take, a.length_bits, min_eq_left hlen]
  refine List.ext_getElem? fun k => ?_
  by_cases hk : k < 128
  · rw [getElem?_bits_applyMask a len hk]
    by_cases hin : k < len
    · rw [List.getElem?_append_left (by rw [htake]; exact hin), List.getElem?_take_of_lt hin]
      simp [hin]
    · have hrest : k - len < 128 - len := by omega
      rw [List.getElem?_append_right (by rw [htake]; omega), htake, List.getElem?_replicate,
        if_pos hrest, List.getElem?_eq_getElem (by rw [a.length_bits]; exact hk)]
      simp [hin]
  · rw [List.getElem?_eq_none (by rw [Ipv6Addr.length_bits]; omega),
      List.getElem?_eq_none (by rw [List.length_append, htake, List.length_replicate]; omega)]

/-- Masked addresses are equal exactly when the bits up to the length are. -/
theorem applyMask_eq_iff {a b : Ipv6Addr} {len : ℕ} (hlen : len ≤ 128) :
    applyMask a len = applyMask b len ↔ a.bits.take len = b.bits.take len := by
  rw [← Ipv6Addr.bits_inj, bits_applyMask a hlen, bits_applyMask b hlen, List.append_left_inj]

/-- **A network address has no bits past its length.** -/
theorem applyMask_eq_self_iff {a : Ipv6Addr} {len : ℕ} (hlen : len ≤ 128) :
    applyMask a len = a ↔ ∀ bit ∈ a.bits.drop len, bit = false := by
  have hsplit : a.bits = a.bits.take len ++ a.bits.drop len := (List.take_append_drop ..).symm
  have hdrop : (a.bits.drop len).length = 128 - len := by rw [List.length_drop, a.length_bits]
  rw [← Ipv6Addr.bits_inj, bits_applyMask a hlen]
  nth_rewrite 2 [hsplit]
  rw [List.append_right_inj, eq_comm, List.eq_replicate_iff]
  exact and_iff_right hdrop

namespace Ipv6Route

variable {r s : Ipv6Route} {a : Ipv6Addr}

/-- **A route contains the addresses that start with its prefix.** -/
theorem contains_iff :
    r.contains a = true ↔ a.bits.take r.prefixLen = r.pre.bits.take r.prefixLen := by
  rw [← applyMask_eq_iff r.inRange.2, r.aligned, contains, beq_iff_eq]

/-- A longer prefix that starts with a shorter one. -/
theorem contains_of_contains (h : r.contains s.pre = true) (hle : r.prefixLen ≤ s.prefixLen)
    (ha : s.contains a = true) : r.contains a = true := by
  rw [contains_iff] at h ha ⊢
  have hshort := congrArg (List.take r.prefixLen) ha
  rw [List.take_take, List.take_take, min_eq_left hle] at hshort
  exact hshort.trans h

theorem contains_pre (r : Ipv6Route) : r.contains r.pre = true := contains_iff.2 rfl

/-- A route that contains the network address of a shorter one starts as that does. -/
theorem contains_swap (h : r.contains s.pre = true) (hle : s.prefixLen ≤ r.prefixLen) :
    s.contains r.pre = true := by
  rw [contains_iff] at h ⊢
  have hshort := congrArg (List.take s.prefixLen) h
  rw [List.take_take, List.take_take, min_eq_left hle] at hshort
  exact hshort.symm

/-- Routes that overlap are nested, the longer prefix in the shorter. -/
theorem nested_of_overlaps (h : r.overlaps s = true) (hle : r.prefixLen ≤ s.prefixLen)
    (ha : s.contains a = true) : r.contains a = true := by
  rw [overlaps, Bool.or_eq_true] at h
  exact contains_of_contains (h.elim id fun h => contains_swap h hle) hle ha

theorem overlaps_comm (r s : Ipv6Route) : r.overlaps s = s.overlaps r := Bool.or_comm ..

/-- **Routes overlap exactly when they share an address.** -/
theorem overlaps_iff :
    r.overlaps s = true ↔ ∃ a, r.contains a = true ∧ s.contains a = true := by
  constructor
  · intro h
    rw [overlaps, Bool.or_eq_true] at h
    rcases h with h | h
    · exact ⟨s.pre, h, s.contains_pre⟩
    · exact ⟨r.pre, r.contains_pre, h⟩
  · rintro ⟨a, hr, hs⟩
    exact overlaps_of_common (beq_iff_eq.1 hr) (beq_iff_eq.1 hs)

/-- **`Ipv6Route::new` takes the network addresses.** -/
theorem new_eq_ok_iff (pre : Ipv6Addr) (len : ℕ) :
    (∃ t, new pre len = .ok t ∧ t.pre = pre ∧ t.prefixLen = len) ↔
      (1 ≤ len ∧ len ≤ 128) ∧ ∀ bit ∈ pre.bits.drop len, bit = false := by
  unfold new
  split_ifs with hrange haligned
  · exact iff_of_true ⟨_, rfl, rfl, rfl⟩ ⟨hrange, (applyMask_eq_self_iff hrange.2).1 haligned⟩
  · exact iff_of_false nofun fun h => haligned ((applyMask_eq_self_iff hrange.2).2 h.2)
  · exact iff_of_false nofun fun h => hrange h.1

end Ipv6Route

/-- **Prefix overlap means a shared address.**  A route contains the addresses whose first
bits are those of its prefix; two routes overlap if and only if some address is in both,
in either order, and then one of them contains all that the other does; and
`Ipv6Route::new` succeeds exactly on a length in range with all host bits zero. -/
theorem route_sets (r s : Ipv6Route) :
    (∀ a, r.contains a = true ↔ a.bits.take r.prefixLen = r.pre.bits.take r.prefixLen) ∧
      (r.overlaps s = true ↔ ∃ a, r.contains a = true ∧ s.contains a = true) ∧
      r.overlaps s = s.overlaps r ∧
      (r.overlaps s = true → (∀ a, r.contains a = true → s.contains a = true) ∨
        ∀ a, s.contains a = true → r.contains a = true) ∧
      ∀ pre len, (∃ t, Ipv6Route.new pre len = .ok t ∧ t.pre = pre ∧ t.prefixLen = len) ↔
        (1 ≤ len ∧ len ≤ 128) ∧ ∀ bit ∈ pre.bits.drop len, bit = false := by
  refine ⟨fun a => Ipv6Route.contains_iff, Ipv6Route.overlaps_iff, r.overlaps_comm s, fun h => ?_,
    Ipv6Route.new_eq_ok_iff⟩
  rcases le_total r.prefixLen s.prefixLen with hle | hle
  · exact .inr fun a => Ipv6Route.nested_of_overlaps h hle
  · exact .inl fun a => Ipv6Route.nested_of_overlaps (r.overlaps_comm s ▸ h) hle

end Hextet
