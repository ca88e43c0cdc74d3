/-
# The text of a route

`Display` and `FromStr` of `crates/core/src/route.rs`.  A route is written as its network
address, a slash and the length.  An address with an IPv4 address mapped into it is written
with dots; `FromStr` refuses any address with a dot before it reads it, to keep IPv4 routes
out.  So what is written is read back exactly when the address is not such a one
(`fromStr_display_iff`), although `Ipv6Route::new` and `FromStr` both accept it: the latter
from the groups, as in `::ffff:102:300/120`.
-/

import Hextet.Core.AddrText
import Hextet.Lib.Fallible

namespace Hextet

open Lib

theorem splitOnce_append {c : Char} {a : List Char} (h : c ∉ a) (b : List Char) :
    splitOnce c (a ++ c :: b) = some (a, b) := by
  have hne : ∀ x ∈ a, (x != c) = true := fun x hx => by
    simpa using fun heq : x = c => h (heq ▸ hx)
  rw [splitOnce, if_pos (by simp), List.takeWhile_append_of_pos hne,
    List.dropWhile_append_of_pos hne]
  simp

/-- What follows the digits is a part of the text. -/
theorem mem_of_mem_spanDigits {radix : ℕ} {s : List Char} {c : Char}
    (h : c ∈ (spanDigits radix s).2) : c ∈ s := by
  induction s with
  | nil => exact h
  | cons x s ih =>
      rw [spanDigits] at h
      split at h
      · exact h
      · exact List.mem_cons_of_mem _ (ih h)

theorem Terminates.nil : Terminates [] where
  noDigit := NoDigit.nil 16
  noDot := by simp
  noGroup s h := by cases h

/-- Reading a written length. -/
theorem parseU8_toDigits {n : ℕ} (h : n < 256) : parseU8 (Nat.toDigits 10 n) = some n := by
  have hread : readNumber 10 none true 256 (Nat.toDigits 10 n ++ []) = some (n, []) :=
    readNumber_toDigits (by omega) (by omega) (NoDigit.nil 10) (by simp) h
  have hplus : '+' ∉ Nat.toDigits 10 n := by
    intro hmem
    obtain ⟨ds, hds, htext, -⟩ := exists_digits (show 1 < 10 by decide) n
    rw [htext] at hmem
    obtain ⟨d, hd, hchar⟩ := List.mem_map.1 hmem
    have hdigit : ∀ d : Fin 10, Nat.digitChar d ≠ '+' := by decide
    exact hdigit ⟨d, hds d hd⟩ hchar
  rw [List.append_nil] at hread
  unfold parseU8
  generalize Nat.toDigits 10 n = ds at hread hplus ⊢
  split
  · simp at hplus
  · rw [parseWith, hread]

namespace Ipv6Addr

variable {a : Ipv6Addr}

theorem slash_not_mem_display : '/' ∉ a.display := by
  intro h
  have hdigit : ∀ d : Fin 16, Nat.digitChar d ≠ '/' := by decide
  rcases a.mem_display h with (h | ⟨d, hd, h⟩) | ⟨-, h⟩
  · cases h
  · exact hdigit ⟨d, hd⟩ h.symm
  · cases h

/-- **A dot is written exactly in a mapped address.** -/
theorem dot_mem_display_iff : '.' ∈ a.display ↔ a.isIpv4Mapped = true := by
  constructor
  · intro h
    have hdigit : ∀ d : Fin 16, Nat.digitChar d ≠ '.' := by decide
    rcases a.mem_display h with (h | ⟨d, hd, h⟩) | ⟨hmapped, -⟩
    · cases h
    · exact absurd h.symm (hdigit ⟨d, hd⟩)
    · exact hmapped
  · intro hmapped
    have hlen : ((a.octets.1.drop 12).map UInt8.toNat).length = 4 := by simp
    rw [display, if_pos hmapped]
    refine List.mem_append_right _ ?_
    generalize (a.octets.1.drop 12).map UInt8.toNat = os at hlen
    rcases os with _ | ⟨o₀, _ | ⟨o₁, os⟩⟩
    · cases hlen
    · simp at hlen
    · simp [fmtOctets]

/-- An address without dots is no IPv4 text. -/
theorem not_isIpv4Text_display (h : a.isIpv4Mapped = false) : isIpv4Text a.display = false := by
  have hdot : '.' ∉ a.display := fun hmem => by
    rw [dot_mem_display_iff.1 hmem] at h
    cases h
  have hread : readIpv4Addr a.display = none := readIpv4Addr_eq_none fun hhead =>
    hdot (mem_of_mem_spanDigits (List.mem_of_mem_head? hhead))
  simp [isIpv4Text, parseWith, hread]

theorem parseIpv6Addr_display (a : Ipv6Addr) : parseIpv6Addr a.display = some a := by
  have hread := readIpv6Addr_display a Terminates.nil
  rw [List.append_nil] at hread
  rw [parseIpv6Addr, parseWith, hread]

end Ipv6Addr

namespace Ipv6Route

/-- A route is what `new` makes of its parts. -/
theorem new_eq_ok (r : Ipv6Route) : new r.pre r.prefixLen = .ok r := by
  rw [new, dif_pos r.inRange, dif_pos r.aligned]

/-- **What `FromStr` makes of a written route**: the route, or an error on IPv4. -/
theorem fromStr_display (r : Ipv6Route) :
    fromStr (String.ofList r.display) =
      if r.pre.isIpv4Mapped then .error (.ipv4 (String.ofList r.display)) else .ok r := by
  have hsplit : splitOnce '/' (String.ofList r.display).toList =
      some (r.pre.display, Nat.toDigits 10 r.prefixLen) := by
    rw [String.toList_ofList, display]
    exact splitOnce_append r.pre.slash_not_mem_display _
  have hlen := r.inRange
  unfold fromStr
  rw [hsplit]
  simp only
  split_ifs with hdot hmapped hmapped
  · rfl
  · rw [Bool.or_eq_true, decide_eq_true_iff, Ipv6Addr.dot_mem_display_iff,
      Ipv6Addr.not_isIpv4Text_display (Bool.eq_false_iff.2 hmapped)] at hdot
    simp [hmapped] at hdot
  · rw [Bool.or_eq_true, decide_eq_true_iff, Ipv6Addr.dot_mem_display_iff] at hdot
    exact absurd (Or.inl hmapped) hdot
  · rw [Ipv6Addr.parseIpv6Addr_display, parseU8_toDigits (by omega)]
    simp only [new_eq_ok, Fallible.mapError_ok]

/-- **A written route is read back exactly when no IPv4 address is mapped into it.** -/
theorem fromStr_display_iff (r : Ipv6Route) :
    fromStr (String.ofList r.display) = .ok r ↔ r.pre.isIpv4Mapped = false := by
  rw [fromStr_display]
  cases r.pre.isIpv4Mapped <;> simp

/-- The same of a list of routes. -/
theorem mapM_fromStr_display_iff (routes : List Ipv6Route) :
    (routes.map fun r => String.ofList r.display).mapM fromStr = .ok routes ↔
      ∀ r ∈ routes, r.pre.isIpv4Mapped = false := by
  rw [Fallible.mapM_eq_ok, List.forall₂_map_left_iff, List.forall₂_same]
  exact forall₂_congr fun r _ => fromStr_display_iff r

end Ipv6Route

end Hextet
