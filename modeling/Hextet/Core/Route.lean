/-
# Subnet routes and AllowedIPs

`crates/core/src/route.rs`.  An `Ipv6Route` is a network address and a prefix
length with the host bits clear, which `Ipv6Route::new` enforces; the structure
carries that as a field.  `overlaps` tests whether either network address lies
in the other route, and that is the same as sharing an address
(`overlaps_of_common`): clearing bits past `m` and then past `l ≤ m` clears the
bits past `l` (`applyMask_applyMask`).

`allowedIpsFor` is the one place AllowedIPs are derived: the /64 site first,
then the routes, each once.
-/

import Hextet.Core.Addr

namespace Hextet

open Lib

/-- Byte `i` of `mask`. -/
def maskByte (len i : ℕ) : UInt8 :=
  if i < len / 8 then 0xff
  else if i = len / 8 ∧ 0 < len % 8 then 0xff <<< UInt8.ofNat (8 - len % 8) else 0

/-- `mask`: `len` one bits, then zeros. -/
def mask (len : ℕ) : Bytes 16 := ⟨(List.range 16).map (maskByte len), by simp⟩

/-- `apply_mask`: the bits past `len` cleared. -/
def applyMask (a : Ipv6Addr) (len : ℕ) : Ipv6Addr :=
  ⟨⟨List.zipWith (· &&& ·) a.octets.1 (mask len).1, by simp⟩⟩

/-- `RouteError`, the part `Ipv6Route::new` can give. -/
inductive RouteError where
  | badPrefixLen (len : ℕ)
  | hostBitsSet (pre : Ipv6Addr) (len : ℕ)
  deriving DecidableEq

/-- `Ipv6Route`: an aligned network address and its length. -/
structure Ipv6Route where
  pre : Ipv6Addr
  prefixLen : ℕ
  inRange : 1 ≤ prefixLen ∧ prefixLen ≤ 128
  aligned : applyMask pre prefixLen = pre
  deriving DecidableEq

namespace Ipv6Route

/-- `Ipv6Route::new`. -/
def new (pre : Ipv6Addr) (len : ℕ) : Except RouteError Ipv6Route :=
  if h : 1 ≤ len ∧ len ≤ 128 then
    if h' : applyMask pre len = pre then .ok ⟨pre, len, h, h'⟩ else .error (.hostBitsSet pre len)
  else .error (.badPrefixLen len)

/-- `Ipv6Route::contains`. -/
def contains (r : Ipv6Route) (a : Ipv6Addr) : Bool := applyMask a r.prefixLen == r.pre

/-- `Ipv6Route::overlaps`. -/
def overlaps (r s : Ipv6Route) : Bool := r.contains s.pre || s.contains r.pre

/-- The prefix and its length, an AllowedIPs entry. -/
def toPair (r : Ipv6Route) : Ipv6Addr × ℕ := (r.pre, r.prefixLen)

end Ipv6Route

/-- The loop of `allowed_ips_for`. -/
def pushRoutes (out : List (Ipv6Addr × ℕ)) (routes : List Ipv6Route) : List (Ipv6Addr × ℕ) :=
  routes.foldl (fun out r => if r.toPair ∈ out then out else out ++ [r.toPair]) out

/-- `allowed_ips_for`: the /64 site, then each route that is not there yet. -/
def allowedIpsFor (site : Ipv6Addr) (routes : List Ipv6Route) : List (Ipv6Addr × ℕ) :=
  pushRoutes [(site, 64)] routes

/-- An address matches an AllowedIPs entry. -/
def Covers (p : Ipv6Addr × ℕ) (a : Ipv6Addr) : Prop := applyMask a p.2 = p.1

instance (p : Ipv6Addr × ℕ) (a : Ipv6Addr) : Decidable (Covers p a) :=
  inferInstanceAs (Decidable (_ = _))

/-- The high bits of a byte, `r` of them. -/
private def highBits (r : ℕ) : UInt8 := if 8 ≤ r then 0xff else 0xff <<< UInt8.ofNat (8 - r)

private theorem maskByte_eq (len i : ℕ) :
    maskByte len i = if 8 * i < len then highBits (len - 8 * i) else 0 := by
  unfold maskByte highBits
  by_cases h : i < len / 8
  · rw [if_pos h, if_pos (by omega), if_pos (by omega)]
  · rw [if_neg h]
    by_cases h' : i = len / 8 ∧ 0 < len % 8
    · rw [if_pos h', if_pos (by omega), if_neg (by omega),
        show 8 - (len - 8 * i) = 8 - len % 8 by omega]
    · rw [if_neg h', if_neg (by omega)]

private theorem highBits_and {r r' : ℕ} (h₀ : 0 < r) (h : r ≤ r') :
    highBits r' &&& highBits r = highBits r := by
  have hall : ∀ x y : Fin 9, 0 < x → x ≤ y →
      highBits y.val &&& highBits x.val = highBits x.val := by
    decide
  have hcap : ∀ n, highBits n = highBits (min n 8) := by
    intro n
    unfold highBits
    by_cases hn : 8 ≤ n
    · rw [if_pos hn, min_eq_right hn, if_pos le_rfl]
    · rw [min_eq_left (by omega)]
  rw [hcap r, hcap r']
  exact hall ⟨min r 8, by omega⟩ ⟨min r' 8, by omega⟩ (Fin.lt_def.2 (by simp; omega))
    (Fin.le_def.2 (by simp only; omega))

theorem maskByte_and {l m : ℕ} (h : l ≤ m) (i : ℕ) :
    maskByte m i &&& maskByte l i = maskByte l i := by
  rw [maskByte_eq, maskByte_eq]
  by_cases hl : 8 * i < l
  · rw [if_pos hl, if_pos (by omega), highBits_and (by omega) (by omega)]
  · rw [if_neg hl, UInt8.and_zero]

theorem applyMask_octets (a : Ipv6Addr) (len : ℕ) {i : ℕ} (hi : i < 16) :
    (applyMask a len).octets.1[i]? = (a.octets.1[i]?).map (· &&& maskByte len i) := by
  have hr : ((List.range 16).map (maskByte len))[i]? = some (maskByte len i) := by
    rw [List.getElem?_map, List.getElem?_range hi]
    rfl
  simp only [applyMask, mask, List.getElem?_zipWith, hr]
  cases a.octets.1[i]? <;> rfl

/-- Two addresses with the same octets are equal. -/
theorem Ipv6Addr.ext_octets {a b : Ipv6Addr}
    (h : ∀ i, i < 16 → a.octets.1[i]? = b.octets.1[i]?) : a = b := by
  obtain ⟨⟨la, ha⟩⟩ := a
  obtain ⟨⟨lb, hb⟩⟩ := b
  have : la = lb := by
    refine List.ext_getElem? fun i => ?_
    by_cases hi : i < 16
    · exact h i hi
    · rw [List.getElem?_eq_none (by omega), List.getElem?_eq_none (by omega)]
  subst this
  rfl

/-- **Clearing in two steps is clearing at the shorter length.** -/
theorem applyMask_applyMask (a : Ipv6Addr) {l m : ℕ} (h : l ≤ m) :
    applyMask (applyMask a m) l = applyMask a l := by
  refine Ipv6Addr.ext_octets fun i hi => ?_
  rw [applyMask_octets _ _ hi, applyMask_octets _ _ hi, applyMask_octets _ _ hi, Option.map_map]
  congr 1
  funext x
  rw [Function.comp_apply, UInt8.and_assoc, maskByte_and h]

namespace Ipv6Route

/-- A route covers its network address. -/
theorem covers_pre (r : Ipv6Route) : Covers r.toPair r.pre := r.aligned

/-- **Two routes that share an address overlap.** -/
theorem overlaps_of_common {r s : Ipv6Route} {a : Ipv6Addr} (hr : Covers r.toPair a)
    (hs : Covers s.toPair a) : r.overlaps s = true := by
  have key : ∀ {r s : Ipv6Route}, Covers r.toPair a → Covers s.toPair a →
      r.prefixLen ≤ s.prefixLen → r.contains s.pre = true := by
    intro r s hr hs hle
    have hs' : s.pre = applyMask a s.prefixLen := hs.symm
    rw [contains, hs', applyMask_applyMask a hle, beq_iff_eq]
    exact hr
  rw [overlaps, Bool.or_eq_true]
  rcases le_total r.prefixLen s.prefixLen with h | h
  · exact Or.inl (key hr hs h)
  · exact Or.inr (key hs hr h)

end Ipv6Route

theorem mem_pushRoutes {out : List (Ipv6Addr × ℕ)} {routes : List Ipv6Route} {p : Ipv6Addr × ℕ} :
    p ∈ pushRoutes out routes ↔ p ∈ out ∨ ∃ r ∈ routes, r.toPair = p := by
  induction routes generalizing out with
  | nil => simp [pushRoutes]
  | cons r routes ih =>
      rw [pushRoutes, List.foldl_cons, ← pushRoutes, ih]
      simp only [List.mem_cons, exists_eq_or_imp]
      by_cases hr : r.toPair ∈ out
      · rw [if_pos hr]
        constructor
        · rintro (h | h)
          · exact Or.inl h
          · exact Or.inr (Or.inr h)
        · rintro (h | rfl | h)
          · exact Or.inl h
          · exact Or.inl hr
          · exact Or.inr h
      · rw [if_neg hr, List.mem_append, List.mem_singleton]
        grind

/-- AllowedIPs are the site and the routes. -/
theorem mem_allowedIpsFor {site : Ipv6Addr} {routes : List Ipv6Route} {p : Ipv6Addr × ℕ} :
    p ∈ allowedIpsFor site routes ↔ p = (site, 64) ∨ ∃ r ∈ routes, r.toPair = p := by
  rw [allowedIpsFor, mem_pushRoutes, List.mem_singleton]

end Hextet
