/-
# Finite maps

A finite map is a list of keys with their values in which no key occurs twice.
Reading after a write is reading the value written or reading before the write
(`get?_insert`, `get?_erase`, `get?_retain`, `get?_modify`), and the number of keys grows
by one when a new key is written (`size_insert_of_none`).
-/

import Mathlib.Data.List.Nodup

namespace Hextet
namespace Lib

variable {κ ν : Type*} [DecidableEq κ]

/-- Dropping entries of a list with distinct keys, then looking a key up. -/
theorem lookup_filter {l : List (κ × ν)} (hnodup : (l.map Prod.fst).Nodup)
    (p : κ × ν → Bool) (k : κ) :
    (l.filter p).lookup k = (l.lookup k).filter fun v => p (k, v) := by
  induction l with
  | nil => rfl
  | cons x l ih =>
      obtain ⟨key, v⟩ := x
      rw [List.map_cons, List.nodup_cons] at hnodup
      obtain ⟨hkey, hnodup⟩ := hnodup
      by_cases hk : k = key
      · subst hk
        have hnone : l.lookup k = none := by
          rw [List.lookup_eq_none_iff]
          intro y hy
          simpa using fun h : k = y.1 => hkey (List.mem_map.2 ⟨y, hy, h.symm⟩)
        by_cases hp : p (k, v) = true
        · rw [List.filter_cons_of_pos hp]
          simp [Option.filter_some, hp]
        · rw [List.filter_cons_of_neg hp, ih hnodup, hnone]
          simp [Option.filter_some, hp]
      · have hbeq : (k == key) = false := by simpa using hk
        by_cases hp : p (key, v) = true
        · rw [List.filter_cons_of_pos hp, List.lookup_cons, List.lookup_cons, hbeq]
          exact ih hnodup
        · rw [List.filter_cons_of_neg hp, List.lookup_cons, hbeq]
          exact ih hnodup

/-- Dropping a key, then looking another one up. -/
theorem lookup_filter_ne (l : List (κ × ν)) {key k : κ} (h : k ≠ key) :
    (l.filter fun x => x.1 ≠ key).lookup k = l.lookup k := by
  induction l with
  | nil => rfl
  | cons x l ih =>
      by_cases hx : x.1 = key
      · have hk : (k == x.1) = false := by simpa [hx] using h
        rw [List.filter_cons_of_neg (by simpa using hx), ih, List.lookup_cons, hk]
      · rw [List.filter_cons_of_pos (by simpa using hx), List.lookup_cons, List.lookup_cons, ih]

/-- **Writing a key in front, without its old entries**, leaves the others. -/
theorem lookup_cons_filter_ne (l : List (κ × ν)) (key : κ) (v : ν) (k : κ) :
    ((key, v) :: l.filter fun x => x.1 ≠ key).lookup k =
      if k = key then some v else l.lookup k := by
  rw [List.lookup_cons]
  split_ifs with hk
  · simp [hk]
  · have hbeq : (k == key) = false := by simpa using hk
    rw [hbeq]
    exact lookup_filter_ne l hk

/-- A finite map. -/
structure KeyMap (κ ν : Type*) where
  entries : List (κ × ν)
  nodup : (entries.map Prod.fst).Nodup

namespace KeyMap

/-- No keys. -/
def empty : KeyMap κ ν := ⟨[], .nil⟩

/-- The value of a key. -/
def get? (m : KeyMap κ ν) (k : κ) : Option ν := m.entries.lookup k

/-- The number of keys. -/
def size (m : KeyMap κ ν) : ℕ := m.entries.length

/-- Keep the entries that meet a condition. -/
def retain (m : KeyMap κ ν) (p : κ → ν → Bool) : KeyMap κ ν :=
  ⟨m.entries.filter fun x => p x.1 x.2, m.nodup.sublist (List.filter_sublist.map Prod.fst)⟩

/-- Drop a key. -/
def erase (m : KeyMap κ ν) (k : κ) : KeyMap κ ν := m.retain fun x _ => x ≠ k

/-- Write the value of a key. -/
def insert (m : KeyMap κ ν) (k : κ) (v : ν) : KeyMap κ ν where
  entries := (k, v) :: (m.erase k).entries
  nodup := by
    rw [List.map_cons, List.nodup_cons]
    refine ⟨fun h => ?_, (m.erase k).nodup⟩
    obtain ⟨x, hx, hk⟩ := List.mem_map.1 h
    simpa [hk] using (List.mem_filter.1 hx).2

/-- Change the value of a key, if it has one. -/
def modify (m : KeyMap κ ν) (k : κ) (f : ν → ν) : KeyMap κ ν where
  entries := m.entries.map fun x => if x.1 = k then (x.1, f x.2) else x
  nodup := by
    have hkeys : (m.entries.map fun x => if x.1 = k then (x.1, f x.2) else x).map Prod.fst =
        m.entries.map Prod.fst := by
      rw [List.map_map]
      refine List.map_congr_left fun x _ => ?_
      rw [Function.comp]
      split_ifs <;> rfl
    rw [hkeys]
    exact m.nodup

variable (m : KeyMap κ ν) (k k' : κ)

@[simp] theorem get?_empty : (empty : KeyMap κ ν).get? k = none := rfl

@[simp] theorem get?_retain (p : κ → ν → Bool) : (m.retain p).get? k = (m.get? k).filter (p k) :=
  lookup_filter m.nodup (fun x => p x.1 x.2) k

@[simp] theorem get?_erase : (m.erase k).get? k' = if k' = k then none else m.get? k' := by
  rw [erase, get?_retain]
  split_ifs with hk
  · cases m.get? k' <;> simp [hk]
  · cases m.get? k' <;> simp [hk]

@[simp] theorem get?_insert (v : ν) :
    (m.insert k v).get? k' = if k' = k then some v else m.get? k' :=
  lookup_cons_filter_ne m.entries k v k'

@[simp] theorem get?_modify (f : ν → ν) :
    (m.modify k f).get? k' = if k' = k then (m.get? k').map f else m.get? k' := by
  have hlookup : ∀ l : List (κ × ν),
      (l.map fun x => if x.1 = k then (x.1, f x.2) else x).lookup k' =
        if k' = k then (l.lookup k').map f else l.lookup k' := by
    intro l
    induction l with
    | nil => simp
    | cons x l ih =>
        rw [List.map_cons, List.lookup_cons, List.lookup_cons, ih]
        by_cases hx : x.1 = k
        · by_cases hk : k' = k
          · simp [hx, hk]
          · have hbeq : (k' == k) = false := by simpa using hk
            simp [hx, hk, hbeq]
        · by_cases hk : k' = k
          · have hbeq : (k == x.1) = false := by simpa using fun h : k = x.1 => hx h.symm
            simp [hx, hk, hbeq]
          · simp [hx, hk]
  exact hlookup m.entries

variable {m k k'}

omit [DecidableEq κ] in
theorem size_retain_le (p : κ → ν → Bool) : (m.retain p).size ≤ m.size :=
  List.length_filter_le ..

/-- The entries are what the keys are mapped to. -/
theorem mem_entries {v : ν} : (k, v) ∈ m.entries ↔ m.get? k = some v := by
  constructor
  · intro hx
    obtain ⟨before, after, hsplit⟩ := List.append_of_mem hx
    have hnodup := m.nodup
    rw [hsplit, List.map_append, List.map_cons, List.nodup_append] at hnodup
    refine List.lookup_eq_some_iff.2 ⟨before, after, hsplit, fun y hy => ?_⟩
    have hne : y.1 ≠ k := hnodup.2.2 y.1 (List.mem_map_of_mem hy) k List.mem_cons_self
    simpa using fun heq : k = y.1 => hne heq.symm
  · intro hget
    obtain ⟨before, after, hsplit, -⟩ := List.lookup_eq_some_iff.1 hget
    simp [hsplit]

/-- A condition that every entry meets keeps the map. -/
theorem retain_eq_self {p : κ → ν → Bool} (h : ∀ k v, m.get? k = some v → p k v = true) :
    m.retain p = m := by
  have hentries : m.entries.filter (fun x => p x.1 x.2) = m.entries :=
    List.filter_eq_self.2 fun x hx => h x.1 x.2 (mem_entries.1 hx)
  cases m
  simpa [retain] using hentries

theorem size_erase_le : (m.erase k).size ≤ m.size := size_retain_le _

/-- Writing a new key adds one. -/
theorem size_insert_of_none (h : m.get? k = none) (v : ν) : (m.insert k v).size = m.size + 1 := by
  have herase : m.erase k = m := by
    refine retain_eq_self fun k' v' hget => ?_
    simpa using fun heq : k' = k => by
      rw [heq, h] at hget
      cases hget
  rw [size, insert, List.length_cons, herase]
  rfl

theorem size_insert_le (v : ν) : (m.insert k v).size ≤ m.size + 1 :=
  Nat.succ_le_succ size_erase_le

theorem get?_foldl_erase_of_not_mem {ks : List κ} (h : k ∉ ks) :
    (ks.foldl erase m).get? k = m.get? k := by
  induction ks generalizing m with
  | nil => rfl
  | cons x ks ih =>
      rw [List.mem_cons, not_or] at h
      rw [List.foldl_cons, ih h.2, get?_erase, if_neg h.1]

theorem get?_foldl_erase_of_mem {ks : List κ} (h : k ∈ ks) :
    (ks.foldl erase m).get? k = none := by
  induction ks generalizing m with
  | nil => cases h
  | cons x ks ih =>
      rw [List.foldl_cons]
      by_cases hks : k ∈ ks
      · exact ih hks
      · have hx : k = x := (List.mem_cons.1 h).resolve_right hks
        rw [get?_foldl_erase_of_not_mem hks, get?_erase, if_pos hx]

theorem size_foldl_erase_le (ks : List κ) : (ks.foldl erase m).size ≤ m.size := by
  induction ks generalizing m with
  | nil => exact Nat.le_refl _
  | cons x ks ih => exact Nat.le_trans ih size_erase_le

@[simp] theorem size_modify (f : ν → ν) : (m.modify k f).size = m.size := List.length_map ..

end KeyMap

end Lib
end Hextet
