/-
# Records in DNS

`crates/discovery/src/ddns/mod.rs`.  A sealed record is written into a TXT string in
URL-safe base64 behind a prefix, and read back from it (`parseRecord_renderRecord`).  A
query returns any number of strings in any order, from whoever can answer for the domain;
`selectEndpoints` keeps the endpoints of one of them.

The loop is `List.argmax` of the epoch over the strings that parse (`selectBest_eq`), so the
result depends on the winning record alone (`selectEndpoints_newest`).
-/

import Hextet.Discovery.Record
import Hextet.Lib.ArgMax

namespace Hextet

open Lib

variable {ε : Type}

/-- `PREFIX`. -/
def ddnsPrefix : List Char := ['h', 'x', 'd', 'd', '1', '.']

/-- `render_record`. -/
def renderRecord (X : RecordCrates ε) (key : Bytes 32) (nonce : Bytes 12)
    (payload : RecordPayload) : Except (RecordError ε) (List Char) := do
  let sealed ← sealRecord X key nonce payload
  return ddnsPrefix ++ urlEncode sealed

/-- `parse_record`. -/
def parseRecord (X : RecordCrates ε) (key : Bytes 32) (text : List Char) :
    Except (RecordError ε) RecordPayload :=
  if ddnsPrefix.isPrefixOf text then
    match urlDecode (text.drop ddnsPrefix.length) with
    | some bytes => openRecord X key bytes
    | none => .error .invalidBase64
  else .error .missingPrefix

/-- One turn of the loop of `select_endpoints`. -/
def selectNext (parse : List Char → Except ε RecordPayload)
    (best : Option (UInt64 × List SocketAddrV6)) (s : List Char) :
    Option (UInt64 × List SocketAddrV6) :=
  match parse s with
  | .ok payload =>
      if best.all fun b => b.1 < payload.epoch then some (payload.epoch, payload.endpoints)
      else best
  | .error _ => best

/-- An endpoint that `select_endpoints` keeps. -/
def isUsableEndpoint (e : SocketAddrV6) : Bool := e.port != 0 && isUsableEndpointAddr e.ip

/-- `select_endpoints`, with `parse_record` under the key as a function. -/
def selectEndpoints (parse : List Char → Except ε RecordPayload) (txtStrings : List (List Char)) :
    List SocketAddrV6 :=
  let best := txtStrings.foldl (selectNext parse) none
  ((best.map Prod.snd).getD []).filter isUsableEndpoint

/-- **A record is read back from its TXT string.** -/
theorem parseRecord_renderRecord {X : RecordCrates ε} {key : Bytes 32} {nonce : Bytes 12}
    {payload : RecordPayload} {text : List Char}
    (hjson : ∀ p json, p.NoFlow → X.toVec p = .ok json → X.fromSlice json = .ok p)
    (htag : ∀ key nonce m c, X.encrypt key nonce m = some c → c.length = m.length + 16)
    (haead : ∀ key nonce m c, X.encrypt key nonce m = some c → X.decrypt key nonce c = some m)
    (hflow : payload.NoFlow) (h : renderRecord X key nonce payload = .ok text) :
    parseRecord X key text = .ok payload := by
  cases hsealed : sealRecord X key nonce payload with
  | error e =>
      rw [renderRecord, hsealed] at h
      cases h
  | ok sealed =>
      rw [renderRecord, hsealed] at h
      obtain rfl : ddnsPrefix ++ urlEncode sealed = text := Except.ok.inj h
      rw [parseRecord, if_pos (by simp), List.drop_left, urlDecode_urlEncode]
      exact openRecord_sealRecord hjson htag haead hflow hsealed

/-! ### Which record is selected -/

section

variable {parse : List Char → Except ε RecordPayload} {txts : List (List Char)}

/-- The strings that parse, as records. -/
def records (parse : List Char → Except ε RecordPayload) (txts : List (List Char)) :
    List RecordPayload :=
  txts.filterMap fun s => (parse s).toOption

omit parse txts in
theorem toOption_eq_some {x : Except ε RecordPayload} {p : RecordPayload} :
    x.toOption = some p ↔ x = .ok p := by
  cases x <;> simp [Except.toOption]

theorem mem_records {p : RecordPayload} :
    p ∈ records parse txts ↔ ∃ s ∈ txts, parse s = .ok p := by
  simp [records, List.mem_filterMap, toOption_eq_some]

theorem records_append (l l' : List (List Char)) :
    records parse (l ++ l') = records parse l ++ records parse l' := List.filterMap_append ..

theorem records_cons_of_ok {s : List Char} {p : RecordPayload} (h : parse s = .ok p)
    (l : List (List Char)) : records parse (s :: l) = p :: records parse l := by
  simp [records, h, Except.toOption]

/-- **The loop keeps the first record of the greatest epoch.** -/
theorem selectBest_eq (txts : List (List Char)) :
    txts.foldl (selectNext parse) none =
      ((records parse txts).argmax fun p => p.epoch.toNat).map fun p => (p.epoch, p.endpoints) := by
  induction txts using List.reverseRecOn with
  | nil => rfl
  | append_singleton txts s ih =>
      rw [List.foldl_append, ih, List.foldl_cons, List.foldl_nil, records_append, selectNext]
      cases hs : parse s with
      | error e => simp [records, hs, Except.toOption]
      | ok p =>
          rw [records_cons_of_ok hs, show records parse [] = [] from rfl, List.argmax_concat]
          cases hbest : (records parse txts).argmax fun p => p.epoch.toNat with
          | none => rfl
          | some q =>
              simp only [Option.map_some, Option.all_some, decide_eq_true_eq,
                UInt64.lt_iff_toNat_lt]
              split_ifs <;> rfl

theorem selectEndpoints_eq (txts : List (List Char)) :
    selectEndpoints parse txts =
      ((((records parse txts).argmax fun p => p.epoch.toNat).map RecordPayload.endpoints).getD
        []).filter isUsableEndpoint := by
  rw [selectEndpoints, selectBest_eq, Option.map_map]
  rfl

/-- The first string among those that parse and have the greatest epoch, as a record. -/
def Newest (parse : List Char → Except ε RecordPayload) (txts : List (List Char))
    (p : RecordPayload) : Prop :=
  ∃ before s after, txts = before ++ s :: after ∧ parse s = .ok p ∧
    (∀ t ∈ before, ∀ q, parse t = .ok q → q.epoch < p.epoch) ∧
      ∀ t ∈ after, ∀ q, parse t = .ok q → q.epoch ≤ p.epoch

/-- The greatest epoch occurs once. -/
def NewestOnce (parse : List Char → Except ε RecordPayload) (txts : List (List Char)) : Prop :=
  ∃ before s after p, txts = before ++ s :: after ∧ parse s = .ok p ∧
    ∀ t ∈ before ++ after, ∀ q, parse t = .ok q → q.epoch < p.epoch

/-- A string that does not parse, or whose epoch is smaller than that of another one. -/
def Noise (parse : List Char → Except ε RecordPayload) (txts : List (List Char))
    (s : List Char) : Prop :=
  ∀ p, parse s = .ok p → ∃ t ∈ txts, ∃ q, parse t = .ok q ∧ p.epoch < q.epoch

theorem newest_iff_firstGreatest {p : RecordPayload} :
    Newest parse txts p ↔ FirstGreatest (fun p => p.epoch.toNat) (records parse txts) p := by
  constructor
  · rintro ⟨before, s, after, rfl, hs, hbefore, hafter⟩
    refine ⟨records parse before, records parse after, ?_, fun q hq => ?_, fun q hq => ?_⟩
    · rw [records_append, records_cons_of_ok hs]
    · obtain ⟨t, ht, hparse⟩ := mem_records.1 hq
      exact UInt64.lt_iff_toNat_lt.1 (hbefore t ht q hparse)
    · obtain ⟨t, ht, hparse⟩ := mem_records.1 hq
      exact UInt64.le_iff_toNat_le.1 (hafter t ht q hparse)
  · rintro ⟨before, after, hsplit, hbefore, hafter⟩
    obtain ⟨l, l', rfl, rfl, hl'⟩ := List.filterMap_eq_append_iff.1 hsplit
    obtain ⟨skip, s, rest, rfl, hskip, hs, rfl⟩ := List.filterMap_eq_cons_iff.1 hl'
    refine ⟨l ++ skip, s, rest, by simp, toOption_eq_some.1 hs, fun t ht q hq => ?_,
      fun t ht q hq => ?_⟩
    · rcases List.mem_append.1 ht with ht | ht
      · exact UInt64.lt_iff_toNat_lt.2 (hbefore q (mem_records.2 ⟨t, ht, hq⟩))
      · have hnone := hskip t ht
        rw [toOption_eq_some.2 hq] at hnone
        cases hnone
    · exact UInt64.le_iff_toNat_le.2 (hafter q (mem_records.2 ⟨t, ht, hq⟩))

theorem selectEndpoints_of_newest {p : RecordPayload} (h : Newest parse txts p) :
    selectEndpoints parse txts = p.endpoints.filter isUsableEndpoint := by
  rw [selectEndpoints_eq, argmax_of_firstGreatest (newest_iff_firstGreatest.1 h)]
  rfl

theorem exists_newest {s : List Char} {p : RecordPayload} (hs : s ∈ txts) (hp : parse s = .ok p) :
    ∃ q, Newest parse txts q := by
  cases hbest : (records parse txts).argmax fun p => p.epoch.toNat with
  | none =>
      have hnil : records parse txts = [] := List.argmax_eq_none.1 hbest
      have hmem : p ∈ records parse txts := mem_records.2 ⟨s, hs, hp⟩
      rw [hnil] at hmem
      cases hmem
  | some q => exact ⟨q, newest_iff_firstGreatest.2 (firstGreatest_of_argmax hbest)⟩

theorem selectEndpoints_noise {before noise after : List (List Char)}
    (h : ∀ s ∈ noise, Noise parse (before ++ after) s) :
    selectEndpoints parse (before ++ noise ++ after) = selectEndpoints parse (before ++ after) := by
  have hbelow : ∀ p ∈ records parse noise, ∃ q ∈ records parse before ++ records parse after,
      p.epoch.toNat < q.epoch.toNat := by
    intro p hp
    obtain ⟨s, hs, hparse⟩ := mem_records.1 hp
    obtain ⟨t, ht, q, hq, hlt⟩ := h s hs p hparse
    rw [← records_append]
    exact ⟨q, mem_records.2 ⟨t, ht, hq⟩, UInt64.lt_iff_toNat_lt.1 hlt⟩
  rw [selectEndpoints_eq, selectEndpoints_eq, records_append, records_append, records_append,
    argmax_insert hbelow]

theorem selectEndpoints_perm {txts' : List (List Char)} (h : NewestOnce parse txts)
    (hperm : txts.Perm txts') : selectEndpoints parse txts' = selectEndpoints parse txts := by
  obtain ⟨before, s, after, p, rfl, hs, hothers⟩ := h
  have hrecords : records parse (before ++ s :: after) =
      records parse before ++ p :: records parse after := by
    rw [records_append, records_cons_of_ok hs]
  have hlt : ∀ q ∈ records parse before ++ records parse after,
      q.epoch.toNat < p.epoch.toNat := by
    intro q hq
    rw [← records_append] at hq
    obtain ⟨t, ht, hparse⟩ := mem_records.1 hq
    exact UInt64.lt_iff_toNat_lt.1 (hothers t ht q hparse)
  have hperm' : (records parse before ++ p :: records parse after).Perm (records parse txts') := by
    rw [← hrecords]
    exact hperm.filterMap _
  rw [selectEndpoints_eq, selectEndpoints_eq, hrecords, argmax_eq_of_perm hperm' hlt]

/-- **The result depends on the winning record alone.**  Whatever function parses: without a
string that parses nothing is returned; otherwise there is a first record of the greatest
epoch, and its usable endpoints are returned; strings that do not parse, or of a smaller
epoch, can be put in anywhere; and the order is irrelevant when the greatest epoch occurs
once. -/
theorem selectEndpoints_newest (parse : List Char → Except ε RecordPayload)
    (txts : List (List Char)) :
    ((∀ s ∈ txts, ∀ p, parse s ≠ .ok p) → selectEndpoints parse txts = []) ∧
      ((∃ s ∈ txts, ∃ p, parse s = .ok p) → ∃ p, Newest parse txts p ∧
        selectEndpoints parse txts =
          p.endpoints.filter fun e => e.port != 0 && isUsableEndpointAddr e.ip) ∧
      (∀ before noise after, txts = before ++ after → (∀ s ∈ noise, Noise parse txts s) →
        selectEndpoints parse (before ++ noise ++ after) = selectEndpoints parse txts) ∧
      ∀ txts', txts.Perm txts' → NewestOnce parse txts →
        selectEndpoints parse txts' = selectEndpoints parse txts := by
  refine ⟨fun hnone => ?_, fun hsome => ?_, ?_, fun txts' hperm honce => ?_⟩
  · have hnil : records parse txts = [] := List.eq_nil_iff_forall_not_mem.2 fun p hp => by
      obtain ⟨s, hs, hparse⟩ := mem_records.1 hp
      exact hnone s hs p hparse
    rw [selectEndpoints_eq, hnil]
    rfl
  · obtain ⟨s, hs, p, hp⟩ := hsome
    obtain ⟨q, hq⟩ := exists_newest hs hp
    exact ⟨q, hq, selectEndpoints_of_newest hq⟩
  · rintro before noise after rfl hnoise
    exact selectEndpoints_noise hnoise
  · exact selectEndpoints_perm honce hperm

end

end Hextet
