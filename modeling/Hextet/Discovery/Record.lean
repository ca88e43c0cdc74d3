/-
# Rendezvous records

`crates/discovery/src/record.rs`.  A record carries the endpoints of a node and a coarse
time.  It is written as JSON, encrypted with a random nonce, and the nonce stands in front
of the ciphertext.  The JSON and AEAD crates are outside the repository: `RecordCrates` has
one arbitrary function for each of their functions that a record goes through.

A record is read back from its sealed form (`openRecord_sealRecord`).  The sealed form is
28 bytes longer than the JSON text (`length_sealRecord`), whose size is a sum over the
endpoints (`RecordPayload.size_compactJson`).
-/

import Hextet.Core.InviteToken

namespace Hextet

open Lib

variable {ε : Type}

/-- `RecordPayload`. -/
structure RecordPayload where
  endpoints : List SocketAddrV6
  epoch : UInt64
  deriving DecidableEq

/-- The endpoints have no flow information, which their text leaves out. -/
def RecordPayload.NoFlow (p : RecordPayload) : Prop := ∀ e ∈ p.endpoints, e.flowinfo = 0

/-- `serde_json` and `chacha20poly1305`, as `seal` and `open` use them. -/
structure RecordCrates (ε : Type) where
  /-- `serde_json::to_vec`. -/
  toVec : RecordPayload → Except ε (List UInt8)
  /-- `serde_json::from_slice`. -/
  fromSlice : List UInt8 → Except ε RecordPayload
  /-- `ChaCha20Poly1305::encrypt`, of a key, a nonce and a plaintext. -/
  encrypt : Bytes 32 → Bytes 12 → List UInt8 → Option (List UInt8)
  /-- `ChaCha20Poly1305::decrypt`. -/
  decrypt : Bytes 32 → Bytes 12 → List UInt8 → Option (List UInt8)

/-- The errors of `seal`, `open`, `render_record` and `parse_record`. -/
inductive RecordError (ε : Type) where
  | serialize (e : ε)
  | encrypt
  | tooShort
  | decrypt
  | deserialize (e : ε)
  | missingPrefix
  | invalidBase64
  deriving DecidableEq

/-- `seal`, with the nonce that the generator gave. -/
def sealRecord (X : RecordCrates ε) (key : Bytes 32) (nonce : Bytes 12) (payload : RecordPayload) :
    Except (RecordError ε) (List UInt8) := do
  let json ← (X.toVec payload).mapError .serialize
  match X.encrypt key nonce json with
  | some ct => return nonce.1 ++ ct
  | none => throw .encrypt

/-- `open`. -/
def openRecord (X : RecordCrates ε) (key : Bytes 32) (sealed : List UInt8) :
    Except (RecordError ε) RecordPayload :=
  if h : sealed.length < 12 + 16 then .error .tooShort
  else
    match X.decrypt key ⟨sealed.take 12, by simp; omega⟩ (sealed.drop 12) with
    | some plain => (X.fromSlice plain).mapError .deserialize
    | none => .error .decrypt

/-- `epoch_of`. -/
def epochOf (unixSecs : UInt64) : UInt64 := unixSecs / 3600

/-- `usable_endpoints`. -/
def usableEndpoints (addrs : List Ipv6Addr) (port : UInt16) : List SocketAddrV6 :=
  if port = 0 then [] else (addrs.filter isUsableEndpointAddr).map fun a => ⟨a, port, 0, 0⟩

/-- The text of a record, as `serde_json::to_vec` writes a structure. -/
def RecordPayload.compactJson (p : RecordPayload) : List Char :=
  Json.object
    [("endpoints", Json.array (p.endpoints.map fun e => Json.quote e.display)),
      ("epoch", Nat.toDigits 10 p.epoch.toNat)]

/-! ### The sealed form -/

variable {X : RecordCrates ε} {key : Bytes 32} {nonce : Bytes 12} {payload : RecordPayload}
  {sealed : List UInt8}

theorem sealRecord_eq_ok_iff :
    sealRecord X key nonce payload = .ok sealed ↔
      ∃ json ct, X.toVec payload = .ok json ∧ X.encrypt key nonce json = some ct ∧
        sealed = nonce.1 ++ ct := by
  unfold sealRecord
  cases hjson : X.toVec payload with
  | error e => simp [Except.mapError, bind, Except.bind]
  | ok json =>
      cases hct : X.encrypt key nonce json with
      | none => simp [Except.mapError, bind, Except.bind, hct, throw, throwThe, MonadExceptOf.throw]
      | some ct =>
          simp [Except.mapError, bind, Except.bind, hct, pure, Except.pure, eq_comm]

/-- **A sealed record is 28 bytes longer than its text**: the nonce and the tag. -/
theorem length_sealRecord
    (hjson : ∀ p, X.toVec p = .ok (Json.utf8 p.compactJson))
    (htag : ∀ key nonce m c, X.encrypt key nonce m = some c → c.length = m.length + 16)
    (h : sealRecord X key nonce payload = .ok sealed) :
    sealed.length = Json.size payload.compactJson + 28 := by
  obtain ⟨json, ct, hvec, hct, rfl⟩ := sealRecord_eq_ok_iff.1 h
  rw [hjson payload] at hvec
  obtain rfl := Except.ok.inj hvec
  rw [List.length_append, nonce.2, htag key nonce _ ct hct, Json.length_utf8]
  omega

/-- **A sealed record is read back** with its key. -/
theorem openRecord_sealRecord
    (hjson : ∀ p json, p.NoFlow → X.toVec p = .ok json → X.fromSlice json = .ok p)
    (htag : ∀ key nonce m c, X.encrypt key nonce m = some c → c.length = m.length + 16)
    (haead : ∀ key nonce m c, X.encrypt key nonce m = some c → X.decrypt key nonce c = some m)
    (hflow : payload.NoFlow) (h : sealRecord X key nonce payload = .ok sealed) :
    openRecord X key sealed = .ok payload := by
  obtain ⟨json, ct, hvec, hct, rfl⟩ := sealRecord_eq_ok_iff.1 h
  have hlen : ¬(nonce.1 ++ ct).length < 12 + 16 := by
    rw [List.length_append, nonce.2, htag key nonce _ ct hct]
    omega
  have htake : (nonce.1 ++ ct).take 12 = nonce.1 := List.take_left' nonce.2
  have hdrop : (nonce.1 ++ ct).drop 12 = ct := List.drop_left' nonce.2
  have hnonce : (⟨(nonce.1 ++ ct).take 12, by rw [htake, nonce.2]⟩ : Bytes 12) = nonce :=
    Subtype.ext htake
  rw [openRecord, dif_neg hlen]
  simp only [hnonce, hdrop, haead key nonce _ ct hct, hjson payload json hflow hvec,
    Except.mapError]

/-- What is published has no flow information. -/
theorem noFlow_usableEndpoints (addrs : List Ipv6Addr) (port : UInt16) (n : ℕ) (epoch : UInt64) :
    (⟨(usableEndpoints addrs port).take n, epoch⟩ : RecordPayload).NoFlow := by
  intro e he
  have hmem := List.mem_of_mem_take he
  unfold usableEndpoints at hmem
  split_ifs at hmem
  · cases hmem
  · obtain ⟨a, -, rfl⟩ := List.mem_map.1 hmem
    rfl

/-- What is published is usable, on the given port. -/
theorem mem_usableEndpoints {addrs : List Ipv6Addr} {port : UInt16} {e : SocketAddrV6}
    (h : e ∈ usableEndpoints addrs port) :
    isUsableEndpointAddr e.ip = true ∧ e.ip ∈ addrs ∧ e.port = port ∧ e.scopeId = 0 := by
  unfold usableEndpoints at h
  split_ifs at h with hport
  · cases h
  · obtain ⟨a, ha, rfl⟩ := List.mem_map.1 h
    exact ⟨(List.mem_filter.1 ha).2, (List.mem_filter.1 ha).1, rfl, rfl⟩

/-! ### The size of the text -/

/-- Hexadecimal digits are plain characters of one byte. -/
theorem plain_digitChar {d : ℕ} (h : d < 16) :
    Json.shortEscape (Nat.digitChar d) = none ∧ 32 ≤ (Nat.digitChar d).toNat ∧
      (Nat.digitChar d).utf8Size = 1 := by
  have hdigit : ∀ d : Fin 16, Json.shortEscape (Nat.digitChar d) = none ∧
      32 ≤ (Nat.digitChar d).toNat ∧ (Nat.digitChar d).utf8Size = 1 := by decide
  exact hdigit ⟨d, h⟩

theorem plain_of_mem_toDigits {n : ℕ} {c : Char} (h : c ∈ Nat.toDigits 10 n) :
    Json.shortEscape c = none ∧ 32 ≤ c.toNat ∧ c.utf8Size = 1 := by
  obtain ⟨ds, hds, htext, -⟩ := exists_digits (show 1 < 10 by decide) n
  rw [htext] at h
  obtain ⟨d, hd, rfl⟩ := List.mem_map.1 h
  have hlt := hds d hd
  exact plain_digitChar (by omega)

/-- A socket address is written without escapes. -/
theorem SocketAddrV6.plain_of_mem_display {e : SocketAddrV6} {c : Char} (h : c ∈ e.display) :
    Json.shortEscape c = none ∧ 32 ≤ c.toNat ∧ c.utf8Size = 1 := by
  have hall : ['[', ']', ':', '.', '%'].all (fun c => decide (Json.shortEscape c = none ∧
      32 ≤ c.toNat ∧ c.utf8Size = 1)) = true := by decide
  have hpunct : ∀ c ∈ ['[', ']', ':', '.', '%'], Json.shortEscape c = none ∧ 32 ≤ c.toNat ∧
      c.utf8Size = 1 := fun c hc => of_decide_eq_true (List.all_eq_true.1 hall c hc)
  simp only [display, List.cons_append, List.mem_cons, List.mem_append, List.not_mem_nil,
    or_false] at h
  rcases h with rfl | ((h | h) | rfl | rfl) | h
  · exact hpunct _ (by simp)
  · rcases e.ip.mem_display h with (rfl | ⟨d, hd, rfl⟩) | ⟨-, rfl⟩
    · exact hpunct _ (by simp)
    · exact plain_digitChar hd
    · exact hpunct _ (by simp)
  · split_ifs at h
    · cases h
    · rcases List.mem_cons.1 h with rfl | h
      · exact hpunct _ (by simp)
      · exact plain_of_mem_toDigits h
  · exact hpunct _ (by simp)
  · exact hpunct _ (by simp)
  · exact plain_of_mem_toDigits h

/-- **A socket address without a zone takes at most 47 characters.** -/
theorem SocketAddrV6.length_display_le {e : SocketAddrV6} (h : e.scopeId = 0) :
    e.display.length ≤ 47 := by
  have hip := e.ip.length_display_le
  have hport : (Nat.toDigits 10 e.port.toNat).length ≤ 5 :=
    (Nat.length_toDigits_le_iff (by decide) (by decide)).2 (e.port.toNat_lt.trans (by decide))
  simp only [display, if_pos h, List.append_nil, List.cons_append, List.length_cons,
    List.length_append, List.length_nil]
  omega

namespace RecordPayload

/-- **The size of the text of a record**: two more than the text of each endpoint, a comma
between two of them, the digits of the epoch, and 25 for the rest. -/
theorem size_compactJson (p : RecordPayload) :
    Json.size p.compactJson = 25 + (p.endpoints.map fun e => e.display.length + 2).sum +
      (p.endpoints.length - 1) + (Nat.toDigits 10 p.epoch.toNat).length := by
  have hends : Json.escapedSize "endpoints".toList = 9 := by decide
  have hepoch : Json.escapedSize "epoch".toList = 5 := by decide
  have hquote : ∀ e : SocketAddrV6, Json.size (Json.quote e.display) = e.display.length + 2 :=
    fun e => by rw [Json.size_quote, Json.escapedSize_eq_length fun c => e.plain_of_mem_display]
  rw [compactJson, Json.size_object]
  simp only [List.map_cons, List.map_nil, List.sum_cons, List.sum_nil, Json.size_array,
    size_toDigits, List.map_map, Function.comp_def, hquote, List.length_map, List.length_cons,
    List.length_nil, hends, hepoch]
  omega

/-- **A record of `n` endpoints takes at most `45 + 50 n` bytes.** -/
theorem size_compactJson_le {p : RecordPayload} (h : ∀ e ∈ p.endpoints, e.scopeId = 0) :
    Json.size p.compactJson ≤ 45 + 50 * p.endpoints.length := by
  have hepoch : (Nat.toDigits 10 p.epoch.toNat).length ≤ 20 :=
    (Nat.length_toDigits_le_iff (by decide) (by decide)).2 (p.epoch.toNat_lt.trans (by decide))
  have hsum : (p.endpoints.map fun e => e.display.length + 2).sum ≤ p.endpoints.length • 49 := by
    have hle := List.sum_le_card_nsmul (p.endpoints.map fun e => e.display.length + 2) 49
    rw [List.length_map] at hle
    refine hle fun n hn => ?_
    obtain ⟨e, he, rfl⟩ := List.mem_map.1 hn
    have := e.length_display_le (h e he)
    omega
  rw [Nat.nsmul_eq_mul] at hsum
  rw [size_compactJson]
  omega

end RecordPayload

end Hextet
