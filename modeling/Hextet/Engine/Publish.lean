/-
# Publishing the own record

`publish_own` of `crates/engine/src/ddns.rs` and of `crates/engine/src/dht.rs`, and
`DhtClient::publish`.  Both enumerate the local addresses, keep the usable ones and cut the
list, at two endpoints for a TXT string and at eight for a DHT item.  A TXT string holds 255
bytes and a DHT item 1000; nothing checks the value against these before it is sent.

What goes in is bounded in every part: an endpoint has 47 characters at most, the epoch 20
digits.  The value therefore always fits (`published_fit`).
-/

import Hextet.Discovery.Ddns

namespace Hextet

open Lib

variable {ε : Type} {C : Crypto}

/-- What `publish_own` reads of `DdnsConfig`. -/
structure DdnsConfig where
  ddnsKey : Bytes 32
  listenPort : UInt16
  fqdn : Option (List Char)
  /-- Whether there is an updater. -/
  updater : Bool

/-- `MAX_PUBLISHED_ENDPOINTS` of `ddns.rs`. -/
def ddnsMaxPublishedEndpoints : ℕ := 2

/-- `publish_own` of `ddns.rs`: the name and the value that `set_txt` is called with, if it is.
`addrs` is the answer of `list_global_ipv6`, the nonce is drawn by `seal`. -/
def ddnsPublishOwn (X : RecordCrates ε) (cfg : DdnsConfig) (addrs : Option (List Ipv6Addr))
    (nowUnix : UInt64) (nonce : Bytes 12) : Option (List Char × List Char) :=
  match cfg.fqdn, cfg.updater, addrs with
  | some fqdn, true, some addrs =>
      let usable := usableEndpoints addrs cfg.listenPort
      if usable.isEmpty then none
      else
        let endpoints := usable.take ddnsMaxPublishedEndpoints
        match renderRecord X cfg.ddnsKey nonce ⟨endpoints, epochOf nowUnix⟩ with
        | .ok value => some (fqdn, value)
        | .error _ => none
  | _, _, _ => none

/-- What `publish_own` reads of `DhtConfig`. -/
structure DhtConfig (C : Crypto) where
  ownPublic : NodePublicKey C
  listenPort : UInt16

/-- `MAX_PUBLISHED_ENDPOINTS` of `dht.rs`. -/
def dhtMaxPublishedEndpoints : ℕ := 8

/-- `publish_own` of `dht.rs`: what `DhtClient::publish` is called with, if it is. -/
def dhtPublishOwn (cfg : DhtConfig C) (addrs : Option (List Ipv6Addr)) (nowUnix : UInt64) :
    Option (NodePublicKey C × List SocketAddrV6 × UInt64) :=
  match addrs with
  | none => none
  | some addrs =>
      if addrs.isEmpty then none
      else
        let endpoints := (usableEndpoints addrs cfg.listenPort).take dhtMaxPublishedEndpoints
        if endpoints.isEmpty then none else some (cfg.ownPublic, endpoints, epochOf nowUnix)

/-- The item that `DhtClient::publish` puts, with the number it must replace. -/
structure MutableItem where
  value : List UInt8
  seq : ℤ
  cas : Option ℤ
  deriving DecidableEq

/-- The errors of `DhtClient::publish` before the item is put. -/
inductive DhtPublishError (ε : Type) where
  | record (e : RecordError ε)
  | seqExhausted
  deriving DecidableEq

/-- `DhtClient::publish`; `recent` is the number of the most recent item found, an `i64`. -/
def dhtPublish (X : RecordCrates ε) (dhtKey : Bytes 32) (nonce : Bytes 12) (recent : Option ℤ)
    (endpoints : List SocketAddrV6) (epoch : UInt64) : Except (DhtPublishError ε) MutableItem :=
  match sealRecord X dhtKey nonce ⟨endpoints, epoch⟩ with
  | .error e => .error (.record e)
  | .ok value =>
      match recent with
      | some seq =>
          if seq < 2 ^ 63 - 1 then .ok ⟨value, seq + 1, some seq⟩ else .error .seqExhausted
      | none => .ok ⟨value, 1, none⟩

/-! ### Sizes -/

section

variable {X : RecordCrates ε}

/-- **A sealed record of `n` endpoints without zones takes at most `73 + 50 n` bytes.** -/
theorem length_sealRecord_le (hjson : ∀ p, X.toVec p = .ok (Json.utf8 p.compactJson))
    (htag : ∀ key nonce m c, X.encrypt key nonce m = some c → c.length = m.length + 16)
    {key : Bytes 32} {nonce : Bytes 12} {p : RecordPayload} {sealed : List UInt8}
    (hscope : ∀ e ∈ p.endpoints, e.scopeId = 0) (h : sealRecord X key nonce p = .ok sealed) :
    sealed.length ≤ 73 + 50 * p.endpoints.length := by
  have hlen := length_sealRecord hjson htag h
  have hsize := RecordPayload.size_compactJson_le hscope
  omega

/-- A text in the URL-safe alphabet behind the prefix, in bytes. -/
theorem size_ddnsText (sealed : List UInt8) :
    Json.size (ddnsPrefix ++ urlEncode sealed) = 6 + (4 * sealed.length + 2) / 3 := by
  have hprefix : Json.size ddnsPrefix = 6 := by decide
  rw [Json.size_append, hprefix,
    Json.size_eq_length fun c hc => (plain_of_mem_urlEncode hc).2.2.2, length_urlEncode]

theorem scopeId_of_mem_take {addrs : List Ipv6Addr} {port : UInt16} {n : ℕ} :
    ∀ e ∈ (usableEndpoints addrs port).take n, e.scopeId = 0 := fun _ he =>
  (mem_usableEndpoints (List.mem_of_mem_take he)).2.2.2

theorem ddnsPublishOwn_eq_some {cfg : DdnsConfig} {addrs : Option (List Ipv6Addr)}
    {nowUnix : UInt64} {nonce : Bytes 12} {fqdn value : List Char}
    (h : ddnsPublishOwn X cfg addrs nowUnix nonce = some (fqdn, value)) :
    ∃ addrs' sealed, addrs = some addrs' ∧ value = ddnsPrefix ++ urlEncode sealed ∧
      sealRecord X cfg.ddnsKey nonce
        ⟨(usableEndpoints addrs' cfg.listenPort).take ddnsMaxPublishedEndpoints,
          epochOf nowUnix⟩ = .ok sealed := by
  unfold ddnsPublishOwn at h
  split at h
  · rename_i addrs' _ _
    simp only [renderRecord] at h
    split_ifs at h
    cases hsealed : sealRecord X cfg.ddnsKey nonce
        ⟨(usableEndpoints addrs' cfg.listenPort).take ddnsMaxPublishedEndpoints,
          epochOf nowUnix⟩ with
    | error e =>
        rw [hsealed] at h
        cases h
    | ok sealed =>
        rw [hsealed] at h
        cases h
        exact ⟨addrs', sealed, rfl, rfl, hsealed⟩
  · cases h

theorem dhtPublishOwn_eq_some {cfg : DhtConfig C} {addrs : Option (List Ipv6Addr)}
    {nowUnix : UInt64} {node : NodePublicKey C} {endpoints : List SocketAddrV6} {epoch : UInt64}
    (h : dhtPublishOwn cfg addrs nowUnix = some (node, endpoints, epoch)) :
    ∃ addrs', addrs = some addrs' ∧
      endpoints = (usableEndpoints addrs' cfg.listenPort).take dhtMaxPublishedEndpoints := by
  unfold dhtPublishOwn at h
  cases addrs with
  | none => cases h
  | some addrs' =>
      simp only at h
      split_ifs at h
      cases h
      exact ⟨addrs', rfl, rfl⟩

theorem value_of_dhtPublish {key : Bytes 32} {nonce : Bytes 12} {recent : Option ℤ}
    {endpoints : List SocketAddrV6} {epoch : UInt64} {item : MutableItem}
    (h : dhtPublish X key nonce recent endpoints epoch = .ok item) :
    sealRecord X key nonce ⟨endpoints, epoch⟩ = .ok item.value := by
  unfold dhtPublish at h
  cases hsealed : sealRecord X key nonce ⟨endpoints, epoch⟩ with
  | error e =>
      rw [hsealed] at h
      cases h
  | ok value =>
      rw [hsealed] at h
      cases recent with
      | none =>
          cases h
          rfl
      | some seq =>
          simp only at h
          split_ifs at h
          cases h
          rfl

/-- **What is published always fits.**  For any local addresses, port and time, if JSON is
written compactly and encryption adds a tag of 16 bytes: the TXT string has at most 255 bytes,
and the value of the DHT item, of at most eight endpoints, at most 1000. -/
theorem published_fit (hjson : ∀ p, X.toVec p = .ok (Json.utf8 p.compactJson))
    (htag : ∀ key nonce m c, X.encrypt key nonce m = some c → c.length = m.length + 16)
    (addrs : Option (List Ipv6Addr)) (nowUnix : UInt64) (nonce : Bytes 12) :
    (∀ (cfg : DdnsConfig) (fqdn value : List Char),
        ddnsPublishOwn X cfg addrs nowUnix nonce = some (fqdn, value) →
          (Json.utf8 value).length ≤ 255) ∧
      ∀ (cfg : DhtConfig C) (node : NodePublicKey C) (endpoints : List SocketAddrV6)
        (epoch : UInt64), dhtPublishOwn cfg addrs nowUnix = some (node, endpoints, epoch) →
          endpoints.length ≤ 8 ∧
            ∀ (key : Bytes 32) (recent : Option ℤ) (item : MutableItem),
              dhtPublish X key nonce recent endpoints epoch = .ok item →
                item.value.length ≤ 1000 := by
  constructor
  · intro cfg fqdn value h
    obtain ⟨addrs', sealed, -, rfl, hsealed⟩ := ddnsPublishOwn_eq_some h
    have hlen := length_sealRecord_le hjson htag scopeId_of_mem_take hsealed
    have hcount : ((usableEndpoints addrs' cfg.listenPort).take ddnsMaxPublishedEndpoints).length ≤
        2 := List.length_take_le ..
    rw [Json.length_utf8, size_ddnsText]
    simp only at hlen
    omega
  · intro cfg node endpoints epoch h
    obtain ⟨addrs', -, rfl⟩ := dhtPublishOwn_eq_some h
    have hcount : ((usableEndpoints addrs' cfg.listenPort).take dhtMaxPublishedEndpoints).length ≤
        8 := List.length_take_le ..
    refine ⟨hcount, fun key recent item hitem => ?_⟩
    have hlen := length_sealRecord_le hjson htag scopeId_of_mem_take (value_of_dhtPublish hitem)
    simp only at hlen
    omega

end

/-- Crates that write compact JSON and append a tag of zeros. -/
def RecordCrates.plain : RecordCrates Unit where
  toVec p := .ok (Json.utf8 p.compactJson)
  fromSlice _ := .error ()
  encrypt _ _ m := some (m ++ List.replicate 16 0)
  decrypt _ _ c := some (c.take (c.length - 16))

/-- A node at `2001:db8::1` publishes to both. -/
theorem published_fit_plain :
    (∃ value, ddnsPublishOwn .plain ⟨⟨List.replicate 32 0, rfl⟩, 4193, some ['n'], true⟩
        (some [plainAddr]) 1770000000 ⟨List.replicate 12 0, rfl⟩ = some (['n'], value) ∧
          (Json.utf8 value).length ≤ 255) ∧
      ∃ endpoints epoch item,
        dhtPublishOwn ⟨plainKey 1 0, 4193⟩ (some [plainAddr]) 1770000000 =
            some (plainKey 1 0, endpoints, epoch) ∧
          dhtPublish .plain ⟨List.replicate 32 0, rfl⟩ ⟨List.replicate 12 0, rfl⟩ none endpoints
            epoch = .ok item ∧ item.value.length ≤ 1000 := by
  have hfit := @published_fit Unit Crypto.plain .plain (fun _ => rfl)
    (fun _ _ m c h => by
      obtain rfl := Option.some.inj h
      simp)
    (some [plainAddr]) 1770000000 ⟨List.replicate 12 0, rfl⟩
  have husable : usableEndpoints [plainAddr] 4193 = [⟨plainAddr, 4193, 0, 0⟩] := by decide
  obtain ⟨value, hvalue⟩ : ∃ value,
      ddnsPublishOwn .plain ⟨⟨List.replicate 32 0, rfl⟩, 4193, some ['n'], true⟩ (some [plainAddr])
        1770000000 ⟨List.replicate 12 0, rfl⟩ = some (['n'], value) := ⟨_, rfl⟩
  refine ⟨⟨value, hvalue, hfit.1 _ _ _ hvalue⟩, ?_⟩
  have hown : dhtPublishOwn ⟨plainKey 1 0, 4193⟩ (some [plainAddr]) 1770000000 =
      some (plainKey 1 0, [⟨plainAddr, 4193, 0, 0⟩], epochOf 1770000000) := by
    simp [dhtPublishOwn, husable, dhtMaxPublishedEndpoints]
  obtain ⟨item, hitem⟩ : ∃ item,
      dhtPublish .plain ⟨List.replicate 32 0, rfl⟩ ⟨List.replicate 12 0, rfl⟩ none
        [⟨plainAddr, 4193, 0, 0⟩] (epochOf 1770000000) = .ok item := ⟨_, rfl⟩
  exact ⟨_, _, item, hown, hitem, (hfit.2 _ _ _ _ hown).2 _ none item hitem⟩

end Hextet
