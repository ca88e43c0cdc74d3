/-
# What a lookup finds

`DhtClient::lookup` of `crates/discovery/src/client.rs`, and `select_endpoints` on what was
published to DNS.  A node publishes the usable ones of its addresses, at most eight to the DHT
and at most two to DNS, and its readers keep the usable ones of those they find.  The DHT and
the DNS are outside the repository: whichever item a query returns and whatever other strings
the name has, an item or a string that `publish_own` has made gives the addresses that it was
made from (`published_found`).
-/

import Hextet.Engine.Publish

namespace Hextet

open Lib

variable {ε : Type} {C : Crypto}

/-- `DhtClient::lookup`, with the value of the most recent item found. -/
def dhtLookup (X : RecordCrates ε) (dhtKey : Bytes 32) (recent : Option (List UInt8)) :
    Except (RecordError ε) (List SocketAddrV6) :=
  match recent with
  | some value =>
      (openRecord X dhtKey value).map fun payload => payload.endpoints.filter isUsableEndpoint
  | none => .ok []

/-- What was published as usable is kept by the readers. -/
theorem filter_usableEndpoints (addrs : List Ipv6Addr) (port : UInt16) (n : ℕ) :
    ((usableEndpoints addrs port).take n).filter isUsableEndpoint =
      (usableEndpoints addrs port).take n := by
  refine List.filter_eq_self.2 fun e he => ?_
  have hmem := List.mem_of_mem_take he
  obtain ⟨husable, -, hport, -⟩ := mem_usableEndpoints hmem
  have hne : port ≠ 0 := fun h0 => by
    rw [usableEndpoints, if_pos h0] at hmem
    cases hmem
  rw [isUsableEndpoint, husable, hport, bne_iff_ne.2 hne]
  rfl

/-- **A lookup finds the addresses that were published.**  A node publishes its addresses to
the DHT, whatever number the most recent item had that it found: of the item that it puts,
`lookup` returns the first eight usable ones.  And of the TXT strings of a name, in whatever
number, `select_endpoints` returns the first two usable ones of those published with the string
of the greatest epoch, if that is the first string of this epoch. -/
theorem published_found {X : RecordCrates ε}
    (hjson : ∀ p json, p.NoFlow → X.toVec p = .ok json → X.fromSlice json = .ok p)
    (htag : ∀ key nonce m c, X.encrypt key nonce m = some c → c.length = m.length + 16)
    (haead : ∀ key nonce m c, X.encrypt key nonce m = some c → X.decrypt key nonce c = some m) :
    (∀ (cfg : DhtConfig C) (addrs : List Ipv6Addr) (nowUnix : UInt64) (node : NodePublicKey C)
        (endpoints : List SocketAddrV6) (epoch : UInt64),
      dhtPublishOwn cfg (some addrs) nowUnix = some (node, endpoints, epoch) →
        ∀ (dhtKey : Bytes 32) (nonce : Bytes 12) (recent : Option ℤ) (item : MutableItem),
          dhtPublish X dhtKey nonce recent endpoints epoch = .ok item →
            dhtLookup X dhtKey (some item.value) =
              .ok ((usableEndpoints addrs cfg.listenPort).take 8)) ∧
      ∀ (cfg : DdnsConfig) (addrs : List Ipv6Addr) (nowUnix : UInt64) (nonce : Bytes 12)
        (fqdn value : List Char),
        ddnsPublishOwn X cfg (some addrs) nowUnix nonce = some (fqdn, value) →
          ∀ before after : List (List Char),
            (∀ t ∈ before, ∀ q, parseRecord X cfg.ddnsKey t = .ok q → q.epoch < epochOf nowUnix) →
            (∀ t ∈ after, ∀ q, parseRecord X cfg.ddnsKey t = .ok q → q.epoch ≤ epochOf nowUnix) →
              selectEndpoints (parseRecord X cfg.ddnsKey) (before ++ value :: after) =
                (usableEndpoints addrs cfg.listenPort).take 2 := by
  constructor
  · intro cfg addrs nowUnix node endpoints epoch hown dhtKey nonce recent item hitem
    obtain ⟨addrs', haddrs, rfl⟩ := dhtPublishOwn_eq_some hown
    cases haddrs
    have hopened := openRecord_sealRecord hjson htag haead (noFlow_usableEndpoints _ _ _ _)
      (value_of_dhtPublish hitem)
    simp only [dhtLookup, hopened, Except.map, filter_usableEndpoints]
    rfl
  · intro cfg addrs nowUnix nonce fqdn value hpublished before after hbefore hafter
    obtain ⟨addrs', sealed, haddrs, rfl, hsealed⟩ := ddnsPublishOwn_eq_some hpublished
    cases haddrs
    have hparse : parseRecord X cfg.ddnsKey (ddnsPrefix ++ urlEncode sealed) = .ok _ :=
      parseRecord_renderRecord hjson htag haead (noFlow_usableEndpoints _ _ _ _)
        (by rw [renderRecord, hsealed]; rfl)
    rw [selectEndpoints_of_newest ⟨before, _, after, rfl, hparse, hbefore, hafter⟩]
    exact filter_usableEndpoints addrs cfg.listenPort 2

/-- The crates, on one record. -/
def RecordCrates.only (p : RecordPayload) : RecordCrates Unit where
  toVec q := if q = p then .ok (Json.utf8 p.compactJson) else .error ()
  fromSlice b := if b = Json.utf8 p.compactJson then .ok p else .error ()
  encrypt _ _ m := some (m ++ List.replicate 16 0)
  decrypt _ _ c := some (c.take (c.length - 16))

/-- The record of node 1. -/
def plainPayload : RecordPayload := ⟨[⟨plainAddr, 4193, 0, 0⟩], epochOf 1770000000⟩

theorem fromSlice_only {p q : RecordPayload} {json : List UInt8}
    (h : (RecordCrates.only p).toVec q = .ok json) :
    (RecordCrates.only p).fromSlice json = .ok q := by
  simp only [RecordCrates.only] at h ⊢
  split_ifs at h with hq
  obtain rfl := Except.ok.inj h
  rw [if_pos rfl, hq]

theorem length_encrypt_only (p : RecordPayload) (key : Bytes 32) (nonce : Bytes 12)
    (m c : List UInt8) (h : (RecordCrates.only p).encrypt key nonce m = some c) :
    c.length = m.length + 16 := by
  obtain rfl := Option.some.inj h
  rw [List.length_append, List.length_replicate]

theorem decrypt_only (p : RecordPayload) (key : Bytes 32) (nonce : Bytes 12) (m c : List UInt8)
    (h : (RecordCrates.only p).encrypt key nonce m = some c) :
    (RecordCrates.only p).decrypt key nonce c = some m := by
  obtain rfl := Option.some.inj h
  simp only [RecordCrates.only, List.length_append, List.length_replicate, Nat.add_sub_cancel,
    List.take_left]

/-- Both ways return the address. -/
theorem published_found_plain :
    (∃ item, dhtPublish (.only plainPayload) (zeros 32) (zeros 12) (some 6)
        [⟨plainAddr, 4193, 0, 0⟩] (epochOf 1770000000) = .ok item ∧
      dhtLookup (.only plainPayload) (zeros 32) (some item.value) =
        .ok ((usableEndpoints [plainAddr] 4193).take 8)) ∧
    ∃ value, ddnsPublishOwn (.only plainPayload) ⟨zeros 32, 4193, some ['n'], true⟩
        (some [plainAddr]) 1770000000 (zeros 12) = some (['n'], value) ∧
      selectEndpoints (parseRecord (.only plainPayload) (zeros 32)) [value] =
        (usableEndpoints [plainAddr] 4193).take 2 := by
  have hfound := published_found (C := Crypto.plain) (X := .only plainPayload)
    (fun _ _ _ h => fromSlice_only h) (length_encrypt_only _) (decrypt_only _)
  constructor
  · have hown : dhtPublishOwn ⟨plainKey 1 0, 4193⟩ (some [plainAddr]) 1770000000 =
        some (plainKey 1 0, [⟨plainAddr, 4193, 0, 0⟩], epochOf 1770000000) := by
      decide +kernel
    obtain ⟨item, hitem⟩ : ∃ item, dhtPublish (.only plainPayload) (zeros 32) (zeros 12) (some 6)
        [⟨plainAddr, 4193, 0, 0⟩] (epochOf 1770000000) = .ok item := ⟨_, rfl⟩
    exact ⟨item, hitem, hfound.1 _ _ _ _ _ _ hown _ _ _ item hitem⟩
  · have hsome : (ddnsPublishOwn (.only plainPayload) ⟨zeros 32, 4193, some ['n'], true⟩
        (some [plainAddr]) 1770000000 (zeros 12)).map Prod.fst = some ['n'] := by decide +kernel
    obtain ⟨⟨fqdn, value⟩, hpublished, rfl⟩ := Option.map_eq_some_iff.1 hsome
    exact ⟨value, hpublished, hfound.2 _ _ _ _ _ _ hpublished [] []
      (fun _ h => absurd h List.not_mem_nil) (fun _ h => absurd h List.not_mem_nil)⟩

end Hextet
