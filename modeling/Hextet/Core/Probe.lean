/-
# Doctor probes

`crates/core/src/probe.rs`.  A node asks another one to send a packet back, first as an
answer and then unasked from another port, to find out what its firewall lets in.  A probe
has a fixed length and is authenticated with a key that every member of the network
derives.

| offset | bytes | field |
| ---: | ---: | --- |
| 0 | 4 | magic `HXTP` |
| 4 | 1 | version |
| 5 | 1 | kind |
| 6 | 8 | nonce |
| 14 | 2 | port for the answer that was not asked for |
| 16 | 16 | MAC, truncated |

What follows the 32 bytes is not looked at.  A probe and a relay frame are read exactly
from the datagrams that start with their encodings, and since the magic of a format is its
own, no format is read as another (`control_formats`).
-/

import Hextet.Core.BeaconCodec
import Hextet.Core.RelayFrame

namespace Hextet

open Lib

variable {C : Crypto}

/-- `PROBE_PACKET_LEN`. -/
def probePacketLen : ℕ := 32

/-- `MACED_LEN` of a probe. -/
def probeMacedLen : ℕ := 16

/-- `MAGIC` of a probe. -/
def probeMagic : List UInt8 := [0x48, 0x58, 0x54, 0x50]

/-- `VERSION` of a probe. -/
def probeVersion : UInt8 := 1

/-- `ProbeError`. -/
inductive ProbeError where
  | tooShort
  | badMagic
  | badVersion (version : UInt8)
  | badKind (kind : UInt8)
  | badMac
  deriving DecidableEq, Repr

/-- `ProbeKind`. -/
inductive ProbeKind where
  | request
  | response
  | unsolicited
  deriving DecidableEq, Repr

namespace ProbeKind

/-- `ProbeKind::as_u8`. -/
def asU8 : ProbeKind → UInt8
  | .request => 1
  | .response => 2
  | .unsolicited => 3

/-- `ProbeKind::from_u8`. -/
def fromU8 (v : UInt8) : Outcome ProbeError ProbeKind :=
  if v = 1 then .ok .request
  else if v = 2 then .ok .response
  else if v = 3 then .ok .unsolicited
  else .err (.badKind v)

@[simp] theorem fromU8_asU8 (k : ProbeKind) : fromU8 k.asU8 = .ok k := by
  cases k <;> rfl

theorem asU8_of_fromU8 {v : UInt8} {kind : ProbeKind} (h : fromU8 v = .ok kind) :
    kind.asU8 = v := by
  unfold fromU8 at h
  split_ifs at h with h₁ h₂ h₃ <;> cases h <;> simp [asU8, *]

end ProbeKind

/-- `ProbePacket`. -/
structure ProbePacket where
  kind : ProbeKind
  nonce : UInt64
  replyPort : UInt16
  deriving DecidableEq

namespace ProbePacket

/-- The bytes under the MAC. -/
def body (p : ProbePacket) : List UInt8 :=
  probeMagic ++ [probeVersion, p.kind.asU8] ++ beBytes 8 p.nonce.toNat ++
    beBytes 2 p.replyPort.toNat

/-- `ProbePacket::encode`. -/
def encode (hmac : Hmac) (probeKey : Bytes 32) (p : ProbePacket) : List UInt8 :=
  p.body ++ (hmac probeKey p.body).1.take macLen

/-- `decode` past the MAC: the fields. -/
def decodeFields (bytes : List UInt8) (kind : ProbeKind) : Outcome ProbeError ProbePacket := do
  let nonce ← slice bytes 6 14
  let replyPort ← slice bytes 14 16
  .ok ⟨kind, UInt64.ofNat (ofBe nonce), UInt16.ofNat (ofBe replyPort)⟩

/-- `ProbePacket::decode`. -/
def decode (hmac : Hmac) (probeKey : Bytes 32) (bytes : List UInt8) :
    Outcome ProbeError ProbePacket :=
  if bytes.length < probePacketLen then .err .tooShort
  else do
    let magic ← slice bytes 0 4
    if magic ≠ probeMagic then .err .badMagic
    else do
      let version ← index bytes 4
      if version ≠ probeVersion then .err (.badVersion version)
      else do
        let kind ← index bytes 5 >>= ProbeKind.fromU8
        let maced ← slice bytes 0 probeMacedLen
        let tag ← slice bytes probeMacedLen (probeMacedLen + macLen)
        if (hmac probeKey maced).1.take macLen ≠ tag then .err .badMac
        else decodeFields bytes kind

variable {hmac : Hmac} {probeKey : Bytes 32} {bytes : List UInt8} {p : ProbePacket}

theorem body_eq (p : ProbePacket) : p.body = probeMagic ++ ([probeVersion] ++ ([p.kind.asU8] ++
    (beBytes 8 p.nonce.toNat ++ beBytes 2 p.replyPort.toNat))) := by
  simp [body]

theorem length_body (p : ProbePacket) : p.body.length = probeMacedLen := by
  simp [body, probeMagic, probeMacedLen]

/-- The bytes under the MAC, range by range. -/
theorem slice_body_iff :
    slice bytes 0 probeMacedLen = (.ok p.body : Outcome ProbeError _) ↔
      slice bytes 0 4 = (.ok probeMagic : Outcome ProbeError _) ∧
        slice bytes 4 5 = (.ok [probeVersion] : Outcome ProbeError _) ∧
        slice bytes 5 6 = (.ok [p.kind.asU8] : Outcome ProbeError _) ∧
        slice bytes 6 14 = (.ok (beBytes 8 p.nonce.toNat) : Outcome ProbeError _) ∧
        slice bytes 14 16 = (.ok (beBytes 2 p.replyPort.toNat) : Outcome ProbeError _) := by
  rw [body_eq, slice_append_iff (j := 4) rfl, slice_append_iff (j := 5) rfl,
    slice_append_iff (j := 6) rfl, slice_append_iff (j := 14) (by rw [length_beBytes])]
  rfl

theorem length_encode (hmac : Hmac) (probeKey : Bytes 32) (p : ProbePacket) :
    (p.encode hmac probeKey).length = probePacketLen := by
  rw [encode, List.length_append, length_body, List.length_take, (hmac probeKey p.body).2]
  rfl

/-- The two ranges of an encoding: what is under the MAC, and the MAC. -/
theorem encode_prefix_iff :
    p.encode hmac probeKey <+: bytes ↔
      slice bytes 0 probeMacedLen = (.ok p.body : Outcome ProbeError _) ∧
        slice bytes probeMacedLen (probeMacedLen + macLen) =
          (.ok ((hmac probeKey p.body).1.take macLen) : Outcome ProbeError _) := by
  rw [← slice_append_iff (by rw [Nat.zero_add, length_body]), ← encode, slice_zero_eq_ok]
  exact (and_iff_right (length_encode hmac probeKey p)).symm

/-- The fields that `decode` reads past the MAC. -/
theorem decodeFields_eq_ok_iff {kind : ProbeKind} :
    decodeFields bytes kind = .ok p ↔
      p.kind = kind ∧
        slice bytes 6 14 = (.ok (beBytes 8 p.nonce.toNat) : Outcome ProbeError _) ∧
        slice bytes 14 16 = (.ok (beBytes 2 p.replyPort.toNat) : Outcome ProbeError _) := by
  unfold decodeFields
  constructor
  · intro h
    obtain ⟨nonce, hnonce, h⟩ := Outcome.bind_eq_ok.1 h
    obtain ⟨port, hport, h⟩ := Outcome.bind_eq_ok.1 h
    cases h
    exact ⟨rfl, slice_u64 hnonce, slice_u16 hport⟩
  · rintro ⟨rfl, hnonce, hport⟩
    simp only [hnonce, hport, Outcome.ok_bind, u64_beBytes, u16_beBytes]

/-- **A datagram is read as a probe exactly when it starts with its encoding**, whatever
follows. -/
theorem decode_eq_ok_iff :
    decode hmac probeKey bytes = .ok p ↔ p.encode hmac probeKey <+: bytes := by
  rw [encode_prefix_iff]
  constructor
  · intro h
    obtain ⟨-, h⟩ := Outcome.ite_err_eq_ok.1 h
    obtain ⟨magic, hmagic, h⟩ := Outcome.bind_eq_ok.1 h
    obtain ⟨hm, h⟩ := Outcome.ite_err_eq_ok.1 h
    obtain ⟨version, hversion, h⟩ := Outcome.bind_eq_ok.1 h
    obtain ⟨hv, h⟩ := Outcome.ite_err_eq_ok.1 h
    obtain ⟨kind, hkind, h⟩ := Outcome.bind_eq_ok.1 h
    obtain ⟨k, hk, hread⟩ := Outcome.bind_eq_ok.1 hkind
    obtain ⟨maced, hmaced, h⟩ := Outcome.bind_eq_ok.1 h
    obtain ⟨tag, htag, h⟩ := Outcome.bind_eq_ok.1 h
    obtain ⟨hmac', h⟩ := Outcome.ite_err_eq_ok.1 h
    rw [not_not] at hm hv hmac'
    obtain ⟨rfl, hnonce, hport⟩ := decodeFields_eq_ok_iff.1 h
    rw [index_eq_ok] at hversion hk
    rw [hm] at hmagic
    rw [hv] at hversion
    rw [← ProbeKind.asU8_of_fromU8 hread] at hk
    have hbody := slice_body_iff.2 ⟨hmagic, hversion, hk, hnonce, hport⟩
    obtain rfl : maced = p.body := Outcome.ok.inj (hmaced.symm.trans hbody)
    rw [hmac']
    exact ⟨hbody, htag⟩
  · rintro ⟨hbody, htag⟩
    obtain ⟨hmagic, hversion, hkind, hnonce, hport⟩ := slice_body_iff.1 hbody
    have hfields := decodeFields_eq_ok_iff.2 ⟨rfl, hnonce, hport⟩
    rw [← index_eq_ok] at hversion hkind
    have hlen : ¬bytes.length < probePacketLen := not_lt.2 (slice_eq_ok.1 htag).2.1
    simp only [decode, if_neg hlen, hmagic, hversion, hkind, hbody, htag, Outcome.ok_bind,
      ProbeKind.fromU8_asU8, ne_eq, not_true_eq_false, if_false, hfields]

end ProbePacket

/-! ### Formats that do not meet -/

/-- The magic of a datagram that is read as a frame. -/
theorem RelayFrame.magic_of_decode {hmac : Hmac} {key : Bytes 32} {bytes : List UInt8}
    {f : RelayFrame C} (h : RelayFrame.decode C hmac key bytes = .ok f) :
    bytes.take 4 = relayMagic := by
  obtain ⟨r, rfl⟩ := (RelayFrame.decode_eq_ok_iff.1 h).2
  rfl

theorem ProbePacket.magic_of_decode {hmac : Hmac} {key : Bytes 32} {bytes : List UInt8}
    {p : ProbePacket} (h : ProbePacket.decode hmac key bytes = .ok p) :
    bytes.take 4 = probeMagic := by
  obtain ⟨r, rfl⟩ := ProbePacket.decode_eq_ok_iff.1 h
  rfl

theorem Beacon.magic_of_decode {hmac : Hmac} {key : Bytes 32} {bytes : List UInt8}
    {m : Beacon C} (h : Beacon.decode C hmac key bytes = .ok m) :
    bytes.take 4 = beaconMagic := by
  obtain ⟨-, rfl⟩ := Beacon.encode_eq_ok_iff.1 (Beacon.decode_eq_ok_iff.1 h)
  rfl

/-- Two pairs have one session key exactly when they hold the same two keys. -/
theorem sessionKeyOf_eq_iff {a b a' b' : Bytes 32} :
    sessionKeyOf a b = sessionKeyOf a' b' ↔ (a = a' ∧ b = b') ∨ (a = b' ∧ b = a') := by
  constructor
  · intro h
    rcases sessionKeyOf_cases a b with hab | hab <;>
      rcases sessionKeyOf_cases a' b' with hab' | hab' <;>
      rw [hab, hab', Prod.mk.injEq] at h
    · exact .inl h
    · exact .inr h
    · exact .inr h.symm
    · exact .inl h.symm
  · rintro (⟨rfl, rfl⟩ | ⟨rfl, rfl⟩)
    · rfl
    · exact sessionKeyOf_comm a b

/-- A datagram that starts with the encoding of one format has no reading in another. -/
theorem ne_ok_of_magic {ε α : Type} {x : Outcome ε α} {bytes magic magic' : List UInt8}
    (hread : ∀ a, x = .ok a → bytes.take 4 = magic') (hbytes : bytes.take 4 = magic)
    (hne : magic ≠ magic') (a : α) : x ≠ .ok a :=
  fun h => hne (hbytes.symm.trans (hread a h))

/-- **The fixed-size formats decode exactly their encodings.**  A relay frame is read from
the datagrams that start with its 96 bytes, if its two keys differ, and a probe from those
that start with its 32 bytes.  So an encoding of one, with anything after it and under
any key, is read neither as the other nor as a beacon, a relay frame is always told by its
magic, and the session key of a frame is that of its two keys in any order and of no other
two. -/
theorem control_formats (C : Crypto) (hmac : Hmac) (key : Bytes 32) :
    (∀ bytes (f : RelayFrame C), RelayFrame.decode C hmac key bytes = .ok f ↔
        f.selfKey ≠ f.peerKey ∧ f.encode hmac key <+: bytes) ∧
      (∀ f : RelayFrame C, (f.encode hmac key).length = 96) ∧
      (∀ bytes p, ProbePacket.decode hmac key bytes = .ok p ↔ p.encode hmac key <+: bytes) ∧
      (∀ p : ProbePacket, (p.encode hmac key).length = 32) ∧
      (∀ (f : RelayFrame C) (trailer : List UInt8) (key' : Bytes 32),
        let bytes := f.encode hmac key ++ trailer
        isRelayFrame bytes = true ∧ (∀ p, ProbePacket.decode hmac key' bytes ≠ .ok p) ∧
          ∀ m, Beacon.decode C hmac key' bytes ≠ .ok m) ∧
      (∀ (p : ProbePacket) (trailer : List UInt8) (key' : Bytes 32),
        let bytes := p.encode hmac key ++ trailer
        (∀ f, RelayFrame.decode C hmac key' bytes ≠ .ok f) ∧
          ∀ m, Beacon.decode C hmac key' bytes ≠ .ok m) ∧
      (∀ f : RelayFrame C,
        ({ f with selfKey := f.peerKey, peerKey := f.selfKey } : RelayFrame C).sessionKey =
          f.sessionKey) ∧
      ∀ f g : RelayFrame C, f.sessionKey = g.sessionKey →
        (f.selfKey = g.selfKey ∧ f.peerKey = g.peerKey) ∨
          (f.selfKey = g.peerKey ∧ f.peerKey = g.selfKey) := by
  have hkeys : ∀ k k' : NodePublicKey C, k.bytes = k'.bytes ↔ k = k' :=
    fun k k' => ⟨NodePublicKey.ext_bytes, congrArg _⟩
  have hrelay : ∀ (f : RelayFrame C) trailer, (f.encode hmac key ++ trailer).take 4 = relayMagic :=
    fun _ _ => rfl
  have hprobe : ∀ (p : ProbePacket) trailer, (p.encode hmac key ++ trailer).take 4 = probeMagic :=
    fun _ _ => rfl
  refine ⟨fun bytes f => ?_, fun f => ?_, fun bytes p => ProbePacket.decode_eq_ok_iff,
    ProbePacket.length_encode hmac key, fun f trailer key' => ⟨rfl, fun p => ?_, fun m => ?_⟩,
    fun p trailer key' => ⟨fun f => ?_, fun m => ?_⟩, fun f => sessionKeyOf_comm _ _,
    fun f g h => ?_⟩
  · rw [RelayFrame.decode_eq_ok_iff, ne_eq, hkeys]
  · rw [RelayFrame.encode, List.length_append, RelayFrame.length_body, List.length_take,
      (hmac key f.body).2]
    rfl
  · exact ne_ok_of_magic (fun _ => ProbePacket.magic_of_decode) (hrelay f trailer) (by decide) p
  · exact ne_ok_of_magic (fun _ => Beacon.magic_of_decode) (hrelay f trailer) (by decide) m
  · exact ne_ok_of_magic (fun _ => RelayFrame.magic_of_decode) (hprobe p trailer) (by decide) f
  · exact ne_ok_of_magic (fun _ => Beacon.magic_of_decode) (hprobe p trailer) (by decide) m
  · simpa only [hkeys] using sessionKeyOf_eq_iff.1 h

end Hextet
