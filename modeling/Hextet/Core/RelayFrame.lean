/-
# Relay control frames

`crates/core/src/relay.rs`.  A client registers a pair of nodes with a relay, the relay
acknowledges with the port it gave the pair, and a client may unregister the pair.  The
frame is authenticated with a key that every member of the network derives.

| offset | bytes | field |
| ---: | ---: | --- |
| 0 | 4 | magic `HXTR` |
| 4 | 1 | version |
| 5 | 1 | kind |
| 6 | 2 | port |
| 8 | 8 | `seq`, the time of sending |
| 16 | 32 | public key of the sender |
| 48 | 32 | public key of the other party |
| 80 | 16 | MAC, truncated |

What follows the 96 bytes is not looked at: a datagram is read as a frame exactly when it
starts with the encoding of the frame and that pairs two different nodes
(`decode_eq_ok_iff`).  The two parties of a pair compute one session key
(`sessionKeyOf_comm`) and have different places in it (`side_eq_iff`).
-/

import Hextet.Core.Beacon
import Hextet.Core.EntryCodec

namespace Hextet

open Lib

variable {C : Crypto}

/-- `RELAY_MAGIC`. -/
def relayMagic : List UInt8 := [0x48, 0x58, 0x54, 0x52]

/-- `RELAY_VERSION`. -/
def relayVersion : UInt8 := 1

/-- `RELAY_FRAME_LEN`. -/
def relayFrameLen : ℕ := 96

/-- `MACED_LEN`. -/
def macedLen : ℕ := 80

/-- `RelayError`. -/
inductive RelayError where
  | tooShort
  | badMagic
  | badVersion (version : UInt8)
  | badKind (kind : UInt8)
  | badMac
  | badPublicKey
  | selfPair
  deriving DecidableEq, Repr

/-- `RelayKind`. -/
inductive RelayKind where
  | register
  | registerAck
  | unregister
  deriving DecidableEq, Repr

namespace RelayKind

/-- `RelayKind::as_u8`. -/
def asU8 : RelayKind → UInt8
  | .register => 1
  | .registerAck => 2
  | .unregister => 3

/-- `RelayKind::from_u8`. -/
def fromU8 (v : UInt8) : Outcome RelayError RelayKind :=
  if v = 1 then .ok .register
  else if v = 2 then .ok .registerAck
  else if v = 3 then .ok .unregister
  else .err (.badKind v)

@[simp] theorem fromU8_asU8 (k : RelayKind) : fromU8 k.asU8 = .ok k := by
  cases k <;> rfl

end RelayKind

/-- `SessionKey`: two keys in the order of their bytes. -/
abbrev SessionKey := Bytes 32 × Bytes 32

/-- `session_key_of`. -/
def sessionKeyOf (a b : Bytes 32) : SessionKey := if a.1 ≤ b.1 then (a, b) else (b, a)

/-- The order of the two keys does not matter. -/
theorem sessionKeyOf_comm (a b : Bytes 32) : sessionKeyOf a b = sessionKeyOf b a := by
  unfold sessionKeyOf
  by_cases hab : a.1 ≤ b.1
  · by_cases hba : b.1 ≤ a.1
    · have heq : a = b := Subtype.ext (List.le_antisymm hab hba)
      rw [heq]
    · rw [if_pos hab, if_neg hba]
  · have hba : b.1 ≤ a.1 := (List.le_total a.1 b.1).resolve_left hab
    rw [if_neg hab, if_pos hba]

/-- The session key holds the two keys. -/
theorem sessionKeyOf_cases (a b : Bytes 32) :
    sessionKeyOf a b = (a, b) ∨ sessionKeyOf a b = (b, a) := by
  unfold sessionKeyOf
  split_ifs
  · exact Or.inl rfl
  · exact Or.inr rfl

/-- `RelayFrame`. -/
structure RelayFrame (C : Crypto) where
  kind : RelayKind
  port : UInt16
  seq : UInt64
  selfKey : NodePublicKey C
  peerKey : NodePublicKey C
  deriving DecidableEq

/-- `is_relay_frame`. -/
def isRelayFrame (bytes : List UInt8) : Bool :=
  decide (4 ≤ bytes.length) && decide (bytes.take 4 = relayMagic)

namespace RelayFrame

/-- The bytes under the MAC. -/
def body (f : RelayFrame C) : List UInt8 :=
  relayMagic ++ [relayVersion, f.kind.asU8] ++ beBytes 2 f.port.toNat ++ beBytes 8 f.seq.toNat ++
    f.selfKey.bytes.1 ++ f.peerKey.bytes.1

/-- `RelayFrame::encode`. -/
def encode (hmac : Hmac) (relayKey : Bytes 32) (f : RelayFrame C) : List UInt8 :=
  f.body ++ (hmac relayKey f.body).1.take macLen

/-- `NodePublicKey::from_bytes(..).map_err(|_| BadPublicKey)`. -/
def readKey (C : Crypto) (b : Bytes 32) : Outcome RelayError (NodePublicKey C) :=
  match NodePublicKey.fromBytes C b with
  | .ok k => .ok k
  | .error _ => .err .badPublicKey

/-- `decode` past the MAC: the fields. -/
def decodeFields (C : Crypto) (bytes : List UInt8) (kind : RelayKind) :
    Outcome RelayError (RelayFrame C) := do
  let port ← slice bytes 6 8
  let seq ← slice bytes 8 16
  let selfRaw ← slice bytes 16 48 >>= array 32
  let peerRaw ← slice bytes 48 80 >>= array 32
  if selfRaw = peerRaw then .err .selfPair
  else do
    let selfKey ← readKey C selfRaw
    let peerKey ← readKey C peerRaw
    .ok ⟨kind, UInt16.ofNat (ofBe port), UInt64.ofNat (ofBe seq), selfKey, peerKey⟩

/-- `RelayFrame::decode`. -/
def decode (C : Crypto) (hmac : Hmac) (relayKey : Bytes 32) (bytes : List UInt8) :
    Outcome RelayError (RelayFrame C) :=
  if bytes.length < relayFrameLen then .err .tooShort
  else do
    let magic ← slice bytes 0 4
    if magic ≠ relayMagic then .err .badMagic
    else do
      let version ← index bytes 4
      if version ≠ relayVersion then .err (.badVersion version)
      else do
        let kind ← index bytes 5 >>= RelayKind.fromU8
        let maced ← slice bytes 0 macedLen
        let tag ← slice bytes macedLen relayFrameLen
        if (hmac relayKey maced).1.take macLen ≠ tag then .err .badMac
        else decodeFields C bytes kind

/-- `RelayFrame::session_key`. -/
def sessionKey (f : RelayFrame C) : SessionKey := sessionKeyOf f.selfKey.bytes f.peerKey.bytes

/-- The side of the session the sender is on, `usize::from(self_key != key[0])`. -/
def side (f : RelayFrame C) : Fin 2 := if f.selfKey.bytes ≠ f.sessionKey.1 then 1 else 0

theorem readKey_eq_ok {b : Bytes 32} {k : NodePublicKey C} (h : readKey C b = .ok k) :
    k.bytes = b := by
  unfold readKey NodePublicKey.fromBytes at h
  split_ifs at h with hp
  · cases h
    rfl

theorem readKey_bytes (k : NodePublicKey C) : readKey C k.bytes = .ok k := by
  rw [readKey, NodePublicKey.fromBytes_bytes]

/-- The fields that `decode` reads past the MAC. -/
theorem slices_of_decodeFields {bytes : List UInt8} {kind : RelayKind} {f : RelayFrame C}
    (h : decodeFields C bytes kind = .ok f) :
    f.kind = kind ∧ f.selfKey.bytes ≠ f.peerKey.bytes ∧
      slice bytes 6 8 = (.ok (beBytes 2 f.port.toNat) : Outcome RelayError _) ∧
      slice bytes 8 16 = (.ok (beBytes 8 f.seq.toNat) : Outcome RelayError _) ∧
      slice bytes 16 48 = (.ok f.selfKey.bytes.1 : Outcome RelayError _) ∧
      slice bytes 48 80 = (.ok f.peerKey.bytes.1 : Outcome RelayError _) := by
  unfold decodeFields at h
  obtain ⟨port, hport, h⟩ := Outcome.bind_eq_ok.1 h
  obtain ⟨seq, hseq, h⟩ := Outcome.bind_eq_ok.1 h
  obtain ⟨selfRaw, hself, h⟩ := Outcome.bind_eq_ok.1 h
  obtain ⟨self, hself, hselfRaw⟩ := Outcome.bind_eq_ok.1 hself
  obtain ⟨peerRaw, hpeer, h⟩ := Outcome.bind_eq_ok.1 h
  obtain ⟨peer, hpeer, hpeerRaw⟩ := Outcome.bind_eq_ok.1 hpeer
  obtain ⟨hne, h⟩ := Outcome.ite_err_eq_ok.1 h
  obtain ⟨selfKey, hselfKey, h⟩ := Outcome.bind_eq_ok.1 h
  obtain ⟨peerKey, hpeerKey, h⟩ := Outcome.bind_eq_ok.1 h
  cases h
  obtain rfl := array_eq_ok.1 hselfRaw
  obtain rfl := array_eq_ok.1 hpeerRaw
  obtain rfl := readKey_eq_ok hselfKey
  obtain rfl := readKey_eq_ok hpeerKey
  exact ⟨rfl, hne, slice_u16 hport, slice_u64 hseq, hself, hpeer⟩

theorem asU8_of_fromU8 {v : UInt8} {kind : RelayKind} (h : RelayKind.fromU8 v = .ok kind) :
    kind.asU8 = v := by
  unfold RelayKind.fromU8 at h
  split_ifs at h with h₁ h₂ h₃ <;> cases h <;> simp [RelayKind.asU8, *]

theorem body_eq (f : RelayFrame C) : f.body = relayMagic ++ ([relayVersion] ++ ([f.kind.asU8] ++
    (beBytes 2 f.port.toNat ++ (beBytes 8 f.seq.toNat ++
      (f.selfKey.bytes.1 ++ f.peerKey.bytes.1))))) := by
  simp [body]

theorem length_body (f : RelayFrame C) : f.body.length = macedLen := by
  simp [body, relayMagic, macedLen]

theorem length_encode (hmac : Hmac) (relayKey : Bytes 32) (f : RelayFrame C) :
    (f.encode hmac relayKey).length = relayFrameLen := by
  rw [encode, List.length_append, length_body, List.length_take, (hmac relayKey f.body).2]
  rfl

/-- The bytes under the MAC, range by range. -/
theorem slice_body_iff {bytes : List UInt8} {f : RelayFrame C} :
    slice bytes 0 macedLen = (.ok f.body : Outcome RelayError _) ↔
      slice bytes 0 4 = (.ok relayMagic : Outcome RelayError _) ∧
        slice bytes 4 5 = (.ok [relayVersion] : Outcome RelayError _) ∧
        slice bytes 5 6 = (.ok [f.kind.asU8] : Outcome RelayError _) ∧
        slice bytes 6 8 = (.ok (beBytes 2 f.port.toNat) : Outcome RelayError _) ∧
        slice bytes 8 16 = (.ok (beBytes 8 f.seq.toNat) : Outcome RelayError _) ∧
        slice bytes 16 48 = (.ok f.selfKey.bytes.1 : Outcome RelayError _) ∧
        slice bytes 48 80 = (.ok f.peerKey.bytes.1 : Outcome RelayError _) := by
  rw [body_eq, slice_append_iff (j := 4) rfl, slice_append_iff (j := 5) rfl,
    slice_append_iff (j := 6) rfl, slice_append_iff (j := 8) (by rw [length_beBytes]),
    slice_append_iff (j := 16) (by rw [length_beBytes]),
    slice_append_iff (j := 48) (by rw [f.selfKey.bytes.2])]
  rfl

/-- The two ranges of an encoding: what is under the MAC, and the MAC. -/
theorem encode_prefix_iff {hmac : Hmac} {relayKey : Bytes 32} {bytes : List UInt8}
    {f : RelayFrame C} :
    f.encode hmac relayKey <+: bytes ↔
      slice bytes 0 macedLen = (.ok f.body : Outcome RelayError _) ∧
        slice bytes macedLen relayFrameLen =
          (.ok ((hmac relayKey f.body).1.take macLen) : Outcome RelayError _) := by
  rw [← slice_append_iff (by rw [Nat.zero_add, length_body]), ← encode, slice_zero_eq_ok]
  exact (and_iff_right (length_encode hmac relayKey f)).symm

/-- **A frame that decodes is what the datagram starts with**, and pairs two nodes. -/
theorem encode_prefix_of_decode {hmac : Hmac} {relayKey : Bytes 32} {bytes : List UInt8}
    {f : RelayFrame C} (h : decode C hmac relayKey bytes = .ok f) :
    f.selfKey.bytes ≠ f.peerKey.bytes ∧ f.encode hmac relayKey <+: bytes := by
  obtain ⟨-, h⟩ := Outcome.ite_err_eq_ok.1 h
  obtain ⟨magic, hmagic, h⟩ := Outcome.bind_eq_ok.1 h
  obtain ⟨hm, h⟩ := Outcome.ite_err_eq_ok.1 h
  obtain ⟨version, hversion, h⟩ := Outcome.bind_eq_ok.1 h
  obtain ⟨hv, h⟩ := Outcome.ite_err_eq_ok.1 h
  obtain ⟨kind, hkind, h⟩ := Outcome.bind_eq_ok.1 h
  obtain ⟨k, hk, hread⟩ := Outcome.bind_eq_ok.1 hkind
  obtain ⟨maced, hmaced, h⟩ := Outcome.bind_eq_ok.1 h
  obtain ⟨tag, htag, h⟩ := Outcome.bind_eq_ok.1 h
  obtain ⟨hmac', h⟩ := Outcome.ite_err_eq_ok.1 h
  rw [not_not] at hm hv hmac'
  obtain ⟨rfl, hne, hport, hseq, hself, hpeer⟩ := slices_of_decodeFields h
  rw [index_eq_ok] at hversion hk
  rw [hm] at hmagic
  rw [hv] at hversion
  rw [← asU8_of_fromU8 hread] at hk
  have hbody := slice_body_iff.2 ⟨hmagic, hversion, hk, hport, hseq, hself, hpeer⟩
  obtain rfl : maced = f.body := Outcome.ok.inj (hmaced.symm.trans hbody)
  refine ⟨hne, encode_prefix_iff.2 ⟨hbody, ?_⟩⟩
  rw [hmac']
  exact htag

/-- The fields are read where the frame has them. -/
theorem decodeFields_of_slices {bytes : List UInt8} {f : RelayFrame C}
    (hne : f.selfKey.bytes ≠ f.peerKey.bytes)
    (h : slice bytes 0 macedLen = (.ok f.body : Outcome RelayError _)) :
    decodeFields C bytes f.kind = .ok f := by
  obtain ⟨-, -, -, hport, hseq, hself, hpeer⟩ := slice_body_iff.1 h
  simp only [decodeFields, hport, hseq, hself, hpeer, Outcome.ok_bind, array_val, if_neg hne,
    readKey_bytes, u16_beBytes, u64_beBytes]

/-- **A datagram is read as a frame exactly when the frame pairs two nodes and the datagram
starts with its encoding**, whatever follows. -/
theorem decode_eq_ok_iff {hmac : Hmac} {relayKey : Bytes 32} {bytes : List UInt8}
    {f : RelayFrame C} :
    decode C hmac relayKey bytes = .ok f ↔
      f.selfKey.bytes ≠ f.peerKey.bytes ∧ f.encode hmac relayKey <+: bytes := by
  refine ⟨encode_prefix_of_decode, fun ⟨hne, hencode⟩ => ?_⟩
  obtain ⟨hbody, htag⟩ := encode_prefix_iff.1 hencode
  obtain ⟨hmagic, hversion, hkind, -⟩ := slice_body_iff.1 hbody
  have hfields := decodeFields_of_slices hne hbody
  rw [← index_eq_ok] at hversion hkind
  have hlen : ¬bytes.length < relayFrameLen := not_lt.2 (slice_eq_ok.1 htag).2.1
  simp only [decode, if_neg hlen, hmagic, hversion, hkind, hbody, htag, Outcome.ok_bind,
    RelayKind.fromU8_asU8, ne_eq, not_true_eq_false, if_false, hfields]

/-- A frame that decodes pairs two nodes. -/
theorem selfKey_ne_peerKey {hmac : Hmac} {relayKey : Bytes 32} {bytes : List UInt8}
    {f : RelayFrame C} (h : decode C hmac relayKey bytes = .ok f) :
    f.selfKey.bytes ≠ f.peerKey.bytes :=
  (decode_eq_ok_iff.1 h).1

/-! ### Parties and sides -/

/-- The party on a side of a session. -/
def party (key : SessionKey) (side : Fin 2) : Bytes 32 := if side = 0 then key.1 else key.2

/-- The sender is the party on its side, and the other party is on the other. -/
theorem party_side (f : RelayFrame C) (hne : f.selfKey.bytes ≠ f.peerKey.bytes) :
    party f.sessionKey f.side = f.selfKey.bytes ∧
      party f.sessionKey f.side.rev = f.peerKey.bytes := by
  unfold party side
  rcases sessionKeyOf_cases f.selfKey.bytes f.peerKey.bytes with h | h
  · rw [sessionKey, h]
    simp
  · rw [sessionKey, h]
    simp [hne]

/-- **The parties of a pair are on different sides, each always on the same.** -/
theorem side_eq_iff {f g : RelayFrame C} (hf : f.selfKey.bytes ≠ f.peerKey.bytes)
    (hg : g.selfKey.bytes ≠ g.peerKey.bytes) (hkey : f.sessionKey = g.sessionKey) :
    f.side = g.side ↔ f.selfKey = g.selfKey := by
  obtain ⟨hfs, hfp⟩ := f.party_side hf
  obtain ⟨hgs, -⟩ := g.party_side hg
  constructor
  · intro h
    refine NodePublicKey.ext_bytes ?_
    rw [← hfs, ← hgs, h, hkey]
  · intro h
    rw [side, side, hkey, h]

end RelayFrame

end Hextet
