/-
# LAN beacons

`crates/core/src/beacon.rs`.  A node on the LAN tells who it is, on which port its
WireGuard listens and at which addresses.  The message is authenticated with a key
that every member of the network derives; `hmac` and `sha2` are crates outside the
repository, so the MAC is an arbitrary function of the key and the message.

| offset | bytes | field |
| ---: | ---: | --- |
| 0 | 4 | magic `HXTL` |
| 4 | 1 | version |
| 5 | 1 | kind |
| 6 | 1 | number `n` of addresses |
| 7 | 1 | reserved |
| 8 | 2 | port |
| 10 | 8 | `seq`, the time of sending |
| 18 | 32 | public key |
| 50 | 16 `n` | addresses |
| 50 + 16 `n` | 16 | MAC, truncated |
-/

import Hextet.Core.Addr

namespace Hextet

open Lib

variable {C : Crypto}

/-- `HMAC-SHA256` of a key and a message. -/
abbrev Hmac := Bytes 32 → List UInt8 → Bytes 32

/-- `BEACON_MAGIC`. -/
def beaconMagic : List UInt8 := [0x48, 0x58, 0x54, 0x4c]

/-- `BEACON_VERSION`. -/
def beaconVersion : UInt8 := 1

/-- `BEACON_MAX_ADDRS`. -/
def beaconMaxAddrs : ℕ := 4

/-- `KIND_ANNOUNCE`. -/
def kindAnnounce : UInt8 := 1

/-- `HEADER_LEN`. -/
def beaconHeaderLen : ℕ := 50

/-- `MAC_LEN`. -/
def macLen : ℕ := 16

/-- `BeaconError`. -/
inductive BeaconError where
  | tooShort
  | badMagic
  | badVersion (version : UInt8)
  | badKind (kind : UInt8)
  | badReserved
  | tooManyAddrs (n : ℕ)
  | lengthMismatch (expected got : ℕ)
  | badMac
  | badPublicKey
  deriving DecidableEq, Repr

/-- `Beacon`. -/
structure Beacon (C : Crypto) where
  nodePublicKey : NodePublicKey C
  listenPort : UInt16
  seq : UInt64
  addresses : List Ipv6Addr
  deriving DecidableEq

namespace Beacon

/-- The bytes under the MAC. -/
def body (b : Beacon C) : List UInt8 :=
  beaconMagic ++ [beaconVersion, kindAnnounce, UInt8.ofNat b.addresses.length, 0] ++
    beBytes 2 b.listenPort.toNat ++ beBytes 8 b.seq.toNat ++ b.nodePublicKey.bytes.1 ++
    b.addresses.flatMap fun a => a.octets.1

/-- `Beacon::encode`. -/
def encode (hmac : Hmac) (lanKey : Bytes 32) (b : Beacon C) : Except BeaconError (List UInt8) :=
  if b.addresses.length > beaconMaxAddrs then .error (.tooManyAddrs b.addresses.length)
  else .ok (b.body ++ (hmac lanKey b.body).1.take macLen)

/-- The address loop of `decode`: `n` addresses from offset `off` on. -/
def readAddrs (bytes : List UInt8) (off : ℕ) : ℕ → Outcome BeaconError (List Ipv6Addr)
  | 0 => .ok []
  | n + 1 => do
      let octets ← slice bytes off (off + 16) >>= array 16
      let rest ← readAddrs bytes (off + 16) n
      .ok (⟨octets⟩ :: rest)

/-- `NodePublicKey::from_bytes(..).map_err(|_| BadPublicKey)`. -/
def readKey (C : Crypto) (b : Bytes 32) : Outcome BeaconError (NodePublicKey C) :=
  match NodePublicKey.fromBytes C b with
  | .ok k => .ok k
  | .error _ => .err .badPublicKey

/-- `decode` past the checks of the header: the MAC, then the fields. -/
def decodeBody (C : Crypto) (hmac : Hmac) (lanKey : Bytes 32) (bytes : List UInt8) (n : ℕ) :
    Outcome BeaconError (Beacon C) := do
  let macStart := beaconHeaderLen + 16 * n
  let body ← slice bytes 0 macStart
  let tag ← slice bytes macStart bytes.length
  if (hmac lanKey body).1.take macLen ≠ tag then .err .badMac
  else do
    let port ← slice bytes 8 10
    let seq ← slice bytes 10 18
    let key ← slice bytes 18 50 >>= array 32
    let nodePublicKey ← readKey C key
    let addresses ← readAddrs bytes beaconHeaderLen n
    .ok ⟨nodePublicKey, UInt16.ofNat (ofBe port), UInt64.ofNat (ofBe seq), addresses⟩

/-- `Beacon::decode`. -/
def decode (C : Crypto) (hmac : Hmac) (lanKey : Bytes 32) (bytes : List UInt8) :
    Outcome BeaconError (Beacon C) :=
  if bytes.length < beaconHeaderLen + macLen then .err .tooShort
  else do
    let magic ← slice bytes 0 4
    if magic ≠ beaconMagic then .err .badMagic
    else do
      let version ← index bytes 4
      if version ≠ beaconVersion then .err (.badVersion version)
      else do
        let kind ← index bytes 5
        if kind ≠ kindAnnounce then .err (.badKind kind)
        else do
          let reserved ← index bytes 7
          if reserved ≠ 0 then .err .badReserved
          else do
            let n := (← index bytes 6).toNat
            if n > beaconMaxAddrs then .err (.tooManyAddrs n)
            else
              let expected := beaconHeaderLen + 16 * n + macLen
              if bytes.length ≠ expected then .err (.lengthMismatch expected bytes.length)
              else decodeBody C hmac lanKey bytes n

/-- `Beacon::endpoints`: the usable addresses with the port. -/
def endpoints (b : Beacon C) : List SocketAddrV6 :=
  if b.listenPort = 0 then []
  else (b.addresses.filter isUsableEndpointAddr).map fun a => ⟨a, b.listenPort, 0, 0⟩

end Beacon

end Hextet
