/-
# Node identity

`crates/core/src/identity.rs`.  A node is its ed25519 public key.  The curve
arithmetic and the hash are crates outside the repository: `Crypto` collects
what the repository calls of them, as arbitrary functions.  Of `ed25519-dalek`
the development uses that `from_bytes` keeps the bytes it is given and that two
keys are equal when their bytes are, so a `NodePublicKey` is 32 bytes that
`from_bytes` accepted.

Text positions (the peer table, the member file, the endpoint cache) hold keys
in base64.  `toBase64` is injective (`toBase64_injective`) and `fromBase64`
inverts it, so a text key names one node; `fromBase64` also accepts surrounding
white space, which `toBase64` never writes.
-/

import Hextet.Lib.Base64
import Hextet.Lib.Bytes

namespace Hextet

open Lib

/-- The functions of `ed25519-dalek` and `sha2` that the repository calls. -/
structure Crypto where
  /-- `VerifyingKey::from_bytes` accepts these bytes. -/
  isPoint : Bytes 32 → Bool
  /-- `VerifyingKey::verify_strict` of a message and a signature. -/
  verifyStrict : Bytes 32 → List UInt8 → Bytes 64 → Bool
  /-- `VerifyingKey::to_montgomery().to_bytes()`. -/
  toMontgomery : Bytes 32 → Bytes 32
  /-- `Sha256::digest`. -/
  sha256 : List UInt8 → Bytes 32

variable {C : Crypto}

/-- `IdentityError`, the part that reading a public key can give. -/
inductive IdentityError where
  | invalidEncoding
  | invalidPublicKey
  deriving DecidableEq, Repr

/-- `NodePublicKey`: the bytes of a curve point. -/
structure NodePublicKey (C : Crypto) where
  /-- `as_bytes`. -/
  bytes : Bytes 32
  /-- `VerifyingKey::from_bytes` accepted them. -/
  isPoint : C.isPoint bytes = true
  deriving DecidableEq

namespace NodePublicKey

/-- `NodePublicKey::from_bytes`. -/
def fromBytes (C : Crypto) (b : Bytes 32) : Except IdentityError (NodePublicKey C) :=
  if h : C.isPoint b = true then .ok ⟨b, h⟩ else .error .invalidPublicKey

/-- `NodePublicKey::to_base64`. -/
def toBase64 (k : NodePublicKey C) : String := String.ofList (Base64.encode k.bytes.1)

/-- `NodePublicKey::from_base64`: trim, decode, 32 bytes, a curve point. -/
def fromBase64 (C : Crypto) (s : String) : Except IdentityError (NodePublicKey C) :=
  match Base64.decode (Base64.trim s.toList) with
  | none => .error .invalidEncoding
  | some b => if h : b.length = 32 then fromBytes C ⟨b, h⟩ else .error .invalidEncoding

/-- `NodePublicKey::wg_public_bytes`: the WireGuard key of the node. -/
def wgPublicBytes (k : NodePublicKey C) : Bytes 32 := C.toMontgomery k.bytes

/-- `NodePublicKey::verify`. -/
def verify (k : NodePublicKey C) (message : List UInt8) (signature : Bytes 64) : Bool :=
  C.verifyStrict k.bytes message signature

theorem ext_bytes {k k' : NodePublicKey C} (h : k.bytes = k'.bytes) : k = k' := by
  cases k
  cases k'
  cases h
  rfl

/-- A key passes its own parser. -/
@[simp] theorem fromBytes_bytes (k : NodePublicKey C) : fromBytes C k.bytes = .ok k := by
  rw [fromBytes, dif_pos k.isPoint]

/-- The parser keeps the bytes it is given. -/
theorem bytes_of_fromBytes {b : Bytes 32} {k : NodePublicKey C} (h : fromBytes C b = .ok k) :
    k.bytes = b := by
  unfold fromBytes at h
  split at h
  · cases h
    rfl
  · cases h

/-- **A text key names one node.** -/
theorem toBase64_injective : Function.Injective (toBase64 : NodePublicKey C → String) := by
  intro k k' h
  exact ext_bytes (Subtype.ext (Base64.encode_injective (String.ofList_injective h)))

theorem toBase64_inj {k k' : NodePublicKey C} : k.toBase64 = k'.toBase64 ↔ k = k' :=
  toBase64_injective.eq_iff

/-- Reading a written key gives the key back. -/
@[simp] theorem fromBase64_toBase64 (k : NodePublicKey C) :
    fromBase64 C k.toBase64 = .ok k := by
  unfold fromBase64 toBase64
  rw [String.toList_ofList, Base64.trim_encode, Base64.decode_encode]
  simp only [k.bytes.2, dite_true]
  exact fromBytes_bytes k

end NodePublicKey

/-- `NodeIdentity`: the public key, and `sign`.  `ed25519-dalek` is a crate outside the
repository; of it the development uses that `verify_strict` accepts what `sign` returns. -/
structure NodeIdentity (C : Crypto) where
  /-- `NodeIdentity::public`. -/
  publicKey : NodePublicKey C
  /-- `NodeIdentity::sign`. -/
  sign : List UInt8 → Bytes 64
  /-- A signature verifies under the public key. -/
  verifies : ∀ message, publicKey.verify message (sign message) = true

end Hextet
