/-
# Gossip entries and their wire format

`crates/core/src/gossip.rs`, `Kind`, `Entry`, `signed_region`, `encode`,
`decode`, `is_valid`, `verify` and `endpoint_addrs`; the layout is that of
`docs/protocol/gossip.md` §3.  An entry is signed state about one node: where it
is (`endpoint`), that it was admitted (`member`) or revoked (`revocation`).

    HXTG | ver | kind | seq (8) | node (32) | signer (32) | payload | sig (64)

`decode` reads with the checked accesses of `Lib.Bytes`, in the order of the
source: length, magic, version, kind, the two keys, the payload of the kind with
its exact total length, the signature over everything before it, and last the
rule who may sign.
-/

import Hextet.Core.Addr

namespace Hextet

open Lib

variable {C : Crypto}

/-- `GOSSIP_MAGIC`: `HXTG`. -/
def gossipMagic : List UInt8 := [0x48, 0x58, 0x54, 0x47]

/-- `GOSSIP_VERSION`. -/
def gossipVersion : UInt8 := 1

/-- `GOSSIP_MAX_ADDRS`. -/
def gossipMaxAddrs : ℕ := 4

/-- `GOSSIP_MAX_NAME`. -/
def gossipMaxName : ℕ := 255

/-- `SIG_LEN`. -/
def sigLen : ℕ := 64

/-- `HEADER_LEN`. -/
def headerLen : ℕ := 4 + 1 + 1 + 8 + 32 + 32

/-- `INVITE_ID_LEN`. -/
def inviteIdLen : ℕ := 16

/-- `GossipError`. -/
inductive GossipError where
  | tooShort
  | badMagic
  | badVersion (v : UInt8)
  | badKind (v : UInt8)
  | tooManyAddrs (n : ℕ)
  | nameTooLong (n : ℕ)
  | badUtf8
  | lengthMismatch (expected got : ℕ)
  | badSignature
  | badPublicKey
  | endpointNotSelfSigned
  | selfIssued
  deriving DecidableEq, Repr

/-- `Kind`. -/
inductive Kind where
  | endpoint
  | member
  | revocation
  deriving DecidableEq, Repr

/-- `Kind::as_u8`. -/
def Kind.asU8 : Kind → UInt8
  | .endpoint => 1
  | .member => 2
  | .revocation => 3

/-- `Kind::from_u8`. -/
def Kind.fromU8 (v : UInt8) : Except GossipError Kind :=
  if v = 1 then .ok .endpoint else if v = 2 then .ok .member
  else if v = 3 then .ok .revocation else .error (.badKind v)

/-- `Entry`. -/
inductive Entry (C : Crypto) where
  | endpoint (node : NodePublicKey C) (endpoints : List Ipv6Addr) (port : UInt16) (seq : UInt64)
      (sig : Bytes 64)
  | member (node : NodePublicKey C) (name : String) (site : UInt16) (seq : UInt64) (sig : Bytes 64)
      (issuedBy : NodePublicKey C) (inviteId : Bytes 16)
  | revocation (node : NodePublicKey C) (seq : UInt64) (sig : Bytes 64)
      (issuedBy : NodePublicKey C)
  deriving DecidableEq

namespace Entry

/-- `Entry::kind`. -/
def kind : Entry C → Kind
  | .endpoint .. => .endpoint
  | .member .. => .member
  | .revocation .. => .revocation

/-- `Entry::node`: whom the entry is about. -/
def node : Entry C → NodePublicKey C
  | .endpoint n .. => n
  | .member n .. => n
  | .revocation n .. => n

/-- `Entry::signer`: the node itself for an endpoint, else the issuer. -/
def signer : Entry C → NodePublicKey C
  | .endpoint n .. => n
  | .member _ _ _ _ _ i _ => i
  | .revocation _ _ _ i => i

/-- `Entry::seq`. -/
def seq : Entry C → UInt64
  | .endpoint _ _ _ s _ => s
  | .member _ _ _ s .. => s
  | .revocation _ s .. => s

/-- `Entry::sig`. -/
def sig : Entry C → Bytes 64
  | .endpoint _ _ _ _ g => g
  | .member _ _ _ _ g .. => g
  | .revocation _ _ g _ => g

/-- The entry with another signature. -/
def withSig (e : Entry C) (g : Bytes 64) : Entry C :=
  match e with
  | .endpoint n a p s _ => .endpoint n a p s g
  | .member n m t s _ i d => .member n m t s g i d
  | .revocation n s _ i => .revocation n s g i

/-- The key of `GossipStore`: one entry per node and kind. -/
def key (e : Entry C) : NodePublicKey C × Kind := (e.node, e.kind)

/-- `name.as_bytes()`. -/
def nameBytes (name : String) : List UInt8 := name.toUTF8.data.toList

/-- The 78 bytes before the payload. -/
def header (e : Entry C) : List UInt8 :=
  gossipMagic ++ gossipVersion :: e.kind.asU8 ::
    (beBytes 8 e.seq.toNat ++ (e.node.bytes.1 ++ e.signer.bytes.1))

/-- The bytes between the header and the signature, with the two bounds of
`signed_region`. -/
def payload : Entry C → Except GossipError (List UInt8)
  | .endpoint _ endpoints port _ _ =>
      if endpoints.length > gossipMaxAddrs then .error (.tooManyAddrs endpoints.length)
      else .ok (UInt8.ofNat endpoints.length ::
        (beBytes 2 port.toNat ++ endpoints.flatMap fun a => a.octets.1))
  | .member _ name site _ _ _ inviteId =>
      if (nameBytes name).length > gossipMaxName then .error (.nameTooLong (nameBytes name).length)
      else .ok (beBytes 2 site.toNat ++
        UInt8.ofNat (nameBytes name).length :: (nameBytes name ++ inviteId.1))
  | .revocation .. => .ok []

/-- `Entry::signed_region`: everything but the signature. -/
def signedRegion (e : Entry C) : Except GossipError (List UInt8) := e.payload.map (e.header ++ ·)

/-- `Entry::encode`. -/
def encode (e : Entry C) : Except GossipError (List UInt8) := e.signedRegion.map (· ++ e.sig.1)

/-- `Entry::verify`. -/
def verify (e : Entry C) : Bool :=
  match e.signedRegion with
  | .ok region => e.signer.verify region e.sig
  | .error _ => false

/-- `Entry::is_valid`: the rule who may sign, and the signature. -/
def isValid (e : Entry C) : Bool :=
  (match e with
    | .endpoint n .. => e.signer == n
    | .member .. => e.signer != e.node
    | .revocation .. => e.signer != e.node) && e.verify

/-- `Entry::endpoint_addrs`: the usable addresses with the port. -/
def endpointAddrs : Entry C → List SocketAddrV6
  | .endpoint _ endpoints port _ _ =>
      if port = 0 then []
      else (endpoints.filter isUsableEndpointAddr).map fun a => ⟨a, port, 0, 0⟩
  | _ => []

/-! ### Decoding -/

/-- The address loop of `decode`: `n` addresses from offset `off` on. -/
def readAddrs (bytes : List UInt8) (off : ℕ) : ℕ → Outcome GossipError (List Ipv6Addr)
  | 0 => .ok []
  | n + 1 => do
      let octets ← slice bytes off (off + 16) >>= array 16
      let rest ← readAddrs bytes (off + 16) n
      .ok (⟨octets⟩ :: rest)

/-- A signature not yet read, `[0u8; SIG_LEN]`. -/
def zeroSig : Bytes 64 := ⟨List.replicate 64 0, by simp⟩

/-- `decode`, the payload of an endpoint entry. -/
def decodeEndpoint (bytes : List UInt8) (node : NodePublicKey C) (seq : UInt64) :
    Outcome GossipError (Entry C) := do
  let n := (← index bytes 78).toNat
  if n > gossipMaxAddrs then .err (.tooManyAddrs n)
  else
    let expected := headerLen + 3 + 16 * n + sigLen
    if bytes.length ≠ expected then .err (.lengthMismatch expected bytes.length)
    else do
      let port ← slice bytes 79 81
      let endpoints ← readAddrs bytes (headerLen + 3) n
      .ok (.endpoint node endpoints (UInt16.ofNat (ofBe port)) seq zeroSig)

/-- `decode`, the payload of a member entry. -/
def decodeMember (bytes : List UInt8) (node signer : NodePublicKey C) (seq : UInt64) :
    Outcome GossipError (Entry C) := do
  let site ← slice bytes 78 80
  let nameLen := (← index bytes 80).toNat
  let expected := headerLen + 3 + nameLen + inviteIdLen + sigLen
  if bytes.length ≠ expected then .err (.lengthMismatch expected bytes.length)
  else do
    let nameStart := headerLen + 3
    let nameEnd := nameStart + nameLen
    let raw ← slice bytes nameStart nameEnd
    match String.fromUTF8? ⟨raw.toArray⟩ with
    | none => .err .badUtf8
    | some name => do
        let inviteId ← slice bytes nameEnd (nameEnd + inviteIdLen) >>= array 16
        .ok (.member node name (UInt16.ofNat (ofBe site)) seq zeroSig signer inviteId)

/-- `decode`, a revocation entry: no payload. -/
def decodeRevocation (bytes : List UInt8) (node signer : NodePublicKey C) (seq : UInt64) :
    Outcome GossipError (Entry C) :=
  let expected := headerLen + sigLen
  if bytes.length ≠ expected then .err (.lengthMismatch expected bytes.length)
  else .ok (.revocation node seq zeroSig signer)

/-- `decode`, the payload of a kind. -/
def decodePayload (bytes : List UInt8) (kind : Kind) (seq : UInt64)
    (node signer : NodePublicKey C) : Outcome GossipError (Entry C) :=
  match kind with
  | .endpoint => decodeEndpoint bytes node seq
  | .member => decodeMember bytes node signer seq
  | .revocation => decodeRevocation bytes node signer seq

/-- `decode` past the header: the payload, the signature over everything before
it, and the rule who may sign. -/
def decodeBody (bytes : List UInt8) (kind : Kind) (seq : UInt64) (node signer : NodePublicKey C) :
    Outcome GossipError (Entry C) := do
  let entry ← decodePayload bytes kind seq node signer
  let sigStart := bytes.length - sigLen
  let sig ← slice bytes sigStart bytes.length >>= array 64
  let region ← slice bytes 0 sigStart
  if signer.verify region sig = false then .err .badSignature
  else if kind = .endpoint ∧ signer ≠ node then .err .endpointNotSelfSigned
  else if kind ≠ .endpoint ∧ signer = node then .err .selfIssued
  else .ok (entry.withSig sig)

/-- `NodePublicKey::from_bytes(..).map_err(|_| BadPublicKey)`. -/
def readKey (C : Crypto) (b : Bytes 32) : Outcome GossipError (NodePublicKey C) :=
  match NodePublicKey.fromBytes C b with
  | .ok k => .ok k
  | .error _ => .err .badPublicKey

/-- `Entry::decode`. -/
def decode (C : Crypto) (bytes : List UInt8) : Outcome GossipError (Entry C) :=
  if bytes.length < headerLen + sigLen then .err .tooShort
  else do
    let magic ← slice bytes 0 4
    if magic ≠ gossipMagic then .err .badMagic
    else do
      let version ← index bytes 4
      if version ≠ gossipVersion then .err (.badVersion version)
      else do
        let kind ← Outcome.ofExcept (Kind.fromU8 (← index bytes 5))
        let seq ← slice bytes 6 14
        let nodeRaw ← slice bytes 14 46 >>= array 32
        let signerRaw ← slice bytes 46 78 >>= array 32
        let node ← readKey C nodeRaw
        let signer ← readKey C signerRaw
        decodeBody bytes kind (UInt64.ofNat (ofBe seq)) node signer

end Entry

end Hextet
