/-
# Invite tokens

`crates/core/src/invite.rs`, `Invite::decode` and `check_not_expired`.  A token is
three parts with dots between: the prefix, the payload and a signature of the
payload's text, the last two in URL-safe base64 without padding.  The JSON reader
is a crate outside the repository: `json` is `serde_json::from_slice` to the raw
structure, an arbitrary function.

Nothing in `decode` looks at the network name: an invite can carry any text
there, and any names for its bootstrap peers.
-/

import Hextet.Core.ConfigFile

namespace Hextet

open Lib

variable {C : Crypto} {ε : Type}

/-! ### URL-safe base64 -/

/-- The symbol of a six-bit value: as in the standard alphabet, with `-` and `_` last. -/
def urlSymbol (n : ℕ) : Char :=
  if n = 62 then '-' else if n = 63 then '_' else Base64.symbol n

/-- `URL_SAFE_NO_PAD.encode`. -/
def urlEncode : List UInt8 → List Char
  | [] => []
  | [a] => [urlSymbol (a.toNat / 4), urlSymbol (a.toNat % 4 * 16)]
  | [a, b] =>
      [urlSymbol (a.toNat / 4), urlSymbol (a.toNat % 4 * 16 + b.toNat / 16),
        urlSymbol (b.toNat % 16 * 4)]
  | a :: b :: c :: r =>
      urlSymbol (a.toNat / 4) :: urlSymbol (a.toNat % 4 * 16 + b.toNat / 16) ::
        urlSymbol (b.toNat % 16 * 4 + c.toNat / 64) :: urlSymbol (c.toNat % 64) :: urlEncode r

/-- The value of a symbol of the URL-safe alphabet. -/
def urlValue (c : Char) : Option ℕ :=
  if c = '-' then some 62 else if c = '_' then some 63
  else if c = '+' || c = '/' then none else Base64.value c

/-- `URL_SAFE_NO_PAD.decode`: groups of four symbols, a last group of two or three
with its trailing bits zero, and no padding. -/
def urlDecode : List Char → Option (List UInt8)
  | [] => some []
  | [_] => none
  | [c₀, c₁] =>
      match urlValue c₀, urlValue c₁ with
      | some x, some y => if y % 16 = 0 then some [UInt8.ofNat (4 * x + y / 16)] else none
      | _, _ => none
  | [c₀, c₁, c₂] =>
      match urlValue c₀, urlValue c₁, urlValue c₂ with
      | some x, some y, some z =>
          if z % 4 = 0 then
            some [UInt8.ofNat (4 * x + y / 16), UInt8.ofNat (16 * (y % 16) + z / 4)]
          else none
      | _, _, _ => none
  | c₀ :: c₁ :: c₂ :: c₃ :: r =>
      match urlValue c₀, urlValue c₁, urlValue c₂, urlValue c₃, urlDecode r with
      | some x, some y, some z, some w, some b =>
          some (UInt8.ofNat (4 * x + y / 16) :: UInt8.ofNat (16 * (y % 16) + z / 4) ::
            UInt8.ofNat (64 * (z % 4) + w) :: b)
      | _, _, _, _, _ => none

/-! ### Invites -/

/-- `BootstrapPeer`. -/
structure BootstrapPeer (C : Crypto) where
  name : String
  publicKey : NodePublicKey C
  endpoints : List SocketAddrV6
  deriving DecidableEq

/-- `Invite`. -/
structure Invite (C : Crypto) where
  id : Bytes 16
  networkName : String
  networkKey : NetworkKey
  issuer : NodePublicKey C
  issuedUnix : UInt64
  expiresUnix : UInt64
  listenPort : UInt16
  bootstrap : List (BootstrapPeer C)
  deriving DecidableEq

/-- `RawBootstrap`. -/
structure RawBootstrap where
  name : String
  publicKey : String
  endpoints : List String
  deriving DecidableEq

/-- `RawInvite`. -/
structure RawInvite where
  v : UInt32
  id : String
  networkName : String
  networkKey : String
  issuer : String
  issuedUnix : UInt64
  expiresUnix : UInt64
  listenPort : UInt16
  bootstrap : List RawBootstrap
  deriving DecidableEq

/-- `InviteError`; `ε` is the error of the JSON reader and writer. -/
inductive InviteError (ε : Type) where
  | issuerMismatch
  | tooLarge (len max : ℕ)
  | malformed
  | badPrefix
  | badJson (e : ε)
  | badVersion (v : UInt32)
  | badKey (e : IdentityError)
  | badSignature
  | noBootstrap
  | tooManyBootstrap (n : ℕ)
  | ipv4Endpoint (e : String)
  | badEndpoint (e : String)
  | expired (expiresUnix nowUnix : UInt64)
  deriving DecidableEq

/-- `str::len`: the bytes of a text. -/
def textLen (s : List Char) : ℕ := (s.map Char.utf8Size).sum

/-- `check_bootstrap_len`. -/
def checkBootstrapLen (len : ℕ) : Except (InviteError ε) Unit :=
  if len = 0 then .error .noBootstrap
  else if 8 < len then .error (.tooManyBootstrap len)
  else .ok ()

/-- `B64URL.decode(..).try_into()`: so many bytes. -/
def urlArray (n : ℕ) (s : List Char) : Except (InviteError ε) (Bytes n) :=
  match urlDecode s with
  | none => .error .malformed
  | some b => if h : b.length = n then .ok ⟨b, h⟩ else .error .malformed

/-- `Invite::decode`, an endpoint. -/
def decodeEndpoint (e : String) : Except (InviteError ε) SocketAddrV6 :=
  match parseSocketAddr e.toList with
  | some (.v6 a) => .ok a
  | some .v4 => .error (.ipv4Endpoint e)
  | none => .error (.badEndpoint e)

/-- `Invite::decode`, a bootstrap peer. -/
def decodeBootstrap (C : Crypto) (rb : RawBootstrap) :
    Except (InviteError ε) (BootstrapPeer C) := do
  let publicKey ← (NodePublicKey.fromBase64 C rb.publicKey).mapError .badKey
  let endpoints ← rb.endpoints.mapM decodeEndpoint
  return { name := rb.name, publicKey := publicKey, endpoints := endpoints }

namespace Invite

/-- `Invite::decode`. -/
def decode (C : Crypto) (json : List UInt8 → Except ε RawInvite) (token : List Char) :
    Except (InviteError ε) (Invite C) := do
  if 8192 < textLen token then throw (.tooLarge (textLen token) 8192)
  match token.splitOn '.' with
  | [pre, payload, sigB64] =>
      if pre ≠ ['h', 'x', 'i', '1'] then throw .badPrefix
      let bytes ← match urlDecode payload with
        | some b => .ok b
        | none => throw .malformed
      let sig ← urlArray 64 sigB64
      let raw ← (json bytes).mapError .badJson
      if raw.v ≠ 1 then throw (.badVersion raw.v)
      let issuer ← (NodePublicKey.fromBase64 C raw.issuer).mapError .badKey
      -- the signature is on the text of the payload
      if issuer.verify (String.ofList payload).toUTF8.data.toList sig = false then
        throw .badSignature
      checkBootstrapLen raw.bootstrap.length
      let id ← urlArray 16 raw.id.toList
      let networkKey ← (NetworkKey.fromBase64 raw.networkKey).mapError .badKey
      let bootstrap ← raw.bootstrap.mapM (decodeBootstrap C)
      return {
        id := id, networkName := raw.networkName, networkKey := networkKey, issuer := issuer,
        issuedUnix := raw.issuedUnix, expiresUnix := raw.expiresUnix,
        listenPort := raw.listenPort, bootstrap := bootstrap }
  | _ => throw .malformed

/-- `Invite::check_not_expired`. -/
def checkNotExpired (invite : Invite C) (nowUnix : UInt64) : Except (InviteError ε) Unit :=
  if invite.expiresUnix < nowUnix then .error (.expired invite.expiresUnix nowUnix) else .ok ()

end Invite

end Hextet
