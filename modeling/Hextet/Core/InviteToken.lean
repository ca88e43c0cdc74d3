/-
# Issuing and redeeming invites

`Invite::encode` and `Invite::decode` in `crates/core/src/invite.rs`.  The issuer writes
the invite as JSON, that in URL-safe base64, and signs the text; the decoder undoes the
steps in turn.  The JSON writer and reader are crates outside the repository: `toVec` and
`json` are arbitrary functions, of which is used that the writer gives the compact text of
the record (`RawInvite.compactJson`) and the reader reads that back.

The encoder bounds the number of bootstrap peers and nothing else; the decoder refuses a
token of more than `MAX_TOKEN_LEN` bytes before it looks at it.  Names and lists of
endpoints have no bound, so an invite can be issued that cannot be redeemed.  The size of
the text is a sum over the fields (`Invite.size_compactJson`), and the token is redeemed
exactly up to 6075 bytes of it (`redeemable_iff`).
-/

import Hextet.Core.AddrText
import Hextet.Core.Invite
import Hextet.Core.PlainCrypto
import Hextet.Lib.Json

namespace Hextet

open Lib

variable {C : Crypto} {ε : Type}

/-! ### URL-safe base64 -/

theorem urlValue_urlSymbol {n : ℕ} (h : n < 64) : urlValue (urlSymbol n) = some n := by
  have : ∀ n : Fin 64, urlValue (urlSymbol n) = some n.val := by decide
  exact this ⟨n, h⟩

/-- A symbol is a character of one byte that is neither a dot nor escaped. -/
theorem plain_urlSymbol {n : ℕ} (h : n < 64) :
    urlSymbol n ≠ '.' ∧ Json.shortEscape (urlSymbol n) = none ∧ 32 ≤ (urlSymbol n).toNat ∧
      (urlSymbol n).utf8Size = 1 := by
  have : ∀ n : Fin 64, urlSymbol n ≠ '.' ∧ Json.shortEscape (urlSymbol n) = none ∧
      32 ≤ (urlSymbol n).toNat ∧ (urlSymbol n).utf8Size = 1 := by decide
  exact this ⟨n, h⟩

/-- **Decoding inverts encoding**, for every byte string. -/
theorem urlDecode_urlEncode (b : List UInt8) : urlDecode (urlEncode b) = some b := by
  induction b using urlEncode.induct with
  | case1 => rfl
  | case2 a =>
      have ha : a.toNat < 256 := a.toNat_lt
      have h : 4 * (a.toNat / 4) + a.toNat % 4 * 16 / 16 = a.toNat := by omega
      have h₀ : a.toNat % 4 * 16 % 16 = 0 := by omega
      simp only [urlEncode, urlDecode, if_true, h, h₀, UInt8.ofNat_toNat,
        urlValue_urlSymbol (show a.toNat / 4 < 64 by omega),
        urlValue_urlSymbol (show a.toNat % 4 * 16 < 64 by omega)]
  | case3 a b =>
      have ha : a.toNat < 256 := a.toNat_lt
      have hb : b.toNat < 256 := b.toNat_lt
      obtain ⟨h₁, h₂, h₃⟩ := Base64.join_two (a := a.toNat) hb
      simp only [urlEncode, urlDecode, if_true, h₁, h₂, h₃, UInt8.ofNat_toNat,
        urlValue_urlSymbol (show a.toNat / 4 < 64 by omega),
        urlValue_urlSymbol (show a.toNat % 4 * 16 + b.toNat / 16 < 64 by omega),
        urlValue_urlSymbol (show b.toNat % 16 * 4 < 64 by omega)]
  | case4 a b c r ih =>
      have ha : a.toNat < 256 := a.toNat_lt
      have hb : b.toNat < 256 := b.toNat_lt
      have hc : c.toNat < 256 := c.toNat_lt
      obtain ⟨h₁, h₂, h₃⟩ := Base64.join_three (a := a.toNat) hb hc
      rw [urlEncode, urlDecode, ih, urlValue_urlSymbol (show a.toNat / 4 < 64 by omega),
        urlValue_urlSymbol (show a.toNat % 4 * 16 + b.toNat / 16 < 64 by omega),
        urlValue_urlSymbol (show b.toNat % 16 * 4 + c.toNat / 64 < 64 by omega),
        urlValue_urlSymbol (show c.toNat % 64 < 64 by omega)]
      simp only [h₁, h₂, h₃, UInt8.ofNat_toNat]

theorem length_urlEncode (b : List UInt8) : (urlEncode b).length = (4 * b.length + 2) / 3 := by
  induction b using urlEncode.induct with
  | case1 => rfl
  | case2 a => simp only [urlEncode, List.length_cons, List.length_nil]
  | case3 a b => simp only [urlEncode, List.length_cons, List.length_nil]
  | case4 a b c r ih =>
      simp only [urlEncode, List.length_cons, ih]
      omega

/-- An encoding is made of symbols. -/
theorem mem_urlEncode {b : List UInt8} {c : Char} (h : c ∈ urlEncode b) :
    ∃ n, n < 64 ∧ c = urlSymbol n := by
  induction b using urlEncode.induct with
  | case1 => cases h
  | case2 a =>
      have ha : a.toNat < 256 := a.toNat_lt
      simp only [urlEncode, List.mem_cons, List.not_mem_nil, or_false] at h
      rcases h with rfl | rfl
      · exact ⟨_, by omega, rfl⟩
      · exact ⟨_, by omega, rfl⟩
  | case3 a b =>
      have ha : a.toNat < 256 := a.toNat_lt
      have hb : b.toNat < 256 := b.toNat_lt
      simp only [urlEncode, List.mem_cons, List.not_mem_nil, or_false] at h
      rcases h with rfl | rfl | rfl
      · exact ⟨_, by omega, rfl⟩
      · exact ⟨_, by omega, rfl⟩
      · exact ⟨_, by omega, rfl⟩
  | case4 a b c r ih =>
      have ha : a.toNat < 256 := a.toNat_lt
      have hb : b.toNat < 256 := b.toNat_lt
      have hc : c.toNat < 256 := c.toNat_lt
      simp only [urlEncode, List.mem_cons] at h
      rcases h with rfl | rfl | rfl | rfl | h
      · exact ⟨_, by omega, rfl⟩
      · exact ⟨_, by omega, rfl⟩
      · exact ⟨_, by omega, rfl⟩
      · exact ⟨_, by omega, rfl⟩
      · exact ih h

/-- The characters of an encoding, plain ones. -/
theorem plain_of_mem_urlEncode {b : List UInt8} {c : Char} (h : c ∈ urlEncode b) :
    c ≠ '.' ∧ Json.shortEscape c = none ∧ 32 ≤ c.toNat ∧ c.utf8Size = 1 := by
  obtain ⟨n, hn, rfl⟩ := mem_urlEncode h
  exact plain_urlSymbol hn

theorem plain_of_mem_encode {b : List UInt8} {c : Char} (h : c ∈ Base64.encode b) :
    Json.shortEscape c = none ∧ 32 ≤ c.toNat ∧ c.utf8Size = 1 := by
  have hsymbol : ∀ n : Fin 64, Json.shortEscape (Base64.symbol n) = none ∧
      32 ≤ (Base64.symbol n).toNat ∧ (Base64.symbol n).utf8Size = 1 := by decide
  rcases Base64.mem_encode h with rfl | ⟨n, hn, rfl⟩
  · decide
  · exact hsymbol ⟨n, hn⟩

/-! ### The encoder -/

/-- The record of a bootstrap peer that `encode` writes. -/
def BootstrapPeer.raw (b : BootstrapPeer C) : RawBootstrap where
  name := b.name
  publicKey := b.publicKey.toBase64
  endpoints := b.endpoints.map fun e => String.ofList e.display

namespace Invite

/-- `Invite::id_string`. -/
def idString (invite : Invite C) : String := String.ofList (urlEncode invite.id.1)

/-- The record that `encode` writes. -/
def raw (invite : Invite C) : RawInvite where
  v := 1
  id := invite.idString
  networkName := invite.networkName
  networkKey := invite.networkKey.toBase64
  issuer := invite.issuer.toBase64
  issuedUnix := invite.issuedUnix
  expiresUnix := invite.expiresUnix
  listenPort := invite.listenPort
  bootstrap := invite.bootstrap.map BootstrapPeer.raw

/-- The token of a payload. -/
def token (issuer : NodeIdentity C) (json : List UInt8) : List Char :=
  let payload := urlEncode json
  let sig := issuer.sign (String.ofList payload).toUTF8.data.toList
  ['h', 'x', 'i', '1'] ++ '.' :: payload ++ '.' :: urlEncode sig.1

/-- `Invite::encode`. -/
def encode (toVec : RawInvite → Except ε (List UInt8)) (invite : Invite C)
    (issuer : NodeIdentity C) : Except (InviteError ε) (List Char) := do
  if issuer.publicKey ≠ invite.issuer then throw .issuerMismatch
  checkBootstrapLen invite.bootstrap.length
  let json ← (toVec invite.raw).mapError .badJson
  return token issuer json

end Invite

/-! ### The text of the record -/

/-- The text of a bootstrap peer: the fields in the order of the structure. -/
def RawBootstrap.compactJson (b : RawBootstrap) : List Char :=
  Json.object
    [("name", Json.quote b.name.toList), ("public_key", Json.quote b.publicKey.toList),
      ("endpoints", Json.array (b.endpoints.map fun e => Json.quote e.toList))]

/-- The text of an invite, as `serde_json::to_vec` writes a structure. -/
def RawInvite.compactJson (raw : RawInvite) : List Char :=
  Json.object
    [("v", Nat.toDigits 10 raw.v.toNat), ("id", Json.quote raw.id.toList),
      ("network_name", Json.quote raw.networkName.toList),
      ("network_key", Json.quote raw.networkKey.toList), ("issuer", Json.quote raw.issuer.toList),
      ("issued_unix", Nat.toDigits 10 raw.issuedUnix.toNat),
      ("expires_unix", Nat.toDigits 10 raw.expiresUnix.toNat),
      ("listen_port", Nat.toDigits 10 raw.listenPort.toNat),
      ("bootstrap", Json.array (raw.bootstrap.map RawBootstrap.compactJson))]

/-- The bytes that a bootstrap peer takes: its name and its endpoints, as JSON writes
them, and 86 for the rest. -/
def BootstrapPeer.jsonSize (b : BootstrapPeer C) : ℕ :=
  86 + Json.escapedSize b.name.toList +
    (b.endpoints.map fun e => Json.escapedSize e.display + 2).sum + (b.endpoints.length - 1)

/-- The bytes that an invite takes: its name, its numbers and its bootstrap peers, and 233
for the rest. -/
def Invite.jsonSize (invite : Invite C) : ℕ :=
  233 + Json.escapedSize invite.networkName.toList +
    (Nat.toDigits 10 invite.issuedUnix.toNat).length +
    (Nat.toDigits 10 invite.expiresUnix.toNat).length +
    (Nat.toDigits 10 invite.listenPort.toNat).length +
    (invite.bootstrap.map BootstrapPeer.jsonSize).sum + (invite.bootstrap.length - 1)

theorem size_toDigits (n : ℕ) : Json.size (Nat.toDigits 10 n) = (Nat.toDigits 10 n).length := by
  have hdigit : ∀ d : Fin 10, (Nat.digitChar d).utf8Size = 1 := by decide
  refine Json.size_eq_length fun c hc => ?_
  obtain ⟨ds, hds, htext, -⟩ := exists_digits (show 1 < 10 by decide) n
  rw [htext] at hc
  obtain ⟨d, hd, rfl⟩ := List.mem_map.1 hc
  exact hdigit ⟨d, hds d hd⟩

/-- A key of 32 bytes takes 44 characters. -/
theorem escapedSize_encode {b : List UInt8} (h : b.length = 32) :
    Json.escapedSize (Base64.encode b) = 44 := by
  rw [Json.escapedSize_eq_length fun c => plain_of_mem_encode, Base64.length_encode, h]

theorem BootstrapPeer.size_compactJson (b : BootstrapPeer C) :
    Json.size b.raw.compactJson = b.jsonSize := by
  have hkey : b.publicKey.toBase64.toList = Base64.encode b.publicKey.bytes.1 :=
    String.toList_ofList
  have hname : Json.escapedSize "name".toList = 4 := by decide
  have hpublic : Json.escapedSize "public_key".toList = 10 := by decide
  have hendpoints : Json.escapedSize "endpoints".toList = 9 := by decide
  rw [RawBootstrap.compactJson, Json.size_object]
  simp only [raw, List.map_cons, List.map_nil, List.sum_cons, List.sum_nil, Json.size_quote,
    Json.size_array, hkey, escapedSize_encode b.publicKey.bytes.2, List.map_map,
    Function.comp_def, String.toList_ofList, List.length_map, List.length_cons, List.length_nil,
    hname, hpublic, hendpoints, jsonSize]
  omega

/-- **The size of the text is a sum over the fields.** -/
theorem Invite.size_compactJson (invite : Invite C) :
    Json.size invite.raw.compactJson = invite.jsonSize := by
  have hkey : invite.networkKey.toBase64.toList = Base64.encode invite.networkKey.bytes.1 :=
    String.toList_ofList
  have hissuer : invite.issuer.toBase64.toList = Base64.encode invite.issuer.bytes.1 :=
    String.toList_ofList
  have hid : Json.escapedSize invite.idString.toList = 22 := by
    rw [idString, String.toList_ofList,
      Json.escapedSize_eq_length fun c hc => (plain_of_mem_urlEncode hc).2, length_urlEncode,
      invite.id.2]
  have hbootstrap : (invite.bootstrap.map BootstrapPeer.raw).map
      (fun b => Json.size b.compactJson) = invite.bootstrap.map BootstrapPeer.jsonSize := by
    rw [List.map_map]
    exact List.map_congr_left fun b _ => b.size_compactJson
  have hnames : ["v", "id", "network_name", "network_key", "issuer", "issued_unix",
      "expires_unix", "listen_port", "bootstrap"].map (fun s => Json.escapedSize s.toList) =
      [1, 2, 12, 11, 6, 11, 12, 11, 9] := by decide
  simp only [List.map_cons, List.map_nil, List.cons.injEq, and_true] at hnames
  obtain ⟨h₁, h₂, h₃, h₄, h₅, h₆, h₇, h₈, h₉⟩ := hnames
  have hv : (Nat.toDigits 10 (1 : UInt32).toNat).length = 1 := by decide
  rw [RawInvite.compactJson, Json.size_object]
  simp only [raw, List.map_cons, List.map_nil, List.sum_cons, List.sum_nil, Json.size_quote,
    Json.size_array, size_toDigits, hkey, hissuer, escapedSize_encode invite.networkKey.bytes.2,
    escapedSize_encode invite.issuer.bytes.2, hid, List.length_map, List.length_cons,
    List.length_nil, h₁, h₂, h₃, h₄, h₅, h₆, h₇, h₈, h₉, hv, jsonSize]
  rw [List.map_map, Function.comp_def, hbootstrap]
  omega

/-! ### The token -/

namespace Invite

/-- The parts of a token. -/
theorem splitOn_token (issuer : NodeIdentity C) (json : List UInt8) :
    (token issuer json).splitOn '.' =
      [['h', 'x', 'i', '1'], urlEncode json,
        urlEncode (issuer.sign (String.ofList (urlEncode json)).toUTF8.data.toList).1] := by
  have hurl : ∀ b : List UInt8, '.' ∉ urlEncode b := fun b h => (plain_of_mem_urlEncode h).1 rfl
  have hparts : ∀ sig : List UInt8, ([['h', 'x', 'i', '1'], urlEncode json, urlEncode sig] :
      List (List Char)) ≠ [] ∧ ∀ l ∈ [['h', 'x', 'i', '1'], urlEncode json, urlEncode sig],
        '.' ∉ l := fun sig => by simp [hurl]
  rw [← List.splitOn_intercalate '.' (hparts _).2 (hparts _).1, token]
  simp [List.intercalate]

/-- **The length of a token** is that of its payload in base64 and 92. -/
theorem textLen_token (issuer : NodeIdentity C) (json : List UInt8) :
    textLen (token issuer json) = 92 + (4 * json.length + 2) / 3 := by
  have hurl : ∀ b : List UInt8, Json.size (urlEncode b) = (4 * b.length + 2) / 3 := fun b => by
    rw [Json.size_eq_length fun c hc => (plain_of_mem_urlEncode hc).2.2.2, length_urlEncode]
  have hdot : ('.' : Char).utf8Size = 1 := rfl
  have hprefix : Json.size ['h', 'x', 'i', '1'] = 4 := rfl
  have hsize : textLen (token issuer json) = Json.size (token issuer json) := rfl
  rw [hsize, token]
  simp only [Json.size_append, Json.size_cons, hurl, hprefix, hdot, Bytes.length_val]
  omega

/-- An endpoint without flow information is read back. -/
theorem decodeEndpoint_display {e : SocketAddrV6} (h : e.flowinfo = 0) :
    decodeEndpoint (String.ofList e.display) = (.ok e : Except (InviteError ε) _) := by
  have hsame : { e with flowinfo := 0 } = e := by
    obtain ⟨ip, port, flowinfo, scope⟩ := e
    cases h
    rfl
  unfold decodeEndpoint
  rw [String.toList_ofList, parseSocketAddr_display, hsame]

/-- The decoder reads the endpoints of a bootstrap peer back. -/
theorem decodeBootstrap_raw {b : BootstrapPeer C} (h : ∀ e ∈ b.endpoints, e.flowinfo = 0) :
    decodeBootstrap C b.raw = (.ok b : Except (InviteError ε) _) := by
  have hends : (b.endpoints.map fun e => String.ofList e.display).mapM decodeEndpoint =
      (.ok (b.endpoints.map fun e => e) : Except (InviteError ε) _) :=
    Fallible.mapM_map fun e he => decodeEndpoint_display (h e he)
  rw [List.map_id'] at hends
  simp only [decodeBootstrap, BootstrapPeer.raw, NodePublicKey.fromBase64_toBase64,
    Fallible.mapError_ok, Fallible.ok_bind, hends]
  rfl

/-- **A token that is not too long is redeemed**, as the invite that was issued. -/
theorem decode_token {json : List UInt8 → Except ε RawInvite} {invite : Invite C}
    {issuer : NodeIdentity C} {text : List UInt8} (hissuer : issuer.publicKey = invite.issuer)
    (hcount : 1 ≤ invite.bootstrap.length ∧ invite.bootstrap.length ≤ 8)
    (hflow : ∀ b ∈ invite.bootstrap, ∀ e ∈ b.endpoints, e.flowinfo = 0)
    (hread : json text = .ok invite.raw) (hlen : textLen (token issuer text) ≤ 8192) :
    decode C json (token issuer text) = .ok invite := by
  have hpeers : (invite.bootstrap.map BootstrapPeer.raw).mapM (decodeBootstrap C) =
      (.ok (invite.bootstrap.map fun b => b) : Except (InviteError ε) _) :=
    Fallible.mapM_map fun b hb => decodeBootstrap_raw (hflow b hb)
  rw [List.map_id'] at hpeers
  have hsig : ∀ v : Bytes 64, urlArray 64 (urlEncode v.1) = (.ok v : Except (InviteError ε) _) := by
    intro v
    rw [urlArray, urlDecode_urlEncode]
    simp only [v.2, dite_true]
  have hid : urlArray 16 (urlEncode invite.id.1) = (.ok invite.id : Except (InviteError ε) _) := by
    rw [urlArray, urlDecode_urlEncode]
    simp only [invite.id.2, dite_true]
  have hbootstrap : checkBootstrapLen (invite.bootstrap.map BootstrapPeer.raw).length =
      (.ok () : Except (InviteError ε) _) := by
    rw [List.length_map, checkBootstrapLen, if_neg (by omega), if_neg (by omega)]
  have hverify := issuer.verifies (String.ofList (urlEncode text)).toUTF8.data.toList
  rw [hissuer] at hverify
  unfold decode
  rw [if_neg (not_lt.2 hlen), splitOn_token]
  simp only [urlDecode_urlEncode, hsig, hread, Fallible.mapError_ok, Fallible.ok_bind, raw,
    NodePublicKey.fromBase64_toBase64, hverify, hbootstrap, idString, String.toList_ofList, hid,
    NetworkKey.fromBase64_toBase64, hpeers, ne_eq, not_true_eq_false, if_false, Bool.true_eq_false]
  rfl

/-- A token that is too long is not looked at. -/
theorem decode_of_tooLarge {json : List UInt8 → Except ε RawInvite} {tok : List Char}
    (h : 8192 < textLen tok) : decode C json tok = .error (.tooLarge (textLen tok) 8192) := by
  unfold decode
  rw [if_pos h]
  rfl

section Redeem

variable {toVec : RawInvite → Except ε (List UInt8)} {json : List UInt8 → Except ε RawInvite}
  {invite : Invite C} {issuer : NodeIdentity C}

/-- What is issued, and when. -/
theorem encode_eq_ok_iff {text : List UInt8} (hwrite : toVec invite.raw = .ok text)
    {tok : List Char} :
    invite.encode toVec issuer = .ok tok ↔
      issuer.publicKey = invite.issuer ∧
        (1 ≤ invite.bootstrap.length ∧ invite.bootstrap.length ≤ 8) ∧
        tok = token issuer text := by
  unfold encode checkBootstrapLen
  by_cases hissuer : issuer.publicKey = invite.issuer
  · rw [if_neg (not_not.2 hissuer)]
    by_cases hnone : invite.bootstrap.length = 0
    · rw [if_pos hnone]
      exact iff_of_false nofun fun h => by omega
    · by_cases hmany : 8 < invite.bootstrap.length
      · rw [if_neg hnone, if_pos hmany]
        exact iff_of_false nofun fun h => by omega
      · have hcount : 1 ≤ invite.bootstrap.length ∧ invite.bootstrap.length ≤ 8 := by omega
        rw [if_neg hnone, if_neg hmany, hwrite]
        simp only [hissuer, hcount, true_and, and_self]
        exact ⟨fun h => (Except.ok.inj h).symm, fun h => h ▸ rfl⟩
  · rw [if_pos hissuer]
    exact iff_of_false nofun fun h => hissuer h.1

/-- Every token that is issued for an invite is redeemed as it, and one is issued unless the
issuer is another or the number of bootstrap peers is out of range. -/
def Redeems (toVec : RawInvite → Except ε (List UInt8)) (json : List UInt8 → Except ε RawInvite)
    (invite : Invite C) (issuer : NodeIdentity C) : Prop :=
  (∀ tok, invite.encode toVec issuer = .ok tok → decode C json tok = .ok invite) ∧
    ((∃ e, invite.encode toVec issuer = .error e) ↔ issuer.publicKey ≠ invite.issuer ∨
      invite.bootstrap.length = 0 ∨ 8 < invite.bootstrap.length)

/-- The token of an invite is redeemed exactly when it is not too long. -/
theorem decode_token_iff (hissuer : issuer.publicKey = invite.issuer)
    (hcount : 1 ≤ invite.bootstrap.length ∧ invite.bootstrap.length ≤ 8)
    (hflow : ∀ b ∈ invite.bootstrap, ∀ e ∈ b.endpoints, e.flowinfo = 0)
    (hread : json (Json.utf8 invite.raw.compactJson) = .ok invite.raw) :
    decode C json (token issuer (Json.utf8 invite.raw.compactJson)) = .ok invite ↔
      invite.jsonSize ≤ 6075 := by
  have hlen : textLen (token issuer (Json.utf8 invite.raw.compactJson)) =
      92 + (4 * invite.jsonSize + 2) / 3 := by
    rw [textLen_token, Json.length_utf8, size_compactJson]
  constructor
  · intro h
    by_contra hlong
    rw [decode_of_tooLarge (by omega)] at h
    cases h
  · intro hsize
    exact decode_token hissuer hcount hflow hread (by omega)

/-- **When an invite can be redeemed.**  For every invite with endpoints without flow
information and every issuer, with a JSON writer that gives the compact text and a reader
that reads it back: every token that is issued is redeemed as the invite, and one is issued
unless the issuer or the number of bootstrap peers is wrong, if and only if an invite that
is issued takes at most 6075 bytes. -/
theorem redeemable_iff
    (hflow : ∀ b ∈ invite.bootstrap, ∀ e ∈ b.endpoints, e.flowinfo = 0)
    (hwrite : toVec invite.raw = .ok (Json.utf8 invite.raw.compactJson))
    (hread : json (Json.utf8 invite.raw.compactJson) = .ok invite.raw) :
    invite.Redeems toVec json issuer ↔
      (issuer.publicKey = invite.issuer → 1 ≤ invite.bootstrap.length →
        invite.bootstrap.length ≤ 8 → invite.jsonSize ≤ 6075) := by
  have hfails : (∃ e, invite.encode toVec issuer = .error e) ↔ issuer.publicKey ≠ invite.issuer ∨
      invite.bootstrap.length = 0 ∨ 8 < invite.bootstrap.length := by
    cases hencode : invite.encode toVec issuer with
    | ok tok =>
        obtain ⟨hissuer, hcount, -⟩ := (encode_eq_ok_iff hwrite).1 hencode
        refine iff_of_false nofun ?_
        rintro (h | h | h)
        · exact h hissuer
        · omega
        · omega
    | error e =>
        refine iff_of_true ⟨e, rfl⟩ ?_
        by_contra hno
        rw [not_or, not_or, not_not] at hno
        have hok : invite.encode toVec issuer = .ok _ :=
          (encode_eq_ok_iff hwrite).2 ⟨hno.1, by omega, rfl⟩
        rw [hencode] at hok
        cases hok
  constructor
  · rintro ⟨hall, -⟩ hissuer hsome hfew
    have hencode : invite.encode toVec issuer = .ok _ :=
      (encode_eq_ok_iff hwrite).2 ⟨hissuer, ⟨hsome, hfew⟩, rfl⟩
    exact (decode_token_iff hissuer ⟨hsome, hfew⟩ hflow hread).1 (hall _ hencode)
  · intro hsize
    refine ⟨fun tok hencode => ?_, hfails⟩
    obtain ⟨hissuer, hcount, rfl⟩ := (encode_eq_ok_iff hwrite).1 hencode
    exact (decode_token_iff hissuer hcount hflow hread).2 (hsize hissuer hcount.1 hcount.2)

end Redeem

/-! ### A name that is too long -/

/-- The issuer of an invite, node 1. -/
def plainIssuer : NodeIdentity Crypto.plain where
  publicKey := plainKey 1 0
  sign _ := ⟨List.replicate 64 0, rfl⟩
  verifies _ := rfl

/-- An invite to a network of some name, with node 1 as the bootstrap peer. -/
def plainInvite (networkName : String) : Invite Crypto.plain where
  id := ⟨List.replicate 16 0, rfl⟩
  networkName := networkName
  networkKey := ⟨⟨List.replicate 32 0, rfl⟩⟩
  issuer := plainKey 1 0
  issuedUnix := 0
  expiresUnix := 1
  listenPort := 4193
  bootstrap := [⟨"b", plainKey 1 0, [⟨plainAddr, 4193, 0, 0⟩]⟩]

/-- A writer of compact JSON. -/
def plainToVec (raw : RawInvite) : Except Unit (List UInt8) := .ok (Json.utf8 raw.compactJson)

/-- A reader that knows the text of one record. -/
def plainFromSlice (raw : RawInvite) (bytes : List UInt8) : Except Unit RawInvite :=
  if bytes = Json.utf8 raw.compactJson then .ok raw else .error ()

/-- The invite to the network `a` is redeemed. -/
theorem plainInvite_redeems :
    (plainInvite "a").Redeems plainToVec (plainFromSlice (plainInvite "a").raw) plainIssuer := by
  have hflow : ∀ b ∈ (plainInvite "a").bootstrap, ∀ e ∈ b.endpoints, e.flowinfo = 0 := by decide
  refine (redeemable_iff hflow rfl (if_pos rfl)).2 fun _ _ _ => ?_
  decide +kernel

/-- **A name of 6000 bytes is issued and not redeemed.** -/
theorem longName_not_redeemed :
    let invite := plainInvite (String.ofList (List.replicate 6000 'a'))
    (∃ tok e, invite.encode plainToVec plainIssuer = .ok tok ∧
        decode Crypto.plain (plainFromSlice invite.raw) tok = .error e) ∧
      ¬invite.Redeems plainToVec (plainFromSlice invite.raw) plainIssuer := by
  intro invite
  have hname : Json.escapedSize invite.networkName.toList = 6000 := by
    have hplain : ∀ c ∈ List.replicate 6000 'a', Json.shortEscape c = none ∧ 32 ≤ c.toNat ∧
        c.utf8Size = 1 := by
      intro c hc
      obtain rfl := List.eq_of_mem_replicate hc
      decide
    have htext : invite.networkName.toList = List.replicate 6000 'a' := String.toList_ofList
    rw [htext, Json.escapedSize_eq_length hplain, List.length_replicate]
  have hlong : 6075 < invite.jsonSize := by
    rw [jsonSize, hname]
    omega
  have hencode : invite.encode plainToVec plainIssuer =
      .ok (token plainIssuer (Json.utf8 invite.raw.compactJson)) :=
    (encode_eq_ok_iff rfl).2 ⟨rfl, ⟨le_rfl, by decide⟩, rfl⟩
  have htooLarge : 8192 < textLen (token plainIssuer (Json.utf8 invite.raw.compactJson)) := by
    rw [textLen_token, Json.length_utf8, size_compactJson]
    omega
  have hdecode : decode Crypto.plain (plainFromSlice invite.raw)
      (token plainIssuer (Json.utf8 invite.raw.compactJson)) = .error _ :=
    decode_of_tooLarge htooLarge
  refine ⟨⟨_, _, hencode, hdecode⟩, fun h => ?_⟩
  rw [h.1 _ hencode] at hdecode
  cases hdecode

end Invite

end Hextet
