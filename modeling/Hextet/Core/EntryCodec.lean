/-
# The gossip wire format is canonical

`Entry::encode` and `Entry::decode` of `crates/core/src/gossip.rs` against each
other.  `decode` accepts a byte string exactly when it is the encoding of a
valid entry, and then returns that entry (`decode_eq_ok_iff`): no trailing
bytes, no second encoding.  Whatever the bytes, `decode` ends in a value or an
error and never reads out of range (`decode_ne_panic`).  The signed region of a
valid entry determines the entry up to its signature
(`withSig_eq_of_signedRegion`).
-/

import Hextet.Core.EntryPayload

namespace Hextet
namespace Entry

open Lib

variable {C : Crypto}

/-- The wire layout up to the payload, by its fields. -/
def frame (k : UInt8) (s : Bytes 8) (n g : Bytes 32) : List UInt8 :=
  gossipMagic ++ gossipVersion :: k :: (s.1 ++ (n.1 ++ g.1))

@[simp] theorem length_frame (k : UInt8) (s : Bytes 8) (n g : Bytes 32) :
    (frame k s n g).length = 78 := by
  simp [frame, gossipMagic]

theorem kind_asU8 (kind : Kind) : Kind.fromU8 kind.asU8 = .ok kind := by
  cases kind <;> rfl

theorem asU8_of_fromU8 {k : UInt8} {kind : Kind} (h : Kind.fromU8 k = .ok kind) :
    kind.asU8 = k := by
  unfold Kind.fromU8 at h
  split_ifs at h with h₁ h₂ h₃ <;> cases h <;> simp [Kind.asU8, *]

/-- The header of an entry is the frame of its fields. -/
theorem header_eq_frame (e : Entry C) :
    e.header = frame e.kind.asU8 ⟨beBytes 8 e.seq.toNat, length_beBytes ..⟩ e.node.bytes
      e.signer.bytes := rfl

@[simp] theorem readKey_bytes (k : NodePublicKey C) : readKey C k.bytes = .ok k := by
  rw [readKey, NodePublicKey.fromBytes_bytes]

theorem readKey_cases (b : Bytes 32) :
    readKey C b = .err .badPublicKey ∨
      ∃ k : NodePublicKey C, k.bytes = b ∧ readKey C b = .ok k := by
  unfold readKey
  cases h : NodePublicKey.fromBytes C b with
  | error e => exact Or.inl rfl
  | ok k => exact Or.inr ⟨k, NodePublicKey.bytes_of_fromBytes h, rfl⟩

/-- The header fields are read where the frame put them. -/
theorem decode_frame (k : UInt8) (s : Bytes 8) (n g : Bytes 32) {r : List UInt8}
    (hr : 64 ≤ r.length) :
    decode C (frame k s n g ++ r) = (do
      let kind ← Outcome.ofExcept (Kind.fromU8 k)
      let node ← readKey C n
      let signer ← readKey C g
      decodeBody (frame k s n g ++ r) kind (UInt64.ofNat (ofBe s.1)) node signer) := by
  have hmagic : slice (frame k s n g ++ r) 0 4 = (.ok gossipMagic : Outcome GossipError _) := by
    rw [frame, List.append_assoc]
    exact slice_append [] gossipMagic _ rfl rfl
  have hver : index (frame k s n g ++ r) 4 = (.ok gossipVersion : Outcome GossipError _) := by
    rw [frame, List.append_assoc]
    exact index_append gossipMagic _ _ rfl
  have hkind : index (frame k s n g ++ r) 5 = (.ok k : Outcome GossipError _) := by
    rw [show frame k s n g ++ r = (gossipMagic ++ [gossipVersion]) ++
      k :: (s.1 ++ (n.1 ++ (g.1 ++ r))) by simp [frame]]
    exact index_append _ _ _ rfl
  have hseq : slice (frame k s n g ++ r) 6 14 = (.ok s.1 : Outcome GossipError _) := by
    rw [show frame k s n g ++ r = (gossipMagic ++ [gossipVersion, k]) ++
      (s.1 ++ (n.1 ++ (g.1 ++ r))) by simp [frame]]
    exact slice_append _ _ _ rfl (by simp [gossipMagic])
  have hnode : slice (frame k s n g ++ r) 14 46 = (.ok n.1 : Outcome GossipError _) := by
    rw [show frame k s n g ++ r = (gossipMagic ++ ([gossipVersion, k] ++ s.1)) ++
      (n.1 ++ (g.1 ++ r)) by simp [frame]]
    exact slice_append _ _ _ (by simp [gossipMagic]) (by simp [gossipMagic])
  have hsigner : slice (frame k s n g ++ r) 46 78 = (.ok g.1 : Outcome GossipError _) := by
    rw [show frame k s n g ++ r = (gossipMagic ++ ([gossipVersion, k] ++ (s.1 ++ n.1))) ++
      (g.1 ++ r) by simp [frame]]
    exact slice_append _ _ _ (by simp [gossipMagic]) (by simp [gossipMagic])
  have hlen : ¬(frame k s n g ++ r).length < headerLen + sigLen := by
    simp only [List.length_append, length_frame, headerLen, sigLen]
    omega
  simp only [decode, if_neg hlen, hmagic, hver, hkind, hseq, hnode, hsigner, Outcome.ok_bind,
    array_val, ne_eq, not_true_eq_false, if_false]

/-- Bytes that are not refused at once are a frame with at least a signature
behind it. -/
theorem decode_cases (b : List UInt8) :
    (∃ er, decode C b = .err er) ∨
      ∃ k s n g r, b = frame k s n g ++ r ∧ 64 ≤ r.length := by
  by_cases hlen : b.length < headerLen + sigLen
  · exact Or.inl ⟨_, if_pos hlen⟩
  have hb : 142 ≤ b.length := by
    simp only [headerLen, sigLen] at hlen
    omega
  obtain ⟨m, b, rfl⟩ := exists_append_of_le b (show 4 ≤ b.length by omega)
  rw [List.length_append, m.2] at hb
  obtain ⟨⟨x, hx⟩, b, rfl⟩ := exists_append_of_le b (show 2 ≤ b.length by omega)
  obtain ⟨v, k, rfl⟩ := List.length_eq_two.1 hx
  obtain ⟨s, b, rfl⟩ := exists_append_of_le b (show 8 ≤ b.length by simp at hb; omega)
  obtain ⟨n, b, rfl⟩ := exists_append_of_le b (show 32 ≤ b.length by simp at hb; omega)
  obtain ⟨g, r, rfl⟩ := exists_append_of_le b (show 32 ≤ b.length by simp at hb; omega)
  have hmagic : slice (m.1 ++ ([v, k] ++ (s.1 ++ (n.1 ++ (g.1 ++ r))))) 0 4
      = (.ok m.1 : Outcome GossipError _) := slice_append [] m.1 _ rfl (by simp)
  have hver : index (m.1 ++ ([v, k] ++ (s.1 ++ (n.1 ++ (g.1 ++ r))))) 4
      = (.ok v : Outcome GossipError _) := index_append m.1 _ v m.2
  rw [decode, if_neg hlen, hmagic, Outcome.ok_bind]
  by_cases hm : m.1 ≠ gossipMagic
  · exact Or.inl ⟨_, if_pos hm⟩
  rw [if_neg hm, hver, Outcome.ok_bind]
  by_cases hv : v ≠ gossipVersion
  · exact Or.inl ⟨_, if_pos hv⟩
  rw [not_not] at hm hv
  refine Or.inr ⟨k, s, n, g, r, by simp [frame, hm, hv], ?_⟩
  simp at hb
  omega

section

variable {h : List UInt8} {kind : Kind} {seq : UInt64} {node signer : NodePublicKey C}

/-- What follows the header: the payload of an entry, its signature over the
header and the payload, and the rule who may sign. -/
theorem decodeBody_of_readAs (hh : h.length = 78) {e : Entry C} {p : List UInt8} {sig : Bytes 64}
    (he : ReadAs e kind seq node signer p) :
    decodeBody (h ++ (p ++ sig.1)) kind seq node signer =
      if signer.verify (h ++ p) sig = false then .err .badSignature
      else if kind = .endpoint ∧ signer ≠ node then .err .endpointNotSelfSigned
      else if kind ≠ .endpoint ∧ signer = node then .err .selfIssued
      else .ok (e.withSig sig) := by
  have hlen : (h ++ (p ++ sig.1)).length - sigLen = (h ++ p).length := by
    simp only [List.length_append, sig.2, sigLen]
    omega
  have hsig : slice (h ++ (p ++ sig.1)) (h ++ p).length (h ++ (p ++ sig.1)).length
      = (.ok sig.1 : Outcome GossipError _) := by
    rw [← List.append_assoc]
    exact slice_append_end _ _ rfl (by simp only [List.length_append])
  have hregion : slice (h ++ (p ++ sig.1)) 0 (h ++ p).length
      = (.ok (h ++ p) : Outcome GossipError _) := by
    rw [← List.append_assoc]
    exact slice_append [] (h ++ p) sig.1 rfl (Nat.zero_add _)
  simp only [decodeBody, decodePayload_payload hh he, Outcome.ok_bind, hlen, hsig, hregion,
    array_val]

/-- Past the header there is a payload and a signature, or an error. -/
theorem decodeBody_cases (hh : h.length = 78) {r : List UInt8} (hr : 64 ≤ r.length) (kind : Kind)
    (seq : UInt64) (node signer : NodePublicKey C) :
    (∃ er, decodeBody (h ++ r) kind seq node signer = .err er) ∨
      ∃ (e : Entry C) (p : List UInt8) (sig : Bytes 64), r = p ++ sig.1 ∧
        ReadAs e kind seq node signer p := by
  rcases decodePayload_cases hh hr kind seq node signer with
    ⟨er, her⟩ | ⟨e, p, sig, hr', he, -⟩
  · exact Or.inl ⟨er, by rw [decodeBody, her, Outcome.err_bind]⟩
  · exact Or.inr ⟨e, p, sig, hr', he⟩

end

@[simp] theorem kind_withSig (e : Entry C) (g : Bytes 64) : (e.withSig g).kind = e.kind := by
  cases e <;> rfl

@[simp] theorem node_withSig (e : Entry C) (g : Bytes 64) : (e.withSig g).node = e.node := by
  cases e <;> rfl

@[simp] theorem seq_withSig (e : Entry C) (g : Bytes 64) : (e.withSig g).seq = e.seq := by
  cases e <;> rfl

@[simp] theorem signer_withSig (e : Entry C) (g : Bytes 64) : (e.withSig g).signer = e.signer := by
  cases e <;> rfl

@[simp] theorem sig_withSig (e : Entry C) (g : Bytes 64) : (e.withSig g).sig = g := by
  cases e <;> rfl

@[simp] theorem payload_withSig (e : Entry C) (g : Bytes 64) :
    (e.withSig g).payload = e.payload := by
  cases e <;> rfl

@[simp] theorem withSig_withSig (e : Entry C) (g g' : Bytes 64) :
    (e.withSig g).withSig g' = e.withSig g' := by
  cases e <;> rfl

@[simp] theorem withSig_sig (e : Entry C) : e.withSig e.sig = e := by
  cases e <;> rfl

/-- The rule who may sign: a node announces itself, and others admit or revoke
it. -/
theorem signer_of_endpoint {e : Entry C} (h : e.kind = .endpoint) : e.signer = e.node := by
  cases e <;> first | rfl | cases h

/-- **What `is_valid` checks**: somebody else signed, unless the entry is an
endpoint, and the signature is over the header and the payload. -/
theorem isValid_iff (e : Entry C) :
    e.isValid = true ↔ (e.kind ≠ .endpoint → e.signer ≠ e.node) ∧
      ∃ p, e.payload = .ok p ∧ e.signer.verify (e.header ++ p) e.sig = true := by
  have hv : e.verify = true ↔
      ∃ p, e.payload = .ok p ∧ e.signer.verify (e.header ++ p) e.sig = true := by
    rw [verify, signedRegion]
    cases e.payload with
    | error er => simp [Except.map]
    | ok p => simp [Except.map]
  cases e with
  | endpoint => simp [isValid, hv, kind, signer]
  | member => simp [isValid, hv, kind]
  | revocation => simp [isValid, hv, kind]

/-- The encoding is the header, the payload and the signature. -/
theorem encode_of_payload {e : Entry C} {p : List UInt8} (h : e.payload = .ok p) :
    e.encode = .ok (e.header ++ (p ++ e.sig.1)) := by
  simp [encode, signedRegion, h, Except.map]

/-- An entry read under the rule who may sign has the signer that was read. -/
theorem signer_of_readAs {e : Entry C} {kind : Kind} {seq : UInt64}
    {node signer : NodePublicKey C} {p : List UInt8} (he : ReadAs e kind seq node signer p)
    (hs : kind = .endpoint → signer = node) : e.signer = signer := by
  by_cases hkind : kind = .endpoint
  · rw [hs hkind, signer_of_endpoint (he.kind_eq.trans hkind), he.node_eq]
  · exact he.signer_eq hkind

/-- An entry read from a frame has that frame as its header. -/
theorem header_of_readAs {e : Entry C} {kind : Kind} {s : Bytes 8} {node signer : NodePublicKey C}
    {p : List UInt8} {k : UInt8} (he : ReadAs e kind (UInt64.ofNat (ofBe s.1)) node signer p)
    (hk : kind.asU8 = k) (hs : kind = .endpoint → signer = node) (g : Bytes 64) :
    (e.withSig g).header = frame k s node.bytes signer.bytes := by
  rw [header, frame, kind_withSig, seq_withSig, node_withSig, signer_withSig, he.kind_eq,
    he.node_eq, he.seq_eq, signer_of_readAs he hs, hk, beBytes_u64]

/-- An entry without its signature is read as itself. -/
theorem readAs_withSig {e : Entry C} {p : List UInt8} (hp : e.payload = .ok p) :
    ReadAs (e.withSig zeroSig) e.kind e.seq e.node e.signer p where
  kind_eq := kind_withSig ..
  seq_eq := seq_withSig ..
  node_eq := node_withSig ..
  signer_eq _ := signer_withSig ..
  sig_eq := sig_withSig ..
  payload_eq := by rw [payload_withSig, hp]

/-- A key that is read is the bytes it is read from. -/
theorem bytes_of_readKey {b : Bytes 32} {k : NodePublicKey C} (h : readKey C b = .ok k) :
    k.bytes = b := by
  rcases readKey_cases (C := C) b with h' | ⟨k', rfl, h'⟩
  · cases h'.symm.trans h
  · cases h'.symm.trans h
    rfl

theorem asU8_of_read {b : UInt8} {kind : Kind} (h : Outcome.ofExcept (Kind.fromU8 b) = .ok kind) :
    kind.asU8 = b := by
  cases hf : Kind.fromU8 b with
  | error er =>
      rw [hf] at h
      cases h
  | ok kind' =>
      rw [hf] at h
      cases h
      exact asU8_of_fromU8 hf

/-- What is decoded is valid, and is what was encoded. -/
theorem isValid_and_encode_of_decode {b : List UInt8} {e : Entry C} (hdec : decode C b = .ok e) :
    e.isValid = true ∧ e.encode = .ok b := by
  rcases decode_cases (C := C) b with ⟨er, her⟩ | ⟨k, s, n, g, r, rfl, hr⟩
  · rw [her] at hdec
    cases hdec
  rw [decode_frame k s n g hr, Outcome.bind_eq_ok] at hdec
  obtain ⟨kind, hkind, hdec⟩ := hdec
  obtain ⟨node, hnode, hdec⟩ := Outcome.bind_eq_ok.1 hdec
  obtain ⟨signer, hsigner, hdec⟩ := Outcome.bind_eq_ok.1 hdec
  obtain rfl := bytes_of_readKey hnode
  obtain rfl := bytes_of_readKey hsigner
  have hk := asU8_of_read hkind
  rcases decodeBody_cases (length_frame ..) hr kind (UInt64.ofNat (ofBe s.1)) node signer with
    ⟨er, her⟩ | ⟨e₀, p, sig, rfl, he₀⟩
  · rw [her] at hdec
    cases hdec
  rw [decodeBody_of_readAs (length_frame ..) he₀] at hdec
  split_ifs at hdec with hverify hself hother
  cases hdec
  have hkn : kind = .endpoint → signer = node := fun hke => by
    by_contra hne
    exact hself ⟨hke, hne⟩
  have hheader := header_of_readAs he₀ hk hkn sig
  have hsig' : (e₀.withSig sig).signer = signer := by
    rw [signer_withSig, signer_of_readAs he₀ hkn]
  refine ⟨(isValid_iff _).2 ⟨fun hke => ?_, p, by simpa using he₀.payload_eq, ?_⟩, ?_⟩
  · rw [kind_withSig, he₀.kind_eq] at hke
    rw [hsig', node_withSig, he₀.node_eq]
    exact fun hne => hother ⟨hke, hne⟩
  · rw [hsig', hheader, sig_withSig]
    simpa using hverify
  · rw [encode_of_payload (p := p) (by simpa using he₀.payload_eq), hheader, sig_withSig]

/-- The encoding of a valid entry is decoded to it. -/
theorem decode_of_encode {b : List UInt8} {e : Entry C} (hvalid : e.isValid = true)
    (henc : e.encode = .ok b) : decode C b = .ok e := by
  obtain ⟨hrule, p, hp, hverify⟩ := (isValid_iff e).1 hvalid
  rw [encode_of_payload hp] at henc
  cases henc
  have he := readAs_withSig hp
  rw [header_eq_frame] at hverify ⊢
  rw [decode_frame _ _ _ _ (by simp), kind_asU8, Outcome.ofExcept_ok, Outcome.ok_bind,
    readKey_bytes, Outcome.ok_bind, readKey_bytes, Outcome.ok_bind, u64_beBytes,
    decodeBody_of_readAs (length_frame ..) he, if_neg (by simp [hverify]), if_neg, if_neg,
    withSig_withSig, withSig_sig]
  · exact fun ⟨hk, hs⟩ => hrule hk hs
  · exact fun ⟨hk, hs⟩ => hs (signer_of_endpoint hk)

/-- **`decode` accepts exactly the encodings of valid entries**, and returns the
entry that was encoded. -/
theorem decode_eq_ok_iff {b : List UInt8} {e : Entry C} :
    decode C b = .ok e ↔ e.isValid = true ∧ e.encode = .ok b :=
  ⟨isValid_and_encode_of_decode, fun h => decode_of_encode h.1 h.2⟩

/-- A valid entry has an encoding. -/
theorem encode_of_isValid {e : Entry C} (h : e.isValid = true) : ∃ b, e.encode = .ok b := by
  obtain ⟨-, p, hp, -⟩ := (isValid_iff e).1 h
  exact ⟨_, encode_of_payload hp⟩

/-- **Valid entries with one encoding are equal.** -/
theorem encode_injOn {e e' : Entry C} (h : e.isValid = true) (h' : e'.isValid = true)
    (heq : e.encode = e'.encode) : e = e' := by
  obtain ⟨b, hb⟩ := encode_of_isValid h
  have hd := decode_eq_ok_iff.2 ⟨h, hb⟩
  rw [decode_eq_ok_iff.2 ⟨h', heq ▸ hb⟩] at hd
  cases hd
  rfl

/-- The fields of a frame are determined by its bytes. -/
theorem frame_inj {k k' : UInt8} {s s' : Bytes 8} {n n' g g' : Bytes 32}
    (h : frame k s n g = frame k' s' n' g') : k = k' ∧ s = s' ∧ n = n' ∧ g = g' := by
  simp only [frame, List.append_cancel_left_eq, List.cons.injEq, true_and] at h
  obtain ⟨hk, h⟩ := h
  obtain ⟨hs, h⟩ := List.append_inj h (by simp)
  obtain ⟨hn, hg⟩ := List.append_inj h (by simp)
  exact ⟨hk, Subtype.ext hs, Subtype.ext hn, Subtype.ext hg⟩

/-- **Valid entries with one signed region differ at most in the signature.** -/
theorem withSig_eq_of_signedRegion {e e' : Entry C} (h : e.isValid = true)
    (h' : e'.isValid = true) (heq : e.signedRegion = e'.signedRegion) :
    e.withSig e'.sig = e' := by
  obtain ⟨-, p, hp, -⟩ := (isValid_iff e).1 h
  obtain ⟨-, p', hp', -⟩ := (isValid_iff e').1 h'
  simp only [signedRegion, hp, hp', Except.map, Except.ok.injEq] at heq
  have hlen : e.header.length = e'.header.length := by
    rw [header_eq_frame, header_eq_frame, length_frame, length_frame]
  obtain ⟨hheader, rfl⟩ := List.append_inj heq hlen
  rw [header_eq_frame, header_eq_frame] at hheader
  obtain ⟨hkind, hseq, hnode, hsigner⟩ := frame_inj hheader
  have hkind : e.kind = e'.kind := by
    have h := kind_asU8 e.kind
    rw [hkind, kind_asU8, Except.ok.injEq] at h
    exact h.symm
  have hseq : e.seq = e'.seq := by
    rw [← u64_beBytes e.seq, Subtype.mk.inj hseq, u64_beBytes]
  -- both are what the payload reader returns behind a header of these fields
  have hread := decodePayload_payload (length_frame 0 ⟨beBytes 8 0, length_beBytes ..⟩
    e.node.bytes e.signer.bytes) (readAs_withSig hp) zeroSig
  have hread' := readAs_withSig hp'
  rw [← hkind, ← hseq, ← NodePublicKey.ext_bytes hnode, ← NodePublicKey.ext_bytes hsigner]
    at hread'
  rw [decodePayload_payload (length_frame ..) hread' zeroSig, Outcome.ok.injEq] at hread
  rw [← withSig_withSig e zeroSig, ← hread, withSig_withSig, withSig_sig]

/-- **`decode` never reads out of range**, for any bytes of any length. -/
theorem decode_ne_panic (b : List UInt8) : decode C b ≠ .panic := by
  rcases decode_cases (C := C) b with ⟨er, her⟩ | ⟨k, s, n, g, r, rfl, hr⟩
  · rw [her]
    exact nofun
  rw [decode_frame k s n g hr]
  refine Outcome.bind_ne_panic ?_ fun kind _ => ?_
  · cases Kind.fromU8 k <;> exact nofun
  refine Outcome.bind_ne_panic ?_ fun node _ => Outcome.bind_ne_panic ?_ fun signer _ => ?_
  · rcases readKey_cases (C := C) n with h | ⟨_, -, h⟩ <;> rw [h] <;> exact nofun
  · rcases readKey_cases (C := C) g with h | ⟨_, -, h⟩ <;> rw [h] <;> exact nofun
  rcases decodeBody_cases (length_frame ..) hr kind (UInt64.ofNat (ofBe s.1)) node signer with
    ⟨er, her⟩ | ⟨e, p, sig, rfl, he⟩
  · rw [her]
    exact nofun
  · rw [decodeBody_of_readAs (length_frame ..) he]
    split_ifs <;> exact nofun

/-- **The gossip wire format is canonical.**  `decode` accepts exactly the
encodings of valid entries and inverts `encode` on them, the signed region
leaves only the signature open, and no byte string makes `decode` read out of
range. -/
theorem wire_format_canonical (C : Crypto) :
    (∀ (b : List UInt8) (e : Entry C), decode C b = .ok e → e.isValid = true ∧ e.encode = .ok b) ∧
    (∀ e : Entry C, e.isValid = true → ∃ b, e.encode = .ok b ∧ decode C b = .ok e) ∧
    (∀ e e' : Entry C, e.isValid = true → e'.isValid = true →
      e.signedRegion = e'.signedRegion → e.withSig e'.sig = e') ∧
    ∀ b : List UInt8, decode C b ≠ .panic := by
  refine ⟨fun b e => decode_eq_ok_iff.1, fun e he => ?_, fun e e' => withSig_eq_of_signedRegion,
    decode_ne_panic⟩
  obtain ⟨b, hb⟩ := encode_of_isValid he
  exact ⟨b, hb, decode_eq_ok_iff.2 ⟨he, hb⟩⟩

end Entry
end Hextet
