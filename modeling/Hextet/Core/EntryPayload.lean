/-
# Reading the payload of an entry

The payload readers of `Entry.decode`, `crates/core/src/gossip.rs`.  Each is
run on bytes `h ++ r` with `h` the 78 bytes of a header and `r` at least a
signature long, which is what `decode` has checked when it calls them.  On such
bytes a reader ends in one of two ways (`decodePayload_cases`): with an error,
or with the entry whose payload and signature are exactly `r`.  On the payload
of an entry followed by a signature it gives that entry
(`decodePayload_payload`).  It never panics, because the length is compared
with the fields before anything past them is read.
-/

import Hextet.Core.Entry

namespace Hextet
namespace Entry

open Lib

variable {C : Crypto}

/-- `e` is what a reader of kind `kind` returns: the header fields it was given,
a payload of the wire format, and no signature yet. -/
structure ReadAs (e : Entry C) (kind : Kind) (seq : UInt64) (node signer : NodePublicKey C)
    (p : List UInt8) : Prop where
  kind_eq : e.kind = kind
  seq_eq : e.seq = seq
  node_eq : e.node = node
  signer_eq : kind ≠ .endpoint → e.signer = signer
  sig_eq : e.sig = zeroSig
  payload_eq : e.payload = .ok p

theorem length_flatMap_octets (eps : List Ipv6Addr) :
    (eps.flatMap fun a => a.octets.1).length = 16 * eps.length := by
  induction eps with
  | nil => rfl
  | cons a eps ih =>
      have ha : a.octets.1.length = 16 := a.octets.2
      simp only [List.flatMap_cons, List.length_append, List.length_cons, ih, ha]
      ring

/-- The address loop reads back concatenated addresses. -/
theorem readAddrs_flatMap (eps : List Ipv6Addr) (a c : List UInt8) :
    readAddrs (a ++ ((eps.flatMap fun a => a.octets.1) ++ c)) a.length eps.length = .ok eps := by
  induction eps generalizing a with
  | nil => rfl
  | cons x eps ih =>
      have hx : x.octets.1.length = 16 := x.octets.2
      have h := ih (a ++ x.octets.1)
      rw [List.length_append, hx] at h
      rw [List.length_cons, readAddrs, List.flatMap_cons, List.append_assoc,
        slice_append a x.octets.1 _ rfl (by rw [hx]), Outcome.ok_bind, array_val, Outcome.ok_bind,
        ← List.append_assoc, h, Outcome.ok_bind]

/-- Bytes of the right length are concatenated addresses. -/
theorem exists_flatMap_octets (n : ℕ) (b : List UInt8) (h : 16 * n ≤ b.length) :
    ∃ (eps : List Ipv6Addr) (c : List UInt8),
      eps.length = n ∧ b = (eps.flatMap fun a => a.octets.1) ++ c := by
  induction n generalizing b with
  | zero => exact ⟨[], b, rfl, rfl⟩
  | succ n ih =>
      obtain ⟨v, r, rfl⟩ := exists_append_of_le b (show 16 ≤ b.length by omega)
      have hv : v.1.length = 16 := v.2
      obtain ⟨eps, c, rfl, rfl⟩ := ih r (by rw [List.length_append, hv] at h; omega)
      exact ⟨⟨v⟩ :: eps, c, by simp, by simp⟩

theorem u8_of_le {n : ℕ} (h : n ≤ 255) : (UInt8.ofNat n).toNat = n := by
  rw [UInt8.toNat_ofNat', Nat.mod_eq_of_lt (by omega)]

/-- A name is read back from its bytes. -/
theorem fromUTF8?_nameBytes (name : String) :
    String.fromUTF8? ⟨(nameBytes name).toArray⟩ = some name := by
  have h : (⟨(nameBytes name).toArray⟩ : ByteArray) = name.toByteArray := by
    simp [nameBytes]
  rw [h, String.fromUTF8?, dif_pos name.isValidUTF8]
  rfl

/-- A name that was read has the bytes it was read from. -/
theorem nameBytes_of_fromUTF8? {raw : List UInt8} {name : String}
    (h : String.fromUTF8? ⟨raw.toArray⟩ = some name) : nameBytes name = raw := by
  unfold String.fromUTF8? at h
  split at h
  · cases h
    simp [nameBytes, String.fromUTF8]
  · cases h

section

variable {h r : List UInt8} {node signer : NodePublicKey C} {seq : UInt64}

/-- An endpoint payload and a signature are read as their entry. -/
theorem decodeEndpoint_append (hh : h.length = 78) (node : NodePublicKey C) (seq : UInt64)
    (p : Bytes 2) (eps : List Ipv6Addr) (sig : Bytes 64) (heps : eps.length ≤ 4) :
    decodeEndpoint (h ++ UInt8.ofNat eps.length ::
        (p.1 ++ ((eps.flatMap fun a => a.octets.1) ++ sig.1))) node seq
      = .ok (.endpoint node eps (UInt16.ofNat (ofBe p.1)) seq zeroSig) := by
  have hp : p.1.length = 2 := p.2
  have hsig : sig.1.length = 64 := sig.2
  have hn := u8_of_le (show eps.length ≤ 255 by omega)
  have hlen : (h ++ UInt8.ofNat eps.length ::
      (p.1 ++ ((eps.flatMap fun a => a.octets.1) ++ sig.1))).length
        = headerLen + 3 + 16 * eps.length + sigLen := by
    simp only [List.length_append, List.length_cons, length_flatMap_octets, hh, hp, hsig,
      headerLen, sigLen]
    omega
  have hport : slice (h ++ UInt8.ofNat eps.length ::
      (p.1 ++ ((eps.flatMap fun a => a.octets.1) ++ sig.1))) 79 81
        = (.ok p.1 : Outcome GossipError _) := by
    rw [List.append_cons]
    exact slice_append _ _ _ (by simp [hh]) (by simp [hh, hp])
  have haddrs := readAddrs_flatMap eps (h ++ UInt8.ofNat eps.length :: p.1) sig.1
  rw [show (h ++ UInt8.ofNat eps.length :: p.1).length = headerLen + 3 by
    simp [hh, hp, headerLen], List.append_assoc, List.cons_append] at haddrs
  simp only [decodeEndpoint, index_append h _ _ hh, Outcome.ok_bind, hn, hlen, hport, haddrs,
    ne_eq, not_true_eq_false, if_false, gossipMaxAddrs, gt_iff_lt, Nat.not_lt.2 heps]

/-- Bytes behind a header are refused as an endpoint payload, or are one. -/
theorem decodeEndpoint_cases (hh : h.length = 78) (hr : 64 ≤ r.length) (node : NodePublicKey C)
    (seq : UInt64) :
    (∃ er, decodeEndpoint (C := C) (h ++ r) node seq = .err er) ∨
      ∃ (p : Bytes 2) (eps : List Ipv6Addr) (sig : Bytes 64), eps.length ≤ 4 ∧
        r = UInt8.ofNat eps.length :: (p.1 ++ ((eps.flatMap fun a => a.octets.1) ++ sig.1)) := by
  cases r with
  | nil => simp at hr
  | cons c r =>
      rw [decodeEndpoint, index_append h _ _ hh, Outcome.ok_bind]
      by_cases hn : c.toNat > gossipMaxAddrs
      · exact Or.inl ⟨_, if_pos hn⟩
      · by_cases hlen : (h ++ c :: r).length ≠ headerLen + 3 + 16 * c.toNat + sigLen
        · exact Or.inl ⟨_, by rw [if_neg hn, if_pos hlen]⟩
        · right
          rw [not_not, List.length_append, List.length_cons, hh, headerLen, sigLen] at hlen
          obtain ⟨p, r, rfl⟩ := exists_append_of_le r (show 2 ≤ r.length by omega)
          have hp : p.1.length = 2 := p.2
          rw [List.length_append, hp] at hlen
          obtain ⟨eps, r, heps, rfl⟩ := exists_flatMap_octets c.toNat r (by omega)
          rw [List.length_append, length_flatMap_octets, heps] at hlen
          refine ⟨p, eps, ⟨r, by omega⟩, by rw [heps]; exact Nat.not_lt.1 hn, ?_⟩
          rw [heps, UInt8.ofNat_toNat]

/-- A member payload and a signature are read as their entry. -/
theorem decodeMember_append (hh : h.length = 78) (node signer : NodePublicKey C) (seq : UInt64)
    (t : Bytes 2) (name : String) (d : Bytes 16) (sig : Bytes 64)
    (hname : (nameBytes name).length ≤ 255) :
    decodeMember (h ++ (t.1 ++ UInt8.ofNat (nameBytes name).length ::
        (nameBytes name ++ (d.1 ++ sig.1)))) node signer seq
      = .ok (.member node name (UInt16.ofNat (ofBe t.1)) seq zeroSig signer d) := by
  have ht : t.1.length = 2 := t.2
  have hd : d.1.length = 16 := d.2
  have hsig : sig.1.length = 64 := sig.2
  set m := nameBytes name with hm
  set bytes := h ++ (t.1 ++ UInt8.ofNat m.length :: (m ++ (d.1 ++ sig.1))) with hbytes
  have hsite : slice bytes 78 80 = (.ok t.1 : Outcome GossipError _) :=
    slice_append h t.1 _ hh (by omega)
  have hcount : index bytes 80 = (.ok (UInt8.ofNat m.length) : Outcome GossipError _) := by
    rw [hbytes, ← List.append_assoc]
    exact index_append _ _ _ (by simp [hh, ht])
  have hsplit : bytes = (h ++ (t.1 ++ [UInt8.ofNat m.length])) ++ (m ++ (d.1 ++ sig.1)) := by
    simp [hbytes]
  have hname' : slice bytes (headerLen + 3) (headerLen + 3 + m.length)
      = (.ok m : Outcome GossipError _) := by
    rw [hsplit]
    exact slice_append _ _ _ (by simp [hh, ht, headerLen]) (by simp [hh, ht, headerLen])
  have hinvite : slice bytes (headerLen + 3 + m.length) (headerLen + 3 + m.length + inviteIdLen)
      = (.ok d.1 : Outcome GossipError _) := by
    rw [hsplit, ← List.append_assoc]
    exact slice_append _ _ _ (by simp [hh, ht, headerLen]; omega)
      (by simp [hh, ht, hd, headerLen, inviteIdLen]; omega)
  have hlen : bytes.length = headerLen + 3 + m.length + inviteIdLen + sigLen := by
    simp only [hbytes, List.length_append, List.length_cons, hh, ht, hd, hsig, headerLen,
      inviteIdLen, sigLen]
    omega
  have hutf : String.fromUTF8? ⟨m.toArray⟩ = some name := fromUTF8?_nameBytes name
  simp only [decodeMember, hsite, hcount, Outcome.ok_bind, u8_of_le hname, hlen, hname', hinvite,
    hutf, array_val, ne_eq, not_true_eq_false, if_false]

/-- Bytes behind a header are refused as a member payload, or are one. -/
theorem decodeMember_cases (hh : h.length = 78) (hr : 64 ≤ r.length)
    (node signer : NodePublicKey C) (seq : UInt64) :
    (∃ er, decodeMember (C := C) (h ++ r) node signer seq = .err er) ∨
      ∃ (t : Bytes 2) (name : String) (d : Bytes 16) (sig : Bytes 64),
        (nameBytes name).length ≤ 255 ∧
          r = t.1 ++ UInt8.ofNat (nameBytes name).length :: (nameBytes name ++ (d.1 ++ sig.1)) := by
  obtain ⟨t, r, rfl⟩ := exists_append_of_le r (show 2 ≤ r.length by omega)
  have ht : t.1.length = 2 := t.2
  cases r with
  | nil => simp [ht] at hr
  | cons c r =>
      have hsite : slice (h ++ (t.1 ++ c :: r)) 78 80 = (.ok t.1 : Outcome GossipError _) :=
        slice_append h t.1 _ hh (by omega)
      have hcount : index (h ++ (t.1 ++ c :: r)) 80 = (.ok c : Outcome GossipError _) := by
        rw [← List.append_assoc]
        exact index_append _ _ _ (by simp [hh, ht])
      rw [decodeMember, hsite, hcount, Outcome.ok_bind, Outcome.ok_bind]
      by_cases hlen : (h ++ (t.1 ++ c :: r)).length
          ≠ headerLen + 3 + c.toNat + inviteIdLen + sigLen
      · exact Or.inl ⟨_, if_pos hlen⟩
      · rw [if_neg hlen]
        rw [not_not, List.length_append, List.length_append, List.length_cons, hh, ht, headerLen,
          inviteIdLen, sigLen] at hlen
        have hc : c.toNat < 256 := c.toNat_lt
        obtain ⟨m, r, rfl⟩ := exists_append_of_le r (show c.toNat ≤ r.length by omega)
        have hm : m.1.length = c.toNat := m.2
        rw [List.length_append, hm] at hlen
        obtain ⟨d, sig, rfl⟩ := exists_append_of_le r (show 16 ≤ r.length by omega)
        have hd : d.1.length = 16 := d.2
        rw [List.length_append, hd] at hlen
        have hraw : slice (h ++ (t.1 ++ c :: (m.1 ++ (d.1 ++ sig)))) (headerLen + 3)
            (headerLen + 3 + c.toNat) = (.ok m.1 : Outcome GossipError _) := by
          have : h ++ (t.1 ++ c :: (m.1 ++ (d.1 ++ sig)))
              = (h ++ (t.1 ++ [c])) ++ (m.1 ++ (d.1 ++ sig)) := by simp
          rw [this]
          exact slice_append _ _ _ (by simp [hh, ht, headerLen]) (by simp [hh, ht, headerLen])
        simp only [hraw, Outcome.ok_bind]
        cases hutf : String.fromUTF8? ⟨m.1.toArray⟩ with
        | none => exact Or.inl ⟨_, rfl⟩
        | some name =>
            have hnb := nameBytes_of_fromUTF8? hutf
            refine Or.inr ⟨t, name, d, ⟨sig, by omega⟩, by rw [hnb]; omega, ?_⟩
            rw [hnb, hm, UInt8.ofNat_toNat]

/-- Behind a header a revocation is a signature and nothing else. -/
theorem decodeRevocation_cases (hh : h.length = 78) (node signer : NodePublicKey C)
    (seq : UInt64) :
    (∃ er, decodeRevocation (C := C) (h ++ r) node signer seq = .err er) ∨
      ∃ sig : Bytes 64, r = sig.1 ∧
        decodeRevocation (h ++ r) node signer seq = .ok (.revocation node seq zeroSig signer) := by
  unfold decodeRevocation
  by_cases hlen : (h ++ r).length ≠ headerLen + sigLen
  · exact Or.inl ⟨_, if_pos hlen⟩
  · have : r.length = 64 := by
      rw [not_not, List.length_append, hh, headerLen, sigLen] at hlen
      omega
    exact Or.inr ⟨⟨r, this⟩, rfl, if_neg hlen⟩

/-- **The payload of an entry followed by a signature is read as that entry.** -/
theorem decodePayload_payload (hh : h.length = 78) {e : Entry C} {p : List UInt8}
    {kind : Kind} (he : ReadAs e kind seq node signer p) (sig : Bytes 64) :
    decodePayload (h ++ (p ++ sig.1)) kind seq node signer = .ok e := by
  obtain ⟨rfl, rfl, rfl, hs, hz, hp⟩ := he
  cases e with
  | endpoint n eps port s g =>
      simp only [payload] at hp
      split_ifs at hp with hmax
      cases hp
      obtain rfl : g = zeroSig := hz
      have := decodeEndpoint_append hh n s
        ⟨beBytes 2 port.toNat, length_beBytes ..⟩ eps sig (Nat.not_lt.1 hmax)
      rw [u16_beBytes] at this
      simpa only [decodePayload, kind, seq, node, List.cons_append, List.append_assoc] using this
  | member n name site s g i d =>
      simp only [payload] at hp
      split_ifs at hp with hmax
      cases hp
      obtain rfl : g = zeroSig := hz
      obtain rfl : i = signer := hs (by simp [kind])
      have := decodeMember_append hh n i s
        ⟨beBytes 2 site.toNat, length_beBytes ..⟩ name d sig (Nat.not_lt.1 hmax)
      rw [u16_beBytes] at this
      simpa only [decodePayload, kind, seq, node, List.cons_append, List.append_assoc] using this
  | revocation n s g i =>
      cases hp
      obtain rfl : g = zeroSig := hz
      obtain rfl : i = signer := hs (by simp [kind])
      have hsig : sig.1.length = 64 := sig.2
      rw [List.nil_append]
      exact if_neg (by simp [hh, hsig, headerLen, sigLen])

/-- **What a payload reader does**: an error, or the entry whose payload and
signature are the bytes behind the header.  It never panics. -/
theorem decodePayload_cases (hh : h.length = 78) (hr : 64 ≤ r.length) (kind : Kind)
    (seq : UInt64) (node signer : NodePublicKey C) :
    (∃ er, decodePayload (C := C) (h ++ r) kind seq node signer = .err er) ∨
      ∃ (e : Entry C) (p : List UInt8) (sig : Bytes 64), r = p ++ sig.1 ∧
        ReadAs e kind seq node signer p ∧
          decodePayload (h ++ r) kind seq node signer = .ok e := by
  cases kind with
  | endpoint =>
      refine (decodeEndpoint_cases hh hr node seq).imp id ?_
      rintro ⟨t, eps, sig, heps, rfl⟩
      refine ⟨_, UInt8.ofNat eps.length :: (t.1 ++ eps.flatMap fun a => a.octets.1), sig, by simp,
        ⟨rfl, rfl, rfl, fun h => absurd rfl h, rfl, ?_⟩,
        decodeEndpoint_append hh node seq t eps sig heps⟩
      rw [payload, if_neg (show ¬eps.length > gossipMaxAddrs from Nat.not_lt.2 heps), beBytes_u16]
  | member =>
      refine (decodeMember_cases hh hr node signer seq).imp id ?_
      rintro ⟨t, name, d, sig, hname, rfl⟩
      refine ⟨_, t.1 ++ UInt8.ofNat (nameBytes name).length :: (nameBytes name ++ d.1), sig,
        by simp, ⟨rfl, rfl, rfl, fun _ => rfl, rfl, ?_⟩,
        decodeMember_append hh node signer seq t name d sig hname⟩
      rw [payload, if_neg (show ¬(nameBytes name).length > gossipMaxName from Nat.not_lt.2 hname),
        beBytes_u16]
  | revocation =>
      refine (decodeRevocation_cases hh node signer seq).imp id ?_
      rintro ⟨sig, rfl, hdec⟩
      exact ⟨_, [], sig, by simp, ⟨rfl, rfl, rfl, fun _ => rfl, rfl, rfl⟩, hdec⟩

end

end Entry
end Hextet
