/-
# The LAN beacon format is canonical

`Beacon::encode` and `Beacon::decode` in `crates/core/src/beacon.rs`.  The decoder asks for
the exact length that the count of addresses gives and checks the MAC over everything
before it, so that a byte string is accepted as a beacon exactly when it is the encoding of
that beacon (`decode_eq_ok_iff`): no padding, no second encoding.  The MAC is an arbitrary
function of the key and the message.
-/

import Hextet.Core.Beacon

namespace Hextet

open Lib

variable {C : Crypto}

namespace Beacon

variable {hmac : Hmac} {lanKey : Bytes 32} {b : List UInt8} {m : Beacon C}

/-! ### The parts of a beacon -/

theorem readKey_eq_ok_iff {v : Bytes 32} {k : NodePublicKey C} :
    readKey C v = .ok k ↔ v = k.bytes := by
  unfold readKey
  constructor
  · intro h
    split at h
    · rename_i hv
      cases h
      exact (NodePublicKey.bytes_of_fromBytes hv).symm
    · cases h
  · rintro rfl
    rw [NodePublicKey.fromBytes_bytes]

theorem length_flatMap_octets (as : List Ipv6Addr) :
    (as.flatMap fun a => a.octets.1).length = 16 * as.length := by
  induction as with
  | nil => rfl
  | cons a as ih =>
      rw [List.flatMap_cons, List.length_append, ih, a.octets.2, List.length_cons]
      ring

/-- **The address loop reads the addresses that stand one after the other.** -/
theorem readAddrs_eq_ok_iff {off n : ℕ} (hoff : off ≤ b.length) {as : List Ipv6Addr} :
    readAddrs b off n = .ok as ↔
      as.length = n ∧ slice b off (off + 16 * n) =
        (.ok (as.flatMap fun a => a.octets.1) : Outcome BeaconError _) := by
  induction n generalizing off as with
  | zero =>
      rw [readAddrs, slice_eq_ok]
      constructor
      · intro h
        cases h
        exact ⟨rfl, rfl, hoff, List.nil_prefix⟩
      · rintro ⟨hlen, -⟩
        rw [List.length_eq_zero_iff.1 hlen]
  | succ n ih =>
      have hend : off + 16 * (n + 1) = off + 16 + 16 * n := by ring
      rw [readAddrs, hend]
      constructor
      · intro h
        obtain ⟨octets, hoctets, h⟩ := Outcome.bind_eq_ok.1 h
        obtain ⟨raw, hraw, harray⟩ := Outcome.bind_eq_ok.1 hoctets
        obtain ⟨rest, hrest, h⟩ := Outcome.bind_eq_ok.1 h
        obtain rfl := array_eq_ok.1 harray
        obtain ⟨-, hin, -⟩ := slice_eq_ok.1 hraw
        obtain ⟨hlen, hslice⟩ := (ih hin).1 hrest
        cases h
        refine ⟨by rw [List.length_cons, hlen], ?_⟩
        rw [List.flatMap_cons, slice_append_iff (by rw [octets.2])]
        exact ⟨hraw, hslice⟩
      · rintro ⟨hlen, hslice⟩
        obtain ⟨a, rest, rfl⟩ := List.exists_of_length_succ as hlen
        rw [List.flatMap_cons, slice_append_iff (by rw [a.octets.2])] at hslice
        obtain ⟨hraw, hslice⟩ := hslice
        obtain ⟨-, hin, -⟩ := slice_eq_ok.1 hraw
        have hrest := (ih hin).2 ⟨Nat.succ.inj hlen, hslice⟩
        rw [hraw, Outcome.ok_bind, array_val, Outcome.ok_bind, hrest, Outcome.ok_bind]

/-- The parts of the body. -/
theorem body_eq (m : Beacon C) :
    m.body = beaconMagic ++ ([beaconVersion] ++ ([kindAnnounce] ++
      ([UInt8.ofNat m.addresses.length] ++ ([0] ++ (beBytes 2 m.listenPort.toNat ++
        (beBytes 8 m.seq.toNat ++ (m.nodePublicKey.bytes.1 ++
          m.addresses.flatMap fun a => a.octets.1))))))) := by
  simp [body]

theorem length_body (m : Beacon C) :
    m.body.length = beaconHeaderLen + 16 * m.addresses.length := by
  simp only [body_eq, List.length_append, List.length_singleton, length_beBytes,
    m.nodePublicKey.bytes.2, length_flatMap_octets]
  rw [beaconMagic, beaconHeaderLen]
  simp only [List.length_cons, List.length_nil]
  omega

/-- The body of a beacon, range by range. -/
theorem slice_body_iff :
    slice b 0 (beaconHeaderLen + 16 * m.addresses.length) =
        (.ok m.body : Outcome BeaconError _) ↔
      slice b 0 4 = (.ok beaconMagic : Outcome BeaconError _) ∧
        slice b 4 5 = (.ok [beaconVersion] : Outcome BeaconError _) ∧
        slice b 5 6 = (.ok [kindAnnounce] : Outcome BeaconError _) ∧
        slice b 6 7 = (.ok [UInt8.ofNat m.addresses.length] : Outcome BeaconError _) ∧
        slice b 7 8 = (.ok [0] : Outcome BeaconError _) ∧
        slice b 8 10 = (.ok (beBytes 2 m.listenPort.toNat) : Outcome BeaconError _) ∧
        slice b 10 18 = (.ok (beBytes 8 m.seq.toNat) : Outcome BeaconError _) ∧
        slice b 18 50 = (.ok m.nodePublicKey.bytes.1 : Outcome BeaconError _) ∧
        slice b beaconHeaderLen (beaconHeaderLen + 16 * m.addresses.length) =
          (.ok (m.addresses.flatMap fun a => a.octets.1) : Outcome BeaconError _) := by
  have hkey : 18 + m.nodePublicKey.bytes.1.length = beaconHeaderLen := by
    rw [m.nodePublicKey.bytes.2]
    rfl
  rw [body_eq, slice_append_iff (j := 4) rfl, slice_append_iff (j := 5) rfl,
    slice_append_iff (j := 6) rfl, slice_append_iff (j := 7) rfl, slice_append_iff (j := 8) rfl,
    slice_append_iff (j := 10) (by rw [length_beBytes]),
    slice_append_iff (j := 18) (by rw [length_beBytes]), slice_append_iff hkey]
  rfl

theorem length_tag (hmac : Hmac) (lanKey : Bytes 32) (msg : List UInt8) :
    ((hmac lanKey msg).1.take macLen).length = macLen := by
  rw [List.length_take, (hmac lanKey msg).2]
  rfl

/-- What is an encoding. -/
theorem encode_eq_ok_iff :
    m.encode hmac lanKey = .ok b ↔
      m.addresses.length ≤ beaconMaxAddrs ∧
        b = m.body ++ (hmac lanKey m.body).1.take macLen := by
  unfold encode
  split_ifs with h
  · exact iff_of_false nofun fun hb => absurd hb.1 (not_le.2 h)
  · rw [Except.ok.injEq, eq_comm]
    exact (and_iff_right (not_lt.1 h)).symm

/-! ### Both directions -/

/-- The two ranges of an encoding: what is under the MAC, and the MAC. -/
theorem encode_eq_ok_iff_slices :
    m.encode hmac lanKey = .ok b ↔
      m.addresses.length ≤ beaconMaxAddrs ∧
        slice b 0 (beaconHeaderLen + 16 * m.addresses.length) =
          (.ok m.body : Outcome BeaconError _) ∧
        slice b (beaconHeaderLen + 16 * m.addresses.length) b.length =
          (.ok ((hmac lanKey m.body).1.take macLen) : Outcome BeaconError _) := by
  rw [encode_eq_ok_iff, eq_comm (a := b), ← slice_self_eq_ok (ε := BeaconError),
    slice_append_iff (Nat.zero_add _), length_body]

/-- What `decode` reads past the header. -/
theorem decodeBody_eq_ok_iff {n : ℕ} (hlen : b.length = beaconHeaderLen + 16 * n + macLen) :
    decodeBody C hmac lanKey b n = .ok m ↔
      m.addresses.length = n ∧
        (∃ body, slice b 0 (beaconHeaderLen + 16 * n) = (.ok body : Outcome BeaconError _) ∧
          slice b (beaconHeaderLen + 16 * n) b.length =
            (.ok ((hmac lanKey body).1.take macLen) : Outcome BeaconError _)) ∧
        slice b 8 10 = (.ok (beBytes 2 m.listenPort.toNat) : Outcome BeaconError _) ∧
        slice b 10 18 = (.ok (beBytes 8 m.seq.toNat) : Outcome BeaconError _) ∧
        slice b 18 50 = (.ok m.nodePublicKey.bytes.1 : Outcome BeaconError _) ∧
        slice b beaconHeaderLen (beaconHeaderLen + 16 * n) =
          (.ok (m.addresses.flatMap fun a => a.octets.1) : Outcome BeaconError _) := by
  have hin : beaconHeaderLen ≤ b.length := by omega
  unfold decodeBody
  constructor
  · intro h
    obtain ⟨body, hbody, h⟩ := Outcome.bind_eq_ok.1 h
    obtain ⟨tag, htag, h⟩ := Outcome.bind_eq_ok.1 h
    obtain ⟨hmac', h⟩ := Outcome.ite_err_eq_ok.1 h
    obtain ⟨port, hport, h⟩ := Outcome.bind_eq_ok.1 h
    obtain ⟨seq, hseq, h⟩ := Outcome.bind_eq_ok.1 h
    obtain ⟨key, hkey, h⟩ := Outcome.bind_eq_ok.1 h
    obtain ⟨raw, hraw, harray⟩ := Outcome.bind_eq_ok.1 hkey
    obtain ⟨node, hnode, h⟩ := Outcome.bind_eq_ok.1 h
    obtain ⟨as, has, h⟩ := Outcome.bind_eq_ok.1 h
    cases h
    obtain ⟨hcount, haddrs⟩ := (readAddrs_eq_ok_iff hin).1 has
    obtain rfl := array_eq_ok.1 harray
    obtain rfl := readKey_eq_ok_iff.1 hnode
    rw [not_not] at hmac'
    exact ⟨hcount, ⟨body, hbody, hmac' ▸ htag⟩, slice_u16 hport, slice_u64 hseq, hraw, haddrs⟩
  · rintro ⟨hcount, ⟨body, hbody, htag⟩, hport, hseq, hkey, haddrs⟩
    have has := (readAddrs_eq_ok_iff hin).2 ⟨hcount, haddrs⟩
    have hnode : readKey C m.nodePublicKey.bytes = .ok m.nodePublicKey := readKey_eq_ok_iff.2 rfl
    simp only [hbody, htag, hport, hseq, hkey, has, hnode, Outcome.ok_bind, array_val, ne_eq,
      not_true_eq_false, if_false, u16_beBytes, u64_beBytes]

theorem u8_count {n : ℕ} {x : UInt8} (h : x.toNat = n) : UInt8.ofNat n = x := by
  rw [← h, UInt8.ofNat_toNat]

/-- **A byte string is accepted exactly as the encoding of the beacon.** -/
theorem decode_eq_ok_iff : decode C hmac lanKey b = .ok m ↔ m.encode hmac lanKey = .ok b := by
  rw [encode_eq_ok_iff_slices, slice_body_iff]
  constructor
  · intro h
    obtain ⟨-, h⟩ := Outcome.ite_err_eq_ok.1 h
    obtain ⟨magic, hmagic, h⟩ := Outcome.bind_eq_ok.1 h
    obtain ⟨hm, h⟩ := Outcome.ite_err_eq_ok.1 h
    obtain ⟨version, hversion, h⟩ := Outcome.bind_eq_ok.1 h
    obtain ⟨hv, h⟩ := Outcome.ite_err_eq_ok.1 h
    obtain ⟨kind, hkind, h⟩ := Outcome.bind_eq_ok.1 h
    obtain ⟨hk, h⟩ := Outcome.ite_err_eq_ok.1 h
    obtain ⟨reserved, hreserved, h⟩ := Outcome.bind_eq_ok.1 h
    obtain ⟨hr, h⟩ := Outcome.ite_err_eq_ok.1 h
    obtain ⟨count, hcount, h⟩ := Outcome.bind_eq_ok.1 h
    obtain ⟨hmany, h⟩ := Outcome.ite_err_eq_ok.1 h
    obtain ⟨hlen, h⟩ := Outcome.ite_err_eq_ok.1 h
    rw [not_not] at hm hv hk hr hlen
    obtain ⟨hn, ⟨body, hbody, htag⟩, hport, hseq, hkey, haddrs⟩ := (decodeBody_eq_ok_iff hlen).1 h
    subst hm hv hk hr
    rw [index_eq_ok] at hversion hkind hreserved hcount
    rw [← u8_count hn.symm] at hcount
    rw [← hn] at hbody htag haddrs hmany
    have hparts := slice_body_iff.2
      ⟨hmagic, hversion, hkind, hcount, hreserved, hport, hseq, hkey, haddrs⟩
    obtain rfl : body = m.body := Outcome.ok.inj (hbody.symm.trans hparts)
    exact ⟨not_lt.1 hmany,
      ⟨hmagic, hversion, hkind, hcount, hreserved, hport, hseq, hkey, haddrs⟩, htag⟩
  · rintro ⟨hmany, hparts, htag⟩
    have hbody := slice_body_iff.2 hparts
    obtain ⟨hmagic, hversion, hkind, hcount, hreserved, hport, hseq, hkey, haddrs⟩ := hparts
    rw [← index_eq_ok] at hversion hkind hreserved hcount
    have hlen : b.length = beaconHeaderLen + 16 * m.addresses.length + macLen := by
      rw [← (slice_eq_ok.1 htag).1, length_tag]
    have hn : (UInt8.ofNat m.addresses.length).toNat = m.addresses.length := by
      rw [UInt8.toNat_ofNat', Nat.mod_eq_of_lt]
      exact lt_of_le_of_lt hmany (by decide)
    have hread := (decodeBody_eq_ok_iff hlen).2
      ⟨rfl, ⟨m.body, hbody, htag⟩, hport, hseq, hkey, haddrs⟩
    have hshort : ¬b.length < beaconHeaderLen + macLen := by omega
    rw [decode, if_neg hshort]
    simp only [hmagic, hversion, hkind, hreserved, hcount, hn, Outcome.ok_bind, ne_eq,
      not_true_eq_false, if_false, gt_iff_lt, if_neg (not_lt.2 hmany), hlen, hread]

/-! ### No panic -/

theorem readKey_ne_panic (v : Bytes 32) : readKey C v ≠ .panic := by
  unfold readKey
  split <;> exact nofun

theorem readAddrs_ne_panic {off n : ℕ} (h : off + 16 * n ≤ b.length) :
    readAddrs b off n ≠ .panic := by
  induction n generalizing off with
  | zero => exact nofun
  | succ n ih =>
      refine Outcome.bind_ne_panic (slice_array_ne_panic rfl (by omega)) fun octets _ => ?_
      exact Outcome.bind_ne_panic (ih (by omega)) fun rest _ => nofun

theorem decodeBody_ne_panic {n : ℕ} (hlen : b.length = beaconHeaderLen + 16 * n + macLen) :
    decodeBody C hmac lanKey b n ≠ .panic := by
  have hheader : beaconHeaderLen = 50 := rfl
  refine Outcome.bind_ne_panic (slice_ne_panic (by omega) (by omega)) fun body _ => ?_
  refine Outcome.bind_ne_panic (slice_ne_panic (by omega) le_rfl) fun tag _ => ?_
  refine Outcome.ite_err_ne_panic fun _ => ?_
  refine Outcome.bind_ne_panic (slice_ne_panic (by omega) (by omega)) fun port _ => ?_
  refine Outcome.bind_ne_panic (slice_ne_panic (by omega) (by omega)) fun seq _ => ?_
  refine Outcome.bind_ne_panic (slice_array_ne_panic rfl (by omega)) fun key _ => ?_
  refine Outcome.bind_ne_panic (readKey_ne_panic key) fun node _ => ?_
  exact Outcome.bind_ne_panic (readAddrs_ne_panic (by omega)) fun as _ => nofun

/-- **`decode` reads only within the datagram.** -/
theorem decode_ne_panic (hmac : Hmac) (lanKey : Bytes 32) (b : List UInt8) :
    decode C hmac lanKey b ≠ .panic := by
  refine Outcome.ite_err_ne_panic fun hshort => ?_
  have hlen : 66 ≤ b.length := not_lt.1 hshort
  refine Outcome.bind_ne_panic (slice_ne_panic (by omega) (by omega)) fun magic _ => ?_
  refine Outcome.ite_err_ne_panic fun _ => ?_
  refine Outcome.bind_ne_panic (index_ne_panic (by omega)) fun version _ => ?_
  refine Outcome.ite_err_ne_panic fun _ => ?_
  refine Outcome.bind_ne_panic (index_ne_panic (by omega)) fun kind _ => ?_
  refine Outcome.ite_err_ne_panic fun _ => ?_
  refine Outcome.bind_ne_panic (index_ne_panic (by omega)) fun reserved _ => ?_
  refine Outcome.ite_err_ne_panic fun _ => ?_
  refine Outcome.bind_ne_panic (index_ne_panic (by omega)) fun count _ => ?_
  refine Outcome.ite_err_ne_panic fun _ => Outcome.ite_err_ne_panic fun hexact => ?_
  exact decodeBody_ne_panic (not_not.1 hexact)

/-- **The LAN beacon format is canonical.**  What is accepted is the encoding of the beacon
that is read, with at most four addresses; a beacon with at most four addresses has an
encoding, of 66 bytes and 16 for each address, that is read as the same beacon; only a
beacon with more has none; and reading never leaves the datagram. -/
theorem beacon_canonical (C : Crypto) (hmac : Hmac) (lanKey : Bytes 32) :
    (∀ (b : List UInt8) (m : Beacon C), decode C hmac lanKey b = .ok m →
        m.encode hmac lanKey = .ok b ∧ m.addresses.length ≤ 4) ∧
      (∀ m : Beacon C, m.addresses.length ≤ 4 → ∃ b, m.encode hmac lanKey = .ok b ∧
        b.length = 66 + 16 * m.addresses.length ∧ decode C hmac lanKey b = .ok m) ∧
      (∀ m : Beacon C, (∃ e, m.encode hmac lanKey = .error e) ↔ 4 < m.addresses.length) ∧
      ∀ b, decode C hmac lanKey b ≠ .panic := by
  refine ⟨fun b m h => ?_, fun m hm => ?_, fun m => ?_, decode_ne_panic hmac lanKey⟩
  · have hencode := decode_eq_ok_iff.1 h
    exact ⟨hencode, (encode_eq_ok_iff.1 hencode).1⟩
  · have hencode : m.encode hmac lanKey = .ok (m.body ++ (hmac lanKey m.body).1.take macLen) :=
      encode_eq_ok_iff.2 ⟨hm, rfl⟩
    refine ⟨_, hencode, ?_, decode_eq_ok_iff.2 hencode⟩
    rw [List.length_append, length_body, length_tag, beaconHeaderLen, macLen]
    omega
  · unfold encode
    split_ifs with h
    · exact iff_of_true ⟨_, rfl⟩ h
    · exact iff_of_false nofun h

end Beacon

end Hextet
