/-
# A transparent instance of the primitives

The development never fixes the curve or the hash.  Where a statement is
evaluated on concrete nodes, `Crypto.plain` stands in: every 32 bytes are a key,
every signature verifies, the WireGuard key is the key itself, and a digest is
the end of its input.  A key then shows its subnet id in its first two bytes
(`subnetIdOf_plainKey`), so that colliding and non-colliding nodes are easy to
name, and every entry within the wire bounds that obeys the rule who may sign is
valid (`isValid_plain`).
-/

import Hextet.Core.EntryCodec

namespace Hextet

open Lib

/-- The transparent primitives. -/
def Crypto.plain : Crypto where
  isPoint _ := true
  verifyStrict _ _ _ := true
  toMontgomery b := b
  sha256 m := ⟨(m.drop (m.length - 32) ++ List.replicate 32 0).take 32, by simp⟩

/-- Zeros. -/
def zeros (n : ℕ) : Bytes n := ⟨List.replicate n 0, List.length_replicate⟩

/-- The node number `n` of the subnet `subnet`. -/
def plainKey (subnet n : ℕ) : NodePublicKey Crypto.plain :=
  ⟨⟨beBytes 2 subnet ++ beBytes 30 n, by simp⟩, rfl⟩

/-- A digest shows the key at the end of its input. -/
theorem sha256_plain (x : List UInt8) (k : Bytes 32) : Crypto.plain.sha256 (x ++ k.1) = k := by
  refine Subtype.ext ?_
  simp only [Crypto.plain, List.length_append, k.2, Nat.add_sub_cancel, List.drop_left]
  rw [List.take_append_of_le_length k.2.ge, List.take_of_length_le k.2.le]

/-- The first two bytes of a key are its subnet. -/
theorem ofBe_take_plainKey {subnet : ℕ} (h : subnet < 65536) (n : ℕ) :
    ofBe ((plainKey subnet n).bytes.1.take 2) = subnet := by
  rw [plainKey, List.take_append_of_le_length (by simp), List.take_of_length_le (by simp),
    ofBe_beBytes, Nat.mod_eq_of_lt (by omega)]

theorem subnetIdOf_plainKey {subnet : ℕ} (h : subnet < 65536) (n : ℕ) :
    subnetIdOf (plainKey subnet n) = UInt16.ofNat subnet := by
  rw [subnetIdOf, sha256_plain, digestU16, ofBe_take_plainKey h]

/-- The interface id starts with the subnet id, so it is not zero when that is
not. -/
theorem iidOf_plainKey_ne {subnet : ℕ} (h : subnet < 65536) (h₀ : 0 < subnet) (n : ℕ) :
    iidOf (plainKey subnet n) ≠ zeroIid := by
  intro hz
  have h' := congrArg (fun b : Bytes 8 => ofBe (b.1.take 2)) hz
  simp only [iidOf, sha256_plain, List.take_take] at h'
  exact h₀.ne' ((ofBe_take_plainKey h n).symm.trans h')

/-- The address of a node outside subnet 0. -/
theorem deriveNodeAddr_plainKey (pre : NetworkPrefix) {subnet : ℕ} (h : subnet < 65536)
    (h₀ : 0 < subnet) (n : ℕ) :
    deriveNodeAddr pre (plainKey subnet n) = .ok
      { subnetId := UInt16.ofNat subnet
        site := overlayAddr pre (UInt16.ofNat subnet) zeroIid
        address := overlayAddr pre (UInt16.ofNat subnet) (iidOf (plainKey subnet n)) } := by
  refine deriveNodeAddr_eq_ok_iff.2 ⟨iidOf_plainKey_ne h h₀ n, ?_⟩
  rw [subnetIdOf_plainKey h]

theorem plainKey_inj {s s' n n' : ℕ} (hs : s < 65536) (hs' : s' < 65536)
    (h : plainKey s n = plainKey s' n') : s = s' := by
  rw [← ofBe_take_plainKey hs n, h, ofBe_take_plainKey hs']

theorem plainKey_ne {s s' : ℕ} (hs : s < 65536) (hs' : s' < 65536) (h : s ≠ s') (n n' : ℕ) :
    plainKey s n ≠ plainKey s' n' :=
  fun hk => h (plainKey_inj hs hs' hk)

/-- The network `fd00:0:1::/48`. -/
def plainPrefix : NetworkPrefix := ⟨⟨[0xfd, 0, 0, 0, 0, 1], rfl⟩, rfl⟩

/-- A network key expands to its first bytes. -/
def plainExpand (key : Bytes 32) : Bytes 5 := ⟨key.1.take 5, by simp⟩

/-- `2001:db8::1`. -/
def plainAddr : Ipv6Addr := ⟨⟨[0x20, 0x01, 0x0d, 0xb8, 0, 0, 0, 0, 0, 0, 0, 0, 0, 0, 0, 1], rfl⟩⟩

namespace Entry

/-- A node announces itself at `2001:db8::1`. -/
def plainEndpoint (node : NodePublicKey Crypto.plain) (seq : UInt64) : Entry Crypto.plain :=
  .endpoint node [plainAddr] 4193 seq zeroSig

/-- `issuer` admits `node`. -/
def plainMember (node issuer : NodePublicKey Crypto.plain) (seq : UInt64) : Entry Crypto.plain :=
  .member node "m" 0 seq zeroSig issuer ⟨List.replicate 16 0, by simp⟩

/-- `issuer` revokes `node`. -/
def plainRevocation (node issuer : NodePublicKey Crypto.plain) (seq : UInt64) :
    Entry Crypto.plain :=
  .revocation node seq zeroSig issuer

/-- Every entry within the wire bounds that somebody entitled to it signed is
valid. -/
theorem isValid_plain {e : Entry Crypto.plain} (hp : ∃ p, e.payload = .ok p)
    (hs : e.kind ≠ .endpoint → e.signer ≠ e.node) : e.isValid = true := by
  obtain ⟨p, hp⟩ := hp
  exact (isValid_iff e).2 ⟨hs, p, hp, rfl⟩

theorem isValid_plainEndpoint (node : NodePublicKey Crypto.plain) (seq : UInt64) :
    (plainEndpoint node seq).isValid = true :=
  isValid_plain ⟨_, rfl⟩ fun h => absurd rfl h

theorem endpointAddrs_plainEndpoint (node : NodePublicKey Crypto.plain) (seq : UInt64) :
    (plainEndpoint node seq).endpointAddrs = [⟨plainAddr, 4193, 0, 0⟩] := by
  have husable : isUsableEndpointAddr plainAddr = true := by decide
  simp [plainEndpoint, endpointAddrs, husable]

theorem isValid_plainMember {node issuer : NodePublicKey Crypto.plain} (h : issuer ≠ node)
    (seq : UInt64) : (plainMember node issuer seq).isValid = true := by
  have hname : ¬(nameBytes "m").length > gossipMaxName := by decide
  exact isValid_plain ⟨_, by rw [plainMember, payload, if_neg hname]⟩ fun _ => h

theorem isValid_plainRevocation {node issuer : NodePublicKey Crypto.plain} (h : issuer ≠ node)
    (seq : UInt64) : (plainRevocation node issuer seq).isValid = true :=
  isValid_plain ⟨_, rfl⟩ fun _ => h

end Entry

end Hextet
