/-
# The member table and its file

`crates/engine/src/members.rs`.  Members that gossip admitted are kept in
`members.json`, by the text of their key.  `load` gives an empty table whenever
the file is missing, unreadable or of another version, so a daemon starts from
whatever was last saved or from nothing.

Only the daemon writes the file, by `upsert` and `remove` with texts made by
`to_base64`.  `Written` is what such a history leaves: the records are keyed by
distinct nodes, each under its own text.
-/

import Hextet.Core.Addr

namespace Hextet

variable {C : Crypto}

/-- `MemberRecord`. -/
structure MemberRecord where
  name : String
  publicKey : String
  address : Ipv6Addr
  deriving DecidableEq

/-- `MembersFile`, of the version the source reads. -/
structure MembersFile where
  members : List MemberRecord
  deriving DecidableEq

namespace MembersFile

/-- `MembersFile::new`. -/
def new : MembersFile := ⟨[]⟩

/-- The texts in the table. -/
def keys (file : MembersFile) : List String := file.members.map MemberRecord.publicKey

/-- Overwrite the first record with the key of `record`. -/
def replace (record : MemberRecord) : List MemberRecord → List MemberRecord
  | [] => []
  | m :: ms => if m.publicKey = record.publicKey then record :: ms else m :: replace record ms

/-- `MembersFile::upsert`; the flag is whether the record is new. -/
def upsert (file : MembersFile) (record : MemberRecord) : MembersFile × Bool :=
  if record.publicKey ∈ file.keys then (⟨replace record file.members⟩, false)
  else (⟨file.members ++ [record]⟩, true)

/-- `MembersFile::remove`; the flag is whether a record was dropped. -/
def remove (file : MembersFile) (publicKey : String) : MembersFile × Bool :=
  let kept := file.members.filter fun m => m.publicKey ≠ publicKey
  (⟨kept⟩, kept.length ≠ file.members.length)

/-- The table is keyed by distinct nodes, each under its own text. -/
structure Written (C : Crypto) (file : MembersFile) : Prop where
  canonical : ∀ m ∈ file.members, ∃ node : NodePublicKey C, m.publicKey = node.toBase64
  nodup : file.keys.Nodup

@[simp] theorem keys_new : new.keys = [] := rfl

theorem map_publicKey_replace (record : MemberRecord) (ms : List MemberRecord) :
    (replace record ms).map MemberRecord.publicKey = ms.map MemberRecord.publicKey := by
  induction ms with
  | nil => rfl
  | cons m ms ih =>
      rw [replace]
      split_ifs with h
      · simp [h]
      · simp [ih]

/-- Only a new key is added. -/
theorem keys_upsert (file : MembersFile) (record : MemberRecord) :
    (file.upsert record).1.keys =
      if record.publicKey ∈ file.keys then file.keys else file.keys ++ [record.publicKey] := by
  unfold upsert
  split_ifs with h
  · exact map_publicKey_replace record file.members
  · simp [keys]

theorem mem_keys_upsert {file : MembersFile} {record : MemberRecord} {s : String} :
    s ∈ (file.upsert record).1.keys ↔ s ∈ file.keys ∨ s = record.publicKey := by
  rw [keys_upsert]
  split_ifs with h
  · exact ⟨Or.inl, fun hs => hs.elim id fun hs => hs ▸ h⟩
  · simp

/-- A removal drops every record of the key. -/
theorem keys_remove (file : MembersFile) (s : String) :
    (file.remove s).1.keys = file.keys.filter fun k => k ≠ s := by
  simp only [remove, keys, List.filter_map]
  rfl

theorem mem_keys_remove {file : MembersFile} {s t : String} :
    t ∈ (file.remove s).1.keys ↔ t ∈ file.keys ∧ t ≠ s := by
  rw [keys_remove, List.mem_filter, decide_eq_true_eq]

/-- The flag of a removal tells whether the key was there. -/
theorem remove_snd_iff (file : MembersFile) (s : String) :
    (file.remove s).2 = true ↔ s ∈ file.keys := by
  rw [remove, decide_eq_true_eq, Ne, List.length_filter_eq_length_iff, keys]
  simp

/-- Removing an absent key changes nothing. -/
theorem remove_eq_self {file : MembersFile} {s : String} (h : s ∉ file.keys) :
    (file.remove s).1 = file := by
  obtain ⟨ms⟩ := file
  simp only [remove, mk.injEq, List.filter_eq_self, decide_eq_true_eq]
  exact fun m hm hs => h (hs ▸ List.mem_map_of_mem hm)

namespace Written

theorem canonical_iff {file : MembersFile} :
    (∀ m ∈ file.members, ∃ node : NodePublicKey C, m.publicKey = node.toBase64) ↔
      ∀ s ∈ file.keys, ∃ node : NodePublicKey C, s = node.toBase64 := by
  simp [keys]

/-- The empty table. -/
theorem new : Written C new := ⟨by simp [MembersFile.new], by simp⟩

/-- **Admission keeps the table written.** -/
theorem upsert {file : MembersFile} (h : Written C file) (name : String) (node : NodePublicKey C)
    (address : Ipv6Addr) : Written C (file.upsert ⟨name, node.toBase64, address⟩).1 where
  canonical := canonical_iff.2 fun s hs => by
    rcases mem_keys_upsert.1 hs with hs | rfl
    · exact canonical_iff.1 h.canonical s hs
    · exact ⟨node, rfl⟩
  nodup := by
    rw [keys_upsert]
    split_ifs with hmem
    · exact h.nodup
    · exact h.nodup.append (List.nodup_singleton _) (by simpa using hmem)

/-- **Removal keeps the table written.** -/
theorem remove {file : MembersFile} (h : Written C file) (s : String) :
    Written C (file.remove s).1 where
  canonical := canonical_iff.2 fun t ht =>
    canonical_iff.1 h.canonical t (mem_keys_remove.1 ht).1
  nodup := by
    rw [keys_remove]
    exact h.nodup.filter _

end Written

end MembersFile

end Hextet
