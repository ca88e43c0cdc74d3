/-
# What a failed join or init leaves

`join_network` and `init_network` (`bootstrap.rs`) write two files: the key, if it is new
(`NodeIdentity::save`, `identity.rs`), and the configuration (`write_new_0600`).  Both
are created and then written, and only one step is undone: when the configuration cannot
be written, a new key is removed again.

`Hextet.Core.Bootstrap` takes the answers of the file system as given; here the two
functions run on a disk (`joinNetworkOn`, `initNetworkOn`), and they return what the
functions there return on those answers (`joinNetworkOn_result`,
`initNetworkOn_result`).  A file that was created stays when its write fails, so that
**a failed call leaves the disk as it was exactly when no write fails after the file it
writes to was created** (`failed_leaves_nothing_iff`).
-/

import Hextet.Core.Bootstrap
import Hextet.Lib.Disk
import Hextet.Lib.Json

namespace Hextet

open Lib DiskM

variable {C : Crypto} {F ε ι : Type} [DecidableEq F]

/-- A machine: the file that a path names, the readers of a key file, the identity and
the network key that come out of the random generator with the text of the key file, and
what goes wrong.  `ι` is the type of an `IdentityError` or an `io::Error`. -/
structure Machine (C : Crypto) (F ι : Type) where
  file : PathBuf → F
  readIdentity : List UInt8 → Except ι (NodePublicKey C)
  newIdentity : NodePublicKey C
  newKeyText : List UInt8
  newNetworkKey : NetworkKey
  absent : ι
  present : ι
  readFault : Option ι
  keyFault : WriteFault ι
  configFault : WriteFault ι

namespace Machine

variable (m : Machine C F ι)

/-- `NodeIdentity::load`. -/
def loadIdentity (disk : Disk F) (path : PathBuf) : Except ι (NodePublicKey C) :=
  match m.readFault, disk (m.file path) with
  | some e, _ => .error e
  | none, none => .error m.absent
  | none, some bytes => m.readIdentity bytes

/-- `NodeIdentity::save`. -/
def saveIdentity (path : PathBuf) : DiskM F ι Unit :=
  writeNew m.present m.keyFault (m.file path) m.newKeyText

/-- `write_new_0600`. -/
def writeNew0600 (path : PathBuf) (text : List Char) : DiskM F (BootstrapError ε ι) Unit :=
  writeNew (.configExists path) (m.configFault.map (.writeConfig path)) (m.file path)
    (Json.utf8 text)

/-- The end of both functions: a new key is saved, the configuration is written, and when
that fails a new key is removed. -/
def writeFiles (keyPath configPath : PathBuf) (generated : Bool) (text : List Char) :
    DiskM F (BootstrapError ε ι) Unit := do
  if generated then (m.saveIdentity keyPath).mapError (.saveKey keyPath)
  tryCatch (m.writeNew0600 configPath text) fun e => do
    if generated then removeFile (m.file keyPath)
    throw e

/-- The answers of the machine with a disk.  Whether the configuration can be written is
answered after a new key was saved. -/
def host (disk : Disk F) (keyPath : PathBuf) : Host C ι where
  pathExists path := (disk (m.file path)).isSome
  loadIdentity := m.loadIdentity disk
  newIdentity := m.newIdentity
  newNetworkKey := m.newNetworkKey
  saveIdentity path := ((m.saveIdentity path).on disk).1
  createNew path :=
    let disk' := if (disk (m.file keyPath)).isSome then disk
      else ((m.saveIdentity keyPath).on disk).2
    match m.configFault.create, m.configFault.write with
    | some e, _ => .error (.other e)
    | none, w =>
        if (disk' (m.file path)).isSome then .error .alreadyExists
        else match w with
          | some (_, e) => .error (.other e)
          | none => .ok ()

end Machine

/-! ### The two functions on a disk -/

section Network

variable (json : List UInt8 → Except ε RawInvite) (expand : Bytes 32 → Bytes 5)

/-- What `join_network` checks before it writes: the invite, the identity, whether it is
new, and its address. -/
def joinChecks (host : Host C ι) (token : List Char) (keyPath configPath : PathBuf)
    (nowUnix : UInt64) :
    Except (BootstrapError ε ι) (Invite C × NodePublicKey C × Bool × NodeAddr) := do
  let invite ← (Invite.decode C json (Base64.trim token)).mapError .badInvite
  (invite.checkNotExpired nowUnix : Except (InviteError ε) Unit).mapError fun _ => .inviteExpired
  let (id, generated) ← host.loadOrGenerateIdentity keyPath false
  let pre := NetworkPrefix.derive expand invite.networkKey
  let own ← (deriveNodeAddr pre id).mapError .deriveAddr
  let all ← invite.bootstrap.mapM fun b =>
    (deriveNodeAddr pre b.publicKey).mapError BootstrapError.deriveAddr |>.map fun a => (b.name, a)
  (checkSubnetCollisions (all ++ [("<self>", own)])).mapError fun _ => .subnetCollision
  host.refuseExisting configPath
  return (invite, id, generated, own)

/-- What `init_network` checks before it writes: the identity, whether it is new, the
network key, and the address. -/
def initChecks (host : Host C ι) (keyPath : PathBuf) (networkKey : Option String)
    (opts : InitOptions) :
    Except (BootstrapError ε ι) (NodePublicKey C × Bool × NetworkKey × NodeAddr) := do
  let (id, generated) ← host.loadOrGenerateIdentity keyPath opts.requireExistingKey
  let key ← host.givenOrNewKey networkKey
  let own ← (deriveNodeAddr (NetworkPrefix.derive expand key) id).mapError .deriveAddr
  return (id, generated, key, own)

/-- The outcome of a join. -/
def joinOutcome (invite : Invite C) (id : NodePublicKey C) (own : NodeAddr)
    (keyPath configPath : PathBuf) (opts : JoinOptions) : JoinOutcome :=
  let pre := NetworkPrefix.derive expand invite.networkKey
  let fresh := invite.fresh keyPath configPath opts
  { networkName := invite.networkName, pre := pre.display, nodeAddress := own.address.display
    publicKey := id.toBase64, configPath := configPath.display, keyFile := keyPath.display
    bootstrapPeers := invite.bootstrap.map (·.name)
    bootstrapEndpoints := invite.bootstrap.map fun b => b.endpoints.map SocketAddrV6.display
    site := own.site.display ++ ['/', '6', '4'], listenPort := fresh.listenPort
    peerAddCommand := "hextet peer add --name ".toList ++ opts.name.toList ++
      " --public-key '".toList ++ id.toBase64.toList ++
      "' --endpoint '[你的公网IPv6]:".toList ++ Nat.toDigits 10 fresh.listenPort.toNat ++ "'".toList }

/-- The outcome of an init. -/
def initOutcome (name : String) (id : NodePublicKey C) (key : NetworkKey) (own : NodeAddr)
    (keyPath configPath : PathBuf) : InitOutcome where
  networkName := name
  pre := (NetworkPrefix.derive expand key).display
  nodeAddress := own.address.display
  publicKey := id.toBase64
  configPath := configPath.display
  keyFile := keyPath.display
  networkKeyBase64 := key.toBase64

variable (m : Machine C F ι)

/-- `join_network` on a disk. -/
def joinNetworkOn (token : List Char) (keyPath configPath : PathBuf) (nowUnix : UInt64)
    (opts : JoinOptions) : DiskM F (BootstrapError ε ι) JoinOutcome := do
  let disk ← get
  let (invite, id, generated, own) ←
    answer (joinChecks json expand (m.host disk keyPath) token keyPath configPath nowUnix)
  m.writeFiles keyPath configPath generated (invite.fresh keyPath configPath opts).text
  return joinOutcome expand invite id own keyPath configPath opts

/-- `init_network` on a disk. -/
def initNetworkOn (name : String) (keyPath configPath : PathBuf) (networkKey : Option String)
    (opts : InitOptions) : DiskM F (BootstrapError ε ι) InitOutcome := do
  let disk ← get
  let (id, generated, key, own) ←
    answer (initChecks expand (m.host disk keyPath) keyPath networkKey opts)
  m.writeFiles keyPath configPath generated
    (FreshConfig.named C name key keyPath configPath opts).text
  return initOutcome expand name id key own keyPath configPath

end Network

/-! ### What the writes leave -/

namespace Machine

variable (m : Machine C F ι) {keyPath configPath : PathBuf} {disk : Disk F} {text : List Char}

/-- The two files are as they were. -/
def Unchanged (keyPath configPath : PathBuf) (disk disk' : Disk F) : Prop :=
  disk' (m.file keyPath) = disk (m.file keyPath) ∧
    disk' (m.file configPath) = disk (m.file configPath)

/-- No write fails after the file it writes to was created.  The key is written when it
is not there; the configuration is written when it is not there and a new key was saved
elsewhere. -/
structure Untorn (keyPath configPath : PathBuf) (disk : Disk F) : Prop where
  key : disk (m.file keyPath) = none → m.keyFault.create = none → m.keyFault.write = none
  config : (disk (m.file keyPath) = none →
      m.keyFault.create = none ∧ m.file keyPath ≠ m.file configPath) →
    m.configFault.create = none → disk (m.file configPath) = none → m.configFault.write = none

variable {m}

theorem on_writeFiles_false :
    (m.writeFiles keyPath configPath false text : DiskM F (BootstrapError ε ι) Unit).on disk =
      (m.writeNew0600 configPath text).on disk := by
  cases h : (m.writeNew0600 configPath text : DiskM F (BootstrapError ε ι) Unit).on disk with
  | mk r disk' =>
      cases r with
      | ok u => exact on_tryCatch_ok h _
      | error e => exact on_tryCatch_error h _

theorem on_writeFiles_of_saved {disk' : Disk F}
    (h : (m.saveIdentity keyPath).on disk = (.ok (), disk')) :
    (m.writeFiles keyPath configPath true text : DiskM F (BootstrapError ε ι) Unit).on disk =
      (tryCatch (m.writeNew0600 configPath text) fun e => do
        removeFile (m.file keyPath)
        throw e : DiskM F (BootstrapError ε ι) Unit).on disk' := by
  have hsave : ((m.saveIdentity keyPath).mapError (BootstrapError.saveKey keyPath) :
      DiskM F (BootstrapError ε ι) Unit).on disk = (.ok (), disk') := by
    rw [on_mapError, h]
    rfl
  exact on_bind_ok hsave _

theorem on_writeFiles_of_not_saved {disk' : Disk F} {e : ι}
    (h : (m.saveIdentity keyPath).on disk = (.error e, disk')) :
    (m.writeFiles keyPath configPath true text : DiskM F (BootstrapError ε ι) Unit).on disk =
      (.error (.saveKey keyPath e), disk') := by
  have hsave : ((m.saveIdentity keyPath).mapError (BootstrapError.saveKey keyPath) :
      DiskM F (BootstrapError ε ι) Unit).on disk = (.error (.saveKey keyPath e), disk') := by
    rw [on_mapError, h]
    rfl
  exact on_bind_error hsave _

/-- The files after a call that failed are as they were. -/
def LeavesNothing (m : Machine C F ι) (keyPath configPath : PathBuf) {α : Type}
    (x : DiskM F (BootstrapError ε ι) α) (disk : Disk F) : Prop :=
  ∀ e disk', x.on disk = (.error e, disk') → m.Unchanged keyPath configPath disk disk'

omit [DecidableEq F] in
theorem tears_map {path : PathBuf} {f : ι → BootstrapError ε ι} {fault : WriteFault ι} :
    (fault.map f).Tears disk (m.file path) ↔ fault.Tears disk (m.file path) := by
  simp [WriteFault.Tears, WriteFault.map]

/-- With the key at hand only the configuration is written. -/
theorem leavesNothing_writeFiles_false :
    m.LeavesNothing keyPath configPath
        (m.writeFiles keyPath configPath false text : DiskM F (BootstrapError ε ι) Unit) disk ↔
      ¬m.configFault.Tears disk (m.file configPath) := by
  rw [LeavesNothing]
  simp only [on_writeFiles_false]
  constructor
  · intro h htears
    have hfault := tears_map (f := BootstrapError.writeConfig (ε := ε) configPath).2 htears
    obtain ⟨e, n, hon⟩ := on_writeNew_of_tears hfault (.configExists configPath) (Json.utf8 text)
    have hleft := (h e _ hon).2
    rw [Function.update_self, htears.2.1] at hleft
    cases hleft
  · intro htears e disk' hon
    have hfault : ¬(m.configFault.map (BootstrapError.writeConfig (ε := ε) configPath)).Tears disk
        (m.file configPath) := fun h => htears (tears_map.1 h)
    rcases on_writeNew_of_not_tears hfault (.configExists configPath) (Json.utf8 text) with
      ⟨-, -, -, hon'⟩ | ⟨-, e', hon'⟩
    · rw [Machine.writeNew0600, hon'] at hon
      cases hon
    · rw [Machine.writeNew0600, hon'] at hon
      cases hon
      exact ⟨rfl, rfl⟩

/-- A new key whose write fails stays. -/
theorem not_leavesNothing_of_key_tears (h : m.keyFault.Tears disk (m.file keyPath)) :
    ¬m.LeavesNothing keyPath configPath
      (m.writeFiles keyPath configPath true text : DiskM F (BootstrapError ε ι) Unit) disk := by
  intro hleaves
  obtain ⟨e, n, hon⟩ := on_writeNew_of_tears h m.present m.newKeyText
  have hleft := (hleaves _ _ (on_writeFiles_of_not_saved hon)).1
  rw [Function.update_self, h.2.1] at hleft
  cases hleft

/-- A new key that was saved is removed again when the configuration is not written, so
that only the configuration can stay. -/
theorem leavesNothing_of_saved {disk' : Disk F} (habsent : disk (m.file keyPath) = none)
    (hdisk' : disk' = Function.update disk (m.file keyPath) (some m.newKeyText))
    (h : (m.saveIdentity keyPath).on disk = (.ok (), disk')) :
    m.LeavesNothing keyPath configPath
        (m.writeFiles keyPath configPath true text : DiskM F (BootstrapError ε ι) Unit) disk ↔
      ¬m.configFault.Tears disk' (m.file configPath) := by
  have hremove : ∀ (e : BootstrapError ε ι) (d : Disk F),
      ((do removeFile (m.file keyPath); throw e) : DiskM F (BootstrapError ε ι) Unit).on d =
        (.error e, Function.update d (m.file keyPath) none) :=
    fun e d => on_bind_ok (on_removeFile (m.file keyPath) d) _
  rw [LeavesNothing]
  simp only [on_writeFiles_of_saved h]
  constructor
  · intro hleaves htears
    have hfault := tears_map (f := BootstrapError.writeConfig (ε := ε) configPath).2 htears
    obtain ⟨e, n, hon⟩ := on_writeNew_of_tears hfault (.configExists configPath) (Json.utf8 text)
    have hne : m.file configPath ≠ m.file keyPath := by
      intro heq
      have := htears.2.1
      rw [hdisk', heq, Function.update_self] at this
      cases this
    have hleft := (hleaves e _ ((on_tryCatch_error hon _).trans (hremove e _))).2
    have hbefore := htears.2.1
    rw [hdisk', Function.update_of_ne hne] at hbefore
    rw [Function.update_of_ne hne, Function.update_self, hbefore] at hleft
    cases hleft
  · intro htears e d hon
    have hfault : ¬(m.configFault.map (BootstrapError.writeConfig (ε := ε) configPath)).Tears disk'
        (m.file configPath) := fun h => htears (tears_map.1 h)
    rcases on_writeNew_of_not_tears hfault (.configExists configPath) (Json.utf8 text) with
      ⟨-, -, -, hon'⟩ | ⟨-, e', hon'⟩
    · rw [Machine.writeNew0600, on_tryCatch_ok hon'] at hon
      cases hon
    · rw [Machine.writeNew0600, on_tryCatch_error hon', hremove] at hon
      cases hon
      have hback : Function.update disk' (m.file keyPath) none = disk := by
        rw [hdisk', Function.update_idem, ← habsent, Function.update_eq_self]
      rw [hback]
      exact ⟨rfl, rfl⟩

/-- **The writes leave nothing when they fail exactly when none of them tears.** -/
theorem leavesNothing_writeFiles {generated : Bool}
    (hgen : generated = (disk (m.file keyPath)).isNone) :
    m.LeavesNothing keyPath configPath
        (m.writeFiles keyPath configPath generated text : DiskM F (BootstrapError ε ι) Unit) disk ↔
      m.Untorn keyPath configPath disk := by
  cases hkey : disk (m.file keyPath) with
  | some old =>
      have hne : disk (m.file keyPath) ≠ none := by simp [hkey]
      rw [hgen, hkey, Option.isNone_some, leavesNothing_writeFiles_false]
      constructor
      · intro h
        refine ⟨fun hnone => absurd hnone hne, fun _ hcreate hconfig => ?_⟩
        by_contra hwrite
        exact h ⟨hcreate, hconfig, hwrite⟩
      · rintro h ⟨hcreate, hconfig, hwrite⟩
        exact hwrite (h.config (fun hnone => absurd hnone hne) hcreate hconfig)
  | none =>
      rw [hgen, hkey, Option.isNone_none]
      by_cases htears : m.keyFault.Tears disk (m.file keyPath)
      · refine iff_of_false (not_leavesNothing_of_key_tears htears) fun h => ?_
        exact htears.2.2 (h.key hkey htears.1)
      · rcases on_writeNew_of_not_tears htears m.present m.newKeyText with
          ⟨hcreate, -, hwrite, hon⟩ | ⟨hcreate, e, hon⟩
        · rw [leavesNothing_of_saved hkey rfl hon]
          constructor
          · intro h
            refine ⟨fun _ _ => hwrite, fun hsaved hcreate' hconfig => ?_⟩
            have hne : m.file configPath ≠ m.file keyPath := fun heq => (hsaved hkey).2 heq.symm
            by_contra hwrite'
            exact h ⟨hcreate', by rw [Function.update_of_ne hne, hconfig], hwrite'⟩
          · rintro h ⟨hcreate', hconfig, hwrite'⟩
            have hne : m.file configPath ≠ m.file keyPath := by
              intro heq
              rw [heq, Function.update_self] at hconfig
              cases hconfig
            rw [Function.update_of_ne hne] at hconfig
            exact hwrite' (h.config (fun _ => ⟨hcreate, hne.symm⟩) hcreate' hconfig)
        · have hcreate' : m.keyFault.create ≠ none := hcreate.resolve_right (not_not.2 hkey)
          refine iff_of_true ?_ ⟨fun _ h => absurd h hcreate', fun h => absurd (h hkey).1 hcreate'⟩
          intro e' d hd
          rw [on_writeFiles_of_not_saved hon] at hd
          cases hd
          exact ⟨rfl, rfl⟩

end Machine

/-! ### The two functions -/

section Network

variable {json : List UInt8 → Except ε RawInvite} {expand : Bytes 32 → Bytes 5}
  {m : Machine C F ι} {disk : Disk F} {token : List Char} {keyPath configPath : PathBuf}
  {nowUnix : UInt64}

/-- An identity is new exactly when there is no key file. -/
theorem generated_eq {requireExisting : Bool} {id : NodePublicKey C} {generated : Bool}
    (h : ((m.host disk keyPath).loadOrGenerateIdentity keyPath requireExisting :
      Except (BootstrapError ε ι) _) = .ok (id, generated)) :
    generated = (disk (m.file keyPath)).isNone := by
  rw [Host.loadOrGenerateIdentity] at h
  cases hkey : disk (m.file keyPath) with
  | some old =>
      have hexists : (m.host disk keyPath).pathExists keyPath = true := by
        simp [Machine.host, hkey]
      rw [if_pos hexists] at h
      split at h
      · cases h
        rfl
      · cases h
  | none =>
      have hexists : ¬(m.host disk keyPath).pathExists keyPath = true := by
        simp [Machine.host, hkey]
      rw [if_neg hexists] at h
      split_ifs at h
      cases h
      rfl

theorem generated_of_joinChecks {invite : Invite C} {id : NodePublicKey C} {generated : Bool}
    {own : NodeAddr}
    (h : joinChecks json expand (m.host disk keyPath) token keyPath configPath nowUnix =
      .ok (invite, id, generated, own)) : generated = (disk (m.file keyPath)).isNone := by
  obtain ⟨invite, -, h⟩ := Fallible.bind_eq_ok.1 h
  obtain ⟨_, -, h⟩ := Fallible.bind_eq_ok.1 h
  obtain ⟨⟨id, generated⟩, hid, h⟩ := Fallible.bind_eq_ok.1 h
  obtain ⟨own, -, h⟩ := Fallible.bind_eq_ok.1 h
  obtain ⟨all, -, h⟩ := Fallible.bind_eq_ok.1 h
  obtain ⟨_, -, h⟩ := Fallible.bind_eq_ok.1 h
  obtain ⟨_, -, h⟩ := Fallible.bind_eq_ok.1 h
  cases h
  exact generated_eq hid

theorem generated_of_initChecks {networkKey : Option String} {opts : InitOptions}
    {id : NodePublicKey C} {generated : Bool} {key : NetworkKey} {own : NodeAddr}
    (h : (initChecks expand (m.host disk keyPath) keyPath networkKey opts :
      Except (BootstrapError ε ι) _) = .ok (id, generated, key, own)) :
    generated = (disk (m.file keyPath)).isNone := by
  obtain ⟨⟨id, generated⟩, hid, h⟩ := Fallible.bind_eq_ok.1 h
  obtain ⟨key, -, h⟩ := Fallible.bind_eq_ok.1 h
  obtain ⟨own, -, h⟩ := Fallible.bind_eq_ok.1 h
  cases h
  exact generated_eq hid

theorem on_joinNetworkOn_error {opts : JoinOptions} {e : BootstrapError ε ι}
    (h : joinChecks json expand (m.host disk keyPath) token keyPath configPath nowUnix = .error e) :
    (joinNetworkOn json expand m token keyPath configPath nowUnix opts).on disk =
      (.error e, disk) := by
  rw [joinNetworkOn, on_bind_ok (on_get disk)]
  exact on_answer_bind_error h _ disk

theorem on_joinNetworkOn_ok {opts : JoinOptions} {invite : Invite C} {id : NodePublicKey C}
    {generated : Bool} {own : NodeAddr}
    (h : joinChecks json expand (m.host disk keyPath) token keyPath configPath nowUnix =
      .ok (invite, id, generated, own)) :
    (joinNetworkOn json expand m token keyPath configPath nowUnix opts).on disk =
      (m.writeFiles keyPath configPath generated (invite.fresh keyPath configPath opts).text >>=
        fun _ => pure (joinOutcome expand invite id own keyPath configPath opts)).on disk := by
  rw [joinNetworkOn, on_bind_ok (on_get disk)]
  exact on_answer_bind_ok h _ disk

theorem on_initNetworkOn_error {name : String} {networkKey : Option String} {opts : InitOptions}
    {e : BootstrapError ε ι}
    (h : initChecks expand (m.host disk keyPath) keyPath networkKey opts = .error e) :
    (initNetworkOn expand m name keyPath configPath networkKey opts).on disk =
      (.error e, disk) := by
  rw [initNetworkOn, on_bind_ok (on_get disk)]
  exact on_answer_bind_error h _ disk

theorem on_initNetworkOn_ok {name : String} {networkKey : Option String} {opts : InitOptions}
    {id : NodePublicKey C} {generated : Bool} {key : NetworkKey} {own : NodeAddr}
    (h : (initChecks expand (m.host disk keyPath) keyPath networkKey opts :
      Except (BootstrapError ε ι) _) = .ok (id, generated, key, own)) :
    (initNetworkOn expand m name keyPath configPath networkKey opts :
        DiskM F (BootstrapError ε ι) _).on disk =
      (m.writeFiles keyPath configPath generated
          (FreshConfig.named C name key keyPath configPath opts).text >>=
        fun _ => pure (initOutcome expand name id key own keyPath configPath)).on disk := by
  rw [initNetworkOn, on_bind_ok (on_get disk)]
  exact on_answer_bind_ok h _ disk

omit [DecidableEq F] in
/-- What is returned after the writes changes nothing. -/
theorem leavesNothing_bind_pure {α : Type} {x : DiskM F (BootstrapError ε ι) Unit} {a : α} :
    (∀ e disk', (x >>= fun _ => pure a).on disk = (.error e, disk') →
        m.Unchanged keyPath configPath disk disk') ↔
      m.LeavesNothing keyPath configPath x disk := by
  rw [Machine.LeavesNothing]
  simp only [on_bind_pure]
  cases hx : x.on disk with
  | mk r disk'' =>
      cases r with
      | ok u => simp [Except.map]
      | error e => simp [Except.map]

/-- The answers of the machine are those that the write of the configuration gives. -/
theorem writeNew0600_result {disk' : Disk F} {text : List Char}
    (hdisk' : disk' = if (disk (m.file keyPath)).isSome then disk
      else ((m.saveIdentity keyPath).on disk).2) :
    ((m.writeNew0600 configPath text : DiskM F (BootstrapError ε ι) Unit).on disk').1 =
      (m.host disk keyPath).writeNew0600 configPath := by
  have hcreate : (m.host disk keyPath).createNew configPath =
      match m.configFault.create, m.configFault.write with
      | some e, _ => .error (.other e)
      | none, w =>
          if (disk' (m.file configPath)).isSome then .error .alreadyExists
          else match w with
            | some (_, e) => .error (.other e)
            | none => .ok () := by
    rw [hdisk']
    rfl
  rw [Host.writeNew0600, hcreate, Machine.writeNew0600]
  cases hc : m.configFault.create with
  | some e =>
      rw [on_writeNew_of_create
        (show (m.configFault.map _).create = _ by rw [WriteFault.map, hc]; rfl)]
  | none =>
      have hc' :
          (m.configFault.map (BootstrapError.writeConfig (ε := ε) configPath)).create = none := by
        rw [WriteFault.map, hc]
        rfl
      cases hd : disk' (m.file configPath) with
      | some old =>
          rw [on_writeNew_of_present hc' (by simp [hd])]
          rfl
      | none =>
          cases hw : m.configFault.write with
          | some x =>
              rw [on_writeNew_of_write hc' hd (by rw [WriteFault.map, hw]; rfl)]
              rfl
          | none =>
              rw [on_writeNew_of_none hc' hd (by rw [WriteFault.map, hw]; rfl)]
              rfl

/-- The writes return what saving and writing are answered. -/
theorem writeFiles_result {generated : Bool} {text : List Char}
    (hgen : generated = (disk (m.file keyPath)).isNone) :
    ((m.writeFiles keyPath configPath generated text :
        DiskM F (BootstrapError ε ι) Unit).on disk).1 =
      (do
        (m.host disk keyPath).saveNew keyPath generated
        (m.host disk keyPath).writeNew0600 configPath) := by
  cases hkey : disk (m.file keyPath) with
  | some old =>
      rw [hgen, hkey, Option.isNone_some, Machine.on_writeFiles_false]
      exact writeNew0600_result (by rw [hkey]; rfl)
  | none =>
      rw [hgen, hkey, Option.isNone_none]
      cases hsave : (m.saveIdentity keyPath).on disk with
      | mk r disk' =>
          have hanswer : (m.host disk keyPath).saveNew keyPath true =
              (r.mapError (BootstrapError.saveKey keyPath) : Except (BootstrapError ε ι) Unit) := by
            change (((m.saveIdentity keyPath).on disk).1.mapError _) = _
            rw [hsave]
          cases r with
          | error e =>
              rw [Machine.on_writeFiles_of_not_saved hsave, hanswer]
              rfl
          | ok u =>
              have hwrite : ((m.writeNew0600 configPath text :
                  DiskM F (BootstrapError ε ι) Unit).on disk').1 =
                  (m.host disk keyPath).writeNew0600 configPath :=
                writeNew0600_result (by rw [hkey, hsave]; rfl)
              rw [Machine.on_writeFiles_of_saved hsave, hanswer]
              cases hon : (m.writeNew0600 configPath text :
                  DiskM F (BootstrapError ε ι) Unit).on disk' with
              | mk r' disk'' =>
                  rw [hon] at hwrite
                  cases r' with
                  | ok u =>
                      rw [on_tryCatch_ok hon]
                      exact hwrite
                  | error e =>
                      rw [on_tryCatch_error hon, on_bind_ok (on_removeFile (m.file keyPath) disk'')]
                      exact hwrite

theorem joinNetwork_eq (host : Host C ι) (opts : JoinOptions) :
    joinNetwork host json expand token keyPath configPath nowUnix opts =
      (do
        let (invite, id, generated, own) ←
          joinChecks json expand host token keyPath configPath nowUnix
        host.saveNew keyPath generated
        host.writeNew0600 configPath
        return (joinOutcome expand invite id own keyPath configPath opts, id,
          (invite.fresh keyPath configPath opts).text)) := by
  simp only [joinNetwork, joinChecks, bind_assoc, pure_bind]
  rfl

theorem initNetwork_eq (host : Host C ι) (name : String) (networkKey : Option String)
    (opts : InitOptions) :
    (initNetwork host expand name keyPath configPath networkKey opts :
        Except (BootstrapError ε ι) _) =
      (do
        let (id, generated, key, own) ← initChecks expand host keyPath networkKey opts
        host.saveNew keyPath generated
        host.writeNew0600 configPath
        return (initOutcome expand name id key own keyPath configPath, id,
          (FreshConfig.named C name key keyPath configPath opts).text)) := by
  simp only [initNetwork, initChecks, bind_assoc, pure_bind]
  rfl

/-- **A join on a disk returns what it returns on the answers of the machine.** -/
theorem joinNetworkOn_result (opts : JoinOptions) :
    ((joinNetworkOn json expand m token keyPath configPath nowUnix opts).on disk).1 =
      (joinNetwork (m.host disk keyPath) json expand token keyPath configPath nowUnix opts).map
        Prod.fst := by
  rw [joinNetwork_eq]
  cases h : joinChecks json expand (m.host disk keyPath) token keyPath configPath nowUnix with
  | error e =>
      rw [on_joinNetworkOn_error h]
      rfl
  | ok x =>
      obtain ⟨invite, id, generated, own⟩ := x
      rw [on_joinNetworkOn_ok h, on_bind_pure, writeFiles_result (generated_of_joinChecks h)]
      simp only [Fallible.ok_bind]
      cases (m.host disk keyPath).saveNew keyPath generated with
      | error e => rfl
      | ok u => cases (m.host disk keyPath).writeNew0600 configPath <;> rfl

/-- **An init on a disk returns what it returns on the answers of the machine.** -/
theorem initNetworkOn_result (name : String) (networkKey : Option String) (opts : InitOptions) :
    ((initNetworkOn expand m name keyPath configPath networkKey opts :
        DiskM F (BootstrapError ε ι) _).on disk).1 =
      (initNetwork (m.host disk keyPath) expand name keyPath configPath networkKey opts).map
        Prod.fst := by
  rw [initNetwork_eq]
  cases h : (initChecks expand (m.host disk keyPath) keyPath networkKey opts :
      Except (BootstrapError ε ι) _) with
  | error e =>
      rw [on_initNetworkOn_error h]
      rfl
  | ok x =>
      obtain ⟨id, generated, key, own⟩ := x
      rw [on_initNetworkOn_ok h, on_bind_pure, writeFiles_result (generated_of_initChecks h)]
      simp only [Fallible.ok_bind]
      cases (m.host disk keyPath).saveNew keyPath generated with
      | error e => rfl
      | ok u => cases (m.host disk keyPath).writeNew0600 configPath <;> rfl

/-- **When a failed join or init leaves nothing.**  For every disk, machine and arguments:
if the call fails, the key file and the configuration file are as they were, absent or
with their bytes, if and only if, once the checks pass, no write fails after the file it
writes to was created. -/
theorem failed_leaves_nothing_iff (json : List UInt8 → Except ε RawInvite)
    (expand : Bytes 32 → Bytes 5) (m : Machine C F ι) (disk : Disk F) :
    (∀ token keyPath configPath nowUnix opts,
      m.LeavesNothing keyPath configPath
          (joinNetworkOn json expand m token keyPath configPath nowUnix opts) disk ↔
        ((joinChecks json expand (m.host disk keyPath) token keyPath configPath
          nowUnix).isOk = true → m.Untorn keyPath configPath disk)) ∧
    ∀ name keyPath configPath networkKey opts,
      m.LeavesNothing keyPath configPath (initNetworkOn expand m name keyPath configPath networkKey
          opts : DiskM F (BootstrapError ε ι) InitOutcome) disk ↔
        ((initChecks expand (m.host disk keyPath) keyPath networkKey opts :
          Except (BootstrapError ε ι) _).isOk = true → m.Untorn keyPath configPath disk) := by
  constructor
  · intro token keyPath configPath nowUnix opts
    cases h : joinChecks json expand (m.host disk keyPath) token keyPath configPath nowUnix with
    | error e =>
        refine iff_of_true (fun e' disk' hon => ?_) fun hok => by cases hok
        rw [on_joinNetworkOn_error h] at hon
        cases hon
        exact ⟨rfl, rfl⟩
    | ok x =>
        obtain ⟨invite, id, generated, own⟩ := x
        rw [Machine.LeavesNothing]
        simp only [on_joinNetworkOn_ok h]
        rw [leavesNothing_bind_pure, Machine.leavesNothing_writeFiles (generated_of_joinChecks h)]
        exact ⟨fun h _ => h, fun h => h rfl⟩
  · intro name keyPath configPath networkKey opts
    cases h : (initChecks expand (m.host disk keyPath) keyPath networkKey opts :
        Except (BootstrapError ε ι) _) with
    | error e =>
        refine iff_of_true (fun e' disk' hon => ?_) fun hok => by cases hok
        rw [on_initNetworkOn_error h] at hon
        cases hon
        exact ⟨rfl, rfl⟩
    | ok x =>
        obtain ⟨id, generated, key, own⟩ := x
        rw [Machine.LeavesNothing]
        simp only [on_initNetworkOn_ok h]
        rw [leavesNothing_bind_pure, Machine.leavesNothing_writeFiles (generated_of_initChecks h)]
        exact ⟨fun h _ => h, fun h => h rfl⟩

end Network

/-- A machine on which the write of the configuration fails at once. -/
def tornMachine : Machine Crypto.plain PathBuf Unit where
  file := id
  readIdentity _ := .error ()
  newIdentity := plainKey 2 0
  newKeyText := []
  newNetworkKey := ⟨zeros 32⟩
  absent := ()
  present := ()
  readFault := none
  keyFault := ⟨none, none⟩
  configFault := ⟨none, some (0, ())⟩

/-- An init on an empty disk whose configuration cannot be written leaves an empty
configuration file. -/
theorem failed_init_leaves_config :
    ¬tornMachine.LeavesNothing [.char 'k'] [.char 'c']
      (initNetworkOn plainExpand tornMachine "a" [.char 'k'] [.char 'c'] none ⟨4193, none, false⟩ :
        DiskM PathBuf (BootstrapError Unit Unit) InitOutcome) (fun _ => none) := by
  have hok : (initChecks plainExpand (tornMachine.host (fun _ => none) [.char 'k']) [.char 'k'] none
      ⟨4193, none, false⟩ : Except (BootstrapError Unit Unit) _).isOk = true := by
    decide +kernel
  obtain ⟨⟨id, generated, key, own⟩, h⟩ := Fallible.exists_of_isOk hok
  rw [Machine.LeavesNothing]
  simp only [on_initNetworkOn_ok h]
  rw [leavesNothing_bind_pure, Machine.leavesNothing_writeFiles (generated_of_initChecks h)]
  intro huntorn
  have hwrite : tornMachine.configFault.write = none :=
    huntorn.config (fun _ => ⟨rfl, by decide⟩) rfl rfl
  cases hwrite

end Hextet
