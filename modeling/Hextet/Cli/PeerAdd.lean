/-
# Adding a peer: `peer.rs`

`hextet peer add` loads the configuration and the identity, checks what it is given
against them, appends a peer block to the file, and loads the file again.  When that
fails it writes the old text back.

What is checked before the append is collected in `addChecks`, on the disk as it is; then
`peerAdd` opens the file, appends, and loads it again.  A block that was appended whole
and loads adds exactly the peer that was given (`Hextet.Core.PeerAppend`); a block that
does not load is taken back.  An append that fails half way is not taken back, so that
**the command is all or nothing exactly when no append fails after its first byte**
(`peerAdd_all_or_nothing_iff`).
-/

import Hextet.Core.KeyPath
import Hextet.Core.PeerAppend
import Hextet.Lib.Disk
import Hextet.Lib.Json

namespace Hextet

open Lib DiskM

variable {C : Crypto} {F ε ι : Type} [DecidableEq F]

/-- `AddArgs`. -/
structure AddArgs where
  config : PathBuf
  name : String
  publicKey : String
  endpoint : List String
  route : List String

/-- Where the command runs: the file that a path names, the readers of key files and of
TOML, the expansion of network keys, the errors of a read, and what goes wrong when the
file is opened or appended to.  `ι` is the type of an `io::Error` or an `IdentityError`. -/
structure Shell (C : Crypto) (F ε ι : Type) where
  file : PathBuf → F
  readIdentity : List UInt8 → Except ι (NodePublicKey C)
  parse : List Char → Except ε Toml.Table
  expand : Bytes 32 → Bytes 5
  absent : ι
  notUtf8 : ι
  openFault : Option ι
  appendFault : Option (ℕ × ι)

/-- The errors of the command. -/
inductive AddError (ε ι : Type) where
  | read (path : PathBuf) (source : ι)
  | config (e : File.ConfigError (ε ⊕ File.DeError))
  | identity (path : PathBuf) (source : ι)
  | badPublicKey (e : IdentityError)
  | ipv4Endpoint (endpoint : String)
  | badEndpoint (endpoint : String)
  | badRoute (route : String) (source : RouteParseError)
  | ownKey
  | duplicateKey (name : String)
  | duplicateName (name : String)
  | addr (e : AddrError)
  | collision (e : AddrError)
  | openConfig (path : PathBuf) (source : ι)
  | writeConfig (path : PathBuf) (source : ι)
  | restored (path : PathBuf) (e : AddError ε ι)

/-! ### The command -/

namespace Shell

variable (sh : Shell C F ε ι) (disk : Disk F)

/-- `std::fs::read_to_string`. -/
def readToString (path : PathBuf) : Except ι (List Char) :=
  match disk (sh.file path) with
  | none => .error sh.absent
  | some bytes =>
      match Json.fromUtf8 bytes with
      | none => .error sh.notUtf8
      | some text => .ok text

/-- `Config::load` of a text. -/
def loadText (text : List Char) (own : Option (NodePublicKey C)) :
    Except (AddError ε ι) (File.Config C) :=
  (File.load C (File.fromStr sh.parse) sh.expand text own).mapError .config

/-- `Config::load`. -/
def loadConfig (path : PathBuf) (own : Option (NodePublicKey C)) :
    Except (AddError ε ι) (File.Config C) := do
  let text ← (sh.readToString disk path).mapError (.read path)
  sh.loadText text own

/-- `NodeIdentity::load`. -/
def loadIdentity (path : PathBuf) : Except ι (NodePublicKey C) :=
  match disk (sh.file path) with
  | none => .error sh.absent
  | some bytes => sh.readIdentity bytes

/-- `load_config_and_identity`. -/
def loadConfigAndIdentity (configPath : PathBuf) :
    Except (AddError ε ι) (File.Config C × NodePublicKey C) := do
  let cfg ← sh.loadConfig disk configPath none
  let keyPath := identityPath configPath cfg.node.keyFile
  let id ← (sh.loadIdentity disk keyPath).mapError (.identity keyPath)
  let cfg ← sh.loadConfig disk configPath (some id)
  return (cfg, id)

end Shell

/-- `parse_endpoint`. -/
def parseEndpoint (s : String) : Except (AddError ε ι) SocketAddrV6 :=
  match parseSocketAddr s.toList with
  | some (.v6 a) => .ok a
  | some .v4 => .error (.ipv4Endpoint s)
  | none => .error (.badEndpoint s)

/-- A route of the command line. -/
def parseRoute (s : String) : Except (AddError ε ι) Ipv6Route :=
  (Ipv6Route.fromStr s).mapError (.badRoute s)

/-- The new peer is another node, with a key and a name that no peer has. -/
def checkNew (peers : List (Peer C)) (own publicKey : NodePublicKey C) (name : String) :
    Except (AddError ε ι) Unit :=
  if publicKey = own then .error .ownKey
  else
    match peers.find? fun p => p.publicKey = publicKey with
    | some existing => .error (.duplicateKey existing.name)
    | none => if peers.any (·.name = name) then .error (.duplicateName name) else .ok ()

/-- What is known when the checks have passed. -/
structure AddPlan (C : Crypto) where
  cfg : File.Config C
  own : NodePublicKey C
  publicKey : NodePublicKey C
  endpoints : List SocketAddrV6
  routes : List Ipv6Route
  original : List Char

variable (sh : Shell C F ε ι)

/-- What `add` does before it opens the file to append. -/
def addChecks (disk : Disk F) (args : AddArgs) : Except (AddError ε ι) (AddPlan C) := do
  let (cfg, own) ← sh.loadConfigAndIdentity disk args.config
  let publicKey ← (NodePublicKey.fromBase64 C args.publicKey).mapError .badPublicKey
  let endpoints ← args.endpoint.mapM parseEndpoint
  let routes ← args.route.mapM parseRoute
  checkNew cfg.peers own publicKey args.name
  let newAddr ← (deriveNodeAddr cfg.pre publicKey).mapError .addr
  let ownAddr ← (deriveNodeAddr cfg.pre own).mapError .addr
  (checkSubnetCollisions (cfg.peers.map (fun p => (p.name, p.addr)) ++
    [("<self>", ownAddr), (args.name, newAddr)])).mapError .collision
  let original ← (sh.readToString disk args.config).mapError (.read args.config)
  return {
    cfg := cfg, own := own, publicKey := publicKey, endpoints := endpoints, routes := routes,
    original := original }

/-- The block that is appended. -/
def AddPlan.block (plan : AddPlan C) (name : String) : List Char :=
  File.renderPeerBlock name plan.publicKey plan.endpoints plan.routes

/-- The append: the file is opened, and the block is written at its end. -/
def appendBlock (args : AddArgs) (block : List Char) : DiskM F (AddError ε ι) Unit := do
  match sh.openFault with
  | some e => throw (.openConfig args.config e)
  | none =>
      writeAll (sh.appendFault.map (Prod.map id (.writeConfig args.config))) (sh.file args.config)
        (Json.utf8 block)

/-- `add`. -/
def peerAdd (args : AddArgs) : DiskM F (AddError ε ι) Unit := do
  let plan ← answer (addChecks sh (← get) args)
  appendBlock sh args (plan.block args.name)
  match sh.loadConfig (← get) args.config (some plan.own) with
  | .ok _ => return ()
  | .error e =>
      writeFile (sh.file args.config) (Json.utf8 plan.original)
      throw (.restored args.config e)

/-! ### What the checks know -/

variable {sh} {disk : Disk F} {args : AddArgs}

omit [DecidableEq F] in
theorem Shell.readToString_eq_ok {path : PathBuf} {text : List Char} :
    sh.readToString disk path = .ok text ↔ disk (sh.file path) = some (Json.utf8 text) := by
  rw [readToString]
  cases hfile : disk (sh.file path) with
  | none => simp
  | some bytes =>
      rw [Option.some.injEq, ← Json.fromUtf8_eq_some]
      cases htext : Json.fromUtf8 bytes <;> simp [htext]

omit [DecidableEq F] in
theorem Shell.loadConfig_of_text {path : PathBuf} {text : List Char}
    (h : disk (sh.file path) = some (Json.utf8 text)) (own : Option (NodePublicKey C)) :
    sh.loadConfig disk path own = sh.loadText text own := by
  rw [loadConfig, readToString_eq_ok.2 h]
  rfl

/-- What the plan holds: the file's text, the configuration it loads as, and what the
arguments stand for. -/
structure AddPlan.Sound (sh : Shell C F ε ι) (disk : Disk F) (args : AddArgs) (plan : AddPlan C) :
    Prop where
  loaded : sh.loadConfigAndIdentity disk args.config = .ok (plan.cfg, plan.own)
  text : disk (sh.file args.config) = some (Json.utf8 plan.original)
  config : sh.loadText plan.original (some plan.own) = .ok plan.cfg
  key : NodePublicKey.fromBase64 C args.publicKey = .ok plan.publicKey
  endpoints : args.endpoint.mapM (parseEndpoint : _ → Except (AddError ε ι) _) = .ok plan.endpoints
  routes : args.route.mapM (parseRoute : _ → Except (AddError ε ι) _) = .ok plan.routes

omit [DecidableEq F] in
theorem addChecks_sound {plan : AddPlan C} (h : addChecks sh disk args = .ok plan) :
    plan.Sound sh disk args := by
  obtain ⟨⟨cfg, own⟩, hloaded, h⟩ := Fallible.bind_eq_ok.1 h
  obtain ⟨publicKey, hkey, h⟩ := Fallible.bind_eq_ok.1 h
  obtain ⟨endpoints, hends, h⟩ := Fallible.bind_eq_ok.1 h
  obtain ⟨routes, hroutes, h⟩ := Fallible.bind_eq_ok.1 h
  obtain ⟨_, -, h⟩ := Fallible.bind_eq_ok.1 h
  obtain ⟨newAddr, -, h⟩ := Fallible.bind_eq_ok.1 h
  obtain ⟨ownAddr, -, h⟩ := Fallible.bind_eq_ok.1 h
  obtain ⟨_, -, h⟩ := Fallible.bind_eq_ok.1 h
  obtain ⟨original, horiginal, h⟩ := Fallible.bind_eq_ok.1 h
  cases h
  have htext := Shell.readToString_eq_ok.1 (Fallible.mapError_eq_ok.1 horiginal)
  refine ⟨hloaded, htext, ?_, Fallible.mapError_eq_ok.1 hkey, hends, hroutes⟩
  -- the configuration was loaded from the text that is kept
  obtain ⟨_, -, h⟩ := Fallible.bind_eq_ok.1 hloaded
  obtain ⟨id, -, h⟩ := Fallible.bind_eq_ok.1 h
  obtain ⟨cfg', hcfg, h⟩ := Fallible.bind_eq_ok.1 h
  cases h
  exact (Shell.loadConfig_of_text htext _).symm.trans hcfg

/-- Endpoints of the command line have no flow information. -/
theorem flowinfo_of_parseEndpoint {ss : List String} {es : List SocketAddrV6}
    (h : ss.mapM (parseEndpoint : _ → Except (AddError ε ι) _) = .ok es) :
    ∀ e ∈ es, e.flowinfo = 0 := by
  have hall := Fallible.mapM_eq_ok.1 h
  clear h
  induction hall with
  | nil => simp
  | cons hs _ ih =>
      rintro e (_ | ⟨_, he⟩)
      · unfold parseEndpoint at hs
        split at hs
        · rename_i a ha
          cases hs
          exact flowinfo_of_parseSocketAddr ha
        · cases hs
        · cases hs
      · exact ih e he

/-! ### All or nothing -/

/-- The block is at the end of the file, and the file loads as the old configuration with
exactly the peer of the arguments at the end. -/
structure Added (sh : Shell C F ε ι) (args : AddArgs) (disk disk' : Disk F) (plan : AddPlan C)
    (addr : NodeAddr) : Prop where
  sound : plan.Sound sh disk args
  derived : deriveNodeAddr plan.cfg.pre plan.publicKey = .ok addr
  file : disk' (sh.file args.config) =
    some (Json.utf8 plan.original ++ Json.utf8 (plan.block args.name))
  config : sh.loadConfig disk' args.config (some plan.own) =
    .ok { plan.cfg with
      peers := plan.cfg.peers ++
        [File.newPeer args.name plan.publicKey plan.endpoints plan.routes addr] }

/-- The command leaves the file as it was, or adds the peer. -/
def AllOrNothing (sh : Shell C F ε ι) (args : AddArgs) (disk : Disk F) : Prop :=
  (∀ e disk', (peerAdd sh args).on disk = (.error e, disk') →
      disk' (sh.file args.config) = disk (sh.file args.config)) ∧
    ∀ disk', (peerAdd sh args).on disk = (.ok (), disk') →
      ∃ plan addr, Added sh args disk disk' plan addr

/-- The file after the append. -/
def appended (sh : Shell C F ε ι) (args : AddArgs) (disk : Disk F) (bytes : List UInt8) : Disk F :=
  Function.update disk (sh.file args.config)
    (some ((disk (sh.file args.config)).getD [] ++ bytes))

theorem on_peerAdd_of_refused {e : AddError ε ι} (h : addChecks sh disk args = .error e) :
    (peerAdd sh args).on disk = (.error e, disk) := by
  rw [peerAdd, on_bind_ok (on_get disk)]
  exact on_answer_bind_error h _ disk

section Plan

variable {plan : AddPlan C} (h : addChecks sh disk args = .ok plan)

include h

theorem on_peerAdd_of_open {e : ι} (hopen : sh.openFault = some e) :
    (peerAdd sh args).on disk = (.error (.openConfig args.config e), disk) := by
  have happend : (appendBlock sh args (plan.block args.name)).on disk =
      (.error (.openConfig args.config e), disk) := by
    rw [appendBlock, hopen]
    rfl
  rw [peerAdd, on_bind_ok (on_get disk), on_answer_bind_ok h]
  exact on_bind_error happend _

theorem on_peerAdd_of_append {n : ℕ} {e : ι} (hopen : sh.openFault = none)
    (hfault : sh.appendFault = some (n, e)) :
    (peerAdd sh args).on disk = (.error (.writeConfig args.config e),
      appended sh args disk ((Json.utf8 (plan.block args.name)).take n)) := by
  have happend : (appendBlock sh args (plan.block args.name)).on disk =
      (.error (.writeConfig args.config e),
        appended sh args disk ((Json.utf8 (plan.block args.name)).take n)) := by
    rw [appendBlock, hopen, hfault]
    exact on_writeAll_fault ..
  rw [peerAdd, on_bind_ok (on_get disk), on_answer_bind_ok h]
  exact on_bind_error happend _

/-- After a whole append the file is loaded again. -/
theorem on_peerAdd_of_appended (hopen : sh.openFault = none) (hfault : sh.appendFault = none) :
    (peerAdd sh args).on disk =
      match sh.loadConfig (appended sh args disk (Json.utf8 (plan.block args.name))) args.config
        (some plan.own) with
      | .ok _ => (.ok (), appended sh args disk (Json.utf8 (plan.block args.name)))
      | .error e => (.error (.restored args.config e),
          Function.update (appended sh args disk (Json.utf8 (plan.block args.name)))
            (sh.file args.config) (some (Json.utf8 plan.original))) := by
  have happend : (appendBlock sh args (plan.block args.name)).on disk =
      (.ok (), appended sh args disk (Json.utf8 (plan.block args.name))) := by
    rw [appendBlock, hopen, hfault]
    exact on_writeAll ..
  rw [peerAdd, on_bind_ok (on_get disk), on_answer_bind_ok h, on_bind_ok happend,
    on_bind_ok (on_get _)]
  split
  · rfl
  · exact on_bind_ok (on_writeFile _ _ _) _

end Plan

/-- A block starts with a line break. -/
theorem take_utf8_block {plan : AddPlan C} {name : String} {n : ℕ} :
    (Json.utf8 (plan.block name)).take n = [] ↔ n = 0 := by
  have hne : Json.utf8 (plan.block name) ≠ [] := by
    rw [AddPlan.block, File.renderPeerBlock_eq_blockDoc, File.blockDoc, Toml.text_cons, Json.utf8]
    simp [Toml.Line.text]
  rw [List.take_eq_nil_iff]
  exact or_iff_left hne

/-- An append that fails leaves the file as it was exactly when it has written nothing. -/
theorem appended_take_eq_iff {plan : AddPlan C} {n : ℕ} (h : addChecks sh disk args = .ok plan) :
    appended sh args disk ((Json.utf8 (plan.block args.name)).take n) (sh.file args.config) =
        disk (sh.file args.config) ↔ n = 0 := by
  rw [appended, Function.update_self, (addChecks_sound h).text, Option.getD_some,
    Option.some.injEq, List.append_right_eq_self, take_utf8_block]

/-- **A whole append adds the peer or is taken back.** -/
theorem allOrNothing_of_appended (hp : Toml.Appends sh.parse) {plan : AddPlan C}
    (h : addChecks sh disk args = .ok plan) (hopen : sh.openFault = none)
    (hfault : sh.appendFault = none) : AllOrNothing sh args disk := by
  have hsound := addChecks_sound h
  have hfile : appended sh args disk (Json.utf8 (plan.block args.name)) (sh.file args.config) =
      some (Json.utf8 plan.original ++ Json.utf8 (plan.block args.name)) := by
    rw [appended, Function.update_self, hsound.text]
    rfl
  have hload := Shell.loadConfig_of_text (hfile.trans (by rw [Json.utf8_append]))
    (some plan.own)
  rw [AllOrNothing, on_peerAdd_of_appended h hopen hfault]
  cases hcfg : sh.loadConfig (appended sh args disk (Json.utf8 (plan.block args.name))) args.config
      (some plan.own) with
  | error e =>
      refine ⟨fun e' disk' hon => ?_, fun disk' hon => by cases hon⟩
      cases hon
      rw [Function.update_self, hsound.text]
  | ok cfg =>
      refine ⟨fun e' disk' hon => (by cases hon), fun disk' hon => ?_⟩
      cases hon
      rw [hload] at hcfg
      obtain ⟨addr, haddr, rfl⟩ := File.load_append_block hp
        (flowinfo_of_parseEndpoint hsound.endpoints) (Fallible.mapError_eq_ok.1 hsound.config)
        (Fallible.mapError_eq_ok.1 hcfg)
      exact ⟨plan, addr, hsound, haddr, hfile, hload.trans hcfg⟩

/-- **When `peer add` is all or nothing.**  For every file system, configuration and
arguments: an error leaves the file as it was, and a success leaves the old text with one
block after it, which loads as the old configuration with exactly the given peer at the
end, if and only if the append, where the checks and the open let it happen, does not
fail after its first byte. -/
theorem peerAdd_all_or_nothing_iff (hp : Toml.Appends sh.parse) (args : AddArgs)
    (disk : Disk F) :
    AllOrNothing sh args disk ↔
      ((addChecks sh disk args).isOk = true → sh.openFault = none →
        ∀ n e, sh.appendFault = some (n, e) → n = 0) := by
  cases h : addChecks sh disk args with
  | error e =>
      refine iff_of_true ?_ fun hok => by cases hok
      rw [AllOrNothing, on_peerAdd_of_refused h]
      refine ⟨fun e' disk' hon => ?_, fun disk' hon => by cases hon⟩
      cases hon
      rfl
  | ok plan =>
      cases hopen : sh.openFault with
      | some e =>
          refine iff_of_true ?_ fun _ hnone => by cases hnone
          rw [AllOrNothing, on_peerAdd_of_open h hopen]
          refine ⟨fun e' disk' hon => ?_, fun disk' hon => by cases hon⟩
          cases hon
          rfl
      | none =>
          cases hfault : sh.appendFault with
          | none =>
              exact iff_of_true (allOrNothing_of_appended hp h hopen hfault)
                fun _ _ n e hsome => by cases hsome
          | some x =>
              obtain ⟨n, e⟩ := x
              have hfile := appended_take_eq_iff (n := n) h
              rw [AllOrNothing, on_peerAdd_of_append h hopen hfault]
              constructor
              · intro hall _ _ n' e' hsome
                cases hsome
                exact hfile.1 (hall.1 _ _ rfl)
              · intro hzero
                refine ⟨fun e' disk' hon => ?_, fun disk' hon => by cases hon⟩
                cases hon
                exact hfile.2 (hzero rfl rfl n e rfl)

/-! ### A small configuration -/

/-- A configuration with a network, a key file and no peer. -/
def bareText : List Char := List.flatMap String.toList
  ["[network]\nname = \"a\"\n", "key = \"AAAAAAAAAAAAAAAAAAAA", "AAAAAAAAAAAAAAAAAAAAAAA=\"\n",
    "[node]\nkey_file = \"k\"\n"]

/-- The configuration in `c`, the key in `k`. -/
def bareDisk : Disk PathBuf := fun p =>
  if p = [.char 'c'] then some (Json.utf8 bareText)
  else if p = [.char 'k'] then some [] else none

/-- A shell in which every key file holds one key and nothing goes wrong. -/
def bareShell : Shell Crypto.plain PathBuf Unit Unit where
  file := id
  readIdentity _ := .ok (plainKey 2 0)
  parse := Toml.readLines
  expand := plainExpand
  absent := ()
  notUtf8 := ()
  openFault := none
  appendFault := none

/-- A peer `b` of another subnet. -/
def bareArgs : AddArgs where
  config := [.char 'c']
  name := "b"
  publicKey := "AAEAAAAAAAAAAAAAAAAAAAAAAAAAAAAAAAAAAAAAAAA="
  endpoint := []
  route := []

theorem isOk_addChecks_bare : (addChecks bareShell bareDisk bareArgs).isOk = true := by
  have htext : bareDisk (bareShell.file bareArgs.config) = some (Json.utf8 bareText) := rfl
  have hload := fun own => Shell.loadConfig_of_text htext own
  rw [addChecks, Shell.loadConfigAndIdentity, hload, Shell.readToString_eq_ok.2 htext]
  simp only [hload]
  decide +kernel

theorem peerAdd_all_or_nothing_iff_bare :
    (addChecks bareShell bareDisk bareArgs).isOk = true ∧
      AllOrNothing bareShell bareArgs bareDisk :=
  ⟨isOk_addChecks_bare,
    (peerAdd_all_or_nothing_iff Toml.appends_readLines bareArgs bareDisk).2
      fun _ _ _ _ hfault => by cases hfault⟩

omit [DecidableEq F] in
/-- The checks do not depend on what goes wrong later. -/
theorem addChecks_withFault (fault : Option (ℕ × ι)) :
    addChecks { sh with appendFault := fault } disk args = addChecks sh disk args := rfl

/-- An append that fails after its first byte leaves that byte. -/
theorem torn_append_stays :
    ¬AllOrNothing { bareShell with appendFault := some (1, ()) } bareArgs bareDisk := by
  intro hall
  obtain ⟨plan, h⟩ := Fallible.exists_of_isOk isOk_addChecks_bare
  rw [← addChecks_withFault (some (1, ()))] at h
  have hfile := hall.1 _ _ (on_peerAdd_of_append h rfl rfl)
  exact absurd ((appended_take_eq_iff h).1 hfile) (by decide)

end Hextet
