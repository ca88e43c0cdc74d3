/-
# State files

`crates/engine/src/atomic.rs`, which `crates/discovery/src/nodes.rs` repeats: `write_json`
replaces a file by way of a temporary one beside it.  With it the daemon keeps the endpoint
cache, the members and the DHT nodes (`load` and `save` of `cache.rs`, `members.rs` and
`nodes.rs`); what cannot be read, or has another version, counts as empty.

A call that is not disturbed leaves its text, and every other file as it was
(`write_json_stores`).  Whatever calls are made, cut off or crossed, but for two at one file,
a file is read back as one of the values that were saved there, or as it was at first: the
last one whose call came to its end, after a power loss an earlier one, and never a part of one
(`load_saved`).

The text that `serde_json` writes, and what it reads, are parameters: `SavedFile.ReadsBack`
says of a value that the reader gives it back.
-/

import Hextet.Engine.Candidates
import Hextet.Engine.Members
import Hextet.Lib.Json
import Hextet.Lib.Replaced

namespace Hextet

open Lib

/-- A path that ends with a file name. -/
structure FilePath where
  parent : String
  fileName : String
  deriving DecidableEq

/-- `dir.join(format!(".{stem}.tmp"))`. -/
def tmpPath (p : FilePath) : FilePath := ⟨p.parent, "." ++ p.fileName ++ ".tmp"⟩

/-- The name does not start with a dot. -/
def Visible (p : FilePath) : Prop := p.fileName.toList.head? ≠ some '.'

instance : DecidablePred Visible := fun _ => inferInstanceAs (Decidable (_ ≠ _))

/-- The temporary files are hidden, and each visible file has its own. -/
theorem tempNames_tmpPath : TempNames tmpPath Visible where
  apart t t' _ ht' := by
    rintro rfl
    refine ht' ?_
    simp [tmpPath]
  single t t' _ _ heq := by
    obtain ⟨parent, name⟩ := t
    obtain ⟨parent', name'⟩ := t'
    simp only [tmpPath, FilePath.mk.injEq] at heq
    have hname := congrArg String.toList heq.2
    simp only [String.toList_append] at hname
    have hname : name.toList = name'.toList :=
      List.append_cancel_left (List.append_cancel_right hname)
    rw [heq.1, String.toList_injective hname]

/-! ### One call -/

/-- `write_json` up to the rename: the text is written in chunks of some lengths, then what is
left of it and the newline. -/
def writeTmp (id : ℕ) (path : FilePath) (json : List UInt8) (chunks : List ℕ) :
    List (VolumeInput FilePath) :=
  [.create id path (json ++ [0x0a])] ++ chunks.map (.write id) ++
    [.write id (json.length + 1), .flush id]

/-- `write_json`. -/
def writeJson (id : ℕ) (path : FilePath) (json : List UInt8) (chunks : List ℕ) :
    List (VolumeInput FilePath) :=
  writeTmp id path json chunks ++ [.rename id]

section Calls

variable {v : Volume FilePath} {id : ℕ} {path : FilePath} {json whole : List UInt8}

/-- The call with a number is at its file, and is to write some bytes there. -/
def Saving (v : Volume FilePath) (id : ℕ) (path : FilePath) (whole : List UInt8)
    (x : Writer FilePath) : Prop :=
  v.writers.get? id = some x ∧ x.target = path ∧ x.whole = whole

theorem saving_create (v : Volume FilePath) (id : ℕ) (path : FilePath) (whole : List UInt8) :
    ∃ x, Saving (v.step tmpPath (.create id path whole)) id path whole x := by
  have hbegun : ∀ (v : Volume FilePath) n, Saving (v.begun id path whole n) id path whole
      ⟨path, n, whole, whole, false⟩ :=
    fun _ _ => ⟨(KeyMap.get?_insert ..).trans (if_pos rfl), rfl, rfl⟩
  simp only [Volume.step]
  split
  · exact ⟨_, hbegun _ _⟩
  · exact ⟨_, hbegun _ _⟩

theorem Saving.write {x : Writer FilePath} (h : Saving v id path whole x) (len : ℕ) :
    Saving (v.step tmpPath (.write id len)) id path whole
      { x with rest := x.rest.drop len, flushed := false } := by
  obtain ⟨hx, htarget, hwhole⟩ := h
  simp only [Volume.step, hx]
  exact ⟨(KeyMap.get?_insert ..).trans (if_pos rfl), htarget, hwhole⟩

theorem Saving.writes {x : Writer FilePath} (h : Saving v id path whole x) (chunks : List ℕ) :
    ∃ x, Saving (run (Volume.step tmpPath) v (chunks.map (.write id))) id path whole x := by
  induction chunks generalizing v x with
  | nil => exact ⟨x, h⟩
  | cons len chunks ih => exact ih (h.write len)

theorem Saving.flush {x : Writer FilePath} (h : Saving v id path whole x) (hrest : x.rest = []) :
    Saving (v.step tmpPath (.flush id)) id path whole { x with flushed := true } := by
  obtain ⟨hx, htarget, hwhole⟩ := h
  simp only [Volume.step, hx, if_pos hrest]
  exact ⟨(KeyMap.get?_insert ..).trans (if_pos rfl), htarget, hwhole⟩

/-- A call that has flushed puts all that it was to write. -/
theorem Saving.putOf {x : Writer FilePath} (h : Saving v id path whole x)
    (hsound : v.Sound tmpPath Visible) (hdone : x.flushed = true) :
    v.putOf tmpPath (.rename id) = some (path, whole) := by
  obtain ⟨hx, rfl, rfl⟩ := h
  have hat := hsound.writer id x hx
  obtain ⟨hrest, -⟩ := hat.flushed hdone
  have hwritten := hat.written
  rw [hrest, List.append_nil] at hwritten
  simp [Volume.putOf, hx, hdone, Volume.store, hat.named, hwritten]

theorem plain_writeTmp (id : ℕ) (path : FilePath) (json : List UInt8) (chunks : List ℕ) :
    ∀ i ∈ writeTmp id path json chunks, Traced.Plain i := by
  intro i hi
  simp only [writeTmp, List.mem_append, List.mem_map, List.mem_cons, List.not_mem_nil,
    or_false] at hi
  rcases hi with (rfl | ⟨len, -, rfl⟩) | rfl | rfl <;> trivial

/-- A call may begin at a file in use that no other call is at. -/
theorem along_writeTmp (hpath : Visible path) (hfree : v.writers.get? id = none)
    (halone : ∀ x ∈ v.writers.entries, x.2.target ≠ path) (chunks : List ℕ) :
    Along (Volume.step tmpPath) (Volume.OneWriter Visible) v (writeTmp id path json chunks) := by
  have hwrites : ∀ v : Volume FilePath,
      Along (Volume.step tmpPath) (Volume.OneWriter Visible) v (chunks.map (.write id)) := by
    induction chunks with
    | nil => exact fun _ => trivial
    | cons len chunks ih => exact fun v => ⟨trivial, ih _⟩
  exact ⟨⟨hpath, hfree, halone⟩, Along.append.2 ⟨hwrites _, trivial, trivial, trivial⟩⟩

/-- **Before the rename** all is written and flushed. -/
theorem saving_writeTmp (hsound : v.Sound tmpPath Visible) (hpath : Visible path)
    (hfree : v.writers.get? id = none) (halone : ∀ x ∈ v.writers.entries, x.2.target ≠ path)
    (json : List UInt8) (chunks : List ℕ) :
    let v' := run (Volume.step tmpPath) v (writeTmp id path json chunks)
    v'.Sound tmpPath Visible ∧
      ∃ x, Saving v' id path (json ++ [0x0a]) x ∧ x.flushed = true := by
  have hone : Along (Volume.step tmpPath) (Volume.OneWriter Visible) v
      (writeTmp id path json chunks) := along_writeTmp hpath hfree halone chunks
  have hkeep : ∀ {v : Volume FilePath} {is : List (VolumeInput FilePath)},
      v.Sound tmpPath Visible → Along (Volume.step tmpPath) (Volume.OneWriter Visible) v is →
        (run (Volume.step tmpPath) v is).Sound tmpPath Visible :=
    fun h hone => hone.invariant (fun _ _ hs hi => hs.step tempNames_tmpPath hi) h
  refine ⟨hkeep hsound hone, ?_⟩
  obtain ⟨x₁, hcreated⟩ := saving_create v id path (json ++ [0x0a])
  obtain ⟨x₂, hwritten⟩ := hcreated.writes chunks
  -- what is left fits the last write
  have hmiddle := hkeep hsound (Along.append.1 hone).1
  have hx₂ := hwritten.1
  have hwhole := hwritten.2.2
  have hrest : x₂.rest.drop (json.length + 1) = [] := by
    have hlength := congrArg List.length (hmiddle.writer id x₂ hx₂).written
    rw [hwhole, List.length_append, List.length_append, List.length_singleton] at hlength
    exact List.drop_eq_nil_of_le (by omega)
  have hflushed := (hwritten.write (json.length + 1)).flush hrest
  rw [writeTmp, run_append]
  exact ⟨_, hflushed, rfl⟩

end Calls

/-- **A call that nothing disturbs puts its text and a newline in place of the file**, and
nothing else. -/
theorem write_json_stores {w : Traced FilePath} {id : ℕ} {path : FilePath}
    (hsound : w.volume.Sound tmpPath Visible) (hpath : Visible path)
    (hfree : w.volume.writers.get? id = none)
    (halone : ∀ x ∈ w.volume.writers.entries, x.2.target ≠ path) (json : List UInt8)
    (chunks : List ℕ) :
    (run (Traced.step tmpPath) w (writeJson id path json chunks)).origin = w.origin ∧
      (run (Traced.step tmpPath) w (writeJson id path json chunks)).puts =
        w.puts ++ [(path, json ++ [0x0a])] := by
  have hplain := plain_writeTmp id path json chunks
  obtain ⟨horigin, hputs⟩ : (run (Traced.step tmpPath) w _).origin = _ ∧
    (run (Traced.step tmpPath) w _).puts = _ := Traced.puts_of_plain hplain
  obtain ⟨hsound, x, hx, hdone⟩ := saving_writeTmp hsound hpath hfree halone json chunks
  rw [← Traced.volume_run] at hsound hx
  rw [writeJson, run_append]
  refine ⟨horigin, ?_⟩
  change (run (Traced.step tmpPath) w (writeTmp id path json chunks)).puts ++
    (Volume.putOf tmpPath _ (.rename id)).toList = _
  rw [hputs, hx.putOf hsound hdone]
  rfl

/-! ### Values that are saved -/

/-- What `serde_json` writes for a value, and what it reads. -/
structure JsonFile (α : Type*) where
  toJson : α → List UInt8
  fromJson : List UInt8 → Option α

namespace JsonFile

variable {α : Type*} (f : JsonFile α)

/-- The bytes of a file after `write_json`. -/
def text (value : α) : List UInt8 := f.toJson value ++ [0x0a]

/-- `read_json`, of what `read_to_string` gives. -/
def read (content : Option (List UInt8)) : Option α := content.bind f.fromJson

/-- The reader gives back what the writer wrote. -/
def ReadsBack (value : α) : Prop := f.fromJson (f.text value) = some value

/-- What was read was in the file at first, or some call began to save it. -/
def Known (path : FilePath) (first : Option α) (inputs : List (VolumeInput FilePath))
    (found : Option α) : Prop :=
  found = first ∨ ∃ id value, f.ReadsBack value ∧ .create id path (f.text value) ∈ inputs ∧
    found = some value

variable {f}

theorem read_text {value : α} (h : f.ReadsBack value) : f.read (some (f.text value)) = some value :=
  h

/-- **A file is read back as a value that was saved.**  If no two calls are at one file, then
whatever their order, wherever they fail or are cut off and whenever the power is lost, the file
has the value of the last call that came to its end; before the first such call, or after a
power loss, one that was saved earlier or was there at first.  A reader at any place among
the calls never gets a part of one, and a power loss takes back the latest saves only. -/
theorem read_saved {path : FilePath} (hpath : Visible path) {v : Volume FilePath}
    (hrest : v.AtRest tmpPath Visible) {inputs : List (VolumeInput FilePath)}
    (hone : Along (Traced.step tmpPath) (fun w i => w.volume.OneWriter Visible i)
      (Traced.start v) inputs)
    (hsaves : ∀ id whole, .create id path whole ∈ inputs →
      ∃ value, f.ReadsBack value ∧ whole = f.text value) :
    let w := run (Traced.step tmpPath) (Traced.start v) inputs
    let known := f.Known path (f.read (v.store path)) inputs
    known (f.read (w.volume.store path)) ∧
    (∀ id r, w.volume.readers.get? id = some r → r.file = path → r.atEnd = true →
      known (f.read (some r.got))) ∧
    (∀ earlier value later, f.ReadsBack value →
      w.puts = earlier ++ (path, f.text value) :: later → (∀ p ∈ later, p.1 ≠ path) →
        f.read (w.volume.store path) = some value) ∧
    ∀ back junk, ∃ puts, puts <+: w.puts ∧
      f.read ((w.volume.step tmpPath (.powerLoss back junk)).store path) =
        f.read (putAll w.origin puts path) := by
  intro w known
  let A : FilePath → Option (List UInt8) → Prop := fun t content => t = path →
    content = v.store path ∨ ∃ id value, f.ReadsBack value ∧
      .create id path (f.text value) ∈ inputs ∧ content = some (f.text value)
  have hknown : ∀ content, A path content → known (f.read content) := by
    intro content h
    rcases h rfl with rfl | ⟨id, value, hreads, hmem, rfl⟩
    · exact Or.inl rfl
    · exact Or.inr ⟨id, value, hreads, hmem, read_text hreads⟩
  have hcreated : ∀ id t whole, .create id t whole ∈ inputs → A t (some whole) := by
    rintro id t whole hmem rfl
    obtain ⟨value, hreads, rfl⟩ := hsaves id whole hmem
    exact Or.inr ⟨id, value, hreads, hmem, rfl⟩
  have hfirst : ∀ t, Visible t → A t (v.store t) := fun t _ ht => Or.inl (ht ▸ rfl)
  obtain ⟨hstore, hreaders⟩ :=
    Traced.replaced_from tempNames_tmpPath hrest hone hfirst hcreated
  obtain ⟨hheld, -, hloss⟩ := Traced.replaced_whole tempNames_tmpPath hrest hone
  refine ⟨hknown _ (hstore path hpath), fun id r hr hfile hend => ?_,
    fun earlier value later hreads hputs hlater => ?_, fun back junk => ?_⟩
  · exact hknown _ (hfile ▸ hreaders id r hr hend)
  · rw [hheld path hpath, hputs, Traced.putAll_last hlater]
    exact read_text hreads
  · obtain ⟨puts, hputs, hafter⟩ := hloss back junk
    exact ⟨puts, hputs, congrArg f.read (hafter path hpath)⟩

/-- `load`: what is missing, cannot be read or has another version counts as new. -/
def load (f : JsonFile (ℕ × α)) (version : ℕ) (new : α) (content : Option (List UInt8)) : α :=
  match f.read content with
  | some (found, value) => if found = version then value else new
  | none => new

/-- **A daemon starts from what a daemon saved**, or from what was there before. -/
theorem load_saved {f : JsonFile (ℕ × α)} {version : ℕ} {new : α} {path : FilePath}
    (hpath : Visible path) {v : Volume FilePath} (hrest : v.AtRest tmpPath Visible)
    {inputs : List (VolumeInput FilePath)}
    (hone : Along (Traced.step tmpPath) (fun w i => w.volume.OneWriter Visible i)
      (Traced.start v) inputs)
    (hsaves : ∀ id whole, .create id path whole ∈ inputs →
      ∃ value, f.ReadsBack (version, value) ∧ whole = f.text (version, value)) :
    let loaded := f.load version new
      ((run (Traced.step tmpPath) (Traced.start v) inputs).volume.store path)
    loaded = f.load version new (v.store path) ∨
      ∃ id, .create id path (f.text (version, loaded)) ∈ inputs := by
  intro loaded
  have hreads : ∀ id whole, .create id path whole ∈ inputs →
      ∃ value, f.ReadsBack value ∧ whole = f.text value := by
    intro id whole hmem
    obtain ⟨value, hvalue⟩ := hsaves id whole hmem
    exact ⟨(version, value), hvalue⟩
  obtain hfirst | ⟨id, found, hfound, hmem, hread⟩ :=
    (read_saved hpath hrest hone hreads).1
  · exact Or.inl (by simp only [loaded, load, hfirst])
  · obtain ⟨value, hvalue, htext⟩ := hsaves id _ hmem
    obtain rfl : found = (version, value) :=
      Option.some.inj (hfound.symm.trans ((congrArg f.fromJson htext).trans hvalue))
    have hloaded : loaded = value := by
      simp only [loaded, load, hread, if_pos]
    exact Or.inr ⟨id, hloaded ▸ hmem⟩

end JsonFile

/-! ### The files of the daemon -/

/-- `EndpointCache::load`. -/
def EndpointCache.load (f : JsonFile (ℕ × EndpointCache)) (content : Option (List UInt8)) :
    EndpointCache :=
  f.load 1 .new content

/-- `MembersFile::load`. -/
def MembersFile.load (f : JsonFile (ℕ × MembersFile)) (content : Option (List UInt8)) :
    MembersFile :=
  f.load 1 .new content

/-- `DhtNodesFile`, of the version the source reads. -/
structure DhtNodesFile where
  nodes : List String
  deriving DecidableEq

/-- `MAX_NODES`. -/
def maxNodes : ℕ := 128

namespace DhtNodesFile

/-- `DhtNodesFile::new`. -/
def new : DhtNodesFile := ⟨[]⟩

/-- `DhtNodesFile::load`. -/
def load (f : JsonFile (ℕ × DhtNodesFile)) (content : Option (List UInt8)) : DhtNodesFile :=
  f.load 1 .new content

/-- `DhtNodesFile::refresh`. -/
def refresh (file : DhtNodesFile) (bootstrap : List String) : DhtNodesFile :=
  let merged := file.nodes.foldl (fun merged n => if n ∈ merged then merged else merged ++ [n])
    bootstrap
  ⟨merged.take maxNodes⟩

/-- No node is there twice after `refresh`, and the new ones come first. -/
theorem nodup_refresh {file : DhtNodesFile} {bootstrap : List String} (h : bootstrap.Nodup) :
    (file.refresh bootstrap).nodes.Nodup ∧
      bootstrap.take maxNodes <+: (file.refresh bootstrap).nodes := by
  have hmerged : ∀ nodes merged : List String, merged.Nodup → bootstrap <+: merged →
      (nodes.foldl (fun merged n => if n ∈ merged then merged else merged ++ [n]) merged).Nodup ∧
        bootstrap <+:
          nodes.foldl (fun merged n => if n ∈ merged then merged else merged ++ [n]) merged := by
    intro nodes
    induction nodes with
    | nil => exact fun merged hnodup hbegin => ⟨hnodup, hbegin⟩
    | cons n nodes ih =>
        intro merged hnodup hbegin
        rw [List.foldl_cons]
        split_ifs with hn
        · exact ih merged hnodup hbegin
        · have hmore := hnodup.concat hn
          rw [List.concat_eq_append] at hmore
          exact ih _ hmore (hbegin.trans (List.prefix_append ..))
  obtain ⟨hnodup, hbegin⟩ := hmerged file.nodes bootstrap h List.prefix_rfl
  exact ⟨hnodup.sublist (List.take_sublist ..), hbegin.take _⟩

end DhtNodesFile

/-- The pretty text of a node table. -/
def nodesText (file : ℕ × DhtNodesFile) : List Char :=
  "\x7b\n  \"version\": ".toList ++ Nat.toDigits 10 file.1 ++ ",\n  \"nodes\": [".toList ++
    (if file.2.nodes = [] then [] else
      ",".toList.intercalate (file.2.nodes.map fun n => "\n    ".toList ++ Json.quote n.toList) ++
        "\n  ".toList) ++
    "]\n\x7d".toList

/-- A reader that knows the texts of two node tables. -/
def nodesJson : JsonFile (ℕ × DhtNodesFile) where
  toJson file := Json.utf8 (nodesText file)
  fromJson b := [(1, DhtNodesFile.new), (1, DhtNodesFile.new.refresh ["1.2.3.4:6881"])].find?
    fun file => Json.utf8 (nodesText file) ++ [0x0a] = b

/-- `/s/dht-nodes.json`. -/
def nodesPath : FilePath := ⟨"/s", "dht-nodes.json"⟩

/-- A directory without files. -/
def emptyVolume : Volume FilePath := .idle (fun _ => none) (fun _ => []) 0

theorem atRest_emptyVolume : emptyVolume.AtRest tmpPath Visible :=
  Volume.atRest_idle tempNames_tmpPath (fun _ _ h => by cases h) (fun _ _ _ h => by cases h) _

/-- A table that was learned. -/
def learned : ℕ × DhtNodesFile := (1, DhtNodesFile.new.refresh ["1.2.3.4:6881"])

/-- The empty table is saved; the power is lost while a longer one is being saved and a reader
has read a part, and once more a call is cut off. -/
def nodesRun : List (VolumeInput FilePath) :=
  writeJson 1 nodesPath (nodesJson.toJson (1, .new)) [3] ++
    [.create 2 nodesPath (nodesJson.text learned), .write 2 5, .openFile 7 nodesPath, .read 7 10,
      .powerLoss 1 fun _ => [0x7b], .create 2 nodesPath (nodesJson.text learned), .write 2 9,
      .openFile 7 nodesPath, .read 7 99, .stop 2, .read 7 99]

/-- The reader gets the empty table, whole. -/
theorem JsonFile.read_saved_nodes :
    let w := run (Traced.step tmpPath) (.start emptyVolume) nodesRun
    w.volume.readers.get? 7 = some ⟨nodesPath, 0, nodesJson.text (1, .new),
      nodesJson.text (1, .new), true⟩ ∧
    nodesJson.Known nodesPath none nodesRun (nodesJson.read (some (nodesJson.text (1, .new)))) := by
  intro w
  have hreads : ∀ file ∈ [(1, DhtNodesFile.new), learned], nodesJson.ReadsBack file := by
    unfold JsonFile.ReadsBack
    decide +kernel
  have hreader : w.volume.readers.get? 7 = some ⟨nodesPath, 0, nodesJson.text (1, .new),
      nodesJson.text (1, .new), true⟩ := by decide +kernel
  have hpath : Visible nodesPath := by decide
  have hone : Along (Traced.step tmpPath) (fun w i => w.volume.OneWriter Visible i)
      (.start emptyVolume) nodesRun := by decide +kernel
  have hsaves : ∀ id whole, .create id nodesPath whole ∈ nodesRun →
      ∃ file, nodesJson.ReadsBack file ∧ whole = nodesJson.text file := by
    intro id whole hmem
    simp [nodesRun, writeJson, writeTmp] at hmem
    rcases hmem with ⟨-, rfl⟩ | ⟨-, rfl⟩
    · exact ⟨_, hreads _ (by simp), rfl⟩
    · exact ⟨_, hreads _ (by simp), rfl⟩
  obtain ⟨-, hknown, -⟩ := JsonFile.read_saved hpath atRest_emptyVolume hone hsaves
  exact ⟨hreader, hknown 7 _ hreader rfl rfl⟩

end Hextet
