/-
# Files that are replaced whole

A volume has names and inodes: a name leads to an inode, an inode has bytes.  A file is
replaced by writing another inode under a temporary name, flushing it and renaming it.
Writers and readers take their system calls in any order, any call may fail, and a writer
may stop after any call; a power loss may undo the latest changes of names, and leaves
anything in an inode that was not flushed.

If no two writers are at one file (`OneWriter`), every writer is at an inode of its own, and an
inode that has been a file in use is never written again (`Volume.Sound`).

A file `t` is written under the temporary name `tmp t`; the files in use are those of a set
`T`, in which no temporary name lies and no two files have one temporary name.
-/

import Hextet.Lib.KeyMap
import Hextet.Lib.Run

namespace Hextet
namespace Lib

/-- Where the names of a directory lead. -/
abbrev Names (F : Type*) := F → Option ℕ

/-- A call that replaces a file: the inode it writes, all that it is to write, what is left
of that, and whether it has flushed. -/
structure Writer (F : Type*) where
  target : F
  inode : ℕ
  whole : List UInt8
  rest : List UInt8
  flushed : Bool

/-- A call that reads a file: the file, the inode it opened, what that held, what it has read
and whether it has come to the end. -/
structure Reader (F : Type*) where
  file : F
  inode : ℕ
  whole : List UInt8
  got : List UInt8
  atEnd : Bool
  deriving DecidableEq

/-- A volume, the names that a power loss may bring back (the present ones are the first),
and the calls that are under way. -/
structure Volume (F : Type*) where
  names : Names F
  past : List (Names F)
  bytes : ℕ → List UInt8
  flushed : ℕ → Bool
  fresh : ℕ
  writers : KeyMap ℕ (Writer F)
  readers : KeyMap ℕ (Reader F)

/-- A system call of the writer or the reader with a number, or a power loss. -/
inductive VolumeInput (F : Type*) where
  /-- A writer opens its temporary file, created or emptied. -/
  | create (id : ℕ) (target : F) (whole : List UInt8)
  /-- It writes some bytes. -/
  | write (id len : ℕ)
  /-- It has written all and flushes. -/
  | flush (id : ℕ)
  /-- It has flushed and renames. -/
  | rename (id : ℕ)
  /-- It stops. -/
  | stop (id : ℕ)
  /-- A reader opens a file. -/
  | openFile (id : ℕ) (target : F)
  /-- It reads some bytes, or sees the end. -/
  | read (id len : ℕ)
  /-- The names of some time come back, and inodes that were not flushed hold anything. -/
  | powerLoss (back : ℕ) (junk : ℕ → List UInt8)

/-- Bytes are written at an offset. -/
def writeAt (old : List UInt8) (offset : ℕ) (chunk : List UInt8) : List UInt8 :=
  old.take offset ++ List.replicate (offset - old.length) 0 ++ chunk ++
    old.drop (offset + chunk.length)

theorem writeAt_length (old chunk : List UInt8) : writeAt old old.length chunk = old ++ chunk := by
  simp [writeAt]

namespace Volume

variable {F : Type*} [DecidableEq F]

/-- What the files hold. -/
def store (v : Volume F) (f : F) : Option (List UInt8) := (v.names f).map v.bytes

/-- A name leads to an inode of its own. -/
def extended (v : Volume F) (f : F) : Volume F :=
  let names := Function.update v.names f (some v.fresh)
  { v with names, past := names :: v.past, fresh := v.fresh + 1 }

/-- An inode is emptied, for a writer that is to write some bytes. -/
def begun (v : Volume F) (id : ℕ) (target : F) (whole : List UInt8) (n : ℕ) : Volume F :=
  { v with
    bytes := Function.update v.bytes n []
    flushed := Function.update v.flushed n false
    writers := v.writers.insert id ⟨target, n, whole, whole, false⟩ }

/-- A writer writes the next bytes, at its place. -/
def wrote (v : Volume F) (id : ℕ) (w : Writer F) (len : ℕ) : Volume F :=
  { v with
    bytes := Function.update v.bytes w.inode
      (writeAt (v.bytes w.inode) (w.whole.length - w.rest.length) (w.rest.take len))
    flushed := Function.update v.flushed w.inode false
    writers := v.writers.insert id { w with rest := w.rest.drop len, flushed := false } }

/-- A writer flushes its inode. -/
def settled (v : Volume F) (id : ℕ) (w : Writer F) : Volume F :=
  { v with
    flushed := Function.update v.flushed w.inode true
    writers := v.writers.insert id { w with flushed := true } }

/-- A writer is no more. -/
def stopped (v : Volume F) (id : ℕ) : Volume F := { v with writers := v.writers.erase id }

/-- `rename`, if the first name leads somewhere. -/
def renamed (v : Volume F) (src dst : F) : Volume F :=
  match v.names src with
  | none => v
  | some n =>
      let names := Function.update (Function.update v.names dst (some n)) src none
      { v with names, past := names :: v.past }

/-- A reader goes on. -/
def reads (v : Volume F) (id : ℕ) (r : Reader F) : Volume F :=
  { v with readers := v.readers.insert id r }

/-- One system call, or a power loss. -/
def step (tmp : F → F) (v : Volume F) : VolumeInput F → Volume F
  | .create id target whole =>
      match v.names (tmp target) with
      | some n => v.begun id target whole n
      | none => (v.extended (tmp target)).begun id target whole v.fresh
  | .write id len =>
      match v.writers.get? id with
      | none => v
      | some w => v.wrote id w len
  | .flush id =>
      match v.writers.get? id with
      | none => v
      | some w => if w.rest = [] then v.settled id w else v
  | .rename id =>
      match v.writers.get? id with
      | none => v
      | some w => if w.flushed then (v.renamed (tmp w.target) w.target).stopped id else v
  | .stop id => v.stopped id
  | .openFile id target =>
      match v.names target with
      | none => v
      | some n => v.reads id ⟨target, n, v.bytes n, [], false⟩
  | .read id len =>
      match v.readers.get? id with
      | none => v
      | some r =>
          let chunk := ((v.bytes r.inode).drop r.got.length).take (len + 1)
          if chunk = [] then v.reads id { r with atEnd := true }
          else v.reads id { r with got := r.got ++ chunk }
  | .powerLoss back junk =>
      let names := v.past.getD back v.names
      { v with
        names
        past := [names]
        bytes := fun n => if v.flushed n then v.bytes n else junk n
        flushed := fun _ => true
        writers := .empty
        readers := .empty }

/-- A rename puts the bytes under the temporary name in place of a file. -/
def putOf (tmp : F → F) (v : Volume F) : VolumeInput F → Option (F × List UInt8)
  | .rename id =>
      (v.writers.get? id).bind fun w =>
        if w.flushed then (v.store (tmp w.target)).map fun whole => (w.target, whole) else none
  | _ => none

/-- A writer begins at a file in use that no other writer is at, under a number that is free. -/
def OneWriter (T : F → Prop) (v : Volume F) : VolumeInput F → Prop
  | .create id target _ => T target ∧ v.writers.get? id = none ∧
      ∀ w ∈ v.writers.entries, w.2.target ≠ target
  | .openFile _ target => T target
  | _ => True

instance {T : F → Prop} [DecidablePred T] (v : Volume F) :
    (input : VolumeInput F) → Decidable (OneWriter T v input)
  | .create .. => inferInstanceAs (Decidable (_ ∧ _ ∧ _))
  | .openFile .. => inferInstanceAs (Decidable (T _))
  | .write .. => .isTrue trivial
  | .flush _ => .isTrue trivial
  | .rename _ => .isTrue trivial
  | .stop _ => .isTrue trivial
  | .read .. => .isTrue trivial
  | .powerLoss .. => .isTrue trivial

end Volume

/-- The temporary names of the files in use are other names, one for each. -/
structure TempNames {F : Type*} (tmp : F → F) (T : F → Prop) : Prop where
  apart : ∀ t t', T t → T t' → tmp t ≠ t'
  single : ∀ t t', T t → T t' → tmp t = tmp t' → t = t'

/-! ### What holds in every state -/

namespace Volume

variable {F : Type*} {tmp : F → F} {T : F → Prop} {v : Volume F}

/-- The inode has no temporary name, so that no writer comes to it. -/
def Still (tmp : F → F) (T : F → Prop) (v : Volume F) (n : ℕ) : Prop :=
  n < v.fresh ∧ ∀ t, T t → v.names (tmp t) ≠ some n

/-- A writer is at an inode of its own, has written what it is not yet to write, and has
flushed that if it says so. -/
structure WriterAt (tmp : F → F) (T : F → Prop) (v : Volume F) (w : Writer F) : Prop where
  used : T w.target
  named : v.names (tmp w.target) = some w.inode
  written : v.bytes w.inode ++ w.rest = w.whole
  flushed : w.flushed = true → w.rest = [] ∧ v.flushed w.inode = true

/-- A reader is at an inode that is not written any more, and has read the first part of it. -/
structure ReaderAt (tmp : F → F) (T : F → Prop) (v : Volume F) (r : Reader F) : Prop where
  used : T r.file
  still : v.Still tmp T r.inode
  bytes : v.bytes r.inode = r.whole
  got : r.got <+: r.whole
  atEnd : r.atEnd = true → r.got = r.whole

/-- No inode has two names, and what a file in use has led to is flushed and still. -/
structure Sound (tmp : F → F) (T : F → Prop) (v : Volume F) : Prop where
  current : v.names ∈ v.past
  bounded : ∀ d ∈ v.past, ∀ f n, d f = some n → n < v.fresh
  single : ∀ d ∈ v.past, ∀ f f' n, d f = some n → d f' = some n → f = f'
  durable : ∀ d ∈ v.past, ∀ t, T t → ∀ n, d t = some n → v.flushed n = true ∧ v.Still tmp T n
  writer : ∀ id w, v.writers.get? id = some w → v.WriterAt tmp T w
  alone : ∀ id id' w w', v.writers.get? id = some w → v.writers.get? id' = some w' →
    w.target = w'.target → id = id'
  reader : ∀ id r, v.readers.get? id = some r → v.ReaderAt tmp T r

/-- Two writers are at two inodes. -/
theorem Sound.id_eq (h : v.Sound tmp T) (htmp : TempNames tmp T) {id id' : ℕ} {w w' : Writer F}
    (hw : v.writers.get? id = some w) (hw' : v.writers.get? id' = some w')
    (hinode : w.inode = w'.inode) : id = id' := by
  have hat := h.writer id w hw
  have hat' := h.writer id' w' hw'
  have hnames := h.single v.names h.current _ _ _ hat.named (hinode ▸ hat'.named)
  exact h.alone id id' w w' hw hw' (htmp.single _ _ hat.used hat'.used hnames)

/-- A step that gives inodes their bytes but those a writer is at, and keeps the names. -/
theorem WriterAt.congr {v' : Volume F} {w : Writer F} (h : v.WriterAt tmp T w)
    (hname : v'.names (tmp w.target) = v.names (tmp w.target))
    (hbytes : v'.bytes w.inode = v.bytes w.inode)
    (hflushed : v'.flushed w.inode = v.flushed w.inode) : v'.WriterAt tmp T w where
  used := h.used
  named := hname.trans h.named
  written := hbytes ▸ h.written
  flushed hw := hflushed ▸ h.flushed hw

theorem ReaderAt.congr {v' : Volume F} {r : Reader F} (h : v.ReaderAt tmp T r)
    (hstill : v'.Still tmp T r.inode) (hbytes : v'.bytes r.inode = v.bytes r.inode) :
    v'.ReaderAt tmp T r where
  used := h.used
  still := hstill
  bytes := hbytes.trans h.bytes
  got := h.got
  atEnd := h.atEnd

/-- An inode under a temporary name is not still. -/
theorem Still.ne {n m : ℕ} (h : v.Still tmp T n) {t : F} (ht : T t)
    (hm : v.names (tmp t) = some m) : n ≠ m :=
  fun heq => h.2 t ht (heq ▸ hm)

/-! ### Every step keeps it -/

/-- What a writer has written ends where it goes on. -/
theorem WriterAt.writeAt {w : Writer F} (h : v.WriterAt tmp T w) (chunk : List UInt8) :
    Lib.writeAt (v.bytes w.inode) (w.whole.length - w.rest.length) chunk =
      v.bytes w.inode ++ chunk := by
  have hoffset : w.whole.length - w.rest.length = (v.bytes w.inode).length := by
    rw [← h.written, List.length_append, Nat.add_sub_cancel]
  rw [hoffset, writeAt_length]

/-- **A writer begins**, at an inode of its own. -/
theorem Sound.begun (h : v.Sound tmp T) (htmp : TempNames tmp T) {id : ℕ} {target : F}
    (hused : T target) (hothers : ∀ w ∈ v.writers.entries, w.2.target ≠ target) {n : ℕ}
    (hn : v.names (tmp target) = some n) (whole : List UInt8) :
    (v.begun id target whole n).Sound tmp T := by
  have hwriter : ∀ id' w, v.writers.get? id' = some w → w.target ≠ target ∧ w.inode ≠ n := by
    intro id' w hw
    have hne := hothers (id', w) (KeyMap.mem_entries.2 hw)
    refine ⟨hne, fun heq => hne ?_⟩
    have hat := h.writer id' w hw
    exact htmp.single _ _ hat.used hused
      (h.single v.names h.current _ _ n (heq ▸ hat.named) hn)
  refine ⟨h.current, h.bounded, h.single, fun d hd t ht m hm => ?_, fun id' w hw => ?_,
    fun id₁ id₂ w₁ w₂ h₁ h₂ htarget => ?_, fun id' r hr => ?_⟩
  · obtain ⟨hflushed, hstill⟩ := h.durable d hd t ht m hm
    exact ⟨(Function.update_of_ne (hstill.ne hused hn) ..).trans hflushed, hstill⟩
  · have hw : (v.writers.insert id ⟨target, n, whole, whole, false⟩).get? id' = some w := hw
    rw [KeyMap.get?_insert] at hw
    split_ifs at hw
    · cases hw
      refine ⟨hused, hn, ?_, fun hno => by cases hno⟩
      change Function.update v.bytes n [] n ++ whole = whole
      rw [Function.update_self, List.nil_append]
    · obtain ⟨-, hne⟩ := hwriter id' w hw
      exact (h.writer id' w hw).congr rfl (Function.update_of_ne hne ..)
        (Function.update_of_ne hne ..)
  · have h₁ : (v.writers.insert id ⟨target, n, whole, whole, false⟩).get? id₁ = some w₁ := h₁
    have h₂ : (v.writers.insert id ⟨target, n, whole, whole, false⟩).get? id₂ = some w₂ := h₂
    rw [KeyMap.get?_insert] at h₁ h₂
    split_ifs at h₁ h₂ with heq₁ heq₂ heq₂
    · rw [heq₁, heq₂]
    · cases h₁
      exact absurd htarget.symm (hwriter id₂ w₂ h₂).1
    · cases h₂
      exact absurd htarget (hwriter id₁ w₁ h₁).1
    · exact h.alone id₁ id₂ w₁ w₂ h₁ h₂ htarget
  · have hat := h.reader id' r hr
    exact hat.congr hat.still (Function.update_of_ne (hat.still.ne hused hn) ..)

/-- A writer goes on at its file. -/
theorem Sound.alone_insert (h : v.Sound tmp T) {id : ℕ} {w : Writer F}
    (hw : v.writers.get? id = some w) (w' : Writer F) (htarget : w'.target = w.target)
    (id₁ id₂ : ℕ) (w₁ w₂ : Writer F) (h₁ : (v.writers.insert id w').get? id₁ = some w₁)
    (h₂ : (v.writers.insert id w').get? id₂ = some w₂) (heq : w₁.target = w₂.target) :
    id₁ = id₂ := by
  rw [KeyMap.get?_insert] at h₁ h₂
  split_ifs at h₁ h₂ with heq₁ heq₂ heq₂
  · rw [heq₁, heq₂]
  · cases h₁
    rw [heq₁]
    exact h.alone id id₂ w w₂ hw h₂ (htarget.symm.trans heq)
  · cases h₂
    rw [heq₂]
    exact h.alone id₁ id w₁ w h₁ hw (heq.trans htarget)
  · exact h.alone id₁ id₂ w₁ w₂ h₁ h₂ heq

/-- **A writer writes on.** -/
theorem Sound.wrote (h : v.Sound tmp T) (htmp : TempNames tmp T) {id : ℕ} {w : Writer F}
    (hw : v.writers.get? id = some w) (len : ℕ) : (v.wrote id w len).Sound tmp T := by
  have hat := h.writer id w hw
  refine ⟨h.current, h.bounded, h.single, fun d hd t ht m hm => ?_, fun id' w' hw' => ?_,
    h.alone_insert hw _ rfl, fun id' r hr => ?_⟩
  · obtain ⟨hflushed, hstill⟩ := h.durable d hd t ht m hm
    exact ⟨(Function.update_of_ne (hstill.ne hat.used hat.named) ..).trans hflushed, hstill⟩
  · rw [Volume.wrote, KeyMap.get?_insert] at hw'
    split_ifs at hw' with hid
    · cases hw'
      refine ⟨hat.used, hat.named, ?_, fun hno => by cases hno⟩
      change Function.update v.bytes w.inode _ w.inode ++ w.rest.drop len = w.whole
      rw [Function.update_self, hat.writeAt, List.append_assoc, List.take_append_drop, hat.written]
    · have hne : w'.inode ≠ w.inode := fun heq => hid (h.id_eq htmp hw' hw heq)
      exact (h.writer id' w' hw').congr rfl (Function.update_of_ne hne ..)
        (Function.update_of_ne hne ..)
  · have hat' := h.reader id' r hr
    exact hat'.congr hat'.still (Function.update_of_ne (hat'.still.ne hat.used hat.named) ..)

/-- Flushing one inode leaves the others flushed or not, and flushed what was. -/
theorem flushed_settled {id : ℕ} {w : Writer F} {n : ℕ} (h : v.flushed n = true) :
    (v.settled id w).flushed n = true := by
  change Function.update v.flushed w.inode true n = true
  by_cases hn : n = w.inode
  · rw [hn, Function.update_self]
  · rw [Function.update_of_ne hn, h]

/-- **A writer flushes.** -/
theorem Sound.settled (h : v.Sound tmp T) {id : ℕ} {w : Writer F}
    (hw : v.writers.get? id = some w) (hrest : w.rest = []) : (v.settled id w).Sound tmp T := by
  refine ⟨h.current, h.bounded, h.single, fun d hd t ht m hm => ?_, fun id' w' hw' => ?_,
    h.alone_insert hw _ rfl,
    fun id' r hr => (h.reader id' r hr).congr (h.reader id' r hr).still rfl⟩
  · obtain ⟨hflushed, hstill⟩ := h.durable d hd t ht m hm
    exact ⟨flushed_settled hflushed, hstill⟩
  · rw [Volume.settled, KeyMap.get?_insert] at hw'
    split_ifs at hw' with hid
    · cases hw'
      have hat := h.writer id w hw
      exact ⟨hat.used, hat.named, hat.written, fun _ => ⟨hrest, Function.update_self ..⟩⟩
    · have hat := h.writer id' w' hw'
      refine ⟨hat.used, hat.named, hat.written, fun hdone => ?_⟩
      obtain ⟨hnil, hflushed⟩ := hat.flushed hdone
      exact ⟨hnil, flushed_settled hflushed⟩

/-- **A writer stops.** -/
theorem Sound.stopped (h : v.Sound tmp T) (id : ℕ) : (v.stopped id).Sound tmp T := by
  have hkeep : ∀ {id' w}, (v.stopped id).writers.get? id' = some w →
      v.writers.get? id' = some w := by
    intro id' w hw
    rw [Volume.stopped, KeyMap.get?_erase] at hw
    split_ifs at hw
    exact hw
  refine ⟨h.current, h.bounded, h.single, h.durable, fun id' w hw => ?_, fun id₁ id₂ w₁ w₂ h₁ h₂ =>
    h.alone id₁ id₂ w₁ w₂ (hkeep h₁) (hkeep h₂), fun id' r hr => ?_⟩
  · exact (h.writer id' w (hkeep hw)).congr rfl rfl rfl
  · have hat := h.reader id' r hr
    exact hat.congr hat.still rfl

/-- **A reader goes on**, if it is where a reader is. -/
theorem Sound.reads (h : v.Sound tmp T) {id : ℕ} {r : Reader F} (hr : v.ReaderAt tmp T r) :
    (v.reads id r).Sound tmp T := by
  refine ⟨h.current, h.bounded, h.single, h.durable, fun id' w hw => ?_, h.alone,
    fun id' r' hr' => ?_⟩
  · exact (h.writer id' w hw).congr rfl rfl rfl
  · rw [Volume.reads, KeyMap.get?_insert] at hr'
    split_ifs at hr'
    · cases hr'
      exact hr.congr hr.still rfl
    · have hat := h.reader id' r' hr'
      exact hat.congr hat.still rfl

/-- A reader that opens a file in use. -/
theorem Sound.readerAt_open (h : v.Sound tmp T) {t : F} (ht : T t) {n : ℕ}
    (hn : v.names t = some n) : v.ReaderAt tmp T ⟨t, n, v.bytes n, [], false⟩ :=
  ⟨ht, (h.durable v.names h.current t ht n hn).2, rfl, List.nil_prefix, fun hno => by cases hno⟩

/-- A reader that reads on. -/
theorem ReaderAt.more {r : Reader F} (h : v.ReaderAt tmp T r) (len : ℕ) :
    v.ReaderAt tmp T
      { r with got := r.got ++ ((v.bytes r.inode).drop r.got.length).take (len + 1) } := by
  obtain ⟨rest, hrest⟩ := h.got
  have hdrop : (v.bytes r.inode).drop r.got.length = rest := by
    rw [h.bytes, ← hrest, List.drop_left]
  refine ⟨h.used, h.still, h.bytes, ?_, fun hend => ?_⟩
  · change r.got ++ _ <+: r.whole
    rw [hdrop, ← hrest]
    exact (List.prefix_append_right_inj _).2 (List.take_prefix ..)
  · have hgot : r.got = r.whole := h.atEnd hend
    have hnil : rest = [] := by
      rw [← hgot] at hrest
      exact List.append_right_eq_self.1 hrest
    change r.got ++ _ = r.whole
    rw [hdrop, hnil, List.take_nil, List.append_nil, hgot]

/-- A reader that sees the end has read all. -/
theorem ReaderAt.ends {r : Reader F} (h : v.ReaderAt tmp T r) {len : ℕ}
    (hnil : ((v.bytes r.inode).drop r.got.length).take (len + 1) = []) :
    v.ReaderAt tmp T { r with atEnd := true } := by
  obtain ⟨rest, hrest⟩ := h.got
  have hdrop : (v.bytes r.inode).drop r.got.length = rest := by
    rw [h.bytes, ← hrest, List.drop_left]
  refine ⟨h.used, h.still, h.bytes, h.got, fun _ => ?_⟩
  rw [hdrop] at hnil
  cases rest with
  | nil =>
      rw [List.append_nil] at hrest
      exact hrest
  | cons b rest => cases hnil

/-- A rename puts all that its writer was to write. -/
theorem Sound.whole_of_put (h : v.Sound tmp T) {id : ℕ} {p : F × List UInt8}
    (hput : v.putOf tmp (.rename id) = some p) :
    ∃ w, v.writers.get? id = some w ∧ p = (w.target, w.whole) := by
  obtain ⟨w, hw, hp⟩ := Option.bind_eq_some_iff.1 hput
  split_ifs at hp with hdone
  obtain ⟨whole, hstore, rfl⟩ := Option.map_eq_some_iff.1 hp
  have hat := h.writer id w hw
  obtain ⟨hrest, -⟩ := hat.flushed hdone
  have hwritten := hat.written
  rw [hrest, List.append_nil] at hwritten
  rw [store, hat.named, Option.map_some, hwritten] at hstore
  cases hstore
  exact ⟨w, hw, rfl⟩

theorem getD_mem_past (h : v.names ∈ v.past) (back : ℕ) : v.past.getD back v.names ∈ v.past := by
  rw [List.getD_eq_getElem?_getD]
  cases hd : v.past[back]? with
  | none => exact h
  | some d => exact List.mem_of_getElem? hd

variable [DecidableEq F]

/-- What is still stays so when a temporary name gets a new inode. -/
theorem Still.extended {n : ℕ} (h : v.Still tmp T n) (f : F) : (v.extended f).Still tmp T n := by
  refine ⟨Nat.lt_succ_of_lt h.1, fun t ht hname => ?_⟩
  have hname : Function.update v.names f (some v.fresh) (tmp t) = some n := hname
  by_cases heq : tmp t = f
  · rw [heq, Function.update_self] at hname
    exact Nat.ne_of_lt h.1 (Option.some.inj hname).symm
  · rw [Function.update_of_ne heq] at hname
    exact h.2 t ht hname

/-- **A new temporary file.** -/
theorem Sound.extended (h : v.Sound tmp T) (htmp : TempNames tmp T) {target : F} (hused : T target)
    (hn : v.names (tmp target) = none) : (v.extended (tmp target)).Sound tmp T where
  current := List.mem_cons_self
  bounded d hd f m hm := by
    rcases List.mem_cons.1 hd with rfl | hd
    · by_cases hf : f = tmp target
      · rw [hf, Function.update_self] at hm
        cases hm
        exact Nat.lt_succ_self _
      · rw [Function.update_of_ne hf] at hm
        exact Nat.lt_succ_of_lt (h.bounded _ h.current f m hm)
    · exact Nat.lt_succ_of_lt (h.bounded d hd f m hm)
  single d hd f f' m hf hf' := by
    rcases List.mem_cons.1 hd with rfl | hd
    · have hnew : ∀ f, v.names f ≠ some v.fresh :=
        fun f hf => Nat.lt_irrefl _ (h.bounded _ h.current f _ hf)
      by_cases hft : f = tmp target
      · by_cases hft' : f' = tmp target
        · rw [hft, hft']
        · rw [hft, Function.update_self] at hf
          rw [Function.update_of_ne hft', ← hf] at hf'
          exact absurd hf' (hnew f')
      · rw [Function.update_of_ne hft] at hf
        by_cases hft' : f' = tmp target
        · rw [hft', Function.update_self] at hf'
          rw [← hf'] at hf
          exact absurd hf (hnew f)
        · rw [Function.update_of_ne hft'] at hf'
          exact h.single _ h.current f f' m hf hf'
    · exact h.single d hd f f' m hf hf'
  durable d hd t ht m hm := by
    have hold : ∃ d ∈ v.past, d t = some m := by
      rcases List.mem_cons.1 hd with rfl | hd
      · rw [Function.update_of_ne (htmp.apart target t hused ht).symm] at hm
        exact ⟨_, h.current, hm⟩
      · exact ⟨d, hd, hm⟩
    obtain ⟨d, hd, hm⟩ := hold
    obtain ⟨hflushed, hstill⟩ := h.durable d hd t ht m hm
    exact ⟨hflushed, hstill.extended _⟩
  writer id w hw := by
    have hat := h.writer id w hw
    refine hat.congr (Function.update_of_ne (fun heq => ?_) ..) rfl rfl
    rw [← heq, hat.named] at hn
    cases hn
  alone := h.alone
  reader id r hr := by
    have hat := h.reader id r hr
    exact hat.congr (hat.still.extended _) rfl


/-- What is still stays so at a rename of a temporary file. -/
theorem Still.renamed (htmp : TempNames tmp T) {n : ℕ} (h : v.Still tmp T n) {t : F} (ht : T t) :
    (v.renamed (tmp t) t).Still tmp T n := by
  unfold Volume.renamed
  split
  · exact h
  next m hm =>
    refine ⟨h.1, fun t' ht' hname => ?_⟩
    have hname : Function.update (Function.update v.names t (some m)) (tmp t) none (tmp t') =
      some n := hname
    by_cases heq : tmp t' = tmp t
    · rw [heq, Function.update_self] at hname
      cases hname
    · rw [Function.update_of_ne heq, Function.update_of_ne (htmp.apart t' t ht' ht)] at hname
      exact h.2 t' ht' hname

/-- **A writer renames what it has flushed.** -/
theorem Sound.renamed (h : v.Sound tmp T) (htmp : TempNames tmp T) {id : ℕ} {w : Writer F}
    (hw : v.writers.get? id = some w) (hdone : w.flushed = true) :
    ((v.renamed (tmp w.target) w.target).stopped id).Sound tmp T := by
  have hat := h.writer id w hw
  have hused := hat.used
  obtain ⟨-, hsettled⟩ := hat.flushed hdone
  have hstill : ∀ {n}, v.Still tmp T n → (v.renamed (tmp w.target) w.target).Still tmp T n :=
    fun hn => hn.renamed htmp hused
  have hsome : v.renamed (tmp w.target) w.target =
      { v with
        names := Function.update (Function.update v.names w.target (some w.inode))
          (tmp w.target) none
        past := Function.update (Function.update v.names w.target (some w.inode))
          (tmp w.target) none :: v.past } := by
    rw [Volume.renamed, hat.named]
  rw [hsome] at hstill ⊢
  -- where a name leads now
  have hname : ∀ f n, Function.update (Function.update v.names w.target (some w.inode))
      (tmp w.target) none f = some n →
        f ≠ tmp w.target ∧ (f = w.target ∧ n = w.inode ∨ f ≠ w.target ∧ v.names f = some n) := by
    intro f n hf
    by_cases hft : f = tmp w.target
    · rw [hft, Function.update_self] at hf
      cases hf
    · rw [Function.update_of_ne hft] at hf
      by_cases hfw : f = w.target
      · rw [hfw, Function.update_self] at hf
        exact ⟨hft, Or.inl ⟨hfw, (Option.some.inj hf).symm⟩⟩
      · rw [Function.update_of_ne hfw] at hf
        exact ⟨hft, Or.inr ⟨hfw, hf⟩⟩
  refine ⟨List.mem_cons_self, fun d hd f n hf => ?_, fun d hd f f' n hf hf' => ?_,
    fun d hd t ht n hn => ?_, fun id' w' hw' => ?_, fun id₁ id₂ w₁ w₂ h₁ h₂ => ?_,
    fun id' r hr => ?_⟩
  · rcases List.mem_cons.1 hd with rfl | hd
    · obtain ⟨-, ⟨-, rfl⟩ | ⟨-, hf⟩⟩ := hname f n hf
      · exact h.bounded _ h.current _ _ hat.named
      · exact h.bounded _ h.current _ _ hf
    · exact h.bounded d hd f n hf
  · rcases List.mem_cons.1 hd with rfl | hd
    · obtain ⟨hft, ⟨hfw, hn⟩ | ⟨-, hf⟩⟩ := hname f n hf
      · obtain ⟨hft', ⟨hfw', -⟩ | ⟨-, hf'⟩⟩ := hname f' n hf'
        · rw [hfw, hfw']
        · exact absurd (h.single _ h.current _ _ n hf' (hn ▸ hat.named)) hft'
      · obtain ⟨-, ⟨-, hn⟩ | ⟨-, hf'⟩⟩ := hname f' n hf'
        · exact absurd (h.single _ h.current _ _ n hf (hn ▸ hat.named)) hft
        · exact h.single _ h.current f f' n hf hf'
    · exact h.single d hd f f' n hf hf'
  · rcases List.mem_cons.1 hd with rfl | hd
    · obtain ⟨-, ⟨-, rfl⟩ | ⟨-, hn⟩⟩ := hname t n hn
      · -- the inode that was written, which has lost its temporary name
        refine ⟨hsettled, h.bounded _ h.current _ _ hat.named, fun t' ht' hn => ?_⟩
        obtain ⟨hft, ⟨hfw, -⟩ | ⟨-, hn⟩⟩ := hname (tmp t') w.inode hn
        · exact htmp.apart t' w.target ht' hused hfw
        · exact hft (h.single _ h.current _ _ _ hn hat.named)
      · obtain ⟨hflushed, hn⟩ := h.durable _ h.current t ht n hn
        exact ⟨hflushed, hstill hn⟩
    · obtain ⟨hflushed, hn⟩ := h.durable d hd t ht n hn
      exact ⟨hflushed, hstill hn⟩
  · have hw' : (v.writers.erase id).get? id' = some w' := hw'
    rw [KeyMap.get?_erase] at hw'
    split_ifs at hw' with hid
    have hat' := h.writer id' w' hw'
    refine hat'.congr ?_ rfl rfl
    have htarget : w'.target ≠ w.target := fun heq => hid (h.alone id' id w' w hw' hw heq)
    refine (Function.update_of_ne (fun heq => ?_) ..).trans
      (Function.update_of_ne (htmp.apart _ _ hat'.used hused) ..)
    exact htarget (htmp.single _ _ hat'.used hused heq)
  · have hkeep : ∀ {id' w'}, (v.writers.erase id).get? id' = some w' →
        v.writers.get? id' = some w' := by
      intro id' w' hw'
      rw [KeyMap.get?_erase] at hw'
      split_ifs at hw'
      exact hw'
    exact h.alone id₁ id₂ w₁ w₂ (hkeep h₁) (hkeep h₂)
  · have hat' := h.reader id' r hr
    exact hat'.congr (hstill hat'.still) rfl

/-- A writer was there before, or has just begun. -/
theorem writer_of_step {input : VolumeInput F} {id : ℕ} {x : Writer F}
    (h : (v.step tmp input).writers.get? id = some x) :
    input = .create id x.target x.whole ∨ ∃ x₀, v.writers.get? id = some x₀ ∧
      x.target = x₀.target ∧ x.whole = x₀.whole := by
  have hsame : v.writers.get? id = some x → ∃ x₀, v.writers.get? id = some x₀ ∧
      x.target = x₀.target ∧ x.whole = x₀.whole := fun hx => ⟨x, hx, rfl, rfl⟩
  have herase : ∀ id', (v.writers.erase id').get? id = some x → v.writers.get? id = some x := by
    intro id' hx
    rw [KeyMap.get?_erase] at hx
    split_ifs at hx
    exact hx
  cases input with
  | powerLoss => cases h
  | stop id' => exact Or.inr (hsame (herase id' h))
  | create id' target whole =>
      have hbegun : ∀ n, (v.writers.insert id' ⟨target, n, whole, whole, false⟩).get? id = some x →
          .create id' target whole = VolumeInput.create id x.target x.whole ∨
            ∃ x₀, v.writers.get? id = some x₀ ∧ x.target = x₀.target ∧ x.whole = x₀.whole := by
        intro n hx
        rw [KeyMap.get?_insert] at hx
        split_ifs at hx with hid
        · cases hx
          exact Or.inl (hid ▸ rfl)
        · exact Or.inr (hsame hx)
      simp only [Volume.step] at h
      split at h
      · exact hbegun _ h
      · exact hbegun _ h
  | write id' len =>
      simp only [Volume.step] at h
      split at h
      · exact Or.inr (hsame h)
      next x₁ hx₁ =>
        rw [Volume.wrote, KeyMap.get?_insert] at h
        split_ifs at h with hid
        · cases h
          exact Or.inr ⟨x₁, hid ▸ hx₁, rfl, rfl⟩
        · exact Or.inr (hsame h)
  | flush id' =>
      simp only [Volume.step] at h
      split at h
      · exact Or.inr (hsame h)
      next x₁ hx₁ =>
        split_ifs at h
        · rw [Volume.settled, KeyMap.get?_insert] at h
          split_ifs at h with hid
          · cases h
            exact Or.inr ⟨x₁, hid ▸ hx₁, rfl, rfl⟩
          · exact Or.inr (hsame h)
        · exact Or.inr (hsame h)
  | rename id' =>
      simp only [Volume.step] at h
      split at h
      · exact Or.inr (hsame h)
      next x₁ hx₁ =>
        split_ifs at h
        · refine Or.inr (hsame (herase id' ?_))
          have hwriters : (v.renamed (tmp x₁.target) x₁.target).writers = v.writers := by
            unfold renamed
            split <;> rfl
          rwa [Volume.stopped, hwriters] at h
        · exact Or.inr (hsame h)
  | openFile id' target =>
      simp only [Volume.step] at h
      split at h
      · exact Or.inr (hsame h)
      · exact Or.inr (hsame h)
  | read id' len =>
      simp only [Volume.step] at h
      split at h
      · exact Or.inr (hsame h)
      · split_ifs at h
        · exact Or.inr (hsame h)
        · exact Or.inr (hsame h)

/-- **A power loss leaves no half file in use.** -/
theorem Sound.powerLoss (h : v.Sound tmp T) (htmp : TempNames tmp T) (back : ℕ)
    (junk : ℕ → List UInt8) : (v.step tmp (.powerLoss back junk)).Sound tmp T := by
  have hpast := getD_mem_past h.current back
  refine ⟨List.mem_singleton_self _, fun d hd => ?_, fun d hd => ?_, fun d hd t ht n hn => ?_,
    ?_, ?_, ?_⟩
  · rw [List.mem_singleton.1 hd]
    exact h.bounded _ hpast
  · rw [List.mem_singleton.1 hd]
    exact h.single _ hpast
  · rw [List.mem_singleton.1 hd] at hn
    refine ⟨rfl, h.bounded _ hpast t n hn, fun t' ht' hn' => ?_⟩
    exact htmp.apart t' t ht' ht (h.single _ hpast _ _ n hn' hn)
  · intro id w hw
    cases hw
  · intro id id' w w' hw
    cases hw
  · intro id r hr
    cases hr

/-- **Every step keeps the volume sound.** -/
theorem Sound.step (h : v.Sound tmp T) (htmp : TempNames tmp T) {input : VolumeInput F}
    (hone : OneWriter T v input) : (v.step tmp input).Sound tmp T := by
  cases input with
  | powerLoss back junk => exact h.powerLoss htmp back junk
  | stop id => exact h.stopped id
  | create id target whole =>
      obtain ⟨hused, -, hothers⟩ := hone
      simp only [Volume.step]
      split
      next n hn => exact h.begun htmp hused hothers hn whole
      next hn =>
        exact (h.extended htmp hused hn).begun htmp hused hothers (Function.update_self ..) whole
  | write id len =>
      simp only [Volume.step]
      split
      · exact h
      next w hw => exact h.wrote htmp hw len
  | flush id =>
      simp only [Volume.step]
      split
      · exact h
      next w hw =>
        split_ifs with hrest
        · exact h.settled hw hrest
        · exact h
  | rename id =>
      simp only [Volume.step]
      split
      · exact h
      next w hw =>
        split_ifs with hdone
        · exact h.renamed htmp hw hdone
        · exact h
  | openFile id target =>
      simp only [Volume.step]
      split
      · exact h
      next n hn => exact h.reads (h.readerAt_open hone hn)
  | read id len =>
      simp only [Volume.step]
      split
      · exact h
      next r hr =>
        split_ifs with hnil
        · exact h.reads ((h.reader id r hr).ends hnil)
        · exact h.reads ((h.reader id r hr).more len)

end Volume

namespace Volume

variable {F : Type*} {tmp : F → F} {T : F → Prop}

/-- A volume without calls under way, all of it flushed. -/
def idle (names : Names F) (bytes : ℕ → List UInt8) (fresh : ℕ) : Volume F :=
  ⟨names, [names], bytes, fun _ => true, fresh, .empty, .empty⟩

/-- A sound volume without calls under way, the names of which are settled. -/
structure AtRest (tmp : F → F) (T : F → Prop) (v : Volume F) : Prop where
  sound : v.Sound tmp T
  past : ∀ d ∈ v.past, d = v.names
  writers : v.writers.entries = []
  readers : v.readers.entries = []

/-- A directory without hard links. -/
theorem atRest_idle (htmp : TempNames tmp T) {names : Names F} {fresh : ℕ}
    (hbounded : ∀ f n, names f = some n → n < fresh)
    (hsingle : ∀ f f' n, names f = some n → names f' = some n → f = f')
    (bytes : ℕ → List UInt8) : (idle names bytes fresh).AtRest tmp T where
  past d hd := List.mem_singleton.1 hd
  writers := rfl
  readers := rfl
  sound :=
    { current := List.mem_singleton_self _
      bounded := fun d hd => by
        rw [List.mem_singleton.1 hd]
        exact hbounded
      single := fun d hd => by
        rw [List.mem_singleton.1 hd]
        exact hsingle
      durable := fun d hd t ht n hn => by
        rw [List.mem_singleton.1 hd] at hn
        exact ⟨rfl, hbounded t n hn, fun t' ht' hn' =>
          htmp.apart t' t ht' ht (hsingle _ _ n hn' hn)⟩
      writer := fun id w hw => by cases hw
      alone := fun id id' w w' hw => by cases hw
      reader := fun id r hr => by cases hr }

end Volume

end Lib
end Hextet
