/-
# Files and operations that fail half way

A disk gives each file its bytes, or nothing.  An operation returns a value or an error
together with the disk it leaves, also when it fails: `DiskM` is a state under
exceptions.  Creating a file may fail before it exists (`createNew`), and a write may
fail after any number of bytes (`writeAll`); faults are given from outside.

The rules say what an operation returns and leaves on a given disk (`on_bind_ok`,
`on_tryCatch_error`, `on_createNew`, `on_writeAll`).
-/

import Mathlib.Data.Nat.Notation
import Mathlib.Logic.Function.Basic

namespace Hextet
namespace Lib

/-- The files with their bytes. -/
abbrev Disk (F : Type) := F → Option (List UInt8)

/-- An operation on a disk, which may fail. -/
abbrev DiskM (F ε : Type) := ExceptT ε (StateM (Disk F))

namespace DiskM

variable {F ε δ α β : Type}

/-- What an operation returns on a disk, and the disk it leaves. -/
def on (x : DiskM F ε α) (disk : Disk F) : Except ε α × Disk F := StateT.run (ExceptT.run x) disk

/-- An answer that touches no file. -/
def answer (x : Except ε α) : DiskM F ε α := ExceptT.mk (pure x)

/-- The same operation with its error translated. -/
def mapError (f : ε → δ) (x : DiskM F ε α) : DiskM F δ α := ExceptT.adapt f x

theorem on_get (disk : Disk F) : (get : DiskM F ε (Disk F)).on disk = (.ok disk, disk) := rfl

theorem on_answer (x : Except ε α) (disk : Disk F) : (answer x).on disk = (x, disk) := rfl

theorem on_mapError (f : ε → δ) (x : DiskM F ε α) (disk : Disk F) :
    (x.mapError f).on disk = ((x.on disk).1.mapError f, (x.on disk).2) := by
  rw [on, mapError, ExceptT.run_adapt, StateT.run_map]
  rfl

theorem on_bind_ok {x : DiskM F ε α} {disk disk' : Disk F} {a : α}
    (h : x.on disk = (.ok a, disk')) (f : α → DiskM F ε β) :
    (x >>= f).on disk = (f a).on disk' := by
  rw [on, ExceptT.run_bind, StateT.run_bind]
  unfold on at h
  rw [h]
  rfl

theorem on_bind_error {x : DiskM F ε α} {disk disk' : Disk F} {e : ε}
    (h : x.on disk = (.error e, disk')) (f : α → DiskM F ε β) :
    (x >>= f).on disk = (.error e, disk') := by
  rw [on, ExceptT.run_bind, StateT.run_bind]
  unfold on at h
  rw [h]
  rfl

theorem on_answer_bind_ok {x : Except ε α} {a : α} (h : x = .ok a) (f : α → DiskM F ε β)
    (disk : Disk F) : (answer x >>= f).on disk = (f a).on disk :=
  on_bind_ok (h ▸ on_answer x disk) f

theorem on_answer_bind_error {x : Except ε α} {e : ε} (h : x = .error e) (f : α → DiskM F ε β)
    (disk : Disk F) : (answer x >>= f).on disk = (.error e, disk) :=
  on_bind_error (h ▸ on_answer x disk) f

theorem on_bind_pure (x : DiskM F ε α) (g : α → β) (disk : Disk F) :
    (x >>= fun a => pure (g a)).on disk = ((x.on disk).1.map g, (x.on disk).2) := by
  cases h : x.on disk with
  | mk r disk' =>
      cases r with
      | ok a => exact on_bind_ok h _
      | error e => exact on_bind_error h _

theorem on_tryCatch_ok {x : DiskM F ε α} {disk disk' : Disk F} {a : α}
    (h : x.on disk = (.ok a, disk')) (handle : ε → DiskM F ε α) :
    (tryCatch x handle).on disk = (.ok a, disk') := by
  rw [on, ExceptT.run_tryCatch, StateT.run_bind]
  unfold on at h
  rw [h]
  rfl

theorem on_tryCatch_error {x : DiskM F ε α} {disk disk' : Disk F} {e : ε}
    (h : x.on disk = (.error e, disk')) (handle : ε → DiskM F ε α) :
    (tryCatch x handle).on disk = (handle e).on disk' := by
  rw [on, ExceptT.run_tryCatch, StateT.run_bind]
  unfold on at h
  rw [h]
  rfl

variable [DecidableEq F]

/-- `create_new`: a file that is there is refused, another one starts empty. -/
def createNew (present : ε) (fault : Option ε) (f : F) : DiskM F ε Unit :=
  ExceptT.mk fun disk =>
    match fault with
    | some e => (.error e, disk)
    | none =>
        if (disk f).isSome then (.error present, disk)
        else (.ok (), Function.update disk f (some []))

/-- `write_all` at the end of a file: a fault lets some bytes through. -/
def writeAll (fault : Option (ℕ × ε)) (f : F) (bytes : List UInt8) : DiskM F ε Unit :=
  ExceptT.mk fun disk =>
    match fault with
    | some (n, e) => (.error e, Function.update disk f (some ((disk f).getD [] ++ bytes.take n)))
    | none => (.ok (), Function.update disk f (some ((disk f).getD [] ++ bytes)))

/-- `fs::write`: the file has these bytes and no others. -/
def writeFile (f : F) (bytes : List UInt8) : DiskM F ε Unit :=
  ExceptT.mk fun disk => (.ok (), Function.update disk f (some bytes))

/-- `remove_file`. -/
def removeFile (f : F) : DiskM F ε Unit :=
  ExceptT.mk fun disk => (.ok (), Function.update disk f none)

/-- What goes wrong when a new file is written: its creation, or the write after some
bytes. -/
structure WriteFault (ε : Type) where
  create : Option ε
  write : Option (ℕ × ε)

/-- The same fault with its errors translated. -/
def WriteFault.map (f : ε → δ) (fault : WriteFault ε) : WriteFault δ where
  create := fault.create.map f
  write := fault.write.map (Prod.map id f)

/-- A new file is created and written. -/
def writeNew (present : ε) (fault : WriteFault ε) (f : F) (bytes : List UInt8) :
    DiskM F ε Unit := do
  createNew present fault.create f
  writeAll fault.write f bytes

/-- The file is created and its write fails. -/
def WriteFault.Tears (fault : WriteFault ε) (disk : Disk F) (f : F) : Prop :=
  fault.create = none ∧ disk f = none ∧ fault.write ≠ none

theorem on_createNew (present : ε) (fault : Option ε) (f : F) (disk : Disk F) :
    (createNew present fault f).on disk =
      match fault with
      | some e => (.error e, disk)
      | none =>
          if (disk f).isSome then (.error present, disk)
          else (.ok (), Function.update disk f (some [])) := rfl

theorem on_writeAll_fault (n : ℕ) (e : ε) (f : F) (bytes : List UInt8) (disk : Disk F) :
    (writeAll (some (n, e)) f bytes).on disk =
      (.error e, Function.update disk f (some ((disk f).getD [] ++ bytes.take n))) := rfl

theorem on_writeAll (f : F) (bytes : List UInt8) (disk : Disk F) :
    (writeAll (none : Option (ℕ × ε)) f bytes).on disk =
      (.ok (), Function.update disk f (some ((disk f).getD [] ++ bytes))) := rfl

theorem on_writeFile (f : F) (bytes : List UInt8) (disk : Disk F) :
    (writeFile f bytes : DiskM F ε Unit).on disk =
      (.ok (), Function.update disk f (some bytes)) := rfl

theorem on_removeFile (f : F) (disk : Disk F) :
    (removeFile f : DiskM F ε Unit).on disk = (.ok (), Function.update disk f none) := rfl

section WriteNew

variable {fault : WriteFault ε} {disk : Disk F} {f : F}

theorem on_writeNew_of_create {e : ε} (h : fault.create = some e) (present : ε)
    (bytes : List UInt8) : (writeNew present fault f bytes).on disk = (.error e, disk) := by
  have hnew : (createNew present fault.create f).on disk = (.error e, disk) := by
    rw [on_createNew, h]
  exact on_bind_error hnew _

theorem on_writeNew_of_present (h : fault.create = none) (hfile : disk f ≠ none) (present : ε)
    (bytes : List UInt8) : (writeNew present fault f bytes).on disk = (.error present, disk) := by
  have hnew : (createNew present fault.create f).on disk = (.error present, disk) := by
    rw [on_createNew, h]
    exact if_pos (Option.isSome_iff_ne_none.2 hfile)
  exact on_bind_error hnew _

theorem on_createNew_of_absent (h : fault.create = none) (hfile : disk f = none) (present : ε) :
    (createNew present fault.create f).on disk = (.ok (), Function.update disk f (some [])) := by
  rw [on_createNew, h]
  exact if_neg (by simp [hfile])

theorem on_writeNew_of_write {n : ℕ} {e : ε} (h : fault.create = none) (hfile : disk f = none)
    (hwrite : fault.write = some (n, e)) (present : ε) (bytes : List UInt8) :
    (writeNew present fault f bytes).on disk =
      (.error e, Function.update disk f (some (bytes.take n))) := by
  rw [writeNew, on_bind_ok (on_createNew_of_absent h hfile present), hwrite, on_writeAll_fault]
  simp

theorem on_writeNew_of_none (h : fault.create = none) (hfile : disk f = none)
    (hwrite : fault.write = none) (present : ε) (bytes : List UInt8) :
    (writeNew present fault f bytes).on disk =
      (.ok (), Function.update disk f (some bytes)) := by
  rw [writeNew, on_bind_ok (on_createNew_of_absent h hfile present), hwrite, on_writeAll]
  simp

/-- **A write that fails after the file was created leaves the file.** -/
theorem on_writeNew_of_tears (h : fault.Tears disk f) (present : ε) (bytes : List UInt8) :
    ∃ e n, (writeNew present fault f bytes).on disk =
      (.error e, Function.update disk f (some (bytes.take n))) := by
  obtain ⟨hcreate, hfile, hwrite⟩ := h
  obtain ⟨⟨n, e⟩, hne⟩ := Option.ne_none_iff_exists'.1 hwrite
  exact ⟨e, n, on_writeNew_of_write hcreate hfile hne present bytes⟩

/-- Otherwise the file is written, or nothing is changed. -/
theorem on_writeNew_of_not_tears (h : ¬fault.Tears disk f) (present : ε) (bytes : List UInt8) :
    fault.create = none ∧ disk f = none ∧ fault.write = none ∧
        (writeNew present fault f bytes).on disk = (.ok (), Function.update disk f (some bytes)) ∨
      (fault.create ≠ none ∨ disk f ≠ none) ∧
        ∃ e, (writeNew present fault f bytes).on disk = (.error e, disk) := by
  cases hcreate : fault.create with
  | some e => exact Or.inr ⟨Or.inl (by simp), e, on_writeNew_of_create hcreate present bytes⟩
  | none =>
      by_cases hfile : disk f = none
      · have hwrite : fault.write = none := by
          by_contra hne
          exact h ⟨hcreate, hfile, hne⟩
        exact Or.inl ⟨rfl, hfile, hwrite, on_writeNew_of_none hcreate hfile hwrite present bytes⟩
      · exact Or.inr ⟨Or.inr hfile, present, on_writeNew_of_present hcreate hfile present bytes⟩

end WriteNew

end DiskM

end Lib
end Hextet
