/-
# What replaced files hold

If no two writers are at one file, then whatever the order of the system calls and whichever
fail, a file holds what the last rename put there, a reader gets all of what its file held at
some moment, and after a power loss the files are as they were after some of the renames, from
the first on (`Traced.replaced_whole`).
-/

import Hextet.Lib.Replace
import Mathlib.Data.List.Induction

namespace Hextet
namespace Lib

/-- What files hold after some of them were replaced. -/
def putAll {F : Type*} [DecidableEq F] (origin : F → Option (List UInt8))
    (puts : List (F × List UInt8)) : F → Option (List UInt8) :=
  puts.foldl (fun s p => Function.update s p.1 (some p.2)) origin

/-- A volume beside what its files held at first, or after the last power loss, and what was put
in place of files since. -/
structure Traced (F : Type*) where
  volume : Volume F
  origin : F → Option (List UInt8)
  puts : List (F × List UInt8)

namespace Traced

variable {F : Type*} [DecidableEq F] {tmp : F → F} {T : F → Prop} {w : Traced F}

/-- A volume where nothing was put yet. -/
def start (v : Volume F) : Traced F := ⟨v, v.store, []⟩

/-- One step. -/
def step (tmp : F → F) (w : Traced F) (input : VolumeInput F) : Traced F :=
  let v := w.volume.step tmp input
  match input with
  | .powerLoss .. => start v
  | _ => ⟨v, w.origin, w.puts ++ (w.volume.putOf tmp input).toList⟩

/-- What some files hold, if they lead where some names lead. -/
def Held (T : F → Prop) (w : Traced F) (d : Names F) (puts : List (F × List UInt8)) : Prop :=
  ∀ t, T t → (d t).map w.volume.bytes = putAll w.origin puts t

/-- The files in use hold what was put there, the names that may come back lead to what was there
after the first so many puts, and readers have such a file before them. -/
structure Recorded (T : F → Prop) (w : Traced F) : Prop where
  current : w.Held T w.volume.names w.puts
  past : ∀ d ∈ w.volume.past, ∃ puts, puts <+: w.puts ∧ w.Held T d puts
  reader : ∀ id r, w.volume.readers.get? id = some r →
    ∃ puts, puts <+: w.puts ∧ putAll w.origin puts r.file = some r.whole

theorem recorded_start {v : Volume F} (h : ∀ d ∈ v.past, d = v.names)
    (hreaders : v.readers.entries = []) : (start v).Recorded T where
  current t ht := rfl
  past d hd := ⟨[], List.prefix_rfl, fun t ht => by rw [h d hd]; rfl⟩
  reader id r hr := by
    have hmem := KeyMap.mem_entries.2 hr
    rw [start, hreaders] at hmem
    cases hmem

/-- A step that puts nothing, and changes neither where files in use lead nor the bytes that are
still. -/
theorem Recorded.congr (h : w.Recorded T) (hsound : w.volume.Sound tmp T) {v : Volume F}
    (hnames : ∀ t, T t → v.names t = w.volume.names t)
    (hpast : ∀ d ∈ v.past, d ∈ w.volume.past ∨ ∀ t, T t → d t = w.volume.names t)
    (hbytes : ∀ n, w.volume.Still tmp T n → v.bytes n = w.volume.bytes n)
    (hreaders : ∀ id r, v.readers.get? id = some r →
      (∃ r₀, w.volume.readers.get? id = some r₀ ∧ r.file = r₀.file ∧ r.whole = r₀.whole) ∨
        ∃ n, T r.file ∧ w.volume.names r.file = some n ∧ r.whole = w.volume.bytes n) :
    (⟨v, w.origin, w.puts⟩ : Traced F).Recorded T := by
  have hheld : ∀ d ∈ w.volume.past, ∀ puts, w.Held T d puts →
      ∀ t, T t → (d t).map v.bytes = putAll w.origin puts t := by
    intro d hd puts hputs t ht
    rw [← hputs t ht]
    cases hn : d t with
    | none => rfl
    | some n => exact congrArg some (hbytes n (hsound.durable d hd t ht n hn).2)
  refine ⟨fun t ht => ?_, fun d hd => ?_, fun id r hr => ?_⟩
  · rw [hnames t ht]
    exact hheld _ hsound.current _ h.current t ht
  · rcases hpast d hd with hd | hsame
    · obtain ⟨puts, hputs, hholds⟩ := h.past d hd
      exact ⟨puts, hputs, hheld d hd puts hholds⟩
    · refine ⟨w.puts, List.prefix_rfl, fun t ht => ?_⟩
      rw [hsame t ht]
      exact hheld _ hsound.current _ h.current t ht
  · rcases hreaders id r hr with ⟨r₀, hr₀, hfile, hwhole⟩ | ⟨n, ht, hn, hwhole⟩
    · rw [hfile, hwhole]
      exact h.reader id r₀ hr₀
    · refine ⟨w.puts, List.prefix_rfl, ?_⟩
      change putAll w.origin w.puts r.file = some r.whole
      rw [← h.current r.file ht, hn, hwhole]
      rfl

theorem putAll_concat (origin : F → Option (List UInt8)) (puts : List (F × List UInt8)) (t : F)
    (whole : List UInt8) : putAll origin (puts ++ [(t, whole)]) =
      Function.update (putAll origin puts) t (some whole) := by
  rw [putAll, List.foldl_append]
  rfl

/-- **A rename puts the bytes of the writer.** -/
theorem Recorded.renamed (h : w.Recorded T) (hsound : w.volume.Sound tmp T)
    (htmp : TempNames tmp T) {id : ℕ} {x : Writer F} (hx : w.volume.writers.get? id = some x) :
    (⟨(w.volume.renamed (tmp x.target) x.target).stopped id, w.origin,
      w.puts ++ [(x.target, w.volume.bytes x.inode)]⟩ : Traced F).Recorded T := by
  have hat := hsound.writer id x hx
  have hsome : w.volume.renamed (tmp x.target) x.target =
      { w.volume with
        names := Function.update (Function.update w.volume.names x.target (some x.inode))
          (tmp x.target) none
        past := Function.update (Function.update w.volume.names x.target (some x.inode))
          (tmp x.target) none :: w.volume.past } := by
    rw [Volume.renamed, hat.named]
  rw [hsome]
  have hcurrent : ∀ t, T t → (Function.update (Function.update w.volume.names x.target
      (some x.inode)) (tmp x.target) none t).map w.volume.bytes =
        putAll w.origin (w.puts ++ [(x.target, w.volume.bytes x.inode)]) t := by
    intro t ht
    rw [putAll_concat, Function.update_of_ne (htmp.apart _ _ hat.used ht).symm]
    by_cases heq : t = x.target
    · rw [heq, Function.update_self, Function.update_self]
      rfl
    · rw [Function.update_of_ne heq, Function.update_of_ne heq]
      exact h.current t ht
  refine ⟨hcurrent, fun d hd => ?_, fun id' r hr => ?_⟩
  · rcases List.mem_cons.1 hd with rfl | hd
    · exact ⟨_, List.prefix_rfl, hcurrent⟩
    · obtain ⟨puts, hputs, hholds⟩ := h.past d hd
      exact ⟨puts, hputs.trans (List.prefix_append ..), hholds⟩
  · obtain ⟨puts, hputs, hwhole⟩ := h.reader id' r hr
    exact ⟨puts, hputs.trans (List.prefix_append ..), hwhole⟩

/-- The last put of a file is what it holds. -/
theorem putAll_last {origin : F → Option (List UInt8)} {earlier later : List (F × List UInt8)}
    {t : F} {whole : List UInt8} (h : ∀ p ∈ later, p.1 ≠ t) :
    putAll origin (earlier ++ (t, whole) :: later) t = some whole := by
  induction later using List.reverseRecOn with
  | nil => rw [putAll_concat, Function.update_self]
  | append_singleton later p ih =>
      obtain ⟨hlater, hp⟩ := List.forall_mem_append.1 h
      rw [← List.cons_append, ← List.append_assoc, putAll_concat,
        Function.update_of_ne (hp p (List.mem_singleton_self _)).symm]
      exact ih hlater

/-- A step that puts nothing and is no power loss. -/
theorem step_of_no_put {input : VolumeInput F} (hput : w.volume.putOf tmp input = none)
    (hloss : ∀ back junk, input ≠ .powerLoss back junk) :
    w.step tmp input = ⟨w.volume.step tmp input, w.origin, w.puts⟩ := by
  cases input with
  | powerLoss back junk => exact absurd rfl (hloss back junk)
  | create | write | flush | rename | stop | openFile | read => simp [step, hput]

/-- **Every step keeps the record.** -/
theorem Recorded.step (h : w.Recorded T) (hsound : w.volume.Sound tmp T) (htmp : TempNames tmp T)
    {input : VolumeInput F} (hone : w.volume.OneWriter T input) :
    (w.step tmp input).Recorded T := by
  have hkeep : ∀ v : Volume F, v.names = w.volume.names → v.past = w.volume.past →
      v.readers = w.volume.readers →
      (∀ n, w.volume.Still tmp T n → v.bytes n = w.volume.bytes n) →
        (⟨v, w.origin, w.puts⟩ : Traced F).Recorded T := by
    intro v hnames hpast hreaders hbytes
    refine h.congr hsound (fun t _ => congrFun hnames t) (fun d hd => Or.inl (hpast ▸ hd)) hbytes
      fun id r hr => ?_
    rw [hreaders] at hr
    exact Or.inl ⟨r, hr, rfl, rfl⟩
  cases input with
  | powerLoss back junk =>
      exact recorded_start (fun d hd => List.mem_singleton.1 hd) rfl
  | stop id =>
      rw [step_of_no_put rfl (by simp)]
      exact hkeep _ rfl rfl rfl fun _ _ => rfl
  | write id len =>
      rw [step_of_no_put rfl (by simp)]
      simp only [Volume.step]
      split
      · exact h
      next x hx =>
        have hat := hsound.writer id x hx
        exact hkeep _ rfl rfl rfl fun n hn =>
          Function.update_of_ne (hn.ne hat.used hat.named) ..
  | flush id =>
      rw [step_of_no_put rfl (by simp)]
      simp only [Volume.step]
      split
      · exact h
      · split_ifs
        · exact hkeep _ rfl rfl rfl fun _ _ => rfl
        · exact h
  | create id target whole =>
      obtain ⟨hused, -, -⟩ := hone
      rw [step_of_no_put rfl (by simp)]
      simp only [Volume.step]
      split
      next n hn =>
        exact hkeep _ rfl rfl rfl fun m hm => Function.update_of_ne (hm.ne hused hn) ..
      next hn =>
        have hnames : ∀ t, T t → Function.update w.volume.names (tmp target)
            (some w.volume.fresh) t = w.volume.names t :=
          fun t ht => Function.update_of_ne (htmp.apart _ _ hused ht).symm ..
        refine h.congr hsound hnames (fun d hd => ?_) (fun m hm => ?_)
          fun id r hr => Or.inl ⟨r, hr, rfl, rfl⟩
        · rcases List.mem_cons.1 hd with rfl | hd
          · exact Or.inr hnames
          · exact Or.inl hd
        · exact Function.update_of_ne (Nat.ne_of_lt hm.1) ..
  | rename id =>
      cases hx : w.volume.writers.get? id with
      | none =>
          rw [step_of_no_put (by simp [Volume.putOf, hx]) (by simp)]
          simp only [Volume.step, hx]
          exact h
      | some x =>
          have hat := hsound.writer id x hx
          by_cases hdone : x.flushed = true
          · have hput : w.volume.putOf tmp (.rename id) =
                some (x.target, w.volume.bytes x.inode) := by
              simp [Volume.putOf, hx, hdone, Volume.store, hat.named]
            have hstep : w.step tmp (.rename id) =
                ⟨(w.volume.renamed (tmp x.target) x.target).stopped id, w.origin,
                  w.puts ++ [(x.target, w.volume.bytes x.inode)]⟩ := by
              simp [Traced.step, Volume.step, hput, hx, hdone]
            rw [hstep]
            exact h.renamed hsound htmp hx
          · rw [step_of_no_put (by simp [Volume.putOf, hx, hdone]) (by simp)]
            simp only [Volume.step, hx, if_neg hdone]
            exact h
  | openFile id target =>
      rw [step_of_no_put rfl (by simp)]
      simp only [Volume.step]
      split
      · exact h
      next n hn =>
        refine h.congr hsound (fun t _ => rfl) (fun d hd => Or.inl hd) (fun m _ => rfl)
          fun id' r hr => ?_
        rw [Volume.reads, KeyMap.get?_insert] at hr
        split_ifs at hr
        · cases hr
          exact Or.inr ⟨n, hone, hn, rfl⟩
        · exact Or.inl ⟨r, hr, rfl, rfl⟩
  | read id len =>
      rw [step_of_no_put rfl (by simp)]
      simp only [Volume.step]
      split
      · exact h
      next r hr =>
        have hread : ∀ r' : Reader F, r'.file = r.file → r'.whole = r.whole →
            (⟨w.volume.reads id r', w.origin, w.puts⟩ : Traced F).Recorded T := by
          intro r' hfile hwhole
          refine h.congr hsound (fun t _ => rfl) (fun d hd => Or.inl hd) (fun m _ => rfl)
            fun id' r'' hr'' => Or.inl ?_
          rw [Volume.reads, KeyMap.get?_insert] at hr''
          split_ifs at hr'' with hid
          · cases hr''
            exact ⟨r, hid ▸ hr, hfile, hwhole⟩
          · exact ⟨r'', hr'', rfl, rfl⟩
        split_ifs
        · exact hread _ rfl rfl
        · exact hread _ rfl rfl

/-- After a power loss files hold what they held after the first so many puts. -/
theorem store_powerLoss (hsound : w.volume.Sound tmp T) (hrecorded : w.Recorded T) (back : ℕ)
    (junk : ℕ → List UInt8) : ∃ puts, puts <+: w.puts ∧ ∀ t, T t →
      (w.volume.step tmp (.powerLoss back junk)).store t = putAll w.origin puts t := by
  have hback := Volume.getD_mem_past hsound.current back
  obtain ⟨puts, hputs, hholds⟩ := hrecorded.past _ hback
  refine ⟨puts, hputs, fun t ht => ?_⟩
  rw [← hholds t ht]
  change ((w.volume.past.getD back w.volume.names) t).map _ = _
  cases hn : (w.volume.past.getD back w.volume.names) t with
  | none => rfl
  | some n => exact congrArg some (if_pos (hsound.durable _ hback t ht n hn).1)

theorem volume_step (w : Traced F) (input : VolumeInput F) :
    (w.step tmp input).volume = w.volume.step tmp input := by
  cases input <;> rfl

theorem volume_run (w : Traced F) (inputs : List (VolumeInput F)) :
    (run (step tmp) w inputs).volume = run (Volume.step tmp) w.volume inputs := by
  induction inputs generalizing w with
  | nil => rfl
  | cons input inputs ih => rw [run_cons, run_cons, ih, volume_step]

/-- **A run keeps the volume sound and the record.** -/
theorem sound_run (htmp : TempNames tmp T) {v : Volume F} (hrest : v.AtRest tmp T)
    {inputs : List (VolumeInput F)}
    (hone : Along (step tmp) (fun w input => w.volume.OneWriter T input) (start v) inputs) :
    (run (step tmp) (start v) inputs).volume.Sound tmp T ∧
      (run (step tmp) (start v) inputs).Recorded T := by
  refine hone.invariant (P := fun w : Traced F => w.volume.Sound tmp T ∧ w.Recorded T)
    (fun w input h hi => ?_) ⟨hrest.sound, recorded_start hrest.past hrest.readers⟩
  rw [volume_step]
  exact ⟨h.1.step htmp hi, h.2.step h.1 htmp hi⟩

/-- **Files are replaced whole.**  If no two writers are at one file, then whatever the order of
the calls, whichever fail and whenever the power is lost: each file in use holds what was last
put in its place, or what it held at first, and a reader that has come to the end has read all
that its file held after the first so many puts. -/
theorem replaced_whole (htmp : TempNames tmp T) {v : Volume F} (hrest : v.AtRest tmp T)
    {inputs : List (VolumeInput F)}
    (hone : Along (step tmp) (fun w input => w.volume.OneWriter T input) (start v) inputs) :
    let w := run (step tmp) (start v) inputs
    (∀ t, T t → w.volume.store t = putAll w.origin w.puts t) ∧
    (∀ id r, w.volume.readers.get? id = some r → r.atEnd = true →
      ∃ puts, puts <+: w.puts ∧ putAll w.origin puts r.file = some r.got) ∧
    ∀ back junk, ∃ puts, puts <+: w.puts ∧ ∀ t, T t →
      (w.volume.step tmp (.powerLoss back junk)).store t = putAll w.origin puts t := by
  intro w
  obtain ⟨hsound, hrecorded⟩ := sound_run htmp hrest hone
  refine ⟨hrecorded.current, fun id r hr hend => ?_, store_powerLoss hsound hrecorded⟩
  obtain ⟨puts, hputs, hwhole⟩ := hrecorded.reader id r hr
  rw [← (hsound.reader id r hr).atEnd hend] at hwhole
  exact ⟨puts, hputs, hwhole⟩

/-! ### One writer -/

/-- The input is no rename and no power loss. -/
def Plain : VolumeInput F → Prop
  | .rename _ => False
  | .powerLoss .. => False
  | _ => True

/-- Without a rename nothing is put. -/
theorem puts_of_plain {inputs : List (VolumeInput F)} (h : ∀ i ∈ inputs, Plain i) :
    (run (step tmp) w inputs).origin = w.origin ∧ (run (step tmp) w inputs).puts = w.puts := by
  induction inputs generalizing w with
  | nil => exact ⟨rfl, rfl⟩
  | cons input inputs ih =>
      obtain ⟨hhead, htail⟩ := List.forall_mem_cons.1 h
      have hstep : (w.step tmp input).origin = w.origin ∧ (w.step tmp input).puts = w.puts := by
        cases input with
        | rename | powerLoss => exact hhead.elim
        | create | write | flush | stop | openFile | read => exact ⟨rfl, List.append_nil _⟩
      obtain ⟨horigin, hputs⟩ := ih (w := w.step tmp input) htail
      exact ⟨horigin.trans hstep.1, hputs.trans hstep.2⟩

/-- What files held at first, what was put and what writers are to write meets a condition. -/
structure Supplied (T : F → Prop) (A : F → Option (List UInt8) → Prop) (w : Traced F) : Prop where
  origin : ∀ t, T t → A t (w.origin t)
  puts : ∀ p ∈ w.puts, A p.1 (some p.2)
  writer : ∀ id x, w.volume.writers.get? id = some x → A x.target (some x.whole)

/-- Then so does what files hold after the first so many puts. -/
theorem Supplied.putAll {A : F → Option (List UInt8) → Prop} (h : w.Supplied T A)
    {puts : List (F × List UInt8)} (hputs : puts <+: w.puts) {t : F} (ht : T t) :
    A t (putAll w.origin puts t) := by
  induction puts using List.reverseRecOn with
  | nil => exact h.origin t ht
  | append_singleton puts p ih =>
      rw [putAll_concat]
      by_cases heq : t = p.1
      · rw [heq, Function.update_self]
        exact h.puts p (hputs.subset (List.mem_append_right _ (List.mem_singleton_self _)))
      · rw [Function.update_of_ne heq]
        exact ih ((List.prefix_append ..).trans hputs)

/-- **Every step keeps the condition**, if what is to be written meets it. -/
theorem Supplied.step {A : F → Option (List UInt8) → Prop} (h : w.Supplied T A)
    (hsound : w.volume.Sound tmp T) (hrecorded : w.Recorded T) {input : VolumeInput F}
    (hcreate : ∀ id t whole, input = .create id t whole → A t (some whole)) :
    (w.step tmp input).Supplied T A := by
  have hwriter : ∀ id x, (w.step tmp input).volume.writers.get? id = some x →
      A x.target (some x.whole) := by
    intro id x hx
    rw [volume_step] at hx
    obtain hnew | ⟨x₀, hx₀, htarget, hwhole⟩ := Volume.writer_of_step hx
    · exact hcreate id _ _ hnew
    · rw [htarget, hwhole]
      exact h.writer id x₀ hx₀
  cases input with
  | powerLoss back junk =>
      refine ⟨fun t ht => ?_, fun p hp => (by cases hp), hwriter⟩
      obtain ⟨puts, hputs, hheld⟩ := store_powerLoss hsound hrecorded back junk
      have hstore := hheld t ht
      change A t ((w.volume.step tmp (.powerLoss back junk)).store t)
      rw [hstore]
      exact h.putAll hputs ht
  | create | write | flush | stop | openFile | read =>
      refine ⟨h.origin, fun p hp => ?_, hwriter⟩
      have hp : p ∈ w.puts ++ [] := hp
      rw [List.append_nil] at hp
      exact h.puts p hp
  | rename id =>
      refine ⟨h.origin, fun p hp => ?_, hwriter⟩
      rcases List.mem_append.1 hp with hp | hp
      · exact h.puts p hp
      · obtain ⟨x, hx, rfl⟩ := hsound.whole_of_put (Option.mem_toList.1 hp)
        exact h.writer id x hx

/-- **What files hold, and readers get, is what was there at first or what some call was to
write**, over power losses. -/
theorem replaced_from (htmp : TempNames tmp T) {A : F → Option (List UInt8) → Prop}
    {v : Volume F} (hrest : v.AtRest tmp T) {inputs : List (VolumeInput F)}
    (hone : Along (step tmp) (fun w input => w.volume.OneWriter T input) (start v) inputs)
    (hfirst : ∀ t, T t → A t (v.store t))
    (hcreated : ∀ id t whole, .create id t whole ∈ inputs → A t (some whole)) :
    let w := run (step tmp) (start v) inputs
    (∀ t, T t → A t (w.volume.store t)) ∧
    ∀ id r, w.volume.readers.get? id = some r → r.atEnd = true → A r.file (some r.got) := by
  intro w
  have hcreates : Along (step tmp) (fun _ i => ∀ id t whole, i = .create id t whole →
      A t (some whole)) (start v) inputs :=
    Along.of_forall (fun i hi id t whole heq => by
      rw [heq] at hi
      exact hcreated id t whole hi) _
  have hstart : (start v).Supplied T A := by
    refine ⟨hfirst, fun p hp => (by cases hp), fun id x hx => ?_⟩
    have hmem := KeyMap.mem_entries.2 hx
    rw [start, hrest.writers] at hmem
    cases hmem
  obtain ⟨hsound, hrecorded, hsupplied⟩ := (hone.and hcreates).invariant
    (P := fun w : Traced F => w.volume.Sound tmp T ∧ w.Recorded T ∧ w.Supplied T A)
    (fun w input h hi => by
      rw [volume_step]
      exact ⟨h.1.step htmp hi.1, h.2.1.step h.1 htmp hi.1, h.2.2.step h.1 h.2.1 hi.2⟩)
    ⟨hrest.sound, recorded_start hrest.past hrest.readers, hstart⟩
  refine ⟨fun t ht => ?_, fun id r hr hend => ?_⟩
  · have hstore : w.volume.store t = putAll w.origin w.puts t := hrecorded.current t ht
    rw [hstore]
    exact hsupplied.putAll List.prefix_rfl ht
  · obtain ⟨puts, hputs, hwhole⟩ := hrecorded.reader id r hr
    have hat := hsound.reader id r hr
    rw [hat.atEnd hend, ← hwhole]
    exact hsupplied.putAll hputs hat.used

end Traced

end Lib
end Hextet
