/-
# The path of the key file

A configuration names its key file: `key_file_ref_for_config` (`bootstrap.rs`) writes the
key's path below the directory of the configuration if it is there, and otherwise the
path as it was given; `load_config_and_identity` (`config.rs`) joins a relative name to
the directory of the configuration (`identityPath`).

A path is followed from the working directory component by component
(`PathBuf.resolve`, in a tree without symbolic links).  The two functions undo each
other for a key below the configuration's directory and for an absolute one.  A relative
key elsewhere is written as it is and then looked up from another directory, so that
**the reference leads back to the key exactly when the two directories agree above what
the key's path climbs** (`keyFileRef_resolves_iff`).
-/

import Hextet.Core.Bootstrap
import Hextet.Lib.Walk

namespace Hextet

open Lib

/-! ### Following a path -/

/-- The move of a component; the root is where an absolute path starts. -/
def Component.move : Component → Move PathBuf
  | rootDir => .stay
  | curDir => .stay
  | parentDir => .up
  | normal name => .down name

namespace PathBuf

/-- The file a path names, seen from a working directory. -/
def resolve (cwd : List PathBuf) (p : PathBuf) : List PathBuf :=
  walk (if p.hasRoot then [] else cwd) (p.components.map Component.move)

/-- How far a path climbs above the directory it starts from. -/
def climb (p : PathBuf) : ℕ := Lib.climb (p.components.map Component.move)

/-- `Path::is_relative`. -/
def isRelative (p : PathBuf) : Bool := !p.hasRoot

/-- `Path::join`: an absolute path replaces, a relative one comes after a separator. -/
def push (base p : PathBuf) : PathBuf :=
  if p.hasRoot then p
  else if base = [] ∨ base.getLast? = some (.char '/') then base ++ p
  else base ++ .char '/' :: p

/-- A path is strictly below a directory, component by component. -/
def IsBelow (p dir : PathBuf) : Prop :=
  dir.components <+: p.components ∧ dir.components ≠ p.components

end PathBuf

/-- The directory of a configuration file. -/
def configDir (configPath : PathBuf) : PathBuf := configPath.parent.getD [.char '.']

/-- The key path that `load_config_and_identity` computes. -/
def identityPath (configPath keyFile : PathBuf) : PathBuf :=
  if keyFile.isRelative then (configDir configPath).push keyFile else keyFile

namespace PathBuf

/-! ### Pieces and components -/

/-- The pieces that are components. -/
def kept (ps : List PathBuf) : List PathBuf := ps.filter fun q => !isSkipped q

/-- The components of a path after the root or the leading dot. -/
def body (p : PathBuf) : List Component := (kept p.pieces).map component

/-- The root or the leading dot of a path. -/
def lead (p : PathBuf) : List Component :=
  if p.hasRoot then [.rootDir] else if p.pieces.head? == some [.char '.'] then [.curDir] else []

theorem components_eq (p : PathBuf) : p.components = p.lead ++ p.body := rfl

/-- The moves of some pieces. -/
def moves (ps : List PathBuf) : List (Move PathBuf) := (kept ps).map fun q => (component q).move

theorem walk_components (d : List PathBuf) (p : PathBuf) :
    walk d (p.components.map Component.move) = walk d (moves p.pieces) := by
  have hlead : walk d (p.lead.map Component.move) = d := by
    unfold lead
    split_ifs <;> rfl
  rw [components_eq, List.map_append, walk_append, hlead, body, List.map_map]
  rfl

theorem resolve_eq (cwd : List PathBuf) (p : PathBuf) :
    p.resolve cwd = walk (if p.hasRoot then [] else cwd) (moves p.pieces) := walk_components _ p

theorem kept_append (ps qs : List PathBuf) : kept (ps ++ qs) = kept ps ++ kept qs :=
  List.filter_append ..

theorem moves_append (ps qs : List PathBuf) : moves (ps ++ qs) = moves ps ++ moves qs := by
  rw [moves, kept_append, List.map_append]
  rfl

theorem kept_dropWhile (ps : List PathBuf) : kept (ps.dropWhile isSkipped) = kept ps := by
  induction ps with
  | nil => rfl
  | cons q ps ih =>
      by_cases hq : isSkipped q = true
      · simp [kept, hq] at ih ⊢
        exact ih
      · rw [List.dropWhile_cons_of_neg hq]

theorem kept_rdropWhile (ps : List PathBuf) :
    kept (ps.reverse.dropWhile isSkipped).reverse = kept ps := by
  have h := kept_dropWhile ps.reverse
  simp only [kept, List.filter_reverse] at h ⊢
  rw [h, List.reverse_reverse]

/-- Dropping pieces at the end drops no component. -/
theorem kept_trimRight (root : Bool) (ps : List PathBuf) : kept (trimRight root ps) = kept ps := by
  rw [trimRight]
  split_ifs with h
  · have hnil : (ps.reverse.dropWhile isSkipped).reverse = [] := by
      simp only [Bool.and_eq_true, decide_eq_true_eq] at h
      exact h.1.1
    rw [← kept_rdropWhile ps, hnil]
    rfl
  · exact kept_rdropWhile ps

theorem kept_dropPieces (k : ℕ) (ps : List PathBuf) :
    kept (dropPieces k ps) = (kept ps).drop k := by
  fun_induction dropPieces k ps with
  | case1 => rfl
  | case2 => simp [kept]
  | case3 k q ps hq ih =>
      rw [ih]
      simp [kept, hq]
  | case4 k q ps hq ih =>
      rw [ih]
      simp [kept, hq]

/-! ### Joining pieces -/

/-- A separator. -/
abbrev sep : OsChar := .char '/'

theorem sep_not_mem_splitOn {p q : PathBuf} (h : q ∈ p.splitOn sep) : sep ∉ q := by
  induction p generalizing q with
  | nil =>
      rw [List.splitOn_nil, List.mem_singleton] at h
      rw [h]
      exact List.not_mem_nil
  | cons c p ih =>
      rw [List.splitOn_cons_eq_if_modifyHead] at h
      obtain ⟨x, xs, hsplit⟩ := List.exists_cons_of_ne_nil (List.splitOn_ne_nil sep p)
      rw [hsplit] at h ih
      split_ifs at h with hc
      · rcases List.mem_cons.1 h with rfl | h
        · exact List.not_mem_nil
        · exact ih h
      · rw [List.modifyHead_cons] at h
        rcases List.mem_cons.1 h with rfl | h
        · rw [List.mem_cons, not_or]
          exact ⟨fun heq => hc (by simp [heq]), ih List.mem_cons_self⟩
        · exact ih (List.mem_cons_of_mem _ h)

theorem sep_not_mem_pieces {p q : PathBuf} (h : q ∈ p.pieces) : sep ∉ q := by
  unfold pieces at h
  split_ifs at h
  · exact sep_not_mem_splitOn (List.mem_of_mem_tail h)
  · exact sep_not_mem_splitOn h

/-- Only the empty path starts with an empty piece and has no root. -/
theorem head?_pieces {p : PathBuf} (hroot : p.hasRoot = false) (hp : p ≠ []) :
    p.pieces.head? ≠ some [] := by
  obtain ⟨c, p, rfl⟩ := List.exists_cons_of_ne_nil hp
  have hc : (c == sep) = false := by simpa [hasRoot] using hroot
  obtain ⟨x, xs, hsplit⟩ := List.exists_cons_of_ne_nil (List.splitOn_ne_nil sep p)
  rw [pieces, hroot, if_neg (by decide), List.splitOn_cons_eq_if_modifyHead, hc, hsplit]
  simp

theorem head?_trimRight (root : Bool) (ps : List PathBuf) :
    trimRight root ps = [] ∨ (trimRight root ps).head? = ps.head? := by
  rw [trimRight]
  split_ifs with h
  · right
    simp only [Bool.and_eq_true, beq_iff_eq] at h
    rw [h.2]
    rfl
  · have hpre : (ps.reverse.dropWhile isSkipped).reverse <+: ps := by
      have := List.reverse_prefix.2 (List.dropWhile_suffix isSkipped (l := ps.reverse))
      rwa [List.reverse_reverse] at this
    obtain ⟨rest, hrest⟩ := hpre
    cases hkept : (ps.reverse.dropWhile isSkipped).reverse with
    | nil => exact Or.inl rfl
    | cons q qs =>
        rw [← hrest, hkept]
        exact Or.inr rfl

theorem mem_of_mem_trimRight {root : Bool} {ps : List PathBuf} {q : PathBuf}
    (h : q ∈ trimRight root ps) : q ∈ ps := by
  rw [trimRight] at h
  split_ifs at h with hdot
  · simp only [Bool.and_eq_true, beq_iff_eq] at hdot
    rw [List.mem_singleton.1 h]
    exact List.mem_of_head? hdot.2
  · have := (List.dropWhile_suffix isSkipped).subset (List.mem_reverse.1 h)
    exact List.mem_reverse.1 this

/-- Pieces that can be read back from the path they make. -/
structure Joinable (root : Bool) (ps : List PathBuf) : Prop where
  noSep : ∀ q ∈ ps, sep ∉ q
  head : root = false → ps.head? ≠ some []

theorem Joinable.hasRoot_join {root : Bool} {ps : List PathBuf} (h : Joinable root ps) :
    (join root ps).hasRoot = root := by
  cases root with
  | true => rfl
  | false =>
      cases ps with
      | nil => rfl
      | cons q ps =>
          cases q with
          | nil => exact absurd rfl (h.head rfl)
          | cons c q =>
              have hc : c ≠ sep := fun heq =>
                h.noSep (c :: q) List.mem_cons_self (heq ▸ List.mem_cons_self)
              cases ps with
              | nil => simpa [join, hasRoot, List.intercalate] using hc
              | cons q' ps => simpa [join, hasRoot, List.intercalate] using hc

theorem Joinable.kept_pieces {root : Bool} {ps : List PathBuf} (h : Joinable root ps) :
    kept (join root ps).pieces = kept ps := by
  have hsplit : kept (([sep].intercalate ps).splitOn sep) = kept ps := by
    by_cases hps : ps = []
    · rw [hps]
      rfl
    · rw [List.splitOn_intercalate _ h.noSep hps]
  rw [pieces, h.hasRoot_join]
  cases root with
  | true =>
      have hcons : (join true ps).splitOn sep = [] :: ([sep].intercalate ps).splitOn sep :=
        List.splitOn_append_cons_self (a := sep) [] ([sep].intercalate ps)
      rw [if_pos rfl, hcons]
      exact hsplit
  | false => exact hsplit

theorem Joinable.resolve_join {root : Bool} {ps : List PathBuf} (h : Joinable root ps)
    (cwd : List PathBuf) :
    (join root ps).resolve cwd = walk (if root then [] else cwd) (moves ps) := by
  rw [resolve_eq, h.hasRoot_join, moves, moves, h.kept_pieces]

/-! ### Joining paths -/

theorem hasRoot_append {b : PathBuf} (h : b ≠ []) (p : PathBuf) :
    (b ++ p).hasRoot = b.hasRoot := by
  obtain ⟨c, b, rfl⟩ := List.exists_cons_of_ne_nil h
  rfl

/-- The pieces of two paths with a separator in between. -/
theorem pieces_append_sep {b : PathBuf} (h : b ≠ []) (p : PathBuf) :
    (b ++ sep :: p).pieces = b.pieces ++ p.splitOn sep := by
  rw [pieces, hasRoot_append h, pieces, List.splitOn_append_cons_self]
  split_ifs
  · exact List.tail_append_of_ne_nil (List.splitOn_ne_nil sep b)
  · rfl

theorem pieces_of_relative {p : PathBuf} (h : p.hasRoot = false) : p.pieces = p.splitOn sep := by
  rw [pieces, h]
  rfl

/-- A relative path that is joined is followed from the directory it is joined to. -/
theorem resolve_push {p : PathBuf} (h : p.hasRoot = false) (cwd : List PathBuf) (base : PathBuf) :
    (base.push p).resolve cwd = walk (base.resolve cwd) (p.components.map Component.move) := by
  rw [walk_components, push, h, if_neg (by decide)]
  split_ifs with hbase
  · rcases hbase with rfl | hlast
    · -- nothing is the working directory
      rw [List.nil_append, resolve_eq, h]
      rfl
    · obtain ⟨b, rfl⟩ := List.getLast?_eq_some_iff.1 hlast
      have happ : b ++ [sep] ++ p = b ++ sep :: p := by simp
      have hnil : moves [([] : PathBuf)] = [] := rfl
      rw [happ, resolve_eq, resolve_eq, pieces_of_relative h]
      cases b with
      | nil =>
          have hp : PathBuf.pieces ([] ++ sep :: p) = p.splitOn sep := by
            rw [pieces, List.splitOn_append_cons_self]
            rfl
          rw [hp]
          rfl
      | cons c b =>
          have hc : (c :: b : PathBuf) ≠ [] := List.cons_ne_nil c b
          rw [pieces_append_sep hc, pieces_append_sep hc, hasRoot_append hc, hasRoot_append hc,
            List.splitOn_nil, moves_append, moves_append, hnil, List.append_nil, walk_append]
  · rw [not_or] at hbase
    rw [resolve_eq, resolve_eq, pieces_append_sep hbase.1, hasRoot_append hbase.1, moves_append,
      walk_append, pieces_of_relative h]

/-! ### Stripping a directory -/

theorem Joinable.trimRight {root : Bool} {ps : List PathBuf} (h : Joinable root ps) :
    Joinable root (trimRight root ps) where
  noSep := fun q hq => h.noSep q (mem_of_mem_trimRight hq)
  head := by
    intro hroot
    rcases head?_trimRight root ps with hnil | hhead
    · rw [hnil]
      exact fun heq => by cases heq
    · rw [hhead]
      exact h.head hroot

theorem mem_of_mem_dropPieces {k : ℕ} {ps : List PathBuf} {q : PathBuf}
    (h : q ∈ dropPieces k ps) : q ∈ ps := by
  fun_induction dropPieces k ps with
  | case1 => exact h
  | case2 => exact h
  | case3 k q' ps hq ih => exact List.mem_cons_of_mem _ (ih h)
  | case4 k q' ps hq ih => exact List.mem_cons_of_mem _ (ih h)

/-- The pieces after a directory can be joined to a relative path. -/
theorem joinable_dropWhile {ps : List PathBuf} (h : ∀ q ∈ ps, sep ∉ q) :
    Joinable false (ps.dropWhile isSkipped) where
  noSep := fun q hq => h q ((List.dropWhile_suffix _).subset hq)
  head := by
    intro _ hhead
    obtain ⟨rest, hrest⟩ := List.head?_eq_some_iff.1 hhead
    have := List.head_dropWhile_not isSkipped (l := ps) (by simp [hrest])
    simp [hrest, isSkipped] at this

theorem joinable_pieces {p : PathBuf} (hp : p ≠ []) : Joinable p.hasRoot p.pieces where
  noSep := fun _ hq => sep_not_mem_pieces hq
  head := fun hroot => head?_pieces hroot hp

/-- A component of a body is a name or a way up. -/
theorem component_ne (q : PathBuf) : component q ≠ .rootDir ∧ component q ≠ .curDir := by
  unfold component
  split_ifs <;> simp

theorem mem_body {p : PathBuf} {c : Component} (h : c ∈ p.body) : c ≠ .rootDir ∧ c ≠ .curDir := by
  obtain ⟨q, -, rfl⟩ := List.mem_map.1 h
  exact component_ne q

theorem lead_cases (p : PathBuf) :
    p.hasRoot = true ∧ p.lead = [.rootDir] ∨ p.hasRoot = false ∧ p.lead = [.curDir] ∨
      p.hasRoot = false ∧ p.lead = [] := by
  rw [lead]
  by_cases hroot : p.hasRoot = true
  · exact Or.inl ⟨hroot, if_pos hroot⟩
  · have hfalse : p.hasRoot = false := by simpa using hroot
    rw [if_neg hroot]
    split_ifs
    · exact Or.inr (Or.inl ⟨hfalse, rfl⟩)
    · exact Or.inr (Or.inr ⟨hfalse, rfl⟩)

theorem hasRoot_iff (p : PathBuf) : p.hasRoot = true ↔ p.lead = [.rootDir] := by
  rcases lead_cases p with ⟨hroot, hlead⟩ | ⟨hroot, hlead⟩ | ⟨hroot, hlead⟩ <;> simp [hroot, hlead]

/-- A list of components tells its lead from its body. -/
theorem lead_eq_of_append {p dir : PathBuf} {rest : List Component} (hdir : dir.components ≠ [])
    (h : dir.components ++ rest = p.components) : dir.lead = p.lead := by
  have hbody : ∀ {q : PathBuf} {c : Component}, q.lead = [] → q.components.head? = some c →
      c ≠ .rootDir ∧ c ≠ .curDir := by
    intro q c hq hc
    rw [components_eq, hq, List.nil_append] at hc
    exact mem_body (List.mem_of_head? hc)
  have hhead : ∀ {q : PathBuf} {c : Component}, q.lead = [c] → q.components.head? = some c := by
    intro q c hq
    rw [components_eq, hq]
    rfl
  have hne : p.components.head? = dir.components.head? := by
    obtain ⟨c', cs, hcs⟩ := List.exists_cons_of_ne_nil hdir
    rw [← h, hcs]
    rfl
  rcases lead_cases dir with ⟨-, hd⟩ | ⟨-, hd⟩ | ⟨-, hd⟩ <;>
    rcases lead_cases p with ⟨-, hp⟩ | ⟨-, hp⟩ | ⟨-, hp⟩
  · rw [hd, hp]
  · rw [hhead hd, hhead hp] at hne
    cases hne
  · exact absurd rfl (hbody hp (hne.trans (hhead hd))).1
  · rw [hhead hd, hhead hp] at hne
    cases hne
  · rw [hd, hp]
  · exact absurd rfl (hbody hp (hne.trans (hhead hd))).2
  · exact absurd rfl (hbody hd (hne.symm.trans (hhead hp))).1
  · exact absurd rfl (hbody hd (hne.symm.trans (hhead hp))).2
  · rw [hd, hp]

/-- **A path below a directory starts as the directory does and goes on after it.** -/
theorem body_of_prefix {p dir : PathBuf} (hdir : dir.components ≠ [])
    (h : dir.components <+: p.components) :
    dir.hasRoot = p.hasRoot ∧ dir.lead = p.lead ∧ dir.body <+: p.body := by
  obtain ⟨rest, hrest⟩ := h
  have hlead := lead_eq_of_append hdir hrest
  refine ⟨?_, hlead, rest, ?_⟩
  · rw [Bool.eq_iff_iff, hasRoot_iff, hasRoot_iff, hlead]
  · rw [components_eq, components_eq, hlead, List.append_assoc] at hrest
    exact List.append_cancel_left hrest

/-- The pieces that stripping a directory leaves. -/
def rest (p dir : PathBuf) : List PathBuf :=
  trimRight false ((dropPieces (kept dir.pieces).length p.pieces).dropWhile isSkipped)

theorem joinable_rest (p dir : PathBuf) : Joinable false (rest p dir) :=
  (joinable_dropWhile fun _ hq => sep_not_mem_pieces (mem_of_mem_dropPieces hq)).trimRight

theorem kept_rest (p dir : PathBuf) :
    kept (rest p dir) = (kept p.pieces).drop (kept dir.pieces).length := by
  rw [rest, kept_trimRight, kept_dropWhile, kept_dropPieces]

/-- Stripping leaves nothing exactly when it leaves no component. -/
theorem join_rest_eq_nil (p dir : PathBuf) :
    join false (rest p dir) = [] ↔ kept (rest p dir) = [] := by
  constructor
  · intro h
    rw [← (joinable_rest p dir).kept_pieces, h]
    rfl
  · intro h
    rw [rest, kept_trimRight, kept_dropWhile] at h
    have hdrop : (dropPieces (kept dir.pieces).length p.pieces).dropWhile isSkipped = [] := by
      rw [List.dropWhile_eq_nil_iff]
      intro q hq
      simpa using List.filter_eq_nil_iff.1 h q hq
    rw [rest, hdrop]
    rfl

theorem stripPrefix_eq {p dir : PathBuf} (hdir : dir.components ≠ [])
    (h : dir.components <+: p.components) : p.stripPrefix dir = some (join false (rest p dir)) := by
  rw [stripPrefix, if_neg hdir, if_pos (List.isPrefixOf_iff_prefix.2 h)]
  rfl

theorem stripPrefix_eq_none {p dir : PathBuf} (h : ¬dir.components <+: p.components) :
    p.stripPrefix dir = none := by
  have hdir : dir.components ≠ [] := fun heq => h (heq ▸ List.nil_prefix)
  rw [stripPrefix, if_neg hdir, if_neg fun hpre => h (List.isPrefixOf_iff_prefix.1 hpre)]

theorem body_eq_append {p dir : PathBuf} (h : dir.body <+: p.body) :
    p.body = dir.body ++ (kept (rest p dir)).map component := by
  have hlen : (kept dir.pieces).length = dir.body.length := (List.length_map ..).symm
  rw [kept_rest, hlen, List.map_drop]
  exact (List.prefix_iff_eq_append.1 h).symm

theorem moves_eq (ps : List PathBuf) :
    moves ps = ((kept ps).map component).map Component.move := by
  rw [List.map_map]
  rfl

/-- **What is stripped is found from the directory.** -/
theorem resolve_push_rest {p dir : PathBuf} (hdir : dir.components ≠ [])
    (h : dir.components <+: p.components) (cwd : List PathBuf) :
    (dir.push (join false (rest p dir))).resolve cwd = p.resolve cwd := by
  obtain ⟨hroot, -, hbody⟩ := body_of_prefix hdir h
  have hrest := (joinable_rest p dir).kept_pieces
  have hmoves : moves p.pieces = moves dir.pieces ++ moves (rest p dir) := by
    rw [moves_eq, moves_eq, moves_eq]
    change List.map _ p.body = List.map _ dir.body ++ _
    rw [body_eq_append hbody, List.map_append]
  rw [resolve_push (joinable_rest p dir).hasRoot_join, walk_components, moves, hrest, ← moves,
    resolve_eq, resolve_eq, hmoves, walk_append, hroot]

/-- Stripping leaves something exactly when the path is strictly below. -/
theorem join_rest_ne_nil {p dir : PathBuf} (hdir : dir.components ≠ [])
    (h : dir.components <+: p.components) :
    join false (rest p dir) ≠ [] ↔ dir.components ≠ p.components := by
  obtain ⟨-, hlead, hbody⟩ := body_of_prefix hdir h
  rw [Ne, join_rest_eq_nil, not_iff_not, components_eq, components_eq, hlead,
    body_eq_append hbody]
  simp

/-- Stripping nothing keeps the file. -/
theorem resolve_join_trimRight {p : PathBuf} (hp : p ≠ []) (cwd : List PathBuf) :
    (join p.hasRoot (trimRight p.hasRoot p.pieces)).resolve cwd = p.resolve cwd := by
  rw [(joinable_pieces hp).trimRight.resolve_join, resolve_eq, moves, kept_trimRight]
  rfl

/-- A directory without components is the working directory. -/
theorem resolve_of_components_eq_nil {dir : PathBuf} (h : dir.components = [])
    (cwd : List PathBuf) : dir.resolve cwd = cwd := by
  have hroot : dir.hasRoot = false := by
    by_contra hroot
    rw [components_eq, (hasRoot_iff dir).1 (by simpa using hroot)] at h
    cases h
  rw [resolve, hroot, h]
  rfl

end PathBuf

/-! ### The reference to the key -/

open PathBuf

theorem keyFileRef_of_some {configPath keyPath rel : PathBuf}
    (h : keyPath.stripPrefix (configDir configPath) = some rel) :
    keyFileRefForConfig configPath keyPath = if rel = [] then keyPath else rel := by
  unfold configDir at h
  unfold keyFileRefForConfig
  simp only [h]

theorem keyFileRef_of_none {configPath keyPath : PathBuf}
    (h : keyPath.stripPrefix (configDir configPath) = none) :
    keyFileRefForConfig configPath keyPath = keyPath := by
  unfold configDir at h
  unfold keyFileRefForConfig
  simp only [h]

/-- A reference that is the key path itself leads back to it if it is absolute, or if the
two directories agree above what it climbs. -/
theorem resolve_identityPath_self {configPath keyPath : PathBuf} {cwd : List PathBuf} :
    (identityPath configPath keyPath).resolve cwd = keyPath.resolve cwd ↔
      keyPath.hasRoot = true ∨
        ((configDir configPath).resolve cwd).rdrop keyPath.climb = cwd.rdrop keyPath.climb := by
  cases hroot : keyPath.hasRoot with
  | true => simp [identityPath, isRelative, hroot]
  | false =>
      have hpath : identityPath configPath keyPath = (configDir configPath).push keyPath := by
        simp [identityPath, isRelative, hroot]
      have hkey : keyPath.resolve cwd = walk cwd (keyPath.components.map Component.move) := by
        rw [resolve, hroot]
        rfl
      rw [hpath, resolve_push hroot, hkey, walk_eq_walk_iff]
      simp [PathBuf.climb]

/-- From the working directory every reference leads back. -/
theorem resolve_keyFileRef_of_nil {configPath : PathBuf}
    (hdir : (configDir configPath).components = [])
    (keyPath : PathBuf) (cwd : List PathBuf) :
    (identityPath configPath (keyFileRefForConfig configPath keyPath)).resolve cwd =
      keyPath.resolve cwd := by
  have hself : ∀ p, (identityPath configPath p).resolve cwd = p.resolve cwd := by
    intro p
    rw [resolve_identityPath_self, resolve_of_components_eq_nil hdir]
    exact Or.inr rfl
  have hstrip : keyPath.stripPrefix (configDir configPath) =
      some (join keyPath.hasRoot (trimRight keyPath.hasRoot keyPath.pieces)) := if_pos hdir
  rw [hself, keyFileRef_of_some hstrip]
  split_ifs with hnil
  · rfl
  · refine resolve_join_trimRight (fun hkey => hnil ?_) cwd
    rw [hkey]
    rfl

/-- **When the reference leads back to the key.**  From every working directory the path
that is computed from the reference names the key file if and only if the key path is
absolute, or it is below the configuration's directory, or that directory and the
working directory agree above what the key path climbs. -/
theorem keyFileRef_resolves_iff (cwd : List PathBuf) (configPath keyPath : PathBuf) :
    (identityPath configPath (keyFileRefForConfig configPath keyPath)).resolve cwd =
        keyPath.resolve cwd ↔
      keyPath.hasRoot = true ∨ keyPath.IsBelow (configDir configPath) ∨
        ((configDir configPath).resolve cwd).rdrop keyPath.climb = cwd.rdrop keyPath.climb := by
  by_cases hdir : (configDir configPath).components = []
  · simp [resolve_keyFileRef_of_nil hdir, resolve_of_components_eq_nil hdir]
  by_cases hpre : (configDir configPath).components <+: keyPath.components
  · have hstrip := stripPrefix_eq hdir hpre
    by_cases hne : (configDir configPath).components = keyPath.components
    · -- the key path is the directory itself and is written as it is
      have hnil : join false (rest keyPath (configDir configPath)) = [] := by
        by_contra h
        exact (join_rest_ne_nil hdir hpre).1 h hne
      have href : keyFileRefForConfig configPath keyPath = keyPath := by
        rw [keyFileRef_of_some hstrip, if_pos hnil]
      rw [href, resolve_identityPath_self]
      simp [IsBelow, hne]
    · have hrel : join false (rest keyPath (configDir configPath)) ≠ [] :=
        (join_rest_ne_nil hdir hpre).2 hne
      have href : keyFileRefForConfig configPath keyPath =
          join false (rest keyPath (configDir configPath)) := by
        rw [keyFileRef_of_some hstrip, if_neg hrel]
      have hpath : identityPath configPath (keyFileRefForConfig configPath keyPath) =
          (configDir configPath).push (join false (rest keyPath (configDir configPath))) := by
        rw [href, identityPath]
        exact if_pos (by rw [isRelative, (joinable_rest _ _).hasRoot_join, Bool.not_false])
      rw [hpath, resolve_push_rest hdir hpre]
      simp [IsBelow, hpre, hne]
  · have href := keyFileRef_of_none (stripPrefix_eq_none hpre)
    rw [href, resolve_identityPath_self]
    simp [IsBelow, hpre]

/-- The key `k` in the working directory, written to a configuration in `d`, is looked
for as `d/k`. -/
theorem relative_key_elsewhere_is_lost :
    (identityPath [.char 'd', .char '/', .char 'c']
        (keyFileRefForConfig [.char 'd', .char '/', .char 'c'] [.char 'k'])).resolve [] ≠
      PathBuf.resolve [] [.char 'k'] := by
  decide

end Hextet
