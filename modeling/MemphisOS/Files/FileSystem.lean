import MemphisOS.Files.Paths
import Mathlib.Data.List.Infix

/-!
# File systems

A file system without links, as a function from paths to what is there. Directories are made from
the top down, and files are written into directories that are there.
-/

namespace Files

open Ecma

inductive Item where
  | dir
  | file (bytes : List UInt8)
  deriving DecidableEq

/-- What is at a path, which is given by its names. -/
abbrev FileSystem := List JsString → Option Item

namespace FileSystem

/-- The root is a directory, and so is whatever something is in. -/
structure Closed (fs : FileSystem) : Prop where
  root : fs [] = some .dir
  parent : ∀ path name, fs (path ++ [name]) ≠ none → fs path = some .dir

def put (fs : FileSystem) (path : List JsString) (item : Item) : FileSystem :=
  fun other => if other = path then some item else fs other

/-- Make the directories that are missing, below one that is there. -/
def mkdirFrom (fs : FileSystem) (done : List JsString) : List JsString → Option FileSystem
  | [] => some fs
  | name :: rest =>
    match fs (done ++ [name]) with
    | some (.file _) => none
    | some .dir => mkdirFrom fs (done ++ [name]) rest
    | none => mkdirFrom (fs.put (done ++ [name]) .dir) (done ++ [name]) rest

/-- `mkdir` with `recursive: true`. -/
def mkdirAll (fs : FileSystem) (path : List JsString) : Option FileSystem := fs.mkdirFrom [] path

/-- Write a file into a directory that is there. -/
def writeFile (fs : FileSystem) (path : List JsString) (bytes : List UInt8) : Option FileSystem :=
  match fs path.dropLast, fs path with
  | some .dir, some .dir => none
  | some .dir, _ => some (fs.put path (.file bytes))
  | _, _ => none

/-! ## Paths that are given as strings -/

/-- The name on disk: it is stored in UTF-8. -/
def fileName (name : JsString) : JsString := ofText (wellFormed name)

/-- The names on disk of the directories on an absolute path. -/
def namesAt (path : JsString) : List JsString :=
  (Paths.normalSegments false path).map fileName

/-- `mkdirSync` with `recursive: true`. -/
def mkdirSync (fs : FileSystem) (path : JsString) : Option FileSystem :=
  if 0 ∈ path then none else fs.mkdirAll (namesAt path)

def writeFileSync (fs : FileSystem) (path : JsString) (bytes : List UInt8) : Option FileSystem :=
  if 0 ∈ path ∨ path.getLast? = some Paths.sep then none else fs.writeFile (namesAt path) bytes

/-- A name that can be on disk. -/
structure IsFileName (name : JsString) : Prop extends Paths.IsSegment name where
  text : fileName name = name
  no_nul : 0 ∉ name

variable {fs fs' : FileSystem} {path done rest p : List JsString} {name : JsString} {item : Item}
  {bytes : List UInt8}

@[simp] theorem put_self (fs : FileSystem) (path : List JsString) (item : Item) :
    fs.put path item path = some item := if_pos rfl

theorem put_eq_self (h : fs path = some item) : fs.put path item = fs := by
  funext p
  by_cases hp : p = path
  · rw [hp, put_self, h]
  · exact if_neg hp

theorem put_of_ne (h : p ≠ path) : fs.put path item p = fs p := if_neg h

/-! ## Closed file systems -/

/-- Whatever something is below is a directory. -/
theorem Closed.of_prefix (h : fs.Closed) (hne : fs path ≠ none) (hfront : p <+: path)
    (hstrict : p ≠ path) : fs p = some .dir := by
  obtain ⟨below, rfl⟩ := hfront
  induction below using List.reverseRecOn with
  | nil => exact absurd (List.append_nil p).symm hstrict
  | append_singleton below last ih =>
    rw [← List.append_assoc] at hne
    have hparent := h.parent _ _ hne
    by_cases hbelow : p = p ++ below
    · rw [hbelow]
      exact hparent
    · exact ih (by rw [hparent]; exact Option.some_ne_none _) hbelow

/-- An item may be put into a directory where no directory is. -/
theorem Closed.put (h : fs.Closed) (hparent : fs path = some .dir)
    (hfree : fs (path ++ [name]) ≠ some .dir) (item : Item) :
    (fs.put (path ++ [name]) item).Closed := by
  constructor
  · rw [put_of_ne (by simp)]
    exact h.root
  · intro p last hne
    by_cases hsame : p ++ [last] = path ++ [name]
    · obtain ⟨rfl, -⟩ := List.append_inj' hsame rfl
      rw [put_of_ne (by simp)]
      exact hparent
    · rw [put_of_ne hsame] at hne
      have hp := h.parent p last hne
      have hfresh : p ≠ path ++ [name] := by
        rintro rfl
        exact hfree hp
      rw [put_of_ne hfresh]
      exact hp

/-! ## Making directories -/

/-- What making directories does: what was there stays, and directories on the way are new. -/
structure Made (fs fs' : FileSystem) (path : List JsString) : Prop where
  closed : fs'.Closed
  dir : fs' path = some .dir
  kept : ∀ p item, fs p = some item → fs' p = some item
  new : ∀ p, fs p = none → fs' p ≠ none → fs' p = some .dir ∧ p <+: path

theorem mkdirFrom_made (hclosed : fs.Closed) (hdone : fs done = some .dir)
    (h : fs.mkdirFrom done rest = some fs') : Made fs fs' (done ++ rest) := by
  induction rest generalizing fs done with
  | nil =>
    obtain rfl := Option.some.inj h
    rw [List.append_nil]
    exact ⟨hclosed, hdone, fun p item hp => hp, fun p hp hp' => absurd hp hp'⟩
  | cons name rest ih =>
    rw [mkdirFrom] at h
    rw [List.append_cons]
    split at h
    · cases h
    · next hdir => exact ih hclosed hdir h
    · next hnone =>
      have hput := hclosed.put hdone (by rw [hnone]; exact fun h => by cases h) .dir
      have hmade := ih hput (put_self _ _ _) h
      refine ⟨hmade.closed, hmade.dir, fun p item hp => hmade.kept p item ?_, fun p hp hp' => ?_⟩
      · rw [put_of_ne (by rintro rfl; rw [hnone] at hp; cases hp)]
        exact hp
      · by_cases hsame : p = done ++ [name]
        · subst hsame
          exact ⟨hmade.kept _ _ (put_self _ _ _), List.prefix_append _ _⟩
        · exact hmade.new p (by rw [put_of_ne hsame]; exact hp) hp'

theorem mkdirAll_made (hclosed : fs.Closed) (h : fs.mkdirAll path = some fs') :
    Made fs fs' path :=
  mkdirFrom_made hclosed hclosed.root h

theorem mkdirFrom_append (fs : FileSystem) (done : List JsString) (first rest : List JsString) :
    fs.mkdirFrom done (first ++ rest) =
      (fs.mkdirFrom done first).bind fun fs' => fs'.mkdirFrom (done ++ first) rest := by
  induction first generalizing fs done with
  | nil => rw [List.nil_append, List.append_nil]; rfl
  | cons name first ih =>
    rw [List.cons_append, mkdirFrom, mkdirFrom]
    split
    · rfl
    · rw [ih, List.append_cons done name first]
    · rw [ih, List.append_cons done name first]

/-- Nothing is made where a directory is. -/
theorem mkdirAll_of_dir (hclosed : fs.Closed) (h : fs path = some .dir) :
    fs.mkdirAll path = some fs := by
  induction path using List.reverseRecOn with
  | nil => rfl
  | append_singleton path name ih =>
    have hparent := hclosed.parent path name (by rw [h]; exact Option.some_ne_none _)
    rw [mkdirAll, mkdirFrom_append, ← mkdirAll, ih hparent, Option.bind_some, List.nil_append,
      mkdirFrom, h]
    rfl

/-- A directory is made in one that is there. -/
theorem mkdirAll_of_parent (hclosed : fs.Closed) (hparent : fs path = some .dir)
    (hnone : fs (path ++ [name]) = none) :
    fs.mkdirAll (path ++ [name]) = some (fs.put (path ++ [name]) .dir) := by
  rw [mkdirAll, mkdirFrom_append, ← mkdirAll, mkdirAll_of_dir hclosed hparent, Option.bind_some,
    List.nil_append, mkdirFrom, hnone]
  rfl

/-- Directories are made below a directory only. -/
theorem Made.below {root : List JsString} (h : Made fs fs' path) (hclosed : fs.Closed)
    (hroot : fs root = some .dir) (hpath : root <+: path) (hp : fs' p ≠ fs p) :
    root <+: p ∧ p ≠ root := by
  have hnone : fs p = none := by
    by_contra hne
    obtain ⟨item, hitem⟩ := Option.ne_none_iff_exists'.mp hne
    exact hp ((h.kept p item hitem).trans hitem.symm)
  have hpne : p ≠ root := by
    rintro rfl
    rw [hroot] at hnone
    cases hnone
  obtain ⟨-, hfront⟩ := h.new p hnone (by rwa [hnone] at hp)
  refine ⟨?_, hpne⟩
  rcases List.prefix_or_prefix_of_prefix hfront hpath with habove | hbelow
  · have hdir := hclosed.of_prefix (by rw [hroot]; exact Option.some_ne_none _) habove hpne
    rw [hnone] at hdir
    cases hdir
  · exact hbelow

/-! ## Writing files -/

theorem writeFile_eq_some (h : fs.writeFile path bytes = some fs') :
    fs path.dropLast = some .dir ∧ fs path ≠ some .dir ∧ fs' = fs.put path (.file bytes) := by
  unfold writeFile at h
  split at h
  · cases h
  · next hparent hnot => exact ⟨hparent, hnot, (Option.some.inj h).symm⟩
  · cases h

/-- A file is written into a directory that is there. -/
theorem writeFile_of_parent (hparent : fs path = some .dir)
    (hfree : fs (path ++ [name]) ≠ some .dir) (bytes : List UInt8) :
    fs.writeFile (path ++ [name]) bytes = some (fs.put (path ++ [name]) (.file bytes)) := by
  unfold writeFile
  split
  · next hdir => exact absurd hdir hfree
  · rfl
  · next hnot _ => exact absurd ((congrArg fs List.dropLast_concat).trans hparent) hnot

/-- A file that is written leaves the file system closed. -/
theorem Closed.writeFile (hclosed : fs.Closed) (h : fs.writeFile path bytes = some fs') :
    fs'.Closed := by
  obtain ⟨hparent, hfree, rfl⟩ := writeFile_eq_some h
  rcases List.eq_nil_or_concat' path with rfl | ⟨front, last, rfl⟩
  · exact absurd hclosed.root hfree
  · rw [List.dropLast_concat] at hparent
    exact hclosed.put hparent hfree _

/-! ## Paths -/

theorem namesAt_ofSegments {segments : List JsString} (h : ∀ s ∈ segments, Paths.IsSegment s)
    {trail : JsString} (htrail : trail = [] ∨ trail = [Paths.sep]) :
    namesAt (Paths.ofSegments segments ++ trail) = segments.map fileName := by
  rw [namesAt, Paths.normalSegments_ofSegments h htrail]

theorem map_fileName {names : List JsString} (h : ∀ s ∈ names, IsFileName s) :
    names.map fileName = names := by
  rw [List.map_congr_left fun s hs => (h s hs).text, List.map_id']

theorem nul_not_mem_ofSegments {names : List JsString} (h : ∀ s ∈ names, IsFileName s) :
    0 ∉ Paths.ofSegments names := by
  rw [Paths.ofSegments, List.mem_cons, not_or]
  exact ⟨by decide, Paths.not_mem_intercalate (by decide) fun s hs => (h s hs).no_nul⟩

theorem mkdirSync_ofSegments {names : List JsString} (h : ∀ s ∈ names, IsFileName s)
    (fs : FileSystem) : fs.mkdirSync (Paths.ofSegments names) = fs.mkdirAll names := by
  have hnames := @namesAt_ofSegments names (fun s hs => (h s hs).toIsSegment) [] (.inl rfl)
  rw [List.append_nil] at hnames
  rw [mkdirSync, if_neg (nul_not_mem_ofSegments h), hnames, map_fileName h]

theorem writeFileSync_ofSegments {names : List JsString} (h : ∀ s ∈ names, IsFileName s)
    (hne : names ≠ []) (fs : FileSystem) (bytes : List UInt8) :
    fs.writeFileSync (Paths.ofSegments names) bytes = fs.writeFile names bytes := by
  have hsegments : ∀ s ∈ names, Paths.IsSegment s := fun s hs => (h s hs).toIsSegment
  have hnames := @namesAt_ofSegments names hsegments [] (.inl rfl)
  have hlast : (Paths.ofSegments names).getLast? ≠ some Paths.sep := by
    rw [Paths.ofSegments, List.getLast?_cons_of_ne_nil (Paths.intercalate_ne_nil hsegments hne)]
    exact Paths.getLast?_intercalate_ne hsegments hne
  rw [List.append_nil] at hnames
  rw [writeFileSync, if_neg (not_or.mpr ⟨nul_not_mem_ofSegments h, hlast⟩), hnames,
    map_fileName h]

end FileSystem

end Files
