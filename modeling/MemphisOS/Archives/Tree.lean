import MemphisOS.Backup.Restore
import MemphisOS.Ecma.Base64
import MemphisOS.Files.Paths

/-!
# Directory trees and what an archive takes of them

An archive is made by `tar` with patterns of what to leave out, or, when `tar` cannot be executed,
by a recursive collector with a predicate of its own. Both walk through the tree and do not enter
what they leave out.
-/

namespace MemphisOS.Archives

open Ecma Files
open Backup (isLock excludedNames)

/-! ## Trees -/

/-- An entry of a directory. What is neither a file nor a directory is stored by `tar` unless it is
a socket. -/
inductive Tree where
  | file (bytes : List UInt8)
  | dir (entries : List (JsString × Tree))
  | other (stored : Bool)

mutual

/-- The names below an entry are names, and different in one directory. -/
def Tree.Named : Tree → Prop
  | .dir entries => NamedEntries entries
  | _ => True

def NamedEntries : List (JsString × Tree) → Prop
  | [] => True
  | (name, node) :: entries =>
    Paths.IsSegment name ∧ (∀ entry ∈ entries, entry.1 ≠ name) ∧ node.Named ∧ NamedEntries entries

end

/-- An entry is at a path below some entries. -/
inductive At : List (JsString × Tree) → List JsString → Tree → Prop
  | here {entries : List (JsString × Tree)} {name : JsString} {node : Tree} :
      (name, node) ∈ entries → At entries [name] node
  | inside {entries children : List (JsString × Tree)} {name : JsString} {path : List JsString}
      {node : Tree} : (name, .dir children) ∈ entries → At children path node →
      At entries (name :: path) node

/-! ## The collector -/

inductive EntryKind where
  | dir
  | file
  deriving DecidableEq

/-- `BackupArchiveEntry`. -/
structure BackupArchiveEntry where
  path : JsString
  kind : EntryKind
  contentBase64 : Option JsString

/-- What the collector leaves out. -/
def isSkipped (relativePath name : JsString) : Bool :=
  relativePath = js "." && (name ∈ excludedNames || isLock name)

def entryPath (relativePath name : JsString) : JsString :=
  if relativePath = js "." then name else Paths.join [relativePath, name]

mutual

def Tree.collect (path : JsString) : Tree → List BackupArchiveEntry
  | .file bytes => [⟨path, .file, some (ofText (toBase64 bytes))⟩]
  | .dir entries => ⟨path, .dir, none⟩ :: collectFallbackArchiveEntries path entries
  | .other _ => []

def collectFallbackArchiveEntries (relativePath : JsString) :
    List (JsString × Tree) → List BackupArchiveEntry
  | [] => []
  | (name, node) :: entries =>
    if isSkipped relativePath name then collectFallbackArchiveEntries relativePath entries
    else node.collect (entryPath relativePath name) ++
      collectFallbackArchiveEntries relativePath entries

end

/-! ## Walking -/

mutual

def Tree.walkBelow (skips : List JsString → Bool) (path : List JsString) :
    Tree → List (List JsString × Tree)
  | .dir entries => walk skips path entries
  | _ => []

/-- The entries below a path, without those that are skipped and what is below them. -/
def walk (skips : List JsString → Bool) (path : List JsString) :
    List (JsString × Tree) → List (List JsString × Tree)
  | [] => []
  | (name, node) :: entries =>
    if skips (path ++ [name]) then walk skips path entries
    else (path ++ [name], node) :: node.walkBelow skips (path ++ [name]) ++ walk skips path entries

end

variable {skips : List JsString → Bool} {entries : List (JsString × Tree)} {name : JsString}
  {node t : Tree} {path q : List JsString}

theorem not_at_nil : ¬At [] q t := by
  rintro (h | ⟨h, -⟩) <;> cases h

/-- A path leads to the first entry, below it, or elsewhere. -/
theorem at_cons : At ((name, node) :: entries) q t ↔
    (q = [name] ∧ t = node) ∨
      (∃ children rest, node = .dir children ∧ q = name :: rest ∧ At children rest t) ∨
      At entries q t := by
  constructor
  · rintro (h | ⟨h, hrest⟩)
    · rcases List.mem_cons.mp h with heq | h
      · obtain ⟨rfl, rfl⟩ := Prod.mk.inj heq
        exact .inl ⟨rfl, rfl⟩
      · exact .inr (.inr (.here h))
    · rcases List.mem_cons.mp h with heq | h
      · obtain ⟨rfl, rfl⟩ := Prod.mk.inj heq
        exact .inr (.inl ⟨_, _, rfl, rfl, hrest⟩)
      · exact .inr (.inr (.inside h hrest))
  · rintro (⟨rfl, rfl⟩ | ⟨children, rest, rfl, rfl, hrest⟩ | h)
    · exact .here List.mem_cons_self
    · exact .inside List.mem_cons_self hrest
    · cases h with
      | here h => exact .here (List.mem_cons_of_mem _ h)
      | inside h hrest => exact .inside (List.mem_cons_of_mem _ h) hrest

theorem At.ne_nil (h : At entries q t) : q ≠ [] := by
  cases h <;> exact List.cons_ne_nil _ _

/-- Nothing on the way to a path is skipped. -/
def Reached (skips : List JsString → Bool) (path q : List JsString) : Prop :=
  ∀ step, step ≠ [] → step <+: q → skips (path ++ step) = false

theorem reached_singleton : Reached skips path [name] ↔ skips (path ++ [name]) = false := by
  constructor
  · exact fun h => h [name] (List.cons_ne_nil _ _) List.prefix_rfl
  · intro h step hne hstep
    rcases List.prefix_cons_iff.mp hstep with rfl | ⟨rest, rfl, hrest⟩
    · exact absurd rfl hne
    · rw [List.prefix_nil.mp hrest]
      exact h

theorem reached_cons : Reached skips path (name :: q) ↔
    skips (path ++ [name]) = false ∧ Reached skips (path ++ [name]) q := by
  constructor
  · intro h
    refine ⟨h [name] (List.cons_ne_nil _ _) (by simp), fun step _ hstep => ?_⟩
    rw [List.append_assoc]
    exact h (name :: step) (List.cons_ne_nil _ _) (List.cons_prefix_cons.mpr ⟨rfl, hstep⟩)
  · rintro ⟨hname, hrest⟩ step hne hstep
    rcases List.prefix_cons_iff.mp hstep with rfl | ⟨rest, rfl, hstep⟩
    · exact absurd rfl hne
    · cases rest with
      | nil => exact hname
      | cons s rest =>
        have h := hrest (s :: rest) (List.cons_ne_nil _ _) (List.cons_prefix_cons.mp hstep).2
        rwa [List.append_assoc] at h

mutual

theorem Tree.mem_walkBelow (skips : List JsString → Bool) (path p : List JsString) (t : Tree) :
    ∀ node : Tree, (p, t) ∈ node.walkBelow skips path ↔
      ∃ children q, node = .dir children ∧ p = path ++ q ∧ At children q t ∧ Reached skips path q
  | .file bytes => by simp [Tree.walkBelow]
  | .other stored => by simp [Tree.walkBelow]
  | .dir children => by
    rw [Tree.walkBelow, mem_walk skips path p t children]
    constructor
    · rintro ⟨q, h⟩
      exact ⟨children, q, rfl, h⟩
    · rintro ⟨children', q, heq, h⟩
      obtain rfl := Tree.dir.inj heq
      exact ⟨q, h⟩

/-- **The walk reaches the entries that have nothing skipped on the way to them.** -/
theorem mem_walk (skips : List JsString → Bool) (path p : List JsString) (t : Tree) :
    ∀ entries : List (JsString × Tree), (p, t) ∈ walk skips path entries ↔
      ∃ q, p = path ++ q ∧ At entries q t ∧ Reached skips path q
  | [] => by simp [walk, not_at_nil]
  | (name, node) :: entries => by
    have hrest := mem_walk skips path p t entries
    have hbelow := Tree.mem_walkBelow skips (path ++ [name]) p t node
    rw [walk]
    by_cases hskip : skips (path ++ [name]) = true
    · rw [if_pos hskip, hrest]
      refine exists_congr fun q => and_congr_right fun _ => and_congr_left fun hreached => ?_
      rw [at_cons]
      refine ⟨fun h => .inr (.inr h), ?_⟩
      rintro (⟨rfl, -⟩ | ⟨children, rest, -, rfl, -⟩ | h)
      · rw [reached_singleton, hskip] at hreached
        cases hreached
      · rw [reached_cons, hskip] at hreached
        cases hreached.1
      · exact h
    · rw [if_neg hskip, List.mem_append, List.mem_cons, hbelow, hrest]
      rw [Bool.not_eq_true] at hskip
      constructor
      · rintro ((heq | ⟨children, q, rfl, rfl, hat, hreached⟩) | ⟨q, rfl, hat, hreached⟩)
        · obtain ⟨rfl, rfl⟩ := Prod.mk.inj heq
          exact ⟨[name], rfl, at_cons.mpr (.inl ⟨rfl, rfl⟩), reached_singleton.mpr hskip⟩
        · exact ⟨name :: q, List.append_assoc _ _ _,
            at_cons.mpr (.inr (.inl ⟨children, q, rfl, rfl, hat⟩)),
            reached_cons.mpr ⟨hskip, hreached⟩⟩
        · exact ⟨q, rfl, at_cons.mpr (.inr (.inr hat)), hreached⟩
      · rintro ⟨q, rfl, hat, hreached⟩
        rcases at_cons.mp hat with ⟨rfl, rfl⟩ | ⟨children, rest, rfl, rfl, hinside⟩ | hrest'
        · exact .inl (.inl rfl)
        · exact .inl (.inr ⟨children, rest, rfl, by simp, hinside, (reached_cons.mp hreached).2⟩)
        · exact .inr ⟨q, rfl, hrest', hreached⟩

end

/-! ## The collector is a walk -/

/-- A relative path. -/
def relativeText (path : List JsString) : JsString :=
  if path = [] then js "." else [Paths.sep].intercalate path

/-- What the collector leaves out, by its path. -/
def collectorSkips : List JsString → Bool
  | [name] => name ∈ excludedNames || isLock name
  | _ => false

/-- The entry of the archive for an entry of the tree. -/
def toEntry : List JsString × Tree → Option BackupArchiveEntry
  | (path, .file bytes) => some ⟨relativeText path, .file, some (ofText (toBase64 bytes))⟩
  | (path, .dir _) => some ⟨relativeText path, .dir, none⟩
  | (_, .other _) => none

theorem relativeText_ne_dot (h : ∀ s ∈ path, Paths.IsSegment s) (hne : path ≠ []) :
    relativeText path ≠ js "." := by
  rw [relativeText, if_neg hne]
  intro heq
  have hsplit := List.splitOn_intercalate Paths.sep (fun s hs => (h s hs).no_sep) hne
  rw [heq, List.splitOn_eq_singleton (by decide)] at hsplit
  exact (h (js ".") (hsplit ▸ List.mem_cons_self)).ne_dot rfl

theorem entryPath_relativeText (h : ∀ s ∈ path, Paths.IsSegment s) (hname : Paths.IsSegment name) :
    entryPath (relativeText path) name = relativeText (path ++ [name]) := by
  rw [entryPath]
  by_cases hne : path = []
  · subst hne
    have hroot : relativeText [] = js "." := rfl
    rw [if_pos hroot, List.nil_append, relativeText, if_neg (List.cons_ne_nil _ _),
      List.intercalate_singleton]
  · rw [if_neg (relativeText_ne_dot h hne), relativeText, if_neg hne, relativeText,
      if_neg (List.concat_ne_nil _ _), Paths.join_relative h hne hname]

theorem isSkipped_relativeText (h : ∀ s ∈ path, Paths.IsSegment s) (name : JsString) :
    isSkipped (relativeText path) name = collectorSkips (path ++ [name]) := by
  cases path with
  | nil => rfl
  | cons s rest =>
    have hskips : collectorSkips (s :: rest ++ [name]) = false := by
      cases rest <;> rfl
    rw [isSkipped, hskips, decide_eq_false (relativeText_ne_dot h (List.cons_ne_nil _ _)),
      Bool.false_and]

mutual

theorem Tree.collect_eq (path : List JsString) (hpath : ∀ s ∈ path, Paths.IsSegment s) :
    ∀ node : Tree, node.Named → node.collect (relativeText path) =
      ((path, node) :: node.walkBelow collectorSkips path).filterMap toEntry
  | .file bytes, _ => by simp [Tree.collect, Tree.walkBelow, toEntry]
  | .other stored, _ => by simp [Tree.collect, Tree.walkBelow, toEntry]
  | .dir children, h => by
    rw [Tree.Named] at h
    rw [Tree.collect, Tree.walkBelow, collect_eq path hpath children h, List.filterMap_cons]
    rfl

/-- **The collector lists the entries of a walk.** -/
theorem collect_eq (path : List JsString) (hpath : ∀ s ∈ path, Paths.IsSegment s) :
    ∀ entries : List (JsString × Tree), NamedEntries entries →
      collectFallbackArchiveEntries (relativeText path) entries =
        (walk collectorSkips path entries).filterMap toEntry
  | [], _ => by simp [collectFallbackArchiveEntries, walk]
  | (name, node) :: entries, h => by
    rw [NamedEntries] at h
    obtain ⟨hname, -, hnode, hentries⟩ := h
    have hnext : ∀ s ∈ path ++ [name], Paths.IsSegment s := by
      intro s hs
      rcases List.mem_append.mp hs with hs | hs
      · exact hpath s hs
      · exact List.mem_singleton.mp hs ▸ hname
    rw [collectFallbackArchiveEntries, walk, isSkipped_relativeText hpath,
      entryPath_relativeText hpath hname, collect_eq path hpath entries hentries,
      Tree.collect_eq (path ++ [name]) hnext node hnode]
    split
    · rfl
    · rw [List.filterMap_append]

end

end MemphisOS.Archives
