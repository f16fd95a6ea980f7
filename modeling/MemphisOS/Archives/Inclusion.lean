import MemphisOS.Archives.Tree
import MemphisOS.Files.Globs

/-!
# What the two archives include

`tar` leaves out what matches its patterns, and the one for lock files matches at every depth. The
collector looks for lock files in the root only, and takes neither links nor other special files.
-/

namespace MemphisOS.Archives

open Ecma Files
open Backup (isLock excludedNames)

/-- The root directory that is backed up. -/
structure DirectoryTree where
  entries : List (JsString × Tree)
  named : NamedEntries entries

/-! ## The two archives -/

/-- The values of `--exclude`. -/
def excludePatterns : List JsString := [js "./backups", js "./cache", js "./logs", js "*.lock"]

def tarSkips (path : List JsString) : Bool :=
  excludePatterns.any fun pattern => Globs.excludes pattern (Globs.memberName path)

/-- A file, or a special file that `tar` stores. -/
def Tree.storedByTar : Tree → Bool
  | .file _ => true
  | .dir _ => false
  | .other stored => stored

/-- The files of the archive `tar` makes. -/
def tarFiles (tree : DirectoryTree) : List JsString :=
  ((walk tarSkips [] tree.entries).filter fun entry => entry.2.storedByTar).map fun entry =>
    relativeText entry.1

/-- The files of the fallback archive. -/
def fallbackFiles (tree : DirectoryTree) : List JsString :=
  ((collectFallbackArchiveEntries (js ".") tree.entries).filter fun entry =>
    entry.kind = .file).map (·.path)

/-- The files `createArchive` puts into the archive, when `tar` can be executed and when not. -/
def archivedFiles (tarRuns : Bool) (tree : DirectoryTree) : List JsString :=
  if tarRuns then tarFiles tree else fallbackFiles tree

/-! ## Names -/

variable {entries : List (JsString × Tree)} {tree : DirectoryTree} {q q' : List JsString}
  {t t' : Tree} {name path : JsString}

theorem NamedEntries.of_mem {node : Tree} (h : NamedEntries entries)
    (hmem : (name, node) ∈ entries) : Paths.IsSegment name ∧ node.Named := by
  induction entries with
  | nil => cases hmem
  | cons entry entries ih =>
    obtain ⟨first, other⟩ := entry
    rw [NamedEntries] at h
    rcases List.mem_cons.mp hmem with heq | hmem
    · obtain ⟨rfl, rfl⟩ := Prod.mk.inj heq
      exact ⟨h.1, h.2.2.1⟩
    · exact ih h.2.2.2 hmem

/-- There is one entry under a name. -/
theorem NamedEntries.eq_of_mem {node node' : Tree} (h : NamedEntries entries)
    (hmem : (name, node) ∈ entries) (hmem' : (name, node') ∈ entries) : node = node' := by
  induction entries with
  | nil => cases hmem
  | cons entry entries ih =>
    obtain ⟨first, other⟩ := entry
    rw [NamedEntries] at h
    obtain ⟨-, hnew, -, hrest⟩ := h
    rcases List.mem_cons.mp hmem with heq | hin
    · obtain ⟨rfl, rfl⟩ := Prod.mk.inj heq
      rcases List.mem_cons.mp hmem' with heq' | hin'
      · exact (Prod.mk.inj heq').2.symm
      · exact (hnew (name, node') hin' rfl).elim
    · rcases List.mem_cons.mp hmem' with heq' | hin'
      · obtain ⟨rfl, rfl⟩ := Prod.mk.inj heq'
        exact (hnew (name, node) hin rfl).elim
      · exact ih hrest hin hin'

theorem At.isSegment (h : At entries q t) (hnamed : NamedEntries entries) :
    ∀ s ∈ q, Paths.IsSegment s := by
  induction h with
  | here hmem =>
    intro s hs
    obtain rfl := List.mem_singleton.mp hs
    exact (hnamed.of_mem hmem).1
  | inside hmem _ ih =>
    obtain ⟨hname, hchildren⟩ := hnamed.of_mem hmem
    rw [Tree.Named] at hchildren
    exact List.forall_mem_cons.mpr ⟨hname, ih hchildren⟩

/-- There is one entry at a path. -/
theorem At.unique (h : At entries q t) (h' : At entries q t') (hnamed : NamedEntries entries) :
    t = t' := by
  induction h with
  | here hmem =>
    cases h' with
    | here hmem' => exact hnamed.eq_of_mem hmem hmem'
    | inside _ hrest => exact absurd rfl hrest.ne_nil
  | inside hmem hrest ih =>
    cases h' with
    | here _ => exact absurd rfl hrest.ne_nil
    | inside hmem' hrest' =>
      obtain rfl := Tree.dir.inj (hnamed.eq_of_mem hmem hmem')
      have hchildren := (hnamed.of_mem hmem).2
      rw [Tree.Named] at hchildren
      exact ih hrest' hchildren

theorem relativeText_inj (h : ∀ s ∈ q, Paths.IsSegment s) (h' : ∀ s ∈ q', Paths.IsSegment s)
    (hne : q ≠ []) (hne' : q' ≠ []) (heq : relativeText q = relativeText q') : q = q' := by
  rw [relativeText, if_neg hne, relativeText, if_neg hne'] at heq
  rw [← List.splitOn_intercalate Paths.sep (fun s hs => (h s hs).no_sep) hne, heq,
    List.splitOn_intercalate Paths.sep (fun s hs => (h' s hs).no_sep) hne']

/-! ## What is reached -/

/-- The first name of a path is not that of an excluded directory. -/
def Outside (q : List JsString) : Prop := ∀ name, q.head? = some name → name ∉ excludedNames

theorem tarSkips_iff (h : ∀ s ∈ q, Paths.IsSegment s) :
    tarSkips q = true ↔ (∃ name ∈ excludedNames, q.head? = some name) ∨
      ∃ s ∈ q, isLock s = true := by
  have hlock : Globs.excludes (js "*.lock") (Globs.memberName q) = true ↔
      ∃ s ∈ q, isLock s = true := by
    have hpattern : js "*.lock" = Globs.star :: js ".lock" := rfl
    rw [hpattern, Globs.excludes_star_literal h (by decide) (by decide) (by decide)]
    simp only [isLock, List.isSuffixOf_iff_suffix]
  have hname : ∀ name : JsString, Globs.star ∉ name → Paths.IsSegment name →
      (Globs.excludes (js "./" ++ name) (Globs.memberName q) = true ↔ q.head? = some name) :=
    fun name hstar hsegment => Globs.excludes_current_literal h hstar hsegment
  have hpatterns : excludePatterns =
      [js "./" ++ js "backups", js "./" ++ js "cache", js "./" ++ js "logs", js "*.lock"] := rfl
  have hnames : (∃ name ∈ excludedNames, q.head? = some name) ↔ q.head? = some (js "backups") ∨
      q.head? = some (js "cache") ∨ q.head? = some (js "logs") := by
    simp only [excludedNames, Backup.backupsName, List.exists_mem_cons_iff, List.not_mem_nil,
      false_and, exists_false, or_false]
  rw [tarSkips, hpatterns, List.any_eq_true]
  simp only [List.exists_mem_cons_iff, List.not_mem_nil, false_and, exists_false, or_false]
  rw [hname _ (by decide) ⟨by decide, by decide, by decide, by decide⟩,
    hname _ (by decide) ⟨by decide, by decide, by decide, by decide⟩,
    hname _ (by decide) ⟨by decide, by decide, by decide, by decide⟩, hlock, hnames, or_assoc,
    or_assoc]

theorem head?_of_prefix {step : List JsString} (hne : step ≠ []) (h : step <+: q) :
    step.head? = q.head? := by
  obtain ⟨rest, rfl⟩ := h
  exact (List.head?_append_of_ne_nil _ hne).symm

/-- `tar` reaches the paths outside of the excluded directories on which no name is that of a lock
file. -/
theorem reached_tarSkips_iff (h : ∀ s ∈ q, Paths.IsSegment s) (hne : q ≠ []) :
    Reached tarSkips [] q ↔ Outside q ∧ ∀ s ∈ q, isLock s = false := by
  constructor
  · intro hreached
    have hskips := hreached q hne List.prefix_rfl
    rw [List.nil_append, ← Bool.not_eq_true, tarSkips_iff h, not_or] at hskips
    refine ⟨fun name hhead hmem => hskips.1 ⟨name, hmem, hhead⟩, fun s hs => ?_⟩
    rw [← Bool.not_eq_true]
    exact fun hlock => hskips.2 ⟨s, hs, hlock⟩
  · rintro ⟨houtside, hlocks⟩ step hstep hfront
    rw [List.nil_append, ← Bool.not_eq_true, tarSkips_iff fun s hs => h s (hfront.subset hs),
      not_or, head?_of_prefix hstep hfront]
    refine ⟨fun ⟨name, hmem, hhead⟩ => houtside name hhead hmem, fun ⟨s, hs, hlock⟩ => ?_⟩
    rw [hlocks s (hfront.subset hs)] at hlock
    cases hlock

/-- The collector reaches the paths outside of the excluded directories whose first name is not
that of a lock file. -/
theorem reached_collectorSkips_iff (hne : q ≠ []) :
    Reached collectorSkips [] q ↔ Outside q ∧ ∀ s, q.head? = some s → isLock s = false := by
  obtain ⟨first, rest, rfl⟩ := List.exists_cons_of_ne_nil hne
  have hbelow : Reached collectorSkips [first] rest := by
    intro step hstep _
    obtain ⟨second, others, rfl⟩ := List.exists_cons_of_ne_nil hstep
    rfl
  rw [reached_cons, List.nil_append, and_iff_left hbelow, collectorSkips, Bool.or_eq_false_iff,
    decide_eq_false_iff_not]
  simp only [Outside, List.head?_cons, Option.some.injEq, forall_eq']

/-! ## The files of the archives -/

theorem mem_tarFiles : path ∈ tarFiles tree ↔ ∃ q t, At tree.entries q t ∧
    t.storedByTar = true ∧ Outside q ∧ (∀ s ∈ q, isLock s = false) ∧ relativeText q = path := by
  rw [tarFiles, List.mem_map]
  constructor
  · rintro ⟨⟨p, t⟩, hentry, rfl⟩
    obtain ⟨hwalk, hstored⟩ := List.mem_filter.mp hentry
    obtain ⟨q, rfl, hat, hreached⟩ := (mem_walk _ _ _ _ _).mp hwalk
    obtain ⟨houtside, hlocks⟩ :=
      (reached_tarSkips_iff (hat.isSegment tree.named) hat.ne_nil).mp hreached
    exact ⟨_, t, hat, hstored, houtside, hlocks, rfl⟩
  · rintro ⟨q, t, hat, hstored, houtside, hlocks, rfl⟩
    refine ⟨(q, t), List.mem_filter.mpr ⟨(mem_walk _ _ _ _ _).mpr ⟨q, rfl, hat, ?_⟩, hstored⟩, rfl⟩
    exact (reached_tarSkips_iff (hat.isSegment tree.named) hat.ne_nil).mpr ⟨houtside, hlocks⟩

theorem mem_fallbackFiles : path ∈ fallbackFiles tree ↔ ∃ q bytes,
    At tree.entries q (.file bytes) ∧ Outside q ∧
      (∀ s, q.head? = some s → isLock s = false) ∧ relativeText q = path := by
  have hroot : js "." = relativeText [] := rfl
  rw [fallbackFiles, hroot, collect_eq [] (List.forall_mem_nil _) tree.entries tree.named,
    List.mem_map]
  constructor
  · rintro ⟨entry, hentry, rfl⟩
    obtain ⟨hentry, hkind⟩ := List.mem_filter.mp hentry
    obtain ⟨⟨p, t⟩, hwalk, htoEntry⟩ := List.mem_filterMap.mp hentry
    obtain ⟨q, rfl, hat, hreached⟩ := (mem_walk _ _ _ _ _).mp hwalk
    obtain ⟨houtside, hlock⟩ := (reached_collectorSkips_iff hat.ne_nil).mp hreached
    cases t with
    | file bytes =>
      obtain rfl := Option.some.inj htoEntry
      exact ⟨_, bytes, hat, houtside, hlock, rfl⟩
    | dir children =>
      obtain rfl := Option.some.inj htoEntry
      cases hkind
    | other stored => cases htoEntry
  · rintro ⟨q, bytes, hat, houtside, hlock, rfl⟩
    refine ⟨⟨relativeText q, .file, some (ofText (toBase64 bytes))⟩, List.mem_filter.mpr
      ⟨List.mem_filterMap.mpr ⟨(q, .file bytes), ?_, rfl⟩, rfl⟩, rfl⟩
    exact (mem_walk _ _ _ _ _).mpr
      ⟨q, rfl, hat, (reached_collectorSkips_iff hat.ne_nil).mpr ⟨houtside, hlock⟩⟩

/-- What both programs see of the tree: below the first name of a file no name is that of a lock
file, and a special file that `tar` stores has such a name on its path. -/
structure Agreeable (tree : DirectoryTree) : Prop where
  files : ∀ q bytes, At tree.entries q (.file bytes) → Outside q →
    (∀ s, q.head? = some s → isLock s = false) → ∀ s ∈ q, isLock s = false
  others : ∀ q, At tree.entries q (.other true) → Outside q → ∃ s ∈ q, isLock s = true

/-- **The two archives hold the same files exactly when no file outside of the excluded directories
is under a lock name below the root, and no special file is stored.** -/
theorem archives_agree_iff (tree : DirectoryTree) :
    (∀ path, path ∈ archivedFiles true tree ↔ path ∈ archivedFiles false tree) ↔
      Agreeable tree := by
  have htar : ∀ path, path ∈ archivedFiles true tree ↔ path ∈ tarFiles tree := fun _ => Iff.rfl
  have hfallback : ∀ path, path ∈ archivedFiles false tree ↔ path ∈ fallbackFiles tree :=
    fun _ => Iff.rfl
  simp only [htar, hfallback]
  constructor
  · intro h
    constructor
    · intro q bytes hat houtside hlock
      obtain ⟨q', t, hat', -, -, hlocks, heq⟩ := mem_tarFiles.mp
        ((h _).mpr (mem_fallbackFiles.mpr ⟨q, bytes, hat, houtside, hlock, rfl⟩))
      obtain rfl := relativeText_inj (hat'.isSegment tree.named) (hat.isSegment tree.named)
        hat'.ne_nil hat.ne_nil heq
      exact hlocks
    · intro q hat houtside
      by_contra hlocks
      have hclear : ∀ s ∈ q, isLock s = false := by
        intro s hs
        rw [← Bool.not_eq_true]
        exact fun hlock => hlocks ⟨s, hs, hlock⟩
      obtain ⟨q', bytes, hat', -, -, heq⟩ := mem_fallbackFiles.mp
        ((h _).mp (mem_tarFiles.mpr ⟨q, .other true, hat, rfl, houtside, hclear, rfl⟩))
      obtain rfl := relativeText_inj (hat'.isSegment tree.named) (hat.isSegment tree.named)
        hat'.ne_nil hat.ne_nil heq
      cases hat'.unique hat tree.named
  · intro h path
    rw [mem_tarFiles, mem_fallbackFiles]
    constructor
    · rintro ⟨q, t, hat, hstored, houtside, hlocks, rfl⟩
      cases t with
      | file bytes =>
        exact ⟨q, bytes, hat, houtside, fun s hs => hlocks s (List.mem_of_head? hs), rfl⟩
      | dir children => cases hstored
      | other stored =>
        obtain rfl : stored = true := hstored
        obtain ⟨s, hs, hlock⟩ := h.others q hat houtside
        rw [hlocks s hs] at hlock
        cases hlock
    · rintro ⟨q, bytes, hat, houtside, hlock, rfl⟩
      exact ⟨q, .file bytes, hat, rfl, houtside, h.files q bytes hat houtside hlock, rfl⟩

/-- A chain directory with the lock file of an append. -/
def sampleTree : DirectoryTree where
  entries := [(js "chains", .dir [(js ".append.lock", .file [])])]
  named := by
    simp only [NamedEntries, Tree.Named, and_true]
    exact ⟨⟨by decide, by decide, by decide, by decide⟩, List.forall_mem_nil _,
      ⟨by decide, by decide, by decide, by decide⟩, List.forall_mem_nil _⟩

/-- The lock file is in the fallback archive only. -/
theorem lock_file_in_fallback :
    ¬∀ path, path ∈ archivedFiles true sampleTree ↔ path ∈ archivedFiles false sampleTree := by
  intro h
  have hat : At sampleTree.entries [js "chains", js ".append.lock"] (.file []) :=
    .inside List.mem_cons_self (.here List.mem_cons_self)
  have houtside : Outside [js "chains", js ".append.lock"] := by
    intro name hname
    obtain rfl := Option.some.inj hname
    decide
  have hlock : ∀ s, [js "chains", js ".append.lock"].head? = some s → isLock s = false := by
    intro s hs
    obtain rfl := Option.some.inj hs
    decide
  obtain ⟨q, t, hat', -, -, hlocks, heq⟩ := mem_tarFiles.mp
    ((h _).mpr (mem_fallbackFiles.mpr ⟨_, _, hat, houtside, hlock, rfl⟩))
  obtain rfl := relativeText_inj (hat'.isSegment sampleTree.named) (hat.isSegment sampleTree.named)
    hat'.ne_nil hat.ne_nil heq
  have hfalse := hlocks (js ".append.lock") (by simp)
  exact absurd hfalse (by decide)

end MemphisOS.Archives
