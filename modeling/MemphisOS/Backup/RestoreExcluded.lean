import MemphisOS.Backup.RestoreAtomicity

/-!
# What backups leave out

Backups leave out the cache, the logs and the lock files. A restore moves them aside with the
rest of the tree and deletes them.
-/

namespace MemphisOS.Backup

open Ecma Files

/-- A path that backups leave out, besides those of the backups themselves. -/
def Excluded (tarRuns : Bool) : List JsString → Prop
  | [] => False
  | name :: path => name ≠ backupsName ∧
      (name = js "cache" ∨ name = js "logs" ∨ isLock name = true ∨
        tarRuns = true ∧ ∃ name ∈ path, isLock name = true)

/-- What backups leave out is still there. -/
def KeepsExcluded (tarRuns : Bool) (before after : Folder) : Prop :=
  ∀ path, Excluded tarRuns path → contents before path ≠ none →
    contents after path = contents before path

variable {host : Host} {root : Folder} {tarRuns : Bool}

theorem lookupPath_congr {a b : List (JsString × Node)} {name : JsString}
    (h : a.lookup name = b.lookup name) (path : List JsString) :
    lookupPath (name :: path) a = lookupPath (name :: path) b := by
  cases path with
  | nil => exact h
  | cons next path => rw [lookupPath, lookupPath, h]

theorem lookupPath_eq_none {entries : List (JsString × Node)} {name : JsString}
    (h : entries.lookup name = none) (path : List JsString) :
    lookupPath (name :: path) entries = none := by
  cases path with
  | nil => exact h
  | cons next path => rw [lookupPath, h]

/-! ## Archives -/

theorem lookup_withoutLocks (entries : List (JsString × Node)) (name : JsString) :
    (withoutLocks entries).lookup name =
      if isLock name = true then none else (entries.lookup name).map Node.withoutLocks := by
  induction entries with
  | nil => simp [withoutLocks]
  | cons entry entries ih =>
    obtain ⟨key, node⟩ := entry
    rw [withoutLocks, List.lookup_cons]
    by_cases hkey : name = key
    · subst hkey
      by_cases hlock : isLock name = true
      · simpa [hlock] using ih
      · simp [hlock]
    · by_cases hlock : isLock key = true
      · rw [if_pos hlock, ih]
        simp [beq_false_of_ne hkey]
      · rw [if_neg hlock, List.lookup_cons, ih]
        simp [beq_false_of_ne hkey]

/-- No path with a lock file in it is left. -/
theorem lookupPath_withoutLocks {path : List JsString} (h : ∃ name ∈ path, isLock name = true)
    (entries : List (JsString × Node)) : lookupPath path (withoutLocks entries) = none := by
  induction path generalizing entries with
  | nil =>
    obtain ⟨name, hname, -⟩ := h
    cases hname
  | cons name path ih =>
    have hlookup := lookup_withoutLocks entries name
    by_cases hlock : isLock name = true
    · rw [if_pos hlock] at hlookup
      exact lookupPath_eq_none hlookup path
    · rw [if_neg hlock] at hlookup
      obtain ⟨locked, hmem, hlocked⟩ := h
      have hrest : locked ∈ path := by
        rcases List.mem_cons.mp hmem with rfl | hmem
        · exact absurd hlocked hlock
        · exact hmem
      cases path with
      | nil => cases hrest
      | cons next path =>
        rw [lookupPath, hlookup]
        cases entries.lookup name with
        | none => rfl
        | some node =>
          cases node with
          | file bytes => rfl
          | dir below => exact ih ⟨locked, hrest, hlocked⟩ below

/-- **An archive holds nothing that is excluded.** -/
theorem lookupPath_createArchive {path : List JsString} (h : Excluded tarRuns path)
    (root : Folder) : lookupPath path (createArchive tarRuns root) = none := by
  cases path with
  | nil => cases h
  | cons name path =>
    obtain ⟨-, hexcluded⟩ := h
    have hnames : name = js "cache" ∨ name = js "logs" → ∀ entries : List (JsString × Node),
        (entries.filter fun entry => entry.1 ∉ excludedNames).lookup name = none := by
      intro hname entries
      refine (lookup_filter (fun key => decide (key ∉ excludedNames)) entries name).trans
        (if_neg ?_)
      rcases hname with rfl | rfl <;> simp [excludedNames]
    have hlocks : isLock name = true → ∀ entries : List (JsString × Node),
        (entries.filter fun entry => !isLock entry.1).lookup name = none := by
      intro hlock entries
      exact (lookup_filter (fun key => !isLock key) entries name).trans (if_neg (by simp [hlock]))
    unfold createArchive
    dsimp only
    split
    · next htar =>
      rcases hexcluded with hname | hname | hlock | ⟨-, hlock⟩
      · apply lookupPath_eq_none
        rw [lookup_withoutLocks, hnames (.inl hname)]
        simp
      · apply lookupPath_eq_none
        rw [lookup_withoutLocks, hnames (.inr hname)]
        simp
      · exact lookupPath_withoutLocks ⟨name, List.mem_cons_self, hlock⟩ _
      · obtain ⟨locked, hmem, hlocked⟩ := hlock
        exact lookupPath_withoutLocks ⟨locked, List.mem_cons_of_mem _ hmem, hlocked⟩ _
    · next htar =>
      rcases hexcluded with hname | hname | hlock | ⟨htar', -⟩
      · refine lookupPath_eq_none ((lookup_filter (fun key => !isLock key) _ name).trans ?_) path
        rw [hnames (.inl hname), ite_self]
      · refine lookupPath_eq_none ((lookup_filter (fun key => !isLock key) _ name).trans ?_) path
        rw [hnames (.inr hname), ite_self]
      · exact lookupPath_eq_none (hlocks hlock _) path
      · exact absurd htar' htar

/-! ## The restore -/

/-- Whether a restore that returns keeps what is excluded only depends on the staged tree. -/
theorem keepsExcluded_iff {after : Folder} (h : restoreBackup host root = .returned after) :
    KeepsExcluded tarRuns root after ↔ KeepsExcluded tarRuns root host.staged := by
  have hsame : ∀ path, Excluded tarRuns path → contents after path = contents host.staged path := by
    intro path hpath
    cases path with
    | nil => cases hpath
    | cons name path => exact lookupPath_congr (restoreBackup_returned h name hpath.1) path
  constructor
  · exact fun hkeeps path hpath hthere => (hsame path hpath).symm.trans (hkeeps path hpath hthere)
  · exact fun hkeeps path hpath hthere => (hsame path hpath).trans (hkeeps path hpath hthere)

/-- An archive that a backup made keeps what is excluded only where there is nothing. -/
theorem keepsExcluded_createArchive {other : Folder}
    (h : host.staged.entries = createArchive tarRuns other) :
    KeepsExcluded tarRuns root host.staged ↔
      ∀ path, Excluded tarRuns path → contents root path = none := by
  have hnone : ∀ path, Excluded tarRuns path → contents host.staged path = none := by
    intro path hpath
    rw [contents, h]
    exact lookupPath_createArchive hpath other
  constructor
  · intro hkeeps path hpath
    by_contra hthere
    exact hthere ((hkeeps path hpath hthere).symm.trans (hnone path hpath))
  · exact fun hempty path hpath hthere => absurd (hempty path hpath) hthere

/-- **Atomicity of a restore.** A restore that throws leaves what was held exactly when it throws
before the first item is moved aside, or in the `try` block, and its compensation succeeds, or
what is left happens to be the same. A restore that returns keeps what backups exclude exactly
when the archive holds the same; an archive that a backup made never does. -/
theorem restore_atomicity (host : Host) (root : Folder) :
    (∀ step compensation after, restoreBackup host root = .threw step compensation after →
      (Held root after ↔ Compensated host root step compensation)) ∧
    ∀ after, restoreBackup host root = .returned after → ∀ tarRuns,
      (KeepsExcluded tarRuns root after ↔ KeepsExcluded tarRuns root host.staged) ∧
      ∀ other, host.staged.entries = createArchive tarRuns other →
        (KeepsExcluded tarRuns root after ↔
          ∀ path, Excluded tarRuns path → contents root path = none) :=
  ⟨fun _ _ _ h => held_iff_compensated h, fun _ h _ => ⟨keepsExcluded_iff h,
    fun _ hstaged => (keepsExcluded_iff h).trans (keepsExcluded_createArchive hstaged)⟩⟩


/-- A host on which the move of an item out of the root fails, and nothing else. -/
def sampleHost (failing : JsString) : Host where
  fails
    | .moveOut item => decide (item = failing)
    | _ => false
  left _ := none
  archive := (js "pre-restore.tar.gz", .file [])
  archiveFiles := []
  partialFiles := []
  staged := .empty
  restoreLog := .file []

/-- A root with chains and logs. -/
def sampleRoot : Folder where
  entries := [(js "chains", .dir []), (js "logs", .dir [(js "app.log", .file [1])])]
  nodup := by decide

theorem items_sampleRoot : items sampleRoot = [js "chains", js "logs"] := by
  decide

theorem read_backups_sampleRoot : sampleRoot.read backupsName = none := by
  have h : (sampleRoot.read backupsName).isNone = true := by decide
  rwa [Option.isNone_iff_eq_none] at h

/-- The restore up to the first loop. -/
theorem restoreBackup_sample (failing : JsString) :
    restoreBackup (sampleHost failing) sampleRoot =
      match Directory.moveAll (fun item => decide (item = failing)) replaces
          [js "chains", js "logs"] (addBackups [(js "pre-restore.tar.gz", .file [])] sampleRoot)
          .empty with
      | (some item, root, _) => .threw (.moveOut item) none root
      | (none, root, current) => replaceTree (sampleHost failing) root current := by
  unfold restoreBackup
  rw [read_backups_sampleRoot]
  simp only [sampleHost, items_addBackups, items_sampleRoot]
  rfl

/-- When the move of the logs fails, the restore throws. -/
theorem restoreBackup_stops : ∃ after, restoreBackup (sampleHost (js "logs")) sampleRoot =
    .threw (.moveOut (js "logs")) none after := by
  have hne : js "chains" ≠ js "logs" := by decide
  have hbackups : js "chains" ≠ backupsName := by decide
  have hread : (addBackups [(js "pre-restore.tar.gz", .file [])] sampleRoot).read (js "chains") =
      some (.dir []) := (read_addBackups_of_ne hbackups).trans List.lookup_cons_self
  rw [restoreBackup_sample, Directory.moveAll, if_neg (mt of_decide_eq_true hne), hread]
  dsimp only
  rw [Directory.read_empty, Option.all_none, if_pos rfl, Directory.moveAll,
    if_pos (decide_eq_true rfl)]
  exact ⟨_, rfl⟩

/-- When no move fails, the restore returns. -/
theorem restoreBackup_returns :
    ∃ after, restoreBackup (sampleHost []) sampleRoot = .returned after := by
  have hfails : ∀ name ∈ [js "chains", js "logs"], decide (name = []) = false := by
    decide
  have hthere : ∀ name ∈ [js "chains", js "logs"],
      name ∈ (addBackups [(js "pre-restore.tar.gz", .file [])] sampleRoot).names := by
    intro name hname
    rw [← items_sampleRoot, ← items_addBackups [(js "pre-restore.tar.gz", .file [])]] at hname
    exact (List.mem_filter.mp hname).1
  have hmoved := @Directory.moveAll_eq_none _ _ replaces _ _ (.empty : Folder)
    (items_sampleRoot ▸ nodup_items sampleRoot) hfails hthere fun _ _ => List.not_mem_nil
  rw [restoreBackup_sample]
  split
  · next item aside current hmove =>
    rw [hmove] at hmoved
    cases hmoved
  · exact ⟨_, rfl⟩

theorem restore_atomicity_sample : ∃ after,
    restoreBackup (sampleHost (js "logs")) sampleRoot = .threw (.moveOut (js "logs")) none after ∧
      (Held sampleRoot after ↔
        Compensated (sampleHost (js "logs")) sampleRoot (.moveOut (js "logs")) none) := by
  obtain ⟨after, h⟩ := restoreBackup_stops
  exact ⟨after, h, (restore_atomicity _ _).1 _ _ _ h⟩

/-- When the move of the logs fails, the chains that were moved before are lost. When nothing
fails, the logs are. -/
theorem restore_loses_files :
    (∃ after, restoreBackup (sampleHost (js "logs")) sampleRoot =
        .threw (.moveOut (js "logs")) none after ∧ ¬ Held sampleRoot after) ∧
    ∃ after, restoreBackup (sampleHost []) sampleRoot = .returned after ∧
      ¬ KeepsExcluded true sampleRoot after := by
  constructor
  · obtain ⟨after, h⟩ := restoreBackup_stops
    refine ⟨after, h, fun hheld => ?_⟩
    have hfirst := (held_iff_compensated h).mp hheld
    rw [Compensated, items_sampleRoot, List.head?_cons] at hfirst
    exact absurd (Option.some.inj hfirst) (by decide)
  · obtain ⟨after, h⟩ := restoreBackup_returns
    refine ⟨after, h, fun hkeeps => ?_⟩
    have hexcluded : Excluded true [js "logs"] := ⟨by decide, .inr (.inl rfl)⟩
    have hthere : contents sampleRoot [js "logs"] =
        some (.dir [(js "app.log", .file [1])]) := by
      have hne : (js "logs" == js "chains") = false := by decide
      rw [contents, lookupPath, sampleRoot, List.lookup_cons, hne]
      exact List.lookup_cons_self
    have hsame := (keepsExcluded_iff h).mp hkeeps _ hexcluded (hthere ▸ Option.some_ne_none _)
    rw [hthere] at hsame
    cases hsame

end MemphisOS.Backup
