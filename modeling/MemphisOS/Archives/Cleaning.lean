import MemphisOS.Archives.Listing
import MemphisOS.Cli.Parser
import MemphisOS.Ecma.Arrays

/-!
# Cleaning the backup directory

`backup clean` removes the archives behind the first `--keep` ones of the list. The text of the flag
is converted by `Number` and goes to `Math.max` and `slice` without a check, and `slice` reads
`NaN` as zero.
-/

namespace MemphisOS.Archives

open Ecma Files

/-! ## The command -/

structure CleanResult where
  removed : List JsString
  wouldRemove : List JsString
  kept : JsNumber

/-- `unlinkSync` of an archive and of its checksum file. -/
def unlinkArchive (files : Directory StoredFile) (item : BackupArchive) : Directory StoredFile :=
  let rest := files.delete item.file
  if item.checksumPath.isSome && (rest.read (item.file ++ checksumSuffix)).isSome then
    rest.delete (item.file ++ checksumSuffix)
  else rest

theorem names_unlinkArchive (files : Directory StoredFile) (item : BackupArchive) :
    (unlinkArchive files item).names.Sublist files.names := by
  have hdelete : ∀ (files : Directory StoredFile) name,
      (files.delete name).names.Sublist files.names := by
    intro files name
    rw [Directory.names_delete]
    exact List.filter_sublist
  unfold unlinkArchive
  dsimp only
  split
  · exact (hdelete _ _).trans (hdelete _ _)
  · exact hdelete _ _

def unlinkAll (items : List BackupArchive) (files : Directory StoredFile) : Directory StoredFile :=
  items.foldl unlinkArchive files

theorem names_unlinkAll (items : List BackupArchive) (files : Directory StoredFile) :
    (unlinkAll items files).names.Sublist files.names := by
  induction items generalizing files with
  | nil => exact .refl _
  | cons item items ih => exact (ih _).trans (names_unlinkArchive files item)

variable (host : Host)

/-- The number is given in place of the `keep` of the options. -/
def cleanBackups (keep : Option JsNumber) (dryRun : Bool) (dir : BackupDir) :
    CleanResult × BackupDir :=
  let keep := JsNumber.max (.ofNat 0) (keep.getD (.ofNat 7))
  let toRemove := sliceFrom keep (getBackupArchives host dir)
  if dryRun then (⟨[], toRemove.map (·.file), keep⟩, dir)
  else
    let manifest := loadManifest dir.manifest
    let backups := manifest.backups.filter fun entry =>
      !toRemove.any fun rm => rm.file = entry.file
    (⟨toRemove.map (·.file), toRemove.map (·.file), keep⟩,
      { dir with
        files := unlinkAll toRemove dir.files
        file_names := fun name h => dir.file_names name
          ((names_unlinkAll toRemove dir.files).subset h)
        manifest := some (saveManifest { manifest with backups }) })

/-- `handleBackupCommand` for the subcommand `clean`. -/
def handleClean (args : Cli.CliArgs) (dir : BackupDir) : CleanResult × BackupDir :=
  cleanBackups host (args.numbers .keep) (args.booleans .dryRun) dir

/-! ## What cleaning should do -/

/-- The text stands for a number. -/
def IsNumber (text : JsString) : Prop := text.trim ≠ [] ∧ text.toNumber ≠ .nan

instance (text : JsString) : Decidable (IsNumber text) := inferInstanceAs (Decidable (_ ∧ _))

/-- How many of the archives a number asks to keep. -/
def keptCount (keep : JsNumber) (total : ℕ) : ℕ :=
  match keep with
  | .finite q _ => min ⌊q⌋.toNat total
  | .infinity false => total
  | _ => 0

/-- The archives are parted into the newest ones, which are kept with their checksum files, and the
others, which are removed from the directory and from the manifest. Nothing else is removed. -/
structure Retains (host : Host) (before after : BackupDir) (kept removed : List BackupArchive) :
    Prop where
  parted : (kept ++ removed).Perm (listArchives host before)
  newest : ∀ a ∈ kept, ∀ b ∈ removed, ¬a.timestamp < b.timestamp
  gone : ∀ b ∈ removed, after.files.read b.file = none
  checksums : ∀ a ∈ kept, after.files.read (a.file ++ checksumSuffix) =
    before.files.read (a.file ++ checksumSuffix)
  others : ∀ name, (∀ b ∈ removed, name ≠ b.file ∧ name ≠ b.file ++ checksumSuffix) →
    after.files.read name = before.files.read name
  manifest : ∀ entry ∈ (loadManifest after.manifest).backups, ∀ b ∈ removed, entry.file ≠ b.file

/-- What `backup clean --keep text` should do. A dry run and a text that is not a number remove
nothing. -/
def CleansRight (host : Host) (text : JsString) (dryRun : Bool) (before after : BackupDir) : Prop :=
  if dryRun = true ∨ ¬IsNumber text then after.files = before.files
  else ∃ kept removed, Retains host before after kept removed ∧
    kept.length = keptCount text.toNumber (listArchives host before).length

/-! ## Counting -/

theorem keptCount_le (keep : JsNumber) (total : ℕ) : keptCount keep total ≤ total := by
  unfold keptCount
  split
  · exact Nat.min_le_right _ _
  · exact Nat.le_refl total
  · exact Nat.zero_le total

theorem ofNat_ne_nan (n : ℕ) : JsNumber.ofNat n ≠ .nan := JsNumber.ofRat_ne_nan n false

/-- `slice` after `Math.max(0, keep)` keeps as many as are asked for. -/
theorem relativeStart_max {keep : JsNumber} (h : keep ≠ .nan) (length : ℕ) :
    relativeStart (JsNumber.max (.ofNat 0) keep) length = keptCount keep length := by
  have hzero : JsNumber.ofNat 0 = .finite (0 : ℕ) _ := JsNumber.ofNat_eq (by norm_num)
  rw [JsNumber.max, if_neg (not_or.mpr ⟨ofNat_ne_nan 0, h⟩), hzero]
  cases keep with
  | nan => exact absurd rfl h
  | infinity negative =>
    cases negative with
    | false => rfl
    | true => simp [JsNumber.lt, relativeStart, keptCount]
  | negZero => simp [JsNumber.lt, relativeStart, keptCount]
  | finite q hq =>
    by_cases hpos : 0 < q
    · simp [JsNumber.lt, hpos, relativeStart, keptCount, hpos.le]
    · have hfloor : ⌊q⌋.toNat = 0 := by
        rw [Int.toNat_eq_zero]
        exact Int.floor_nonpos (not_lt.mp hpos)
      simp [JsNumber.lt, hpos, relativeStart, keptCount, hfloor]

/-- `slice` after `Math.max(0, NaN)` keeps none. -/
theorem relativeStart_max_nan (length : ℕ) :
    relativeStart (JsNumber.max (.ofNat 0) .nan) length = 0 := by
  rw [JsNumber.max, if_pos (.inr rfl)]
  rfl

theorem relativeStart_max_zero (length : ℕ) :
    relativeStart (JsNumber.max (.ofNat 0) (.ofNat 0)) length = 0 := by
  rw [relativeStart_max (ofNat_ne_nan 0), JsNumber.ofNat_eq (by norm_num)]
  simp [keptCount]

/-! ## Removing -/

variable {host} {files : Directory StoredFile} {item : BackupArchive}
  {items : List BackupArchive} {name : JsString}

theorem read_unlinkArchive_file : (unlinkArchive files item).read item.file = none := by
  have hdelete : (files.delete item.file).read item.file = none := by
    rw [Directory.read_delete, if_pos rfl]
  unfold unlinkArchive
  dsimp only
  split
  · rw [Directory.read_delete, hdelete, ite_self]
  · exact hdelete

theorem read_unlinkArchive_of_ne (h : name ≠ item.file ∧ name ≠ item.file ++ checksumSuffix) :
    (unlinkArchive files item).read name = files.read name := by
  unfold unlinkArchive
  dsimp only
  split
  · rw [Directory.read_delete, if_neg h.2, Directory.read_delete, if_neg h.1]
  · rw [Directory.read_delete, if_neg h.1]

theorem read_unlinkAll_of_ne
    (h : ∀ b ∈ items, name ≠ b.file ∧ name ≠ b.file ++ checksumSuffix) :
    (unlinkAll items files).read name = files.read name := by
  induction items generalizing files with
  | nil => rfl
  | cons item items ih =>
    rw [unlinkAll, List.foldl_cons, ← unlinkAll, ih fun b hb => h b (List.mem_cons_of_mem _ hb),
      read_unlinkArchive_of_ne (h item List.mem_cons_self)]

/-- What is not there is not written again. -/
theorem read_unlinkAll_eq_none (h : files.read name = none) :
    (unlinkAll items files).read name = none := by
  rw [Directory.read_eq_none_iff] at h ⊢
  exact fun hmem => h ((names_unlinkAll items files).subset hmem)

theorem read_unlinkAll_of_mem (h : item ∈ items) :
    (unlinkAll items files).read item.file = none := by
  induction items generalizing files with
  | nil => cases h
  | cons first items ih =>
    rw [unlinkAll, List.foldl_cons, ← unlinkAll]
    rcases List.mem_cons.mp h with rfl | h
    · exact read_unlinkAll_eq_none read_unlinkArchive_file
    · exact ih h

/-! ## The command with a text -/

variable {before : BackupDir} {text : JsString} {argv : List JsString}

theorem getLast?_archive {archive : BackupArchive} (h : backupSuffix <:+ archive.file) :
    archive.file.getLast? = some 122 := by
  obtain ⟨front, hfront⟩ := h
  rw [← hfront, List.getLast?_append_of_ne_nil _ (by decide)]
  rfl

/-- The checksum file of an archive is neither another archive nor the checksum file of one. -/
theorem checksum_ne {a b : BackupArchive} (hfile : a.file ≠ b.file)
    (hb : backupSuffix <:+ b.file) :
    a.file ++ checksumSuffix ≠ b.file ∧ a.file ++ checksumSuffix ≠ b.file ++ checksumSuffix := by
  refine ⟨fun h => ?_, fun h => hfile (List.append_cancel_right h)⟩
  have hlast := getLast?_archive hb
  rw [← h, List.getLast?_append_of_ne_nil _ (by decide)] at hlast
  exact absurd hlast (by decide)

/-- **What a run without `--dry-run` does**, for whatever position the slice starts at. -/
theorem retains_cleanBackups (host : Host) (keep : Option JsNumber) (before : BackupDir) :
    ∃ kept removed, Retains host before (cleanBackups host keep false before).2 kept removed ∧
      kept.length = min (relativeStart (JsNumber.max (.ofNat 0) (keep.getD (.ofNat 7)))
        (listArchives host before).length) (listArchives host before).length := by
  set sorted := getBackupArchives host before with hsorted
  have hperm : sorted.Perm (listArchives host before) := getBackupArchives_perm host before
  set start := relativeStart (JsNumber.max (.ofNat 0) (keep.getD (.ofNat 7))) sorted.length
  have hfiles : (cleanBackups host keep false before).2.files =
      unlinkAll (sorted.drop start) before.files := rfl
  refine ⟨sorted.take start, sorted.drop start, ⟨?_, ?_, ?_, ?_, ?_, ?_⟩, ?_⟩
  · rw [List.take_append_drop]
    exact hperm
  · have hordered := host.newestFirst.ordered (listArchives host before)
    rw [← getBackupArchives, ← hsorted, ← List.take_append_drop start sorted,
      List.pairwise_append] at hordered
    exact hordered.2.2
  · intro b hb
    rw [hfiles]
    exact read_unlinkAll_of_mem hb
  · intro a ha
    rw [hfiles]
    refine read_unlinkAll_of_ne fun b hb => checksum_ne ?_ (file_of_mem (List.mem_of_mem_drop hb)).1
    have hnodup := nodup_files host before
    rw [← hsorted, ← List.take_append_drop start sorted, List.map_append,
      List.nodup_append] at hnodup
    exact hnodup.2.2 _ (List.mem_map_of_mem ha) _ (List.mem_map_of_mem hb)
  · intro name hname
    rw [hfiles]
    exact read_unlinkAll_of_ne hname
  · intro entry hentry b hb heq
    have hkept := (List.mem_filter.mp hentry).2
    rw [Bool.not_eq_true', List.any_eq_false] at hkept
    exact hkept b hb (decide_eq_true heq.symm)
  · rw [List.length_take, ← hperm.length_eq]

/-- A text that is given is converted. -/
theorem keep_parseCommand
    (htext : (Cli.scanArgs (argv.drop 2)).flags.lookup (js "--keep") = some (.text text)) :
    (Cli.parseCommand argv).numbers .keep = some text.toNumber := by
  have hne : text ≠ [] := by
    rintro rfl
    exact Cli.noEmptyText_scanFrom (fun _ h => by cases h) (argv.drop 2) _ htext
  have hvalue : Cli.readFlagValue (Cli.scanArgs (argv.drop 2)).flags "--keep" = some text := by
    rw [Cli.readFlagValue, htext]
  change Cli.readNumberFlag (Cli.scanArgs (argv.drop 2)).flags "--keep" = _
  rw [Cli.readNumberFlag, hvalue]
  cases text with
  | nil => exact absurd rfl hne
  | cons u rest => rfl

/-- A text that is not a number keeps nothing: it is read as `NaN`, or as zero when it is blank. -/
theorem relativeStart_of_not_isNumber (h : ¬IsNumber text) (length : ℕ) :
    relativeStart (JsNumber.max (.ofNat 0) text.toNumber) length = 0 := by
  by_cases hblank : text.trim = []
  · have hzero : text.toNumber = .ofNat 0 := by
      rw [JsString.toNumber, hblank]
      rfl
    rw [hzero]
    exact relativeStart_max_zero length
  · have hnan : text.toNumber = .nan := by
      by_contra hne
      exact h ⟨hblank, hne⟩
    rw [hnan]
    exact relativeStart_max_nan length

/-- Without a place to stop, every archive is removed. -/
theorem files_cleanBackups_iff {keep : JsNumber}
    (hstart : relativeStart (JsNumber.max (.ofNat 0) keep) (listArchives host before).length = 0) :
    (cleanBackups host (some keep) false before).2.files = before.files ↔
      listArchives host before = [] := by
  obtain ⟨kept, removed, hretains, hlength⟩ := retains_cleanBackups host (some keep) before
  rw [Option.getD_some, hstart, Nat.zero_min, List.length_eq_zero_iff] at hlength
  subst hlength
  have hperm := hretains.parted
  rw [List.nil_append] at hperm
  constructor
  · intro hfiles
    by_contra hne
    obtain ⟨b, hb⟩ := List.exists_mem_of_ne_nil _ hne
    obtain ⟨entry, hentry, rfl⟩ := List.mem_map.mp hb
    have hgone := hretains.gone _ (hperm.mem_iff.mpr hb)
    rw [hfiles, Directory.read_eq_none_iff] at hgone
    exact hgone (List.mem_map_of_mem (List.mem_filter.mp hentry).1)
  · intro hnil
    have hsorted : getBackupArchives host before = [] := by
      have h := getBackupArchives_perm host before
      rwa [hnil, List.perm_nil] at h
    change unlinkAll (sliceFrom _ (getBackupArchives host before)) before.files = before.files
    rw [hsorted, sliceFrom, List.drop_nil]
    rfl

/-- **Cleaning with a text does what it should exactly when the text is a number**, or nothing is
to be removed: the run is a dry one or there is no archive. -/
theorem cleans_iff (host : Host) (before : BackupDir)
    (htext : (Cli.scanArgs (argv.drop 2)).flags.lookup (js "--keep") = some (.text text)) :
    CleansRight host text ((Cli.parseCommand argv).booleans .dryRun) before
        (handleClean host (Cli.parseCommand argv) before).2 ↔
      (Cli.parseCommand argv).booleans .dryRun = true ∨ IsNumber text ∨
        listArchives host before = [] := by
  rw [handleClean, keep_parseCommand htext]
  cases (Cli.parseCommand argv).booleans .dryRun with
  | true =>
    refine iff_of_true ?_ (.inl rfl)
    rw [CleansRight, if_pos (.inl rfl)]
    rfl
  | false =>
    rw [or_iff_right Bool.false_ne_true]
    by_cases hnumber : IsNumber text
    · refine iff_of_true ?_ (.inl hnumber)
      rw [CleansRight, if_neg (by simp [hnumber])]
      obtain ⟨kept, removed, hretains, hlength⟩ :=
        retains_cleanBackups host (some text.toNumber) before
      refine ⟨kept, removed, hretains, ?_⟩
      rw [hlength, Option.getD_some, relativeStart_max hnumber.2]
      exact Nat.min_eq_left (keptCount_le _ _)
    · rw [CleansRight, if_pos (.inr hnumber), or_iff_right hnumber]
      exact files_cleanBackups_iff (relativeStart_of_not_isNumber hnumber _)

/-- A directory with one archive. -/
def sampleArchiveDir : BackupDir where
  root := [js "backups"]
  root_names s hs := by
    obtain rfl := List.mem_singleton.mp hs
    exact ⟨by decide, by decide, by decide, by decide⟩
  files := ⟨[(js "nightly.tar.gz", ⟨[], js "2026-01-01T10:00:05.000Z"⟩)], by decide⟩
  file_names name hname := by
    obtain rfl := List.mem_singleton.mp hname
    exact ⟨by decide, by decide, by decide, by decide⟩
  manifest := none

/-- The command line with a text for the flag. -/
def cleanArgv (text : String) : List JsString :=
  [js "node", js "memphis", js "backup", js "clean", js "--keep", js text]

/-- Two archives are asked for. -/
theorem cleans_iff_sample :
    CleansRight sampleHost (js "2") ((Cli.parseCommand (cleanArgv "2")).booleans .dryRun)
      sampleArchiveDir
      (handleClean sampleHost (Cli.parseCommand (cleanArgv "2")) sampleArchiveDir).2 :=
  (cleans_iff sampleHost sampleArchiveDir (by decide)).mpr
    (.inr (.inl ⟨by decide, JsNumber.ofRat_ne_nan _ _⟩))

/-- A text that is not a number removes the only archive. -/
theorem not_a_number_removes_all :
    ¬CleansRight sampleHost (js "abc") ((Cli.parseCommand (cleanArgv "abc")).booleans .dryRun)
      sampleArchiveDir
      (handleClean sampleHost (Cli.parseCommand (cleanArgv "abc")) sampleArchiveDir).2 := by
  have hnumber : ¬IsNumber (js "abc") := fun h => h.2 rfl
  have hdry : (Cli.parseCommand (cleanArgv "abc")).booleans .dryRun = false := by decide
  have hkeep : (Cli.parseCommand (cleanArgv "abc")).numbers .keep = some (js "abc").toNumber :=
    keep_parseCommand (by decide)
  rw [CleansRight, if_pos (.inr hnumber), handleClean, hdry, hkeep,
    files_cleanBackups_iff (relativeStart_of_not_isNumber hnumber _)]
  exact List.cons_ne_nil _ _

end MemphisOS.Archives
