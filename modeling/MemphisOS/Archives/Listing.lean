import MemphisOS.Ecma.NumberOrder
import MemphisOS.Ecma.StringMethods
import MemphisOS.Ecma.Utf8
import MemphisOS.Files.Directory
import MemphisOS.Files.Paths

/-!
# The archives of the backup directory

The backup command lists the files whose names end in `.tar.gz`. What the manifest says of a file
goes before what the file system says, and the list is sorted from the newest to the oldest.
-/

namespace MemphisOS.Archives

open Ecma Files

/-! ## The manifest -/

structure ManifestEntry where
  file : JsString
  tag : JsString
  timestamp : JsString
  size : JsNumber
  checksum : JsString
  fileCount : JsNumber

structure RetentionPolicy where
  keepDaily : JsNumber
  keepWeekly : JsNumber
  keepMonthly : JsNumber

structure Manifest where
  backups : List ManifestEntry
  retentionPolicy : RetentionPolicy

/-- What `JSON.parse` gives for the manifest; `backups` when it is an array. -/
structure StoredManifest where
  backups : Option (List ManifestEntry)
  retentionPolicy : Option RetentionPolicy

/-- `DEFAULT_MANIFEST`. -/
def defaultManifest : Manifest := ⟨[], ⟨.ofNat 7, .ofNat 4, .ofNat 12⟩⟩

/-- `none` is a manifest that is not there or no JSON. -/
def loadManifest : Option StoredManifest → Manifest
  | none => defaultManifest
  | some parsed =>
    { backups := parsed.backups.getD []
      retentionPolicy := parsed.retentionPolicy.getD defaultManifest.retentionPolicy }

def saveManifest (manifest : Manifest) : StoredManifest :=
  ⟨some manifest.backups, some manifest.retentionPolicy⟩

@[simp] theorem loadManifest_saveManifest (manifest : Manifest) :
    loadManifest (some (saveManifest manifest)) = manifest := rfl

/-! ## The directory -/

/-- A file, with its modification time as `toISOString` writes it. -/
structure StoredFile where
  bytes : List UInt8
  mtime : JsString

/-- The backup directory. -/
structure BackupDir where
  root : List JsString
  root_names : ∀ s ∈ root, Paths.IsSegment s
  files : Directory StoredFile
  file_names : ∀ name ∈ files.names, Paths.IsSegment name
  manifest : Option StoredManifest

def backupSuffix : JsString := js ".tar.gz"

def checksumSuffix : JsString := js ".sha256"

def defaultTag : JsString := js "backup"

/-- An archive that is listed. -/
structure BackupArchive extends ManifestEntry where
  path : JsString
  checksumPath : Option JsString
  stale : Bool

/-- Archives sorted by `(a, b) => (a.timestamp < b.timestamp ? 1 : -1)`. The order of archives with
equal timestamps is up to the engine. -/
structure NewestFirst where
  sort : List BackupArchive → List BackupArchive
  perm : ∀ archives, (sort archives).Perm archives
  ordered : ∀ archives, (sort archives).Pairwise fun a b => ¬a.timestamp < b.timestamp

/-- What the command uses of the platform. -/
structure Host where
  now : JsNumber
  /-- `new Date(s).getTime()`. -/
  dateParse : JsString → JsNumber
  newestFirst : NewestFirst

namespace BackupDir

variable (dir : BackupDir)

/-- `join(backupRoot, file)`. -/
def pathOf (file : JsString) : JsString := Paths.join [Paths.ofSegments dir.root, file]

/-- The first word of the checksum file. -/
def readChecksumHex (file : JsString) : Option JsString :=
  (dir.files.read (file ++ checksumSuffix)).map fun stored =>
    (ofText (decodeUtf8 stored.bytes)).trim.takeWhile fun u => !JsString.isSpaceUnit u

end BackupDir

/-- `file.replace(BACKUP_SUFFIX, '')`. -/
def withoutSuffix (file : JsString) : JsString := JsString.removeFirst backupSuffix file

/-- The tag in a file name, before the five parts of a stamp. -/
def tagOf (file : JsString) : JsString :=
  let parts := (withoutSuffix file).splitOn 45
  let tag := [45].intercalate (parts.take (parts.length - 5))
  if tag = [] then defaultTag else tag

/-- Seven days in milliseconds. -/
def staleAfter : JsNumber := .ofNat (7 * 24 * 60 * 60 * 1000)

/-- The archive for a file of the directory. -/
def archiveOf (host : Host) (dir : BackupDir) (entry : JsString × StoredFile) : BackupArchive :=
  let (file, stat) := entry
  let fromManifest := (loadManifest dir.manifest).backups.find? fun b => b.file = file
  let timestamp := (fromManifest.map (·.timestamp)).getD stat.mtime
  let checksum := match dir.readChecksumHex file with
    | some (u :: hex) => js "sha256:" ++ u :: hex
    | _ => js "sha256:missing"
  { file
    path := dir.pathOf file
    tag := (fromManifest.map (·.tag)).getD (tagOf file)
    timestamp
    size := (fromManifest.map (·.size)).getD (.ofNat stat.bytes.length)
    checksum := (fromManifest.map (·.checksum)).getD checksum
    fileCount := (fromManifest.map (·.fileCount)).getD (.ofNat 0)
    checksumPath :=
      if (dir.files.read (file ++ checksumSuffix)).isSome then
        some (dir.pathOf file ++ checksumSuffix)
      else none
    stale := JsNumber.lt staleAfter (host.now.sub (host.dateParse timestamp)) }

/-- The archives before they are sorted. -/
def listArchives (host : Host) (dir : BackupDir) : List BackupArchive :=
  (dir.files.entries.filter fun f => backupSuffix.isSuffixOf f.1).map (archiveOf host dir)

def getBackupArchives (host : Host) (dir : BackupDir) : List BackupArchive :=
  host.newestFirst.sort (listArchives host dir)

/-! ## What is listed -/

variable {host : Host} {dir : BackupDir} {archive other : BackupArchive}

theorem getBackupArchives_perm (host : Host) (dir : BackupDir) :
    (getBackupArchives host dir).Perm (listArchives host dir) :=
  host.newestFirst.perm _

@[simp] theorem file_archiveOf (host : Host) (dir : BackupDir) (entry : JsString × StoredFile) :
    (archiveOf host dir entry).file = entry.1 := rfl

@[simp] theorem path_archiveOf (host : Host) (dir : BackupDir) (entry : JsString × StoredFile) :
    (archiveOf host dir entry).path = dir.pathOf entry.1 := rfl

/-- Every file with the suffix is listed once, and nothing else is. -/
theorem files_listArchives (host : Host) (dir : BackupDir) :
    (listArchives host dir).map (·.file) =
      dir.files.names.filter fun name => backupSuffix.isSuffixOf name := by
  rw [listArchives, List.map_map, Directory.names, List.filter_map]
  rfl

theorem nodup_files (host : Host) (dir : BackupDir) :
    ((getBackupArchives host dir).map (·.file)).Nodup := by
  rw [((getBackupArchives_perm host dir).map _).nodup_iff, files_listArchives]
  exact dir.files.nodup_names.filter _

theorem mem_getBackupArchives : archive ∈ getBackupArchives host dir ↔
    ∃ entry ∈ dir.files.entries, backupSuffix.isSuffixOf entry.1 = true ∧
      archiveOf host dir entry = archive := by
  rw [(getBackupArchives_perm host dir).mem_iff, listArchives, List.mem_map]
  simp only [List.mem_filter, and_assoc]

/-- Archives are told apart by their files. -/
theorem eq_of_file (ha : archive ∈ getBackupArchives host dir)
    (hb : other ∈ getBackupArchives host dir) (h : archive.file = other.file) : archive = other :=
  List.inj_on_of_nodup_map (nodup_files host dir) ha hb h

/-- The name of an archive ends in the suffix and is a name. -/
theorem file_of_mem (h : archive ∈ getBackupArchives host dir) :
    backupSuffix <:+ archive.file ∧ Paths.IsSegment archive.file ∧
      archive.path = dir.pathOf archive.file := by
  obtain ⟨entry, hentry, hsuffix, rfl⟩ := mem_getBackupArchives.mp h
  exact ⟨List.isSuffixOf_iff_suffix.mp hsuffix,
    dir.file_names entry.1 (List.mem_map_of_mem hentry), rfl⟩

theorem pathOf_eq {file : JsString} (h : Paths.IsSegment file) :
    dir.pathOf file = Paths.ofSegments (dir.root ++ [file]) :=
  Paths.join_child dir.root_names h

/-- Archives are told apart by their paths. -/
theorem eq_of_path (ha : archive ∈ getBackupArchives host dir)
    (hb : other ∈ getBackupArchives host dir) (h : archive.path = other.path) :
    archive = other := by
  obtain ⟨-, hname, hpath⟩ := file_of_mem ha
  obtain ⟨-, hname', hpath'⟩ := file_of_mem hb
  refine eq_of_file ha hb (@Paths.ofSegments_concat_inj dir.root _ _ ?_)
  rw [← pathOf_eq hname, ← pathOf_eq hname', ← hpath, ← hpath', h]

/-- An archive before another one is not older. -/
theorem not_older_of_before (h : [other, archive].Sublist (getBackupArchives host dir)) :
    ¬other.timestamp < archive.timestamp :=
  List.rel_of_pairwise_cons ((host.newestFirst.ordered _).sublist h) List.mem_cons_self

/-! ## A stable sort -/

def newer (a b : BackupArchive) : Prop := b.timestamp ≤ a.timestamp

instance : DecidableRel newer := fun a b => inferInstanceAs (Decidable (b.timestamp ≤ a.timestamp))

instance : Std.Total newer := ⟨fun a b => List.le_total b.timestamp a.timestamp⟩

instance : IsTrans BackupArchive newer := ⟨fun _ _ _ hab hbc => List.le_trans hbc hab⟩

/-- An engine that keeps archives with equal timestamps as they are. -/
def sampleHost : Host where
  now := .ofNat 0
  dateParse _ := .nan
  newestFirst :=
    { sort := List.insertionSort newer
      perm := List.perm_insertionSort newer
      ordered := fun archives =>
        (List.pairwise_insertionSort newer archives).imp List.not_lt.mpr }

end MemphisOS.Archives
