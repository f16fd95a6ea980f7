import MemphisOS.Files.Directory

/-!
# Restoring a backup

`restoreBackup` moves the current tree aside item by item and moves the extracted tree in. Its
`try` block covers the second loop only.
-/

namespace MemphisOS.Backup

open Ecma Files

/-! ## Trees -/

/-- A file or a directory. -/
inductive Node where
  | file (bytes : List UInt8)
  | dir (entries : List (JsString × Node))

/-- The root directory, or one that is moved to or from. -/
abbrev Folder := Directory Node

/-- What is at a path below some entries. -/
def lookupPath : List JsString → List (JsString × Node) → Option Node
  | [], _ => none
  | [name], entries => entries.lookup name
  | name :: next :: path, entries =>
    match entries.lookup name with
    | some (.dir entries) => lookupPath (next :: path) entries
    | _ => none

/-- What is at a path in a folder. -/
def contents (folder : Folder) (path : List JsString) : Option Node :=
  lookupPath path folder.entries

def backupsName : JsString := js "backups"

/-- `renameSync` puts a file in the place of a file, and a directory in that of an empty one. -/
def replaces : Node → Node → Bool
  | .file _, .file _ => true
  | .dir _, .dir [] => true
  | _, _ => false

/-! ## Archives -/

/-- A name that `--exclude=*.lock` matches. -/
def isLock (name : JsString) : Bool := (js ".lock").isSuffixOf name

mutual

def Node.withoutLocks : Node → Node
  | .file bytes => .file bytes
  | .dir entries => .dir (withoutLocks entries)

/-- The entries that are not lock files, at every depth. -/
def withoutLocks : List (JsString × Node) → List (JsString × Node)
  | [] => []
  | (name, node) :: entries =>
    if isLock name then withoutLocks entries
    else (name, node.withoutLocks) :: withoutLocks entries

end

/-- The names of the root that are left out of a backup. -/
def excludedNames : List JsString := [backupsName, js "cache", js "logs"]

/-- What an archive of a root holds. `tar` leaves lock files out at every depth; the archive that
is written when `tar` cannot be executed leaves out those of the root. -/
def createArchive (tarRuns : Bool) (root : Folder) : List (JsString × Node) :=
  let entries := root.entries.filter fun entry => entry.1 ∉ excludedNames
  if tarRuns then withoutLocks entries else entries.filter fun entry => !isLock entry.1

/-! ## The restore -/

/-- The steps that can throw. -/
inductive Step where
  | makeDirectories
  /-- Finding the archive and verifying it. -/
  | verify
  | backup
  | extract
  /-- Making the side directory and listing the root. -/
  | listItems
  | moveOut (item : JsString)
  | listStaged
  | moveIn (item : JsString)
  | listRoot
  | remove (item : JsString)
  | listCurrent
  | moveBack (item : JsString)
  | cleanUp
  | verifyAgain
  | log

structure Host where
  fails : Step → Bool
  /-- What a removal that fails leaves in the place of an item, if it leaves it otherwise. -/
  left : JsString → Option Node
  /-- The archive `createBackup` writes, and what it writes beside it. -/
  archive : JsString × Node
  archiveFiles : List (JsString × Node)
  /-- The files it leaves when it throws. -/
  partialFiles : List (JsString × Node)
  /-- What the archive extracts to. -/
  staged : Folder
  /-- The file with the line of this restore. -/
  restoreLog : Node

def entriesOf : Option Node → List (JsString × Node)
  | some (.dir entries) => entries
  | _ => []

/-- A directory with files written into it. -/
def addFiles (files : List (JsString × Node)) (entry : Option Node) : Node :=
  .dir (files.foldl (fun entries file => setMember file.1 file.2 entries) (entriesOf entry))

def addBackups (files : List (JsString × Node)) (root : Folder) : Folder :=
  root.write backupsName (addFiles files (root.read backupsName))

/-- The items of the root that are moved and removed. -/
def items (root : Folder) : List JsString := root.names.filter (· ≠ backupsName)

inductive Outcome where
  | returned (root : Folder)
  /-- A step has thrown, and perhaps a step of its compensation too. -/
  | threw (step : Step) (compensation : Option Step) (root : Folder)

variable (host : Host)

/-- The `catch` block: the root is emptied and the current tree moved back. -/
def compensate (step : Step) (root current : Folder) : Outcome :=
  if host.fails .listRoot then .threw step (some .listRoot) root
  else
    match Directory.removeAll (fun item => host.fails (.remove item)) host.left (items root)
      root with
    | (some item, root) => .threw step (some (.remove item)) root
    | (none, root) =>
      if host.fails .listCurrent then .threw step (some .listCurrent) root
      else
        match Directory.moveAll (fun item => host.fails (.moveBack item)) replaces current.names
          current root with
        | (some item, _, root) => .threw step (some (.moveBack item)) root
        | (none, _, root) => .threw step none root

/-- What follows once the staged tree is in the root. -/
def finish (root : Folder) : Outcome :=
  if host.fails .cleanUp then .threw .cleanUp none root
  else if host.fails .verifyAgain then .threw .verifyAgain none root
  else if host.fails .log then .threw .log none root
  else .returned (addBackups [(js "restore.log", host.restoreLog)] root)

/-- The second loop, in its `try` block. -/
def replaceTree (root current : Folder) : Outcome :=
  if host.fails .listStaged then compensate host .listStaged root current
  else
    match Directory.moveAll (fun item => host.fails (.moveIn item)) replaces host.staged.names
      host.staged root with
    | (some item, _, root) => compensate host (.moveIn item) root current
    | (none, _, root) => finish host root

/-- `restoreBackup(options)`, with the backups in the root. -/
def restoreBackup (root : Folder) : Outcome :=
  match host.fails .makeDirectories, root.read backupsName with
  | true, _ => .threw .makeDirectories none root
  -- `mkdirSync` throws on a file.
  | false, some (.file _) => .threw .makeDirectories none root
  | false, _ =>
    if host.fails .verify then .threw .verify none (addBackups [] root)
    else if host.fails .backup then .threw .backup none (addBackups host.partialFiles root)
    else
      let root := addBackups (host.archive :: host.archiveFiles) root
      if host.fails .extract then .threw .extract none root
      else if host.fails .listItems then .threw .listItems none root
      else
        match Directory.moveAll (fun item => host.fails (.moveOut item)) replaces (items root)
          root .empty with
        | (some item, root, _) => .threw (.moveOut item) none root
        | (none, root, current) => replaceTree host root current

end MemphisOS.Backup
