import MemphisOS.Bridge.Envelope
import MemphisOS.Ecma.Base64
import MemphisOS.Ecma.Date
import MemphisOS.Ecma.NumberOrder
import MemphisOS.Ecma.StringMethods
import MemphisOS.Ecma.Utf8
import MemphisOS.Files.Directory

/-!
# Snapshots

A snapshot holds copies of the chain database files and of the configuration. A stored
snapshot is the value its JSON document reads back as.
-/

namespace MemphisOS.Rollback

open Ecma

/-! ## The disk -/

/-- A directory of files. -/
abbrev Dir := Files.Directory (List UInt8)

structure ChainBackup where
  data : JsString
  checksum : JsString

structure ConfigBackup where
  data : JsString
  checksum : JsString

/-- A snapshot. `chains` has its entries in the order of their definition. -/
structure Snapshot where
  id : JsString
  timestamp : JsNumber
  chains : List (JsString × ChainBackup)
  config : Option ConfigBackup
  version : Plain
  checksum : JsString

/-- What the rollback manager reads and writes: the directory of the chains, if it exists, the
two files of the working directory and the stored snapshots. -/
structure Disk where
  chains : Option Dir
  config : Option (List UInt8)
  packageJson : Option (List UInt8)
  snapshots : List (JsString × Snapshot)

/-- The suffix of a chain database. -/
def dbSuffix : JsString := js ".db"

/-- The bytes of the chain database with a stem. -/
def Disk.chain (disk : Disk) (stem : JsString) : Option (List UInt8) :=
  (disk.chains.getD .empty).read (stem ++ dbSuffix)

/-! ## Reading -/

/-- The reads that fail while a snapshot is taken. -/
structure ReadFaults where
  directory : Bool
  file : JsString → Bool
  config : Bool

/-- Every read succeeds. -/
def noFaults : ReadFaults := { directory := false, file := fun _ => false, config := false }

/-- `chains[chainName] = backup`. The name `__proto__` sets the prototype instead. -/
def assign (chainName : JsString) (backup : ChainBackup) (chains : List (JsString × ChainBackup)) :
    List (JsString × ChainBackup) :=
  if chainName = js "__proto__" then chains else setMember chainName backup chains

variable (sha256 : List UInt8 → JsString)

def chainBackup (data : List UInt8) : ChainBackup :=
  { data := ofText (toBase64 data), checksum := sha256 data }

/-- The loop over the files of the directory. A read that fails ends it; the error is caught. -/
def backupFiles (faults : ReadFaults) (chains : List (JsString × ChainBackup)) :
    List (JsString × List UInt8) → List (JsString × ChainBackup)
  | [] => chains
  | (file, data) :: rest =>
    if !dbSuffix.isSuffixOf file then backupFiles faults chains rest
    else if faults.file file then chains
    else
      backupFiles faults (assign (file.removeFirst dbSuffix) (chainBackup sha256 data) chains) rest

def backupChains (faults : ReadFaults) (disk : Disk) : List (JsString × ChainBackup) :=
  match disk.chains with
  | none => []
  | some dir => if faults.directory then [] else backupFiles sha256 faults [] dir.entries

/-- The configuration is read as text. -/
def backupConfig (faults : ReadFaults) (disk : Disk) : Option ConfigBackup :=
  match disk.config with
  | none => none
  | some bytes =>
    if faults.config then none
    else
      let data := decodeUtf8 bytes
      some { data := ofText data, checksum := sha256 (encodeUtf8 data) }

/-- `pkg.version || '0.0.0'`, and `'0.0.0'` when `package.json` cannot be read or parsed. -/
def getCurrentVersion (disk : Disk) : Plain :=
  let pkg := disk.packageJson.bind fun bytes => parseJson (decodeUtf8 bytes)
  let version := pkg.bind (Bridge.property · "version")
  if Bridge.truthy version then version.getD .null else .str (js "0.0.0")

/-! ## The checksum -/

def backupJson (data checksum : JsString) : Plain :=
  .obj [(js "data", .str data), (js "checksum", .str checksum)]

/-- The hash of the serialised content of a snapshot. -/
def computeChecksum (snapshot : Snapshot) : JsString :=
  sha256 (encodeUtf8 (jsonText [] (.obj
    [(js "chains", .obj ((orderMembers snapshot.chains).map fun chain =>
        (chain.1, backupJson chain.2.data chain.2.checksum))),
      (js "config", match snapshot.config with
        | none => .null
        | some config => backupJson config.data config.checksum),
      (js "version", snapshot.version),
      (js "timestamp", .num snapshot.timestamp)])))

/-- The snapshot `createSnapshot` takes of a disk at a time. -/
def takeSnapshot (faults : ReadFaults) (timestamp : JsNumber) (disk : Disk) : Snapshot :=
  let snapshot : Snapshot :=
    { id := js "snapshot-" ++ ofText (numberText timestamp)
      timestamp
      chains := backupChains sha256 faults disk
      config := backupConfig sha256 faults disk
      version := getCurrentVersion disk
      checksum := [] }
  { snapshot with checksum := computeChecksum sha256 snapshot }

end MemphisOS.Rollback

/-!
## The rollback manager

`rollback` restores a snapshot file by file. When that fails it calls itself on the snapshot it
took before, so its model takes fuel: `none` means that the fuel did not suffice.
-/

namespace MemphisOS.Rollback

open Ecma

/-- The end of a call of `fs.writeFile`. -/
inductive WriteOutcome where
  | done
  /-- The call throws. It leaves the file as it is, or with these bytes. -/
  | failed (left : Option (List UInt8))

inductive RollbackError where
  /-- An error of the file system. -/
  | fileSystem
  /-- `Snapshot checksum mismatch - possible corruption`. -/
  | snapshotChecksum
  /-- `Chain ${chainName} checksum mismatch`. -/
  | chainChecksum (chainName : JsString)
  /-- `Config checksum mismatch`. -/
  | configChecksum
  /-- A `RangeError` of `toISOString`. -/
  | invalidTime

/-- What happens to the calls of a process: snapshots and writes are counted. -/
structure Host where
  sha256 : List UInt8 → JsString
  /-- `Date.now()` when the snapshot is taken. -/
  now : ℕ → JsNumber
  reads : ℕ → ReadFaults
  /-- Whether the snapshot is stored. -/
  snapshotWrite : ℕ → Bool
  /-- The writes of chains and configurations. -/
  restoreWrite : ℕ → WriteOutcome

structure State where
  disk : Disk
  snapshotsTaken : ℕ
  restoreWrites : ℕ

variable (host : Host)

/-- Take a snapshot and store it; `none` in place of its id when it cannot be stored. -/
def createSnapshot (s : State) : Option JsString × State :=
  let n := s.snapshotsTaken
  let snapshot := takeSnapshot host.sha256 (host.reads n) (host.now n) s.disk
  if host.snapshotWrite n then
    (some snapshot.id,
      { s with
        disk := { s.disk with snapshots := setMember snapshot.id snapshot s.disk.snapshots }
        snapshotsTaken := n + 1 })
  else (none, { s with snapshotsTaken := n + 1 })

/-! ## Restoring -/

inductive Target where
  | chain (stem : JsString)
  | config

def Disk.write (disk : Disk) (target : Target) (bytes : List UInt8) : Disk :=
  match target with
  | .chain stem =>
    { disk with chains := some ((disk.chains.getD .empty).write (stem ++ dbSuffix) bytes) }
  | .config => { disk with config := some bytes }

/-- `await fs.writeFile(path, data)`. -/
def restoreFile (target : Target) (bytes : List UInt8) (s : State) :
    Except RollbackError Unit × State :=
  let n := s.restoreWrites
  match host.restoreWrite n with
  | .done => (.ok (), { s with disk := s.disk.write target bytes, restoreWrites := n + 1 })
  | .failed none => (.error .fileSystem, { s with restoreWrites := n + 1 })
  | .failed (some left) =>
    (.error .fileSystem, { s with disk := s.disk.write target left, restoreWrites := n + 1 })

/-- The loop over the chains of a snapshot. -/
def restoreChains : List (JsString × ChainBackup) → State → Except RollbackError Unit × State
  | [], s => (.ok (), s)
  | (chainName, backup) :: rest, s =>
    let data := fromBase64 backup.data
    if host.sha256 data ≠ backup.checksum then (.error (.chainChecksum chainName), s)
    else
      match restoreFile host (.chain chainName) data s with
      | (.ok (), s) => restoreChains rest s
      | (.error error, s) => (.error error, s)

def restoreConfig (config : Option ConfigBackup) (s : State) :
    Except RollbackError Unit × State :=
  match config with
  | none => (.ok (), s)
  | some backup =>
    let configData := encodeUtf8 (wellFormed backup.data)
    if host.sha256 configData ≠ backup.checksum then (.error .configChecksum, s)
    else restoreFile host .config configData s

/-- The `try` block of `atomicRestore`. -/
def restore (snapshot : Snapshot) (s : State) : Except RollbackError Unit × State :=
  let s := { s with disk := { s.disk with chains := some (s.disk.chains.getD .empty) } }
  match restoreChains host (orderMembers snapshot.chains) s with
  | (.ok (), s) => restoreConfig host snapshot.config s
  | (.error error, s) => (.error error, s)

end MemphisOS.Rollback
