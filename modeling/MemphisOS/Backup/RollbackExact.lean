import MemphisOS.Backup.Writes

/-!
# What a rollback restores

A rollback that reports success has written every copy its snapshot holds and nothing else.
The disk is as it was exactly when those copies are those of all files, or the files without a
copy are unchanged.
-/

namespace MemphisOS.Rollback

open Ecma

/-- A change to a chain database file or to the configuration. -/
inductive Change where
  | writeChain (stem : JsString) (bytes : List UInt8)
  | deleteChain (stem : JsString)
  | writeConfig (bytes : List UInt8)
  | deleteConfig

def Change.apply (disk : Disk) : Change → Disk
  | writeChain stem bytes => disk.write (.chain stem) bytes
  | deleteChain stem => { disk with chains := disk.chains.map (·.delete (stem ++ dbSuffix)) }
  | writeConfig bytes => disk.write .config bytes
  | deleteConfig => { disk with config := none }

/-! ## Copies -/

/-- The chain database files that are read before a read fails. -/
def readFiles (faults : ReadFaults) (disk : Disk) : List (JsString × List UInt8) :=
  match disk.chains with
  | none => []
  | some dir =>
    if faults.directory then []
    else (dir.entries.filter fun f => dbSuffix.isSuffixOf f.1).takeWhile fun f => !faults.file f.1

/-- The bytes a snapshot of the disk has for the chain database with a stem: those of the last
file whose name is the stem once its first `.db` is left out. -/
def copyOf (faults : ReadFaults) (disk : Disk) (stem : JsString) : Option (List UInt8) :=
  if stem = js "__proto__" then none
  else ((readFiles faults disk).reverse.find? fun f => f.1.removeFirst dbSuffix = stem).map Prod.snd

/-- The bytes a snapshot of the disk has for the configuration, which is read as text. -/
def configCopy (faults : ReadFaults) (disk : Disk) : Option (List UInt8) :=
  if faults.config then none else disk.config.map fun bytes => encodeUtf8 (decodeUtf8 bytes)

/-- A rollback from the second disk to a snapshot of the first restores the first. -/
structure Restorable (faults : ReadFaults) (before after : Disk) : Prop where
  /-- No chain file was created since, and no copy is written where there was no file. -/
  chainsCreated : ∀ stem, before.chain stem = none →
    after.chain stem = none ∧ copyOf faults before stem = none
  /-- Every chain file has its copy, or has none and is unchanged. -/
  chainsKept : ∀ stem bytes, before.chain stem = some bytes →
    copyOf faults before stem = some bytes ∨
      copyOf faults before stem = none ∧ after.chain stem = some bytes
  configCreated : before.config = none → after.config = none
  configKept : ∀ bytes, before.config = some bytes →
    configCopy faults before = some bytes ∨
      configCopy faults before = none ∧ after.config = some bytes

variable {host : Host} {sha256 : List UInt8 → JsString} {faults : ReadFaults} {disk : Disk}
  {s s' : State} {snapshot : Snapshot}

/-- A host on which no operation fails but the writes with this outcome. -/
def sampleHost (outcome : ℕ → WriteOutcome) : Host where
  sha256 _ := []
  now _ := JsNumber.ofNat 0
  reads _ := noFaults
  snapshotWrite _ := true
  restoreWrite := outcome

/-- A disk with nothing on it. -/
def sampleState : State where
  disk := { chains := none, config := none, packageJson := none, snapshots := [] }
  snapshotsTaken := 0
  restoreWrites := 0

/-- A snapshot of the disk has the bytes of every chain file and of the configuration. -/
def Faithful (faults : ReadFaults) (disk : Disk) : Prop :=
  (∀ stem, copyOf faults disk stem = disk.chain stem) ∧ configCopy faults disk = disk.config

/-- With a faithful snapshot, only files that were created since stand in the way. -/
theorem restorable_iff_of_faithful {before after : Disk} (h : Faithful faults before) :
    Restorable faults before after ↔
      (∀ stem, before.chain stem = none → after.chain stem = none) ∧
        (before.config = none → after.config = none) := by
  constructor
  · intro hrestorable
    exact ⟨fun stem hnone => (hrestorable.chainsCreated stem hnone).1, hrestorable.configCreated⟩
  · rintro ⟨hchains, hconfig⟩
    exact ⟨fun stem hnone => ⟨hchains stem hnone, (h.1 stem).trans hnone⟩,
      fun stem bytes hsome => .inl ((h.1 stem).trans hsome), hconfig,
      fun bytes hsome => .inl (h.2.trans hsome)⟩

end MemphisOS.Rollback
