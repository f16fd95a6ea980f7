import MemphisOS.ChainImport.Normalize
import MemphisOS.Ecma.Utf8

/-!
# Writing imported blocks

`transactionalWriteBlocks` writes the blocks beside their file, copies the file to a backup and
renames the new one into place. The backup of an earlier import is still there when the file
itself is not.
-/

namespace MemphisOS.ChainImport

open Ecma

/-- The file of the blocks and the two beside it, each with its bytes if it is there. -/
structure ImportFiles where
  target : Option (List UInt8)
  /-- `${absoluteTarget}.bak`. -/
  backup : Option (List UInt8)
  /-- `${absoluteTarget}.tmp`. -/
  temp : Option (List UInt8)

/-- The operations that can fail, in their order. -/
inductive FileOperation where
  | makeDirectory
  | writeTemp
  | copyToBackup
  | rename
  | removeTemp
  | copyBack
  deriving DecidableEq

/-- Which operations of a call fail. -/
structure Faults where
  fails : FileOperation → Bool
  /-- What a write or a copy that fails leaves in the place of its destination. -/
  left : FileOperation → Option (List UInt8)

/-- The bytes of `JSON.stringify({ blocks }, null, 2)` and a line break. -/
def importedBytes (blocks : List Block) : List UInt8 :=
  encodeUtf8 (jsonText [' ', ' '] (.obj [(js "blocks", .arr (blocks.map Block.value))]) ++ ['\n'])

/-- The `backupPath` that is returned, unless it throws, and the files after the call. -/
def transactionalWriteBlocks (faults : Faults) (absoluteTarget : JsString) (blocks : List Block)
    (files : ImportFiles) : Option (Option JsString) × ImportFiles :=
  if faults.fails .makeDirectory then (none, files)
  else if faults.fails .writeTemp then (none, { files with temp := faults.left .writeTemp })
  else
    let files := { files with temp := some (importedBytes blocks) }
    if files.target.isSome ∧ faults.fails .copyToBackup then
      (none, { files with backup := faults.left .copyToBackup })
    else
      let files := if files.target.isSome then { files with backup := files.target } else files
      if faults.fails .rename then
        if faults.fails .removeTemp then (none, files)
        else
          let files := { files with temp := none }
          if files.backup.isSome ∧ files.target = none then
            (none, { files with
              target := if faults.fails .copyBack then faults.left .copyBack else files.backup })
          else (none, files)
      else
        let files := { files with target := files.temp, temp := none }
        (some (if files.backup.isSome then some (absoluteTarget ++ js ".bak") else none), files)

/-- A call that throws leaves the file as it was. A call that returns leaves the new blocks in it,
and the backup it names holds what was there before. -/
def Transactional (faults : Faults) (absoluteTarget : JsString) (blocks : List Block)
    (files : ImportFiles) : Prop :=
  let (result, files') := transactionalWriteBlocks faults absoluteTarget blocks files
  match result with
  | none => files'.target = files.target
  | some backupPath => files'.target = some (importedBytes blocks) ∧
      (backupPath.isSome → files.target.isSome ∧ files'.backup = files.target)

variable {faults : Faults} {absoluteTarget : JsString} {blocks : List Block} {files : ImportFiles}

/-- Nothing is renamed, and nothing is copied back. -/
def StopsEarly (faults : Faults) : Prop :=
  faults.fails .makeDirectory ∨ faults.fails .writeTemp ∨ (faults.fails .rename ∧
    (faults.fails .removeTemp ∨ (faults.fails .copyBack ∧ faults.left .copyBack = none)))

theorem transactional_of_target {content : List UInt8} (h : files.target = some content) :
    Transactional faults absoluteTarget blocks files := by
  obtain ⟨target, backup, temp⟩ := files
  dsimp only at h
  subst h
  simp only [Transactional, transactionalWriteBlocks, Option.isSome_some, true_and, if_true,
    reduceCtorEq, and_false, if_false]
  cases faults.fails .makeDirectory with
  | true => rfl
  | false =>
    cases faults.fails .writeTemp with
    | true => rfl
    | false =>
      cases faults.fails .copyToBackup with
      | true => rfl
      | false =>
        cases faults.fails .rename with
        | false => exact ⟨rfl, fun _ => rfl⟩
        | true => cases faults.fails .removeTemp <;> rfl

/-- Without the file and without a backup nothing is there to be mistaken for it. -/
theorem transactional_of_no_backup (htarget : files.target = none) (hbackup : files.backup = none) :
    Transactional faults absoluteTarget blocks files := by
  obtain ⟨target, backup, temp⟩ := files
  dsimp only at htarget hbackup
  subst htarget hbackup
  simp only [Transactional, transactionalWriteBlocks, Option.isSome_none, Bool.false_eq_true,
    false_and, if_false]
  cases faults.fails .makeDirectory with
  | true => rfl
  | false =>
    cases faults.fails .writeTemp with
    | true => rfl
    | false =>
      cases faults.fails .rename with
      | false => exact ⟨rfl, fun h => absurd h (by simp)⟩
      | true => cases faults.fails .removeTemp <;> rfl

/-- A backup without the file is taken for the file's, unless the call stops before. -/
theorem transactional_stale_iff {stale : List UInt8} (htarget : files.target = none)
    (hbackup : files.backup = some stale) :
    Transactional faults absoluteTarget blocks files ↔ StopsEarly faults := by
  obtain ⟨target, backup, temp⟩ := files
  dsimp only at htarget hbackup
  subst htarget hbackup
  simp only [Transactional, transactionalWriteBlocks, StopsEarly, Option.isSome_none,
    Bool.false_eq_true, false_and, if_false, Option.isSome_some, and_self, if_true]
  cases faults.fails .makeDirectory with
  | true => simp
  | false =>
    cases faults.fails .writeTemp with
    | true => simp
    | false =>
      cases faults.fails .rename with
      | false => simp
      | true =>
        cases faults.fails .removeTemp with
        | true => simp
        | false => cases faults.fails .copyBack <;> simp

/-- **The transaction.** It holds exactly when the file is there, or no backup is, or the call stops
before it takes the backup for the file's. -/
theorem transactional_iff (faults : Faults) (absoluteTarget : JsString) (blocks : List Block)
    (files : ImportFiles) :
    Transactional faults absoluteTarget blocks files ↔
      files.target.isSome ∨ files.backup = none ∨ StopsEarly faults := by
  cases htarget : files.target with
  | some content => exact iff_of_true (transactional_of_target htarget) (.inl rfl)
  | none =>
    cases hbackup : files.backup with
    | none => exact iff_of_true (transactional_of_no_backup htarget hbackup) (.inr (.inl rfl))
    | some stale =>
      rw [transactional_stale_iff htarget hbackup]
      exact ⟨fun h => .inr (.inr h), fun h => by simpa using h⟩

/-- Nothing fails. -/
def noFaults : Faults := ⟨fun _ => false, fun _ => none⟩

/-- A first import reports the backup of a file that was removed. -/
theorem stale_backup_returned : ¬∀ faults absoluteTarget blocks files,
    Transactional faults absoluteTarget blocks files := by
  intro h
  have hstops := (transactional_stale_iff rfl rfl).mp
    (h noFaults (js "/data/chain.json") [] ⟨none, some [123, 125], none⟩)
  simp [StopsEarly, noFaults] at hstops

/-! ## Imports one after another -/

/-- No backup without the file. -/
def NotStale (files : ImportFiles) : Prop := files.target.isSome ∨ files.backup = none

theorem NotStale.transactional (h : NotStale files) (faults : Faults) (absoluteTarget : JsString)
    (blocks : List Block) : Transactional faults absoluteTarget blocks files := by
  obtain htarget | hbackup := h
  · exact transactional_of_target (Option.some_get htarget).symm
  · cases htarget : files.target with
    | some content => exact transactional_of_target htarget
    | none => exact transactional_of_no_backup htarget hbackup

/-- An import makes no backup without the file, whatever fails. -/
theorem NotStale.import (h : NotStale files) (faults : Faults) (absoluteTarget : JsString)
    (blocks : List Block) :
    NotStale (transactionalWriteBlocks faults absoluteTarget blocks files).2 := by
  obtain ⟨target, backup, temp⟩ := files
  cases target with
  | some content =>
    refine .inl ?_
    simp only [transactionalWriteBlocks, Option.isSome_some, true_and, if_true, reduceCtorEq,
      and_false, if_false]
    cases faults.fails .makeDirectory with
    | true => rfl
    | false =>
      cases faults.fails .writeTemp with
      | true => rfl
      | false =>
        cases faults.fails .copyToBackup with
        | true => rfl
        | false =>
          cases faults.fails .rename with
          | false => rfl
          | true => cases faults.fails .removeTemp <;> rfl
  | none =>
    obtain rfl : backup = none := h.resolve_left (by simp)
    simp only [transactionalWriteBlocks, Option.isSome_none, Bool.false_eq_true, false_and,
      if_false]
    cases faults.fails .makeDirectory with
    | true => exact .inr rfl
    | false =>
      cases faults.fails .writeTemp with
      | true => exact .inr rfl
      | false =>
        cases faults.fails .rename with
        | false => exact .inl rfl
        | true => cases faults.fails .removeTemp <;> exact .inr rfl

/-- The files after imports, each with its faults and its blocks. -/
def importsFrom (absoluteTarget : JsString) (files : ImportFiles)
    (imports : List (Faults × List Block)) : ImportFiles :=
  imports.foldl (fun files call =>
    (transactionalWriteBlocks call.1 absoluteTarget call.2 files).2) files

/-- **Runs.** Imports one after another are transactions when no backup was there without the file
before the first. -/
theorem NotStale.run (h : NotStale files) (absoluteTarget : JsString)
    (imports : List (Faults × List Block)) (faults : Faults) (blocks : List Block) :
    Transactional faults absoluteTarget blocks (importsFrom absoluteTarget files imports) := by
  refine NotStale.transactional ?_ faults absoluteTarget blocks
  induction imports generalizing files with
  | nil => exact h
  | cons call imports ih => exact ih (h.import call.1 absoluteTarget call.2)

end MemphisOS.ChainImport
