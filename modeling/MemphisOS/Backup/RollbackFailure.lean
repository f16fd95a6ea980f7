import MemphisOS.Backup.RollbackExact
import Mathlib.Data.List.TakeWhile

/-!
# Rollbacks that fail

When a restore fails, the manager rolls back to the snapshot it took before. That rollback
overwrites what it has copies of, so the disk is as before exactly when it is restorable from
the partly written one. It fails and retries in the same way, so it returns exactly when the
failures do not go on for ever.
-/

namespace MemphisOS.Rollback

open Ecma

variable {host : Host} {s s' : State} {snapshot : Snapshot} {snapshotId : JsString} {p : ℕ}
  {left : Option (List UInt8)}

/-- A rollback that fails and calls itself: the next call has the snapshot it took and the state
it left. -/
def Retries (host : Host) (call next : JsString × State) : Prop :=
  ∃ snapshot s₁ error, call.2.disk.snapshots.lookup call.1 = some snapshot ∧
    computeChecksum host.sha256 snapshot = snapshot.checksum ∧
    createSnapshot host call.2 = (some next.1, s₁) ∧
    restore host snapshot s₁ = (.error error, next.2)

/-- The call after a call is determined. -/
theorem Retries.unique {call next next' : JsString × State} (h : Retries host call next)
    (h' : Retries host call next') : next = next' := by
  obtain ⟨snapshot, s₁, error, hlookup, -, hcreate, hrestore⟩ := h
  obtain ⟨snapshot', s₁', error', hlookup', -, hcreate', hrestore'⟩ := h'
  obtain rfl := Option.some.inj (hlookup.symm.trans hlookup')
  obtain ⟨hid, rfl⟩ := Prod.mk.inj (hcreate.symm.trans hcreate')
  exact Prod.ext (Option.some.inj hid) (Prod.mk.inj (hrestore.symm.trans hrestore')).2

/-- A snapshot of the disk has a copy. -/
def HasCopy (disk : Disk) : Prop :=
  (∃ stem, copyOf noFaults disk stem ≠ none) ∨ disk.config ≠ none

theorem copyOf_ne_none_iff {disk : Disk} {stem : JsString} :
    copyOf noFaults disk stem ≠ none ↔ stem ≠ js "__proto__" ∧
      ∃ name ∈ (disk.chains.getD .empty).entries.map Prod.fst,
        dbSuffix.isSuffixOf name = true ∧ name.removeFirst dbSuffix = stem := by
  have hread : readFiles noFaults disk =
      (disk.chains.getD .empty).entries.filter fun f => dbSuffix.isSuffixOf f.1 := by
    unfold readFiles
    cases disk.chains with
    | none => rfl
    | some dir => exact List.takeWhile_eq_self_iff.mpr fun _ _ => rfl
  rw [copyOf, hread]
  by_cases hproto : stem = js "__proto__"
  · simp [hproto]
  · rw [if_neg hproto, ne_eq, Option.map_eq_none_iff, List.find?_eq_none]
    simp only [List.mem_reverse, List.mem_filter, List.mem_map, decide_eq_true_eq]
    constructor
    · intro h
      refine ⟨hproto, by_contra fun hnone => h fun f hf hstem => hnone ?_⟩
      exact ⟨f.1, ⟨f, hf.1, rfl⟩, hf.2, hstem⟩
    · rintro ⟨-, name, ⟨f, hf, rfl⟩, hdb, hstem⟩ h
      exact h f ⟨hf, hdb⟩ hstem

/-- Writes delete nothing. -/
theorem HasCopy.write {disk : Disk} (h : HasCopy disk) (target : Target) (bytes : List UInt8) :
    HasCopy (disk.write target bytes) := by
  cases target with
  | chain stem' =>
    refine h.imp (fun ⟨stem, hcopy⟩ => ⟨stem, ?_⟩) id
    obtain ⟨hproto, name, hname, hdb, hstem⟩ := copyOf_ne_none_iff.mp hcopy
    refine copyOf_ne_none_iff.mpr ⟨hproto, name, ?_, hdb, hstem⟩
    simp only [Disk.write, Option.getD_some, Files.Directory.write, keys_setMember]
    split
    · exact hname
    · exact List.mem_append_left _ hname
  | config => exact .inr (by simp)

theorem HasCopy.partly {disk : Disk} (h : HasCopy disk) (copies : List Copy) (p : ℕ)
    (left : Option (List UInt8)) : HasCopy (disk.partly copies p left) := by
  have hall : ∀ (copies : List Copy) (disk : Disk), HasCopy disk → HasCopy (disk.writeAll copies) := by
    intro copies
    induction copies with
    | nil => exact fun _ h => h
    | cons copy copies ih => exact fun disk h => ih _ (h.write copy.target copy.bytes)
  unfold Disk.partly
  split
  · cases left with
    | none => exact hall _ _ h
    | some bytes => exact (hall _ _ h).write _ _
  · exact hall _ _ h

end MemphisOS.Rollback
