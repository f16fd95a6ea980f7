import MemphisOS.Backup.Rollback

/-!
# The writes of a restore

The copies of a snapshot are written one after the other: the chains in their order, then the
configuration. A restore ends at the first copy without its checksum and at the first write
that fails.
-/

namespace MemphisOS.Rollback

open Ecma

/-- A copy in a snapshot, with the file it is written to. -/
structure Copy where
  target : Target
  bytes : List UInt8
  checksum : JsString

def chainCopy (entry : JsString × ChainBackup) : Copy :=
  { target := .chain entry.1, bytes := fromBase64 entry.2.data, checksum := entry.2.checksum }

def configEntry (backup : ConfigBackup) : Copy :=
  { target := .config, bytes := encodeUtf8 (wellFormed backup.data), checksum := backup.checksum }

/-- The copies of a snapshot in the order a restore takes them. -/
def Snapshot.copies (snapshot : Snapshot) : List Copy :=
  (orderMembers snapshot.chains).map chainCopy ++ (snapshot.config.map configEntry).toList

/-- A copy with the hash of its bytes. -/
def Copy.Intact (sha256 : List UInt8 → JsString) (copy : Copy) : Prop :=
  sha256 copy.bytes = copy.checksum

variable {host : Host} {copies : List Copy} {s s' : State} {snapshot : Snapshot}

theorem chain_write_chain (disk : Disk) (stem : JsString) (bytes : List UInt8) (stem' : JsString) :
    (disk.write (.chain stem) bytes).chain stem' =
      if stem' = stem then some bytes else disk.chain stem' := by
  rw [Disk.write, Disk.chain, Option.getD_some, Files.Directory.read_write]
  simp [Disk.chain]

@[simp] theorem chain_write_config (disk : Disk) (bytes : List UInt8) (stem : JsString) :
    (disk.write .config bytes).chain stem = disk.chain stem := rfl

@[simp] theorem config_write_config (disk : Disk) (bytes : List UInt8) :
    (disk.write .config bytes).config = some bytes := rfl

/-- The same chain database files with the same bytes, and the same configuration. -/
def SameFiles (a b : Disk) : Prop := (∀ stem, a.chain stem = b.chain stem) ∧ a.config = b.config

theorem SameFiles.refl (disk : Disk) : SameFiles disk disk := ⟨fun _ => rfl, rfl⟩

theorem SameFiles.symm {a b : Disk} (h : SameFiles a b) : SameFiles b a :=
  ⟨fun stem => (h.1 stem).symm, h.2.symm⟩

theorem SameFiles.trans {a b c : Disk} (h : SameFiles a b) (h' : SameFiles b c) : SameFiles a c :=
  ⟨fun stem => (h.1 stem).trans (h'.1 stem), h.2.trans h'.2⟩

theorem SameFiles.write {a b : Disk} (h : SameFiles a b) (target : Target) (bytes : List UInt8) :
    SameFiles (a.write target bytes) (b.write target bytes) := by
  cases target with
  | chain stem =>
    refine ⟨fun stem' => ?_, h.2⟩
    rw [chain_write_chain, chain_write_chain, h.1]
  | config => exact ⟨h.1, rfl⟩

/-- Write copies, whatever their checksums. -/
def Disk.writeAll (disk : Disk) (copies : List Copy) : Disk :=
  copies.foldl (fun disk copy => disk.write copy.target copy.bytes) disk

theorem SameFiles.writeAll {a b : Disk} (h : SameFiles a b) (copies : List Copy) :
    SameFiles (a.writeAll copies) (b.writeAll copies) := by
  induction copies generalizing a b with
  | nil => exact h
  | cons copy copies ih => exact ih (h.write copy.target copy.bytes)

/-- What a write that fails leaves of a disk. -/
def Disk.leave (disk : Disk) (target : Target) (left : Option (List UInt8)) : Disk :=
  match left with
  | none => disk
  | some bytes => disk.write target bytes

theorem SameFiles.leave {a b : Disk} (h : SameFiles a b) (target : Target)
    (left : Option (List UInt8)) : SameFiles (a.leave target left) (b.leave target left) := by
  cases left with
  | none => exact h
  | some bytes => exact h.write target bytes

/-- The copies up to number `p` are intact, and its write is the first that fails; it leaves
these bytes. Writes are counted from `written` on. -/
structure FailsAt (host : Host) (copies : List Copy) (written p : ℕ)
    (left : Option (List UInt8)) : Prop where
  lt : p < copies.length
  intact : ∀ copy ∈ copies.take (p + 1), copy.Intact host.sha256
  done : ∀ i < p, host.restoreWrite (written + i) = .done
  failed : host.restoreWrite (written + p) = .failed left

/-- The disk after the writes before number `p`, and what the failed one leaves. -/
def Disk.partly (disk : Disk) (copies : List Copy) (p : ℕ) (left : Option (List UInt8)) : Disk :=
  match copies[p]? with
  | some copy => (disk.writeAll (copies.take p)).leave copy.target left
  | none => disk.writeAll (copies.take p)

theorem SameFiles.partly {a b : Disk} (h : SameFiles a b) (copies : List Copy) (p : ℕ)
    (left : Option (List UInt8)) :
    SameFiles (a.partly copies p left) (b.partly copies p left) := by
  unfold Disk.partly
  split
  · exact (h.writeAll _).leave _ _
  · exact h.writeAll _

/-- A restore ends well exactly when every copy is intact and every write is done. -/
theorem restoreCopies_cases (host : Host) (copies : List Copy) (s : State)
    (hintact : ∀ copy ∈ copies, copy.Intact host.sha256) :
    (∀ i < copies.length, host.restoreWrite (s.restoreWrites + i) = .done) ∨
      ∃ p left, FailsAt host copies s.restoreWrites p left := by
  by_cases hdone : ∀ i < copies.length, host.restoreWrite (s.restoreWrites + i) = .done
  · exact .inl hdone
  · have hexists : ∃ i, i < copies.length ∧ host.restoreWrite (s.restoreWrites + i) ≠ .done := by
      by_contra hnone
      exact hdone fun i hi => by_contra fun h => hnone ⟨i, hi, h⟩
    classical
    let p := Nat.find hexists
    obtain ⟨hlt, hp⟩ := Nat.find_spec hexists
    have hbefore : ∀ i < p, host.restoreWrite (s.restoreWrites + i) = .done := by
      intro i hi
      by_contra h
      exact Nat.find_min hexists hi ⟨hi.trans hlt, h⟩
    cases hfailed : host.restoreWrite (s.restoreWrites + p) with
    | done => exact absurd hfailed hp
    | failed left =>
      exact .inr ⟨p, left, hlt,
        fun copy hcopy => hintact copy (List.mem_of_mem_take hcopy), hbefore, hfailed⟩

end MemphisOS.Rollback
