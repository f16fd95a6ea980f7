import MemphisOS.Ecma.Numerals
import MemphisOS.Ecma.Utf8
import MemphisOS.Framing.Frames

/-!
# The write-ahead log of the task queue

The records of the log, the files it consists of and the operations on them. Each
operation runs under a lock file that no other process holds for long.
-/

namespace MemphisOS.TaskQueue

open Ecma Framing

/-! ## Records -/

/-- An entry of `CRC32C_TABLE`. -/
def crc32cEntry (i : UInt32) : UInt32 :=
  (List.range 8).foldl (fun crc _ =>
    if crc &&& 1 ≠ 0 then (crc >>> 1) ^^^ 0x82F63B78 else crc >>> 1) i

def crc32c (bytes : List UInt8) : UInt32 :=
  let step (crc : UInt32) (b : UInt8) := (crc >>> 8) ^^^ crc32cEntry ((crc ^^^ b.toUInt32) &&& 0xFF)
  bytes.foldl step 0xFFFFFFFF ^^^ 0xFFFFFFFF

structure WalRecord where
  payload : Text
  offset : ℕ
  length : ℕ
  deriving DecidableEq

inductive WalError where
  /-- `JSON.stringify` throws, or makes nothing of the task. -/
  | notSerializable
  /-- `writeUInt32BE` throws a `RangeError`. -/
  | payloadTooLong
  /-- `lock timeout for ...`. -/
  | lockTimeout
  /-- `fault-inject: wal-rename-pre-sync`. -/
  | faultInjected
  /-- A write that throws. -/
  | writeFailed
  deriving DecidableEq

def encodeRecord (payload : Text) : Except WalError (List UInt8) :=
  let payloadBytes := encodeUtf8 payload
  if payloadBytes.length < 2 ^ 32 then .ok (encode crc32c payloadBytes) else .error .payloadTooLong

def parseRecords (buffer : List UInt8) : List WalRecord × ℕ :=
  let (frames, validBytes) := parse crc32c buffer
  (frames.map fun f => ⟨decodeUtf8 f.payload, f.offset, f.length⟩, validBytes)

/-! ## Files -/

/-- The files of a log. -/
structure Disk where
  /-- The active log. -/
  wal : Option (List UInt8)
  /-- The file with the suffix `.tmp`. -/
  tmp : Option (List UInt8)
  /-- The rotated logs, each with the number in its name. -/
  archives : List (ℕ × List UInt8)
  lock : Bool
  deriving DecidableEq

/-- The options of a log. -/
structure WalOptions where
  maxWalBytes : JsNumber
  /-- The fault `wal-rename-pre-sync` is injected. -/
  faultInject : Bool

/-- The clock, and the number of bytes after which a write throws, if it does. -/
structure Io where
  dateNow : ℕ
  tornWrite : Option ℕ

def ensureActiveWal (disk : Disk) : Disk := { disk with wal := some (disk.wal.getD []) }

/-- A record of the length does not fit into the active log. -/
def WalOptions.rotates (options : WalOptions) (disk : Disk) (nextRecordBytes : ℕ) : Bool :=
  !(JsNumber.ofNat ((disk.wal.getD []).length + nextRecordBytes)).le options.maxWalBytes

/-- Rename the active log to its archive and put an empty file in its place. -/
def Disk.rotate (disk : Disk) (dateNow : ℕ) : Disk :=
  { disk with
    wal := some []
    tmp := none
    archives := match disk.wal with
      | some bytes => (dateNow, bytes) :: disk.archives.filter fun archive => archive.1 ≠ dateNow
      | none => disk.archives }

def rotateIfNeeded (options : WalOptions) (io : Io) (nextRecordBytes : ℕ) (disk : Disk) :
    Except WalError Unit × Disk :=
  if options.rotates disk nextRecordBytes then
    if options.faultInject then (.error .faultInjected, { disk with tmp := some [] })
    else (.ok (), disk.rotate io.dateNow)
  else (.ok (), disk)

/-- A lock file that exists is waited for in vain. -/
def withLock {α : Type} (fn : Disk → Except WalError α × Disk) (disk : Disk) :
    Except WalError α × Disk :=
  if disk.lock then (.error .lockTimeout, disk)
  else
    let (result, disk) := fn { disk with lock := true }
    (result, { disk with lock := false })

/-- The part of `enqueue` that appends to the active log. -/
def appendToWal (io : Io) (payload : Text) (encoded : List UInt8) (disk : Disk) :
    Except WalError WalRecord × Disk :=
  let current := disk.wal.getD []
  match io.tornWrite with
  | none => (.ok ⟨payload, current.length, encoded.length⟩,
      { disk with wal := some (current ++ encoded) })
  | some written => (.error .writeFailed,
      { disk with wal := some (current ++ encoded.take written) })

/-- The part of `enqueue` after the task has been serialised. -/
def enqueuePayload (options : WalOptions) (io : Io) (payload : Text) (disk : Disk) :
    Except WalError WalRecord × Disk :=
  match encodeRecord payload with
  | .error e => (.error e, disk)
  | .ok encoded => disk |> withLock fun disk =>
    match rotateIfNeeded options io encoded.length disk with
    | (.error e, disk) => (.error e, disk)
    | (.ok (), disk) => appendToWal io payload encoded disk

def recoverAndRead (disk : Disk) : Except WalError (List WalRecord) × Disk :=
  disk |> withLock fun disk =>
    let disk := ensureActiveWal disk
    let data := disk.wal.getD []
    let (records, validBytes) := parseRecords data
    (.ok records, { disk with wal := some (data.take validBytes) })

/-! ## Logs of payloads -/

/-- The active log holds exactly the records of the payloads, and its lock is free. -/
structure Disk.Holds (disk : Disk) (payloads : List (List UInt8)) : Prop where
  wal : disk.wal = some (encodeAll crc32c payloads)
  short : ∀ payload ∈ payloads, payload.length < 2 ^ 32
  unlocked : disk.lock = false

variable {disk disk' : Disk} {payload : Text} {payloads : List (List UInt8)} {options : WalOptions}
  {io : Io} {record : WalRecord} {records : List WalRecord}

theorem withLock_ok {α : Type} {fn : Disk → Except WalError α × Disk} {a : α}
    (h : withLock fn disk = (.ok a, disk')) :
    ∃ d, fn { disk with lock := true } = (.ok a, d) ∧ disk' = { d with lock := false } := by
  unfold withLock at h
  split at h
  · cases (Prod.mk.inj h).1
  · obtain ⟨hresult, hdisk⟩ := Prod.mk.inj h
    exact ⟨_, Prod.ext hresult rfl, hdisk.symm⟩

theorem rotateIfNeeded_ok {next : ℕ} (h : rotateIfNeeded options io next disk = (.ok (), disk')) :
    disk' = if options.rotates disk next then disk.rotate io.dateNow else disk := by
  unfold rotateIfNeeded at h
  split at h
  · next hrotates =>
    rw [if_pos hrotates]
    split at h
    · cases (Prod.mk.inj h).1
    · exact (Prod.mk.inj h).2.symm
  · next hrotates =>
    rw [if_neg hrotates]
    exact (Prod.mk.inj h).2.symm

theorem appendToWal_ok {encoded : List UInt8}
    (h : appendToWal io payload encoded disk = (.ok record, disk')) :
    disk' = { disk with wal := some (disk.wal.getD [] ++ encoded) } := by
  unfold appendToWal at h
  split at h
  · exact (Prod.mk.inj h).2.symm
  · cases (Prod.mk.inj h).1

/-- A call that returns appends the record: to the log, or to an empty one after a
rotation. -/
theorem enqueuePayload_holds (hdisk : disk.Holds payloads)
    (h : enqueuePayload options io payload disk = (.ok record, disk')) :
    disk'.Holds ((if options.rotates disk (encode crc32c (encodeUtf8 payload)).length then []
      else payloads) ++ [encodeUtf8 payload]) := by
  unfold enqueuePayload encodeRecord at h
  dsimp only at h
  by_cases hshort : (encodeUtf8 payload).length < 2 ^ 32
  · rw [if_pos hshort] at h
    obtain ⟨d, hlocked, rfl⟩ := withLock_ok h
    split at hlocked
    · cases (Prod.mk.inj hlocked).1
    · next e hrotate =>
      rw [appendToWal_ok hlocked, rotateIfNeeded_ok hrotate]
      have hrotates : options.rotates { disk with lock := true } = options.rotates disk := rfl
      rw [hrotates]
      split
      · exact ⟨by simp [Disk.rotate], by simpa using hshort, rfl⟩
      · refine ⟨by simp [hdisk.wal], ?_, rfl⟩
        simp only [List.mem_append, List.mem_singleton]
        rintro p (hp | rfl)
        · exact hdisk.short p hp
        · exact hshort
  · rw [if_neg hshort] at h
    cases (Prod.mk.inj h).1

theorem recoverAndRead_eq (hunlocked : disk.lock = false) :
    recoverAndRead disk = (.ok (parseRecords (disk.wal.getD [])).1,
      { disk with
        wal := some ((disk.wal.getD []).take (parseRecords (disk.wal.getD [])).2)
        lock := false }) := by
  rw [recoverAndRead, withLock, if_neg (by simp [hunlocked])]
  rfl

/-- Recovery of a log of payloads returns them and leaves the files as they are. -/
theorem recoverAndRead_holds (hdisk : disk.Holds payloads) :
    ∃ records, recoverAndRead disk = (.ok records, disk) ∧
      records.map WalRecord.payload = payloads.map decodeUtf8 := by
  refine ⟨(parseRecords (disk.wal.getD [])).1, ?_, ?_⟩
  · rw [recoverAndRead_eq hdisk.unlocked, parseRecords, hdisk.wal, Option.getD_some,
      parse_encodeAll hdisk.short, List.take_length, ← hdisk.wal, ← hdisk.unlocked]
  · rw [parseRecords, hdisk.wal, Option.getD_some, parse_encodeAll hdisk.short, List.map_map,
      ← map_payload_layout 0 payloads, List.map_map]
    simp [Function.comp_def]

theorem unlocked_of_recoverAndRead (h : recoverAndRead disk = (.ok records, disk')) :
    disk.lock = false := by
  by_contra hlocked
  rw [recoverAndRead, withLock, if_pos (by simpa using hlocked)] at h
  cases (Prod.mk.inj h).1

/-- After any recovery the log holds the payloads it returned. -/
theorem holds_of_recoverAndRead (h : recoverAndRead disk = (.ok records, disk')) :
    ∃ payloads, records.map WalRecord.payload = payloads.map decodeUtf8 ∧ disk'.Holds payloads := by
  have hunlocked := unlocked_of_recoverAndRead h
  rw [recoverAndRead_eq hunlocked] at h
  obtain ⟨hrecords, rfl⟩ := Prod.mk.inj h
  obtain rfl := Except.ok.inj hrecords
  obtain ⟨payloads, rest, hshort, hbytes, hscan⟩ := scan_sound crc32c
    (disk.wal.getD []).length 0 (disk.wal.getD [])
  rw [Nat.zero_add] at hscan
  refine ⟨payloads, ?_, ?_, hshort, rfl⟩
  · rw [parseRecords, parse, hscan, List.map_map, ← map_payload_layout 0 payloads, List.map_map]
    simp [Function.comp_def]
  · simp only [parseRecords, parse, hscan]
    rw [hbytes, List.take_left]

end MemphisOS.TaskQueue

/-!
## Logs that are cut

A log that is cut anywhere, as a crash in the middle of a write leaves it, still has the records
before the cut. Recovery keeps exactly these.
-/

namespace MemphisOS.TaskQueue

open Ecma Framing

/-- The records of payloads that are written one after another from an offset on. -/
def recordsAt : ℕ → List Text → List WalRecord
  | _, [] => []
  | offset, payload :: payloads =>
    let length := (encodeUtf8 payload).length + 8
    ⟨payload, offset, length⟩ :: recordsAt (offset + length) payloads

/-- The concatenation of the encoded records. -/
def encodeRecords (payloads : List Text) : Except WalError (List UInt8) :=
  (payloads.mapM encodeRecord).map List.flatten

/-- Where the last record ends. -/
def endOfRecords (records : List WalRecord) : ℕ :=
  (records.getLast?.map fun r => r.offset + r.length).getD 0

variable {payloads : List Text}

theorem encodeRecords_eq (h : ∀ payload ∈ payloads, (encodeUtf8 payload).length < 2 ^ 32) :
    encodeRecords payloads = .ok (encodeAll crc32c (payloads.map encodeUtf8)) := by
  have hrecords : payloads.mapM encodeRecord =
      .ok (payloads.map fun payload => encode crc32c (encodeUtf8 payload)) := by
    induction payloads with
    | nil => rfl
    | cons payload payloads ih =>
      have hpayload : encodeRecord payload = .ok (encode crc32c (encodeUtf8 payload)) :=
        if_pos (h payload List.mem_cons_self)
      rw [List.mapM_cons, hpayload, ih fun p hp => h p (List.mem_cons_of_mem _ hp)]
      rfl
  rw [encodeRecords, hrecords, encodeAll, List.flatMap_def, List.map_map]
  rfl

/-- The records of a log, as its frames. -/
theorem map_layout_eq (offset : ℕ) (payloads : List Text) :
    ((layout offset (payloads.map encodeUtf8)).map fun f =>
      (⟨decodeUtf8 f.payload, f.offset, f.length⟩ : WalRecord)) = recordsAt offset payloads := by
  induction payloads generalizing offset with
  | nil => rfl
  | cons payload payloads ih =>
    rw [List.map_cons, layout, List.map_cons, ih, recordsAt, decodeUtf8_encodeUtf8]

theorem map_payload_recordsAt (offset : ℕ) (payloads : List Text) :
    (recordsAt offset payloads).map WalRecord.payload = payloads := by
  induction payloads generalizing offset with
  | nil => rfl
  | cons payload payloads ih => rw [recordsAt, List.map_cons, ih]

theorem parseRecords_encodeAll (h : ∀ payload ∈ payloads, (encodeUtf8 payload).length < 2 ^ 32) :
    parseRecords (encodeAll crc32c (payloads.map encodeUtf8)) =
      (recordsAt 0 payloads, (encodeAll crc32c (payloads.map encodeUtf8)).length) := by
  rw [parseRecords, parse_encodeAll (by simpa using h), ← map_layout_eq]

/-- The frames before a cut are those of the first payloads. -/
theorem exists_wholeBefore (cut : ℕ) (payloads : List Text) :
    ∃ whole, whole <+: payloads ∧
      wholeBefore cut (payloads.map encodeUtf8) = whole.map encodeUtf8 ∧
      recordsAt 0 whole = (recordsAt 0 payloads).filter fun r => r.offset + r.length ≤ cut := by
  obtain ⟨whole, hpre, hwhole⟩ :=
    List.prefix_map_iff.mp (wholeBefore_isPrefix_payloads cut (payloads.map encodeUtf8))
  refine ⟨whole, hpre, hwhole, ?_⟩
  have hlayout := layout_wholeBefore cut 0 (payloads.map encodeUtf8)
  rw [hwhole] at hlayout
  rw [← map_layout_eq, ← map_layout_eq, hlayout, List.filter_map, Nat.zero_add]
  rfl

/-- A cut log has the records before the cut, and its valid bytes end with the last of them. -/
theorem parseRecords_take (h : ∀ payload ∈ payloads, (encodeUtf8 payload).length < 2 ^ 32)
    (cut : ℕ) :
    ∃ whole, whole <+: payloads ∧
      recordsAt 0 whole = ((recordsAt 0 payloads).filter fun r => r.offset + r.length ≤ cut) ∧
      parseRecords ((encodeAll crc32c (payloads.map encodeUtf8)).take cut) =
        (recordsAt 0 whole, endOfRecords (recordsAt 0 whole)) := by
  obtain ⟨whole, hpre, hwhole, hrecords⟩ := exists_wholeBefore cut payloads
  refine ⟨whole, hpre, hrecords, ?_⟩
  have hend := end_layout crc32c 0 (whole.map encodeUtf8)
  rw [Nat.zero_add] at hend
  have hvalid : endOfRecords (recordsAt 0 whole) =
      (encodeAll crc32c (whole.map encodeUtf8)).length := by
    rw [← hend, endOfRecords, ← map_layout_eq, List.getLast?_map, Option.map_map]
    rfl
  rw [parseRecords, parse_take crc32c (by simpa using h), hwhole, hvalid, ← map_layout_eq]

variable {disk disk' : Disk} {records : List WalRecord}

/-- A recovery that follows a recovery finds the log as that has left it. -/
theorem recoverAndRead_again (h : recoverAndRead disk = (.ok records, disk')) :
    recoverAndRead disk' = (.ok records, disk') := by
  have hunlocked : disk.lock = false := unlocked_of_recoverAndRead h
  rw [recoverAndRead_eq hunlocked] at h
  obtain ⟨hrecords, rfl⟩ := Prod.mk.inj h
  obtain rfl := Except.ok.inj hrecords
  obtain ⟨payloads, rest, hshort, hbytes, hscan⟩ := scan_sound crc32c
    (disk.wal.getD []).length 0 (disk.wal.getD [])
  rw [Nat.zero_add] at hscan
  -- What is left of the log is the encoding of the payloads that were read.
  have hleft : (disk.wal.getD []).take (parseRecords (disk.wal.getD [])).2 =
      encodeAll crc32c payloads := by
    rw [parseRecords, parse, hscan]
    dsimp only
    rw [hbytes, List.take_left]
  have hparse : parseRecords (encodeAll crc32c payloads) =
      ((parseRecords (disk.wal.getD [])).1, (encodeAll crc32c payloads).length) := by
    rw [parseRecords, parse_encodeAll hshort, parseRecords, parse, hscan]
  rw [recoverAndRead_eq rfl]
  simp only [Option.getD_some, hleft, hparse, List.take_length]

/-- **The codec of the log.** What is encoded is read back with its offsets and lengths; a log
that is cut anywhere gives the records that lie before the cut; and recovery is idempotent. -/
theorem wal_codec (h : ∀ payload ∈ payloads, (encodeUtf8 payload).length < 2 ^ 32) :
    (∃ bytes, encodeRecords payloads = .ok bytes ∧
      parseRecords bytes = (recordsAt 0 payloads, bytes.length) ∧
      ∀ cut, ∃ whole, whole <+: payloads ∧
        recordsAt 0 whole = ((recordsAt 0 payloads).filter fun r => r.offset + r.length ≤ cut) ∧
        parseRecords (bytes.take cut) = (recordsAt 0 whole, endOfRecords (recordsAt 0 whole))) ∧
    ∀ disk disk' records, recoverAndRead disk = (.ok records, disk') →
      recoverAndRead disk' = (.ok records, disk') :=
  ⟨⟨_, encodeRecords_eq h, parseRecords_encodeAll h, parseRecords_take h⟩,
    fun _ _ _ hrecover => recoverAndRead_again hrecover⟩

theorem wal_codec_sample :
    (∃ bytes, encodeRecords ["\x7b\x7d".toList, "[1]".toList] = .ok bytes ∧
      parseRecords bytes = (recordsAt 0 ["\x7b\x7d".toList, "[1]".toList], bytes.length)) ∧
    ∀ disk disk' records, recoverAndRead disk = (.ok records, disk') →
      recoverAndRead disk' = (.ok records, disk') := by
  obtain ⟨⟨bytes, hbytes, hparse, -⟩, hrecover⟩ :=
    @wal_codec ["\x7b\x7d".toList, "[1]".toList] (by decide)
  exact ⟨⟨bytes, hbytes, hparse⟩, hrecover⟩

end MemphisOS.TaskQueue
