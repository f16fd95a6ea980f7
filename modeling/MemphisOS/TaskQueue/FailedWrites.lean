import MemphisOS.TaskQueue.Wal
import MemphisOS.TaskQueue.Restart
import Mathlib.Data.List.Perm.Subperm

/-!
# Writes that fail

A write that throws may leave a part of its record in the log. What is appended behind such a
part is not read again.
-/

namespace MemphisOS.TaskQueue

open Ecma Framing

/-! ## Calls that may fail -/

/-- The environment of a call. -/
def Call.env : Call → Env
  | enqueue env _ => env
  | finish env _ _ _ => env

/-- The queue after a call, whether it returns or throws. -/
def Call.perform (queue : Queue) : Call → Queue
  | enqueue env task => (TaskQueueService.enqueue queue env task).2
  | finish env taskId status metadata =>
    (TaskQueueService.finish queue env taskId status metadata).2

/-- The call gets as far as the log: the queue is not full, or the task is pending. -/
def Call.accepted (queue : Queue) : Call → Bool
  | enqueue _ _ => !(queue.service.options.maxPendingTasks.getD (.ofNat 100)).le
      (.ofNat queue.service.pending.length)
  | finish _ taskId _ _ => (queue.service.pending.lookup taskId).isSome

/-- The text of the envelope of a call that gets as far as the log. -/
def Call.payload (queue : Queue) (call : Call) : Option Text :=
  if call.accepted queue then
    match stringify [] call.envelope with
    | some (some payload) => some payload
    | _ => none
  else none

/-- The append of a call: its result and the files after it. -/
def Call.append (queue : Queue) (call : Call) : Option (Except WalError WalRecord × Disk) :=
  (call.payload queue).map fun payload =>
    enqueuePayload queue.service.options.wal call.env.io payload queue.disk

/-- The record of an append that has returned. -/
def Call.record (queue : Queue) (call : Call) : Option WalRecord :=
  (call.append queue).bind fun append => append.1.toOption

variable {queue : Queue} {call : Call} {disk disk' : Disk} {payload : Text} {io : Io}
  {options : WalOptions} {result : Except WalError WalRecord}

theorem writeEnvelope_snd (queue : Queue) (io : Io) (envelope : JsValue) :
    (writeEnvelope queue io envelope).2 =
      match stringify [] envelope with
      | some (some payload) =>
        (enqueuePayload queue.service.options.wal io payload queue.disk).2
      | _ => queue.disk := by
  unfold writeEnvelope
  rcases stringify [] envelope with _ | _ | payload
  · rfl
  · rfl
  · dsimp only
    rcases enqueuePayload queue.service.options.wal io payload queue.disk with ⟨_ | _, disk⟩ <;> rfl

/-- A call does to the files what its append does. -/
theorem Call.disk_perform (queue : Queue) (call : Call) :
    (call.perform queue).disk = ((call.append queue).map Prod.snd).getD queue.disk := by
  have hwritten : (if call.accepted queue then
      (writeEnvelope queue call.env.io call.envelope).2 else queue.disk) =
        ((call.append queue).map Prod.snd).getD queue.disk := by
    unfold Call.append Call.payload
    split
    · rw [writeEnvelope_snd]
      rcases stringify [] call.envelope with _ | _ | payload <;> rfl
    · rfl
  rw [← hwritten]
  cases call with
  | enqueue env task =>
    unfold Call.perform TaskQueueService.enqueue Call.accepted Call.env Call.envelope
    dsimp only
    cases (queue.service.options.maxPendingTasks.getD (.ofNat 100)).le
      (.ofNat queue.service.pending.length) with
    | true => rfl
    | false =>
      rcases writeEnvelope queue env.io (enqueueEnvelope (ofText env.randomUUID)
        (ofText env.nowIso) task.value) with ⟨_ | _, disk⟩ <;> rfl
  | finish env taskId status metadata =>
    unfold Call.perform TaskQueueService.finish Call.accepted Call.env Call.envelope
    dsimp only
    by_cases hnone : (queue.service.pending.lookup taskId).isNone = true
    · rw [if_pos hnone, if_neg fun h => by rw [Option.isNone_iff_eq_none.mp hnone] at h; cases h]
    · rw [if_neg hnone, if_pos (Option.isSome_iff_ne_none.mpr fun h => hnone (by rw [h]; rfl))]
      rcases writeEnvelope queue env.io (finishEnvelope taskId status (ofText env.nowIso)
        metadata) with ⟨_ | _, disk⟩ <;> rfl

theorem Call.options_perform (queue : Queue) (call : Call) :
    (call.perform queue).service.options = queue.service.options := by
  cases call with
  | enqueue env task =>
    unfold Call.perform TaskQueueService.enqueue
    dsimp only
    split
    · rfl
    · split <;> rfl
  | finish env taskId status metadata =>
    unfold Call.perform TaskQueueService.finish
    dsimp only
    split
    · rfl
    · split <;> rfl

/-! ## Appends -/

/-- The bytes of the active log. -/
def Disk.log (disk : Disk) : List UInt8 := disk.wal.getD []

/-- The append renames the log to its archive before it writes. -/
def WalOptions.archives (options : WalOptions) (disk : Disk) (payload : Text) : Bool :=
  options.rotates disk ((encodeUtf8 payload).length + 8)

/-- The append gets as far as its write. -/
def WalOptions.writes (options : WalOptions) (disk : Disk) (payload : Text) : Bool :=
  (encodeUtf8 payload).length < 2 ^ 32 && !(options.archives disk payload && options.faultInject)

/-- The bytes the append writes behind. -/
def WalOptions.base (options : WalOptions) (disk : Disk) (payload : Text) : List UInt8 :=
  if options.archives disk payload then [] else disk.log

/-- What a write behind some bytes leads to: the whole record, or an error and a part of it. -/
inductive Wrote (io : Io) (payload : Text) (base : List UInt8) :
    Except WalError WalRecord → List UInt8 → Prop
  | whole : io.tornWrite = none →
      Wrote io payload base (.ok ⟨payload, base.length, (encodeUtf8 payload).length + 8⟩)
        (base ++ encode crc32c (encodeUtf8 payload))
  | torn {written : ℕ} : io.tornWrite = some written →
      Wrote io payload base (.error .writeFailed)
        (base ++ (encode crc32c (encodeUtf8 payload)).take written)

theorem wrote_appendToWal (io : Io) (payload : Text) (disk : Disk) :
    Wrote io payload disk.log (appendToWal io payload (encode crc32c (encodeUtf8 payload)) disk).1
      (appendToWal io payload (encode crc32c (encodeUtf8 payload)) disk).2.log := by
  unfold appendToWal
  split
  · next hwhole =>
    rw [length_encode]
    exact .whole hwhole
  · next written htorn => exact .torn htorn

/-- What an append does: it throws before it writes, or it writes. -/
theorem enqueuePayload_cases (hunlocked : disk.lock = false)
    (h : enqueuePayload options io payload disk = (result, disk')) :
    disk'.lock = false ∧
      if options.writes disk payload then
        Wrote io payload (options.base disk payload) result disk'.log
      else result.toOption = none ∧ disk'.log = disk.log := by
  unfold enqueuePayload encodeRecord at h
  unfold WalOptions.writes WalOptions.base
  dsimp only at h
  by_cases hshort : (encodeUtf8 payload).length < 2 ^ 32
  · rw [if_pos hshort] at h
    dsimp only at h
    rw [withLock, if_neg (by simp [hunlocked]), length_encode, rotateIfNeeded] at h
    have harchives : options.rotates { disk with lock := true } ((encodeUtf8 payload).length + 8) =
        options.archives disk payload := rfl
    rw [harchives] at h
    simp only [hshort, decide_true, Bool.true_and]
    cases hrotates : options.archives disk payload with
    | true =>
      cases hfault : options.faultInject with
      | true =>
        simp only [hrotates, hfault, if_true] at h
        obtain ⟨rfl, rfl⟩ := Prod.mk.inj h
        exact ⟨rfl, rfl, rfl⟩
      | false =>
        simp only [hrotates, hfault, if_true, Bool.false_eq_true, if_false] at h
        obtain ⟨rfl, rfl⟩ := Prod.mk.inj h
        exact ⟨rfl, wrote_appendToWal io payload (Disk.rotate _ io.dateNow)⟩
    | false =>
      simp only [hrotates, Bool.false_eq_true, if_false] at h
      obtain ⟨rfl, rfl⟩ := Prod.mk.inj h
      exact ⟨rfl, wrote_appendToWal io payload { disk with lock := true }⟩
  · rw [if_neg hshort] at h
    obtain ⟨rfl, rfl⟩ := Prod.mk.inj h
    refine ⟨hunlocked, ?_⟩
    rw [if_neg (by rw [decide_eq_false hshort]; exact Bool.false_ne_true)]
    exact ⟨rfl, rfl⟩

/-! ## Sessions -/

/-- A queue and the records its appends have returned since it was made. -/
structure Session where
  queue : Queue
  returned : List WalRecord

/-- The session after a call, whether it returns or throws. -/
def Session.next (s : Session) (call : Call) : Session :=
  ⟨call.perform s.queue, s.returned ++ (call.record s.queue).toList⟩

/-- A write of the call that throws has not written the whole record. -/
def Call.TearsRecord (queue : Queue) (call : Call) : Prop :=
  ∀ payload ∈ call.payload queue, ∀ written ∈ call.env.io.tornWrite,
    written < (encodeUtf8 payload).length + 8

/-- The sessions of a service that starts on some files. -/
def sessions (options : TaskQueueServiceOptions) (disk : Disk) :
    TransitionSystem Session Call where
  init s := TaskQueueService.new options disk = .ok s.queue ∧ s.returned = []
  step s call t := call.TearsRecord s.queue ∧ t = s.next call

/-- A restart reads every record whose append has returned, each as often as it was returned. -/
def Session.Survives (s : Session) : Prop :=
  ∃ records disk, recoverAndRead (ensureActiveWal s.queue.disk) = (.ok records, disk) ∧
    s.returned.Subperm records

/-- The call archives records that have been returned, or appends behind a part of a record. -/
def Session.harmed (s : Session) (call : Call) : Bool :=
  (call.payload s.queue).any fun payload =>
    let options := s.queue.service.options.wal
    options.writes s.queue.disk payload &&
      if options.archives s.queue.disk payload then !s.returned.isEmpty
      else call.env.io.tornWrite.isNone &&
        (parseRecords s.queue.disk.log).2 < s.queue.disk.log.length

variable {s : Session} {bytes : List UInt8} {records : List WalRecord}

theorem Session.survives_iff (hunlocked : s.queue.disk.lock = false) :
    s.Survives ↔ s.returned.Subperm (parseRecords s.queue.disk.log).1 := by
  have hread := @recoverAndRead_eq (ensureActiveWal s.queue.disk) hunlocked
  constructor
  · rintro ⟨records, disk, hrecover, hreturned⟩
    rw [hread] at hrecover
    obtain rfl := Except.ok.inj (Prod.mk.inj hrecover).1
    exact hreturned
  · intro hreturned
    exact ⟨_, _, hread, hreturned⟩

/-! ## Steps -/

theorem fst_parseRecords (bytes : List UInt8) :
    (parseRecords bytes).1 =
      (parse crc32c bytes).1.map fun f => ⟨decodeUtf8 f.payload, f.offset, f.length⟩ := rfl

theorem parseRecords_prefix_append (bytes more : List UInt8) :
    (parseRecords bytes).1 <+: (parseRecords (bytes ++ more)).1 :=
  (parse_prefix_append crc32c bytes more).map _

theorem validBytes_le (bytes : List UInt8) : (parseRecords bytes).2 ≤ bytes.length := by
  obtain ⟨payloads, rest, -, hbytes, hscan⟩ := scan_sound crc32c bytes.length 0 bytes
  have hlength := congrArg List.length hbytes
  rw [List.length_append] at hlength
  rw [parseRecords, parse, hscan]
  dsimp only
  omega

/-- A record that is written behind a log is read exactly when all bytes of the log are valid. -/
theorem subperm_append_record (hshort : (encodeUtf8 payload).length < 2 ^ 32)
    (hrecords : records.Subperm (parseRecords bytes).1) :
    (records ++ [(⟨payload, bytes.length, (encodeUtf8 payload).length + 8⟩ : WalRecord)]).Subperm
        (parseRecords (bytes ++ encode crc32c (encodeUtf8 payload))).1 ↔
      (parseRecords bytes).2 = bytes.length := by
  constructor
  · intro hsubperm
    by_contra hinvalid
    have hlt : (parse crc32c bytes).2 < bytes.length :=
      Nat.lt_of_le_of_ne (validBytes_le bytes) hinvalid
    have hmem := hsubperm.subset (List.mem_append_right records List.mem_cons_self)
    obtain ⟨frame, hframe, hrecord⟩ := List.mem_map.mp hmem
    exact parse_append_torn crc32c hlt _ frame hframe (congrArg WalRecord.offset hrecord)
  · intro hvalid
    have hparse : (parseRecords (bytes ++ encode crc32c (encodeUtf8 payload))).1 =
        (parseRecords bytes).1 ++ [⟨payload, bytes.length, (encodeUtf8 payload).length + 8⟩] := by
      rw [fst_parseRecords, parse_append_encode hshort hvalid, List.map_append, List.map_singleton,
        decodeUtf8_encodeUtf8, fst_parseRecords]
    rw [hparse]
    exact (List.subperm_append_right _).mpr hrecords

/-- The first record of a log. -/
theorem parseRecords_encode (hshort : (encodeUtf8 payload).length < 2 ^ 32) :
    (parseRecords (encode crc32c (encodeUtf8 payload))).1 =
      [⟨payload, 0, (encodeUtf8 payload).length + 8⟩] := by
  have hparse : (parse crc32c ([] ++ encode crc32c (encodeUtf8 payload))).1 =
      [] ++ [⟨encodeUtf8 payload, 0, (encodeUtf8 payload).length + 8⟩] :=
    parse_append_encode hshort rfl
  rw [List.nil_append, List.nil_append] at hparse
  rw [fst_parseRecords, hparse, List.map_singleton, decodeUtf8_encodeUtf8]

/-- Records survive a write that harms none. -/
theorem Wrote.survives {log : List UInt8} {archives : Bool}
    (hshort : (encodeUtf8 payload).length < 2 ^ 32) (hrecords : records.Subperm (parseRecords bytes).1)
    (h : Wrote io payload (if archives then [] else bytes) result log)
    (hharmless : (if archives then !records.isEmpty
      else io.tornWrite.isNone && (parseRecords bytes).2 < bytes.length) = false) :
    (records ++ result.toOption.toList).Subperm (parseRecords log).1 := by
  cases archives with
  | true =>
    have hnil : records = [] := by simpa using hharmless
    rw [hnil, List.nil_append]
    cases h with
    | whole hwhole =>
      rw [if_pos rfl, List.nil_append, parseRecords_encode hshort]
      exact List.Subperm.refl _
    | torn htorn => exact List.nil_subperm
  | false =>
    rw [if_neg Bool.false_ne_true] at h hharmless
    cases h with
    | whole hwhole =>
      rw [hwhole, Option.isNone_none, Bool.true_and, decide_eq_false_iff_not] at hharmless
      have hle := validBytes_le bytes
      exact (subperm_append_record hshort hrecords).mpr (by omega)
    | torn htorn =>
      rw [Except.toOption, Option.toList_none, List.append_nil]
      exact hrecords.trans (parseRecords_prefix_append bytes _).sublist.subperm

/-- A write that harms a record loses one. -/
theorem Wrote.loses {log : List UInt8} {archives : Bool}
    (hshort : (encodeUtf8 payload).length < 2 ^ 32)
    (htears : ∀ written ∈ io.tornWrite, written < (encodeUtf8 payload).length + 8)
    (hrecords : records.Subperm (parseRecords bytes).1)
    (h : Wrote io payload (if archives then [] else bytes) result log)
    (hharmed : (if archives then !records.isEmpty
      else io.tornWrite.isNone && (parseRecords bytes).2 < bytes.length) = true) :
    ¬(records ++ result.toOption.toList).Subperm (parseRecords log).1 := by
  intro hsubperm
  cases archives with
  | true =>
    have hne : records ≠ [] := by simpa using hharmed
    have hlength := hsubperm.length_le
    have hpositive := List.length_pos_iff.mpr hne
    rw [if_pos rfl] at h
    cases h with
    | whole hwhole =>
      rw [List.nil_append, parseRecords_encode hshort] at hlength
      simp only [Except.toOption, Option.toList_some, List.length_append,
        List.length_singleton] at hlength
      omega
    | @torn written htorn =>
      have hnone : (parseRecords ((encode crc32c (encodeUtf8 payload)).take written)).1 = [] := by
        rw [fst_parseRecords, parse, scan_torn crc32c hshort (htears written htorn)]
        rfl
      rw [List.nil_append, hnone, List.length_append, List.length_nil] at hlength
      omega
  | false =>
    rw [if_neg Bool.false_ne_true] at h hharmed
    rw [Bool.and_eq_true, decide_eq_true_eq] at hharmed
    obtain ⟨hwhole, hinvalid⟩ := hharmed
    cases h with
    | whole _ =>
      have hvalid := (subperm_append_record hshort hrecords).mp hsubperm
      omega
    | torn htorn =>
      rw [htorn] at hwhole
      cases hwhole

/-- What a call does: nothing to the records and the log, or a write. -/
theorem Session.next_cases (call : Call) (hunlocked : s.queue.disk.lock = false) :
    (s.next call).queue.disk.lock = false ∧
    (((s.next call).returned = s.returned ∧ (s.next call).queue.disk.log = s.queue.disk.log ∧
        s.harmed call = false) ∨
      ∃ payload result, call.payload s.queue = some payload ∧
        (encodeUtf8 payload).length < 2 ^ 32 ∧
        Wrote call.env.io payload (s.queue.service.options.wal.base s.queue.disk payload) result
          (s.next call).queue.disk.log ∧
        (s.next call).returned = s.returned ++ result.toOption.toList ∧
        s.harmed call = if s.queue.service.options.wal.archives s.queue.disk payload then
            !s.returned.isEmpty
          else call.env.io.tornWrite.isNone &&
            (parseRecords s.queue.disk.log).2 < s.queue.disk.log.length) := by
  have hdisk := call.disk_perform s.queue
  cases hpayload : call.payload s.queue with
  | none =>
    have happend : call.append s.queue = none := by rw [Call.append, hpayload]; rfl
    rw [happend] at hdisk
    have hdisk : (s.next call).queue.disk = s.queue.disk := hdisk
    rw [hdisk]
    refine ⟨hunlocked, .inl ⟨?_, rfl, ?_⟩⟩
    · rw [Session.next, Call.record, happend]
      exact List.append_nil _
    · rw [Session.harmed, hpayload]
      rfl
  | some payload =>
    have happend : call.append s.queue = some (enqueuePayload s.queue.service.options.wal
        call.env.io payload s.queue.disk) := by
      rw [Call.append, hpayload]
      rfl
    rcases hwrite : enqueuePayload s.queue.service.options.wal call.env.io payload
      s.queue.disk with ⟨result, disk⟩
    rw [hwrite] at happend
    rw [happend] at hdisk
    have hdisk : (s.next call).queue.disk = disk := hdisk
    have hreturned : (s.next call).returned = s.returned ++ result.toOption.toList := by
      rw [Session.next, Call.record, happend]
      rfl
    have hharmed : s.harmed call = (s.queue.service.options.wal.writes s.queue.disk payload &&
        if s.queue.service.options.wal.archives s.queue.disk payload then !s.returned.isEmpty
        else call.env.io.tornWrite.isNone &&
          (parseRecords s.queue.disk.log).2 < s.queue.disk.log.length) := by
      rw [Session.harmed, hpayload, Option.any_some]
    obtain ⟨hlock, hcases⟩ := enqueuePayload_cases hunlocked hwrite
    rw [← hdisk] at hlock hcases
    refine ⟨hlock, ?_⟩
    by_cases hwrites : s.queue.service.options.wal.writes s.queue.disk payload = true
    · rw [if_pos hwrites] at hcases
      rw [hwrites, Bool.true_and] at hharmed
      have hshort : (encodeUtf8 payload).length < 2 ^ 32 := by
        rw [WalOptions.writes, Bool.and_eq_true, decide_eq_true_eq] at hwrites
        exact hwrites.1
      exact .inr ⟨payload, result, rfl, hshort, hcases, hreturned, hharmed⟩
    · rw [if_neg hwrites] at hcases
      rw [eq_false_of_ne_true hwrites, Bool.false_and] at hharmed
      refine .inl ⟨?_, hcases.2, hharmed⟩
      rw [hreturned, hcases.1]
      exact List.append_nil _

/-- What a call that harms no record keeps. -/
theorem Session.Survives.next (hsurvives : s.Survives) (hunlocked : s.queue.disk.lock = false)
    (hharmless : s.harmed call = false) : (s.next call).Survives := by
  have hrecords := (Session.survives_iff hunlocked).mp hsurvives
  obtain ⟨hlock, ⟨hreturned, hlog, -⟩ |
    ⟨payload, result, -, hshort, hwrote, hreturned, hharmed⟩⟩ := Session.next_cases call hunlocked
  · rw [Session.survives_iff hlock, hreturned, hlog]
    exact hrecords
  · rw [Session.survives_iff hlock, hreturned]
    exact hwrote.survives hshort hrecords (hharmed.symm.trans hharmless)

/-- A call keeps the records exactly when it harms none. -/
theorem Session.survives_next (hunlocked : s.queue.disk.lock = false) (hsurvives : s.Survives)
    (htears : call.TearsRecord s.queue) :
    (s.next call).Survives ↔ s.harmed call = false := by
  refine ⟨fun hnext => ?_, hsurvives.next hunlocked⟩
  obtain ⟨hlock, ⟨-, -, hharmed⟩ |
    ⟨payload, result, hpayload, hshort, hwrote, hreturned, hharmed⟩⟩ :=
    Session.next_cases call hunlocked
  · exact hharmed
  · rw [Session.survives_iff hlock, hreturned] at hnext
    by_contra hharm
    rw [Bool.not_eq_false, hharmed] at hharm
    exact hwrote.loses hshort (htears payload hpayload)
      ((Session.survives_iff hunlocked).mp hsurvives) hharm hnext

/-- **Failed writes.** In every session whose calls neither archive returned records nor append
behind a part of a record, a restart reads every record whose append has returned; and a further
call keeps that up exactly when it does neither. -/
theorem failed_writes (options : TaskQueueServiceOptions) (disk : Disk) (s : Session)
    (hs : ((sessions options disk).restrict fun s call => s.harmed call = false).Reachable s) :
    s.Survives ∧ ∀ call t, (sessions options disk).step s call t →
      (t.Survives ↔ s.harmed call = false) := by
  have hinv : s.queue.disk.lock = false ∧ s.Survives := by
    apply hs.invariant (I := fun s => s.queue.disk.lock = false ∧ s.Survives)
    · rintro s ⟨hnew, hnil⟩
      have hlock : s.queue.disk.lock = false := by
        obtain ⟨payloads, h⟩ := inStep_new hnew
        exact h.holds.unlocked
      refine ⟨hlock, (Session.survives_iff hlock).mpr ?_⟩
      rw [hnil]
      exact List.nil_subperm
    · rintro s call t ⟨hlock, hsurvives⟩ ⟨hkeeps, htears, rfl⟩
      exact ⟨(Session.next_cases call hlock).1, hsurvives.next hlock hkeeps⟩
  refine ⟨hinv.2, ?_⟩
  rintro call t ⟨htears, rfl⟩
  exact Session.survives_next hinv.1 hinv.2 htears

/-! ## A write that fails after one byte -/

def sampleSession : Session := ⟨sampleStart, []⟩

theorem sampleSession_init :
    (sessions sampleOptions ⟨none, none, [], false⟩).init sampleSession := ⟨rfl, rfl⟩

theorem sampleEnqueue_tears (digit : Char) (queue : Queue) :
    (sampleEnqueue digit).TearsRecord queue := by
  rintro payload - written hwritten
  cases hwritten

theorem sampleEnqueue_harmless : sampleSession.harmed (sampleEnqueue '1') = false := by
  decide +kernel

/-- The theorem at a session with one record. -/
theorem failed_writes_sample : (sampleSession.next (sampleEnqueue '1')).Survives :=
  (failed_writes sampleOptions ⟨none, none, [], false⟩ _
    ((TransitionSystem.Reachable.of_init
      (S := (sessions sampleOptions ⟨none, none, [], false⟩).restrict fun s call =>
        s.harmed call = false) sampleSession_init).next
      ⟨sampleEnqueue_harmless, sampleEnqueue_tears _ _, rfl⟩)).1

/-- The members of a torn task. -/
def tornMembers : List (JsString × JsValue) := [(js "type", .str (js "chat.generate"))]

theorem tornMembers_typed : ∃ type, tornMembers.lookup (js "type") = some (.str type) :=
  ⟨js "chat.generate", rfl⟩

/-- A task whose record is torn after its first byte. -/
def tornEnqueue : Call :=
  .enqueue ⟨"00000000-0000-4000-8000-000000000001".toList, "1970-01-01T00:00:01.000Z".toList,
    ⟨1000, some 1⟩⟩ ⟨tornMembers, tornMembers_typed⟩

/-- The append after it is returned. -/
def tornSession : Session := sampleSession.next tornEnqueue

theorem tornEnqueue_tears (queue : Queue) : tornEnqueue.TearsRecord queue := by
  rintro payload - written hwritten
  obtain rfl := Option.some.inj hwritten
  omega

theorem tornEnqueue_harmless : sampleSession.harmed tornEnqueue = false := by decide +kernel

theorem tornSession_harmed : tornSession.harmed (sampleEnqueue '2') = true := by decide +kernel

/-- The record behind the byte is lost. -/
theorem record_behind_torn_lost :
    (sessions sampleOptions ⟨none, none, [], false⟩).Reachable
        (tornSession.next (sampleEnqueue '2')) ∧
      ¬(tornSession.next (sampleEnqueue '2')).Survives := by
  have htears := sampleEnqueue_tears '2' tornSession.queue
  refine ⟨((TransitionSystem.Reachable.of_init sampleSession_init).next
    ⟨tornEnqueue_tears _, rfl⟩).next ⟨htears, rfl⟩, ?_⟩
  have hstart : sampleSession.Survives :=
    (Session.survives_iff rfl).mpr List.nil_subperm
  have hlost := Session.survives_next (Session.next_cases tornEnqueue rfl).1
    (hstart.next rfl tornEnqueue_harmless) htears
  intro hsurvives
  exact absurd (hlost.mp hsurvives) (ne_false_of_eq_true tornSession_harmed)

end MemphisOS.TaskQueue
