import MemphisOS.Ecma.Maps
import MemphisOS.Systems.Transition
import MemphisOS.TaskQueue.Service

/-!
# Restarting the task queue

The pending tasks in memory are the replay of the payloads in the active log, over every
run of calls that return, as long as no rotation archives the record of another pending
task and the tasks survive their JSON round trip.
-/

namespace MemphisOS.TaskQueue

open Ecma Framing

variable {task : JsValue} {taskId enqueuedAt finishedAt : JsString} {payload : Text}
  {status : TaskQueueStatus} {metadata : Option JsValue}

/-! ## Envelopes read back -/

/-- The value equals what its JSON text is read as. -/
def SurvivesJson (v : JsValue) : Prop := ∃ j, toJson v = some (some j) ∧ ofPlain (own j) = v

theorem ofPlain_obj (ms : List (JsString × Plain)) :
    ofPlain (.obj ms) = .obj (ms.map fun m => (m.1, ofPlain m.2)) :=
  Json.fold_obj ms

/-- A plain value that is a task as a general value is one. -/
theorem isTask_of_ofPlain {v : Plain} {task : QueueTaskInput} (h : ofPlain v = task.value) :
    isTask v = true := by
  obtain ⟨type, htype⟩ := task.typed
  rw [QueueTaskInput.value] at h
  cases v with
  | obj ms =>
    rw [ofPlain_obj] at h
    rw [← Json.obj.inj h, lookup_map] at htype
    obtain ⟨w, hw, hstr⟩ := Option.map_eq_some_iff.mp htype
    cases w with
    | str s => simp [isTask, hw]
    | obj ws => rw [ofPlain_obj] at hstr; cases hstr
    | _ => cases hstr
  | _ => cases h

/-- The members of an enqueue envelope around the task. -/
theorem toJson_enqueueEnvelope {v : Plain} (h : toJson task = some (some v)) :
    toJson (enqueueEnvelope taskId enqueuedAt task) =
      some (some (.obj [(js "op", .str (js "enqueue")), (js "taskId", .str taskId),
        (js "enqueuedAt", .str enqueuedAt), (js "task", v)])) := by
  rw [enqueueEnvelope, toJson_obj, List.map_cons, List.map_cons, List.map_cons, List.map_cons, h]
  rfl

/-- The envelope of a task is read back with the task as JSON has it. -/
theorem parseEnvelope_enqueueEnvelope {v : Plain} (htask : toJson task = some (some v))
    (h : stringify [] (enqueueEnvelope taskId enqueuedAt task) = some (some payload)) :
    parseEnvelope payload =
      if isTask (own v) then some (.enqueue ⟨taskId, enqueuedAt, ofPlain (own v)⟩) else none := by
  obtain ⟨j, hj, hparse⟩ := parseJson_stringify (by simp [Json.Blank]) h
  rw [toJson_enqueueEnvelope htask] at hj
  obtain rfl := Option.some.inj (Option.some.inj hj)
  rw [parseEnvelope, hparse, own_obj]
  rfl

/-- The envelope of a task that survives its round trip is read back. -/
theorem parseEnvelope_enqueue {task : QueueTaskInput} (htask : SurvivesJson task.value)
    (h : stringify [] (enqueueEnvelope taskId enqueuedAt task.value) = some (some payload)) :
    parseEnvelope payload = some (.enqueue ⟨taskId, enqueuedAt, task.value⟩) := by
  obtain ⟨v, hv, hback⟩ := htask
  rw [parseEnvelope_enqueueEnvelope hv h, if_pos (isTask_of_ofPlain hback), hback]

/-- The members of a finish envelope, with the metadata or without. -/
theorem toJson_finishEnvelope {j : Plain}
    (h : toJson (finishEnvelope taskId status finishedAt metadata) = some (some j)) :
    ∃ m : Option Plain, j = .obj ([(js "op", .str (js "finish")), (js "taskId", .str taskId),
      (js "status", .str (js status.text)), (js "finishedAt", .str finishedAt)] ++
      (m.map fun v => (js "metadata", v)).toList) := by
  rw [finishEnvelope, toJson_obj, List.map_cons, List.map_cons, List.map_cons, List.map_cons,
    List.map_cons] at h
  rcases hm : toJson (metadata.getD (.num .undefined)) with _ | _ | v
  · rw [hm] at h
    cases h
  · rw [hm] at h
    exact ⟨none, (Option.some.inj (Option.some.inj h)).symm⟩
  · rw [hm] at h
    exact ⟨some v, (Option.some.inj (Option.some.inj h)).symm⟩

/-- The envelope of a finished task is read back. -/
theorem parseEnvelope_finish
    (h : stringify [] (finishEnvelope taskId status finishedAt metadata) = some (some payload)) :
    parseEnvelope payload = some (.finish taskId) := by
  obtain ⟨j, hj, hparse⟩ := parseJson_stringify (by simp [Json.Blank]) h
  obtain ⟨m, rfl⟩ := toJson_finishEnvelope hj
  rw [parseEnvelope, hparse, own_obj]
  cases m <;> cases status <;> rfl

/-! ## Replay -/

/-- Apply the envelopes among the payloads. -/
def replayFrom (pending : List (JsString × PendingTask)) (payloads : List Text) :
    List (JsString × PendingTask) :=
  payloads.foldl (fun pending payload => ((parseEnvelope payload).map (·.apply pending)).getD pending)
    pending

/-- The loop of `recover` replays the payloads. -/
theorem pending_recover (records : List WalRecord) (service : TaskQueueService) :
    (records.foldl recoverRecord service).pending =
      replayFrom service.pending (records.map WalRecord.payload) := by
  induction records generalizing service with
  | nil => rfl
  | cons record records ih =>
    rw [List.foldl_cons, ih, List.map_cons, replayFrom, replayFrom, List.foldl_cons, recoverRecord]
    cases parseEnvelope record.payload with
    | none => rfl
    | some envelope => cases envelope <;> rfl

theorem replayFrom_concat (pending : List (JsString × PendingTask)) (payloads : List Text)
    {payload : Text} {envelope : QueueEnvelope} (h : parseEnvelope payload = some envelope) :
    replayFrom pending (payloads ++ [payload]) = envelope.apply (replayFrom pending payloads) := by
  simp [replayFrom, h]

/-- The pending tasks in memory are the replay of the log. -/
structure Queue.InStep (queue : Queue) (payloads : List (List UInt8)) : Prop where
  holds : queue.disk.Holds payloads
  replayed : queue.service.pending = replayFrom [] (payloads.map decodeUtf8)

/-- A restart with any options recovers the tasks that are pending in memory. -/
def Queue.Recovers (queue : Queue) : Prop :=
  ∀ options, ∃ restarted, TaskQueueService.new options queue.disk = .ok restarted ∧
    restarted.service.pending = queue.service.pending

variable {queue queue' : Queue} {payloads : List (List UInt8)}

/-- A log that is in step recovers the pending tasks. -/
theorem Queue.InStep.recovers (h : queue.InStep payloads) : queue.Recovers := by
  intro options
  have hactive : ensureActiveWal queue.disk = queue.disk := by
    rw [ensureActiveWal, h.holds.wal, Option.getD_some, ← h.holds.wal]
  obtain ⟨records, hread, hpayloads⟩ := recoverAndRead_holds h.holds
  refine ⟨_, by rw [TaskQueueService.new, hactive, hread], ?_⟩
  rw [pending_recover, hpayloads, h.replayed]

/-- A new service is in step with its log. -/
theorem inStep_new {options : TaskQueueServiceOptions} {disk : Disk}
    (h : TaskQueueService.new options disk = .ok queue) : ∃ payloads, queue.InStep payloads := by
  rw [TaskQueueService.new] at h
  split at h
  · next records disk' hread =>
    obtain rfl := Except.ok.inj h
    obtain ⟨payloads, hpayloads, hholds⟩ := holds_of_recoverAndRead hread
    exact ⟨payloads, hholds, by rw [pending_recover, hpayloads]⟩
  · cases h

/-! ## Calls -/

inductive Call where
  | enqueue (env : Env) (task : QueueTaskInput)
  | finish (env : Env) (taskId : JsString) (status : TaskQueueStatus) (metadata : Option JsValue)

/-- The queue after a call that returns. -/
def Call.returns (queue : Queue) : Call → Option Queue
  | enqueue env task =>
    match TaskQueueService.enqueue queue env task with
    | (.ok _, queue) => some queue
    | (.error _, _) => none
  | finish env taskId status metadata =>
    match TaskQueueService.finish queue env taskId status metadata with
    | (.ok _, queue) => some queue
    | (.error _, _) => none

/-- The runs of a service that starts on some files. -/
def queueRuns (options : TaskQueueServiceOptions) (disk : Disk) : TransitionSystem Queue Call where
  init queue := TaskQueueService.new options disk = .ok queue
  step queue call queue' := call.returns queue = some queue'

/-- The envelope a call writes. -/
def Call.envelope : Call → JsValue
  | enqueue env task => enqueueEnvelope (ofText env.randomUUID) (ofText env.nowIso) task.value
  | finish env taskId status metadata =>
    finishEnvelope taskId status (ofText env.nowIso) metadata

/-- The envelope as a replay should read it. -/
def Call.effect : Call → QueueEnvelope
  | enqueue env task => .enqueue ⟨ofText env.randomUUID, ofText env.nowIso, task.value⟩
  | finish _ taskId _ _ => .finish taskId

/-- The task a call is about. -/
def Call.subject : Call → JsString
  | enqueue env _ => ofText env.randomUUID
  | finish _ taskId _ _ => taskId

/-- The call has something to write. -/
def Call.Writes (queue : Queue) : Call → Prop
  | enqueue _ _ => True
  | finish _ taskId _ _ => (queue.service.pending.lookup taskId).isSome = true

/-- The record of the call does not fit into the active log. -/
def Call.Rotates (queue : Queue) (call : Call) : Prop :=
  ∃ payload, stringify [] call.envelope = some (some payload) ∧
    queue.service.options.wal.rotates queue.disk (encode crc32c (encodeUtf8 payload)).length = true

/-- The call rotates the log while a task it is not about is pending. -/
def LosesTask (queue : Queue) (call : Call) : Prop :=
  call.Writes queue ∧ call.Rotates queue ∧ ∃ m ∈ queue.service.pending, m.1 ≠ call.subject

/-- An enqueued task survives its JSON round trip. -/
def Call.Survives : Call → Prop
  | enqueue _ task => SurvivesJson task.value
  | finish _ _ _ _ => True

/-- The condition on a call and the queue before it. -/
def KeepsLog (queue : Queue) (call : Call) : Prop := call.Survives ∧ ¬LosesTask queue call

/-- What `writeEnvelope` does when it returns. -/
theorem writeEnvelope_ok {io : Io} {envelope : JsValue} {disk : Disk}
    (h : writeEnvelope queue io envelope = (.ok (), disk)) :
    ∃ payload record, stringify [] envelope = some (some payload) ∧
      enqueuePayload queue.service.options.wal io payload queue.disk = (.ok record, disk) := by
  unfold writeEnvelope at h
  split at h
  · next payload hpayload =>
    split at h
    · next record disk' hwrite =>
      obtain rfl := (Prod.mk.inj h).2
      exact ⟨payload, record, hpayload, hwrite⟩
    · cases (Prod.mk.inj h).1
  · cases (Prod.mk.inj h).1

/-- A call that returns writes nothing and changes nothing, or it writes its envelope and
applies it in memory. -/
theorem Call.returns_eq_some {call : Call} (h : call.returns queue = some queue') :
    (¬call.Writes queue ∧ queue' = queue) ∨
    ∃ io payload record, call.Writes queue ∧ stringify [] call.envelope = some (some payload) ∧
      enqueuePayload queue.service.options.wal io payload queue.disk = (.ok record, queue'.disk) ∧
      queue'.service.pending = call.effect.apply queue.service.pending := by
  cases call with
  | enqueue env task =>
    simp only [Call.returns, TaskQueueService.enqueue] at h
    split at h
    · next hresult =>
      split at hresult
      · cases (Prod.mk.inj hresult).1
      · split at hresult
        · cases (Prod.mk.inj hresult).1
        · next disk hwrite =>
          obtain rfl := Option.some.inj h
          obtain rfl := (Prod.mk.inj hresult).2
          obtain ⟨payload, record, hpayload, hrecord⟩ := writeEnvelope_ok hwrite
          exact .inr ⟨env.io, payload, record, trivial, hpayload, hrecord, rfl⟩
    · cases h
  | finish env taskId status metadata =>
    simp only [Call.returns, TaskQueueService.finish] at h
    split at h
    · next hresult =>
      split at hresult
      · next hnone =>
        obtain rfl := Option.some.inj h
        obtain rfl := (Prod.mk.inj hresult).2
        refine .inl ⟨?_, rfl⟩
        rw [Call.Writes, Option.isNone_iff_eq_none.mp hnone]
        exact Bool.false_ne_true
      · next hsome =>
        split at hresult
        · cases (Prod.mk.inj hresult).1
        · next disk hwrite =>
          obtain rfl := Option.some.inj h
          obtain rfl := (Prod.mk.inj hresult).2
          obtain ⟨payload, record, hpayload, hrecord⟩ := writeEnvelope_ok hwrite
          refine .inr ⟨env.io, payload, record, ?_, hpayload, hrecord, rfl⟩
          simpa [Call.Writes, Option.isSome_iff_ne_none] using hsome
    · cases h

/-- The envelope of a call is read back as its effect. -/
theorem Call.Survives.parseEnvelope {call : Call} (h : call.Survives)
    (hpayload : stringify [] call.envelope = some (some payload)) :
    parseEnvelope payload = some call.effect := by
  cases call with
  | enqueue env task => exact parseEnvelope_enqueue h hpayload
  | finish env taskId status metadata => exact parseEnvelope_finish hpayload

/-! ## Pending tasks -/

/-- Pending tasks have different ids. -/
theorem nodup_replayFrom (payloads : List Text) :
    ((replayFrom [] payloads).map Prod.fst).Nodup := by
  induction payloads using List.reverseRecOn with
  | nil => simp [replayFrom]
  | append_singleton payloads payload ih =>
    cases henvelope : parseEnvelope payload with
    | none => simpa [replayFrom, henvelope] using ih
    | some envelope =>
      rw [replayFrom_concat [] payloads henvelope]
      cases envelope with
      | enqueue task => exact nodup_setMember ih _ _
      | finish taskId => exact ih.sublist (List.filter_sublist.map Prod.fst)

/-- Without other tasks the effect of a call does not depend on what is pending. -/
theorem Call.apply_effect {call : Call} {pending : List (JsString × PendingTask)}
    (hnodup : (pending.map Prod.fst).Nodup) (h : ∀ m ∈ pending, m.1 = call.subject) :
    call.effect.apply pending = call.effect.apply [] := by
  cases call with
  | enqueue env task =>
    match pending, hnodup, h with
    | [], _, _ => rfl
    | [m], _, h => simp [Call.effect, QueueEnvelope.apply, setMember, h m (by simp), Call.subject]
    | m :: n :: ms, hnodup, h =>
      have hsame : m.1 = n.1 := (h m (by simp)).trans (h n (by simp)).symm
      simp [hsame] at hnodup
  | finish env taskId status metadata =>
    simp only [Call.effect, QueueEnvelope.apply, deleteMember, List.filter_nil,
      List.filter_eq_nil_iff]
    intro m hm
    simp [h m hm, Call.subject]

/-- The effect of a call leaves other tasks pending. -/
theorem Call.mem_apply_effect {call : Call} {pending : List (JsString × PendingTask)}
    {m : JsString × PendingTask} (hm : m ∈ pending) (hother : m.1 ≠ call.subject) :
    m ∈ call.effect.apply pending := by
  cases call with
  | enqueue env task => exact mem_setMember_of_ne hm hother
  | finish env taskId status metadata => exact List.mem_filter.mpr ⟨hm, decide_eq_true hother⟩

theorem Call.key_of_mem_effect {call : Call} {m : JsString × PendingTask}
    (hm : m ∈ call.effect.apply []) : m.1 = call.subject := by
  cases call with
  | enqueue env task =>
    obtain rfl := List.mem_singleton.mp hm
    rfl
  | finish env taskId status metadata => cases hm

/-! ## Runs -/

/-- After a rotation the log holds the effect of the call alone. -/
theorem Queue.InStep.step {call : Call} (h : queue.InStep payloads) (hsurvives : call.Survives)
    (hreturns : call.returns queue = some queue') :
    ∃ payloads' pending, queue'.disk.Holds payloads' ∧
      replayFrom [] (payloads'.map decodeUtf8) = pending ∧
      (¬LosesTask queue call → queue'.service.pending = pending) ∧
      (LosesTask queue call → pending = call.effect.apply [] ∧
        queue'.service.pending = call.effect.apply queue.service.pending) := by
  rcases Call.returns_eq_some hreturns with ⟨hwrites, rfl⟩ |
    ⟨io, payload, record, hwrites, hpayload, hwrite, hpending⟩
  · exact ⟨payloads, _, h.holds, h.replayed.symm, fun _ => rfl, fun hloses => absurd hloses.1 hwrites⟩
  · have hholds := enqueuePayload_holds h.holds hwrite
    have hparse := hsurvives.parseEnvelope hpayload
    refine ⟨_, _, hholds, rfl, ?_⟩
    rw [List.map_append, List.map_singleton, decodeUtf8_encodeUtf8, replayFrom_concat _ _ hparse]
    by_cases hrotates : queue.service.options.wal.rotates queue.disk
        (encode crc32c (encodeUtf8 payload)).length = true
    · rw [if_pos hrotates]
      refine ⟨fun hkeeps => ?_, fun _ => ⟨rfl, hpending⟩⟩
      have hsame : ∀ m ∈ queue.service.pending, m.1 = call.subject := by
        intro m hm
        by_contra hother
        exact hkeeps ⟨hwrites, ⟨payload, hpayload, hrotates⟩, m, hm, hother⟩
      rw [hpending]
      refine Call.apply_effect ?_ hsame
      rw [h.replayed]
      exact nodup_replayFrom _
    · rw [if_neg hrotates]
      refine ⟨fun _ => by rw [hpending, h.replayed], fun hloses => ?_⟩
      obtain ⟨-, ⟨payload', hpayload', hrotates'⟩, -⟩ := hloses
      obtain rfl := Option.some.inj (Option.some.inj (hpayload.symm.trans hpayload'))
      exact absurd hrotates' hrotates

/-- **Restart.** In every run whose calls keep the log, a restart with any options recovers
the pending tasks; and a further call that returns, with a task that survives its JSON
round trip, keeps that up exactly when it does not rotate the log while another task is
pending. -/
theorem restart_recovers_pending (options : TaskQueueServiceOptions) (disk : Disk)
    (queue : Queue) (hqueue : ((queueRuns options disk).restrict KeepsLog).Reachable queue) :
    queue.Recovers ∧ ∀ call queue', call.Survives → call.returns queue = some queue' →
      (queue'.Recovers ↔ ¬LosesTask queue call) := by
  have hinStep : ∃ payloads, queue.InStep payloads := by
    apply hqueue.invariant (I := fun queue => ∃ payloads, queue.InStep payloads)
    · exact fun queue => inStep_new
    · rintro queue call queue' ⟨payloads, h⟩ ⟨⟨hsurvives, hkeeps⟩, hreturns⟩
      obtain ⟨payloads', pending, hholds, hreplay, hsame, -⟩ := h.step hsurvives hreturns
      exact ⟨payloads', hholds, by rw [hreplay, hsame hkeeps]⟩
  obtain ⟨payloads, h⟩ := hinStep
  refine ⟨h.recovers, fun call queue' hsurvives hreturns => ?_⟩
  obtain ⟨payloads', pending, hholds, hreplay, hsame, hlost⟩ := h.step hsurvives hreturns
  constructor
  · intro hrecovers hloses
    obtain ⟨hpending, hpending'⟩ := hlost hloses
    obtain ⟨-, -, m, hm, hother⟩ := hloses
    -- The restart knows the effect of the call alone.
    have hinStep : Queue.InStep ⟨{ queue'.service with pending := pending }, queue'.disk⟩ payloads' :=
      ⟨hholds, hreplay.symm⟩
    obtain ⟨restarted, hnew, hrestarted⟩ := hrecovers options
    obtain ⟨restarted', hnew', hrestarted'⟩ := hinStep.recovers options
    obtain rfl := Except.ok.inj (hnew.symm.trans hnew')
    have hmem := Call.mem_apply_effect hm hother
    rw [← hpending', ← hrestarted, hrestarted', hpending] at hmem
    exact hother (Call.key_of_mem_effect hmem)
  · intro hkeeps
    exact Queue.InStep.recovers ⟨hholds, by rw [hreplay, hsame hkeeps]⟩

/-! ## A rotation with a pending task -/

/-- A log of at most 200 bytes. -/
def sampleOptions : TaskQueueServiceOptions where
  maxPendingTasks := none
  maxWalBytes := some (.ofNat 200)
  faultInject := false

/-- A service on no files. -/
def sampleStart : Queue := ⟨⟨sampleOptions, [], [], 0, 0⟩, ⟨some [], none, [], false⟩⟩

/-- Enqueue a task without metadata; its record has 144 bytes. -/
def sampleEnqueue (digit : Char) : Call :=
  .enqueue ⟨"00000000-0000-4000-8000-00000000000".toList ++ [digit],
    "1970-01-01T00:00:01.000Z".toList, ⟨1000, none⟩⟩
    ⟨[(js "type", .str (js "chat.generate"))], js "chat.generate", rfl⟩

theorem sampleFirst_isSome : ((sampleEnqueue '1').returns sampleStart).isSome = true := by
  decide +kernel

/-- The queue after one task. -/
def sampleFirst : Queue := ((sampleEnqueue '1').returns sampleStart).get sampleFirst_isSome

theorem sampleSecond_isSome : ((sampleEnqueue '2').returns sampleFirst).isSome = true := by
  decide +kernel

/-- The queue after two tasks. -/
def sampleSecond : Queue := ((sampleEnqueue '2').returns sampleFirst).get sampleSecond_isSome

theorem sampleStart_init :
    (queueRuns sampleOptions ⟨none, none, [], false⟩).init sampleStart := rfl

theorem sampleEnqueue_keepsLog : KeepsLog sampleStart (sampleEnqueue '1') := by
  refine ⟨⟨.obj [(js "type", .str (js "chat.generate"))], rfl, rfl⟩, ?_⟩
  intro ⟨_, _, m, hm, _⟩
  cases hm

/-- The theorem at a service with one task. -/
theorem restart_recovers_pending_sample : sampleFirst.Recovers :=
  (restart_recovers_pending sampleOptions ⟨none, none, [], false⟩ sampleFirst
    ((TransitionSystem.Reachable.of_init
      (S := (queueRuns sampleOptions ⟨none, none, [], false⟩).restrict KeepsLog)
      sampleStart_init).next ⟨sampleEnqueue_keepsLog, (Option.some_get sampleFirst_isSome).symm⟩)).1

/-- The ids a restart recovers. -/
def recoveredIds (options : TaskQueueServiceOptions) (disk : Disk) : List JsString :=
  match TaskQueueService.new options disk with
  | .ok queue => queue.service.pending.map Prod.fst
  | .error _ => []

/-- The second of two tasks rotates the log, and a restart does not find the first. -/
theorem rotation_loses_pending :
    (queueRuns sampleOptions ⟨none, none, [], false⟩).Reachable sampleSecond ∧
      ¬sampleSecond.Recovers := by
  refine ⟨((TransitionSystem.Reachable.of_init sampleStart_init).next
    (Option.some_get sampleFirst_isSome).symm).next (Option.some_get sampleSecond_isSome).symm, ?_⟩
  intro h
  obtain ⟨restarted, hnew, hpending⟩ := h sampleOptions
  have hids : (recoveredIds sampleOptions sampleSecond.disk).length = 1 := by decide +kernel
  have hlength : sampleSecond.service.pending.length = 2 := by decide +kernel
  rw [recoveredIds, hnew, List.length_map, hpending, hlength] at hids
  cases hids

end MemphisOS.TaskQueue
