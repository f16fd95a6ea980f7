import MemphisOS.Ecma.Value
import MemphisOS.TaskQueue.Wal

/-!
# The task queue

The queue keeps its pending tasks in memory and writes an envelope to the log before every
change of them. A new queue replays the envelopes of the log.
-/

namespace MemphisOS.TaskQueue

open Ecma

inductive TaskQueueStatus where
  | completed
  | failed
  | canceled
  deriving DecidableEq

def TaskQueueStatus.text : TaskQueueStatus → String
  | completed => "completed"
  | failed => "failed"
  | canceled => "canceled"

/-- The own properties of an object whose `type` is a string. -/
structure QueueTaskInput where
  members : List (JsString × JsValue)
  typed : ∃ type, members.lookup (js "type") = some (.str type)

/-- The task as a value. -/
def QueueTaskInput.value (task : QueueTaskInput) : JsValue := .obj task.members

structure PendingTask where
  taskId : JsString
  enqueuedAt : JsString
  task : JsValue

/-! ## Envelopes -/

/-- The envelope `enqueue` writes. -/
def enqueueEnvelope (taskId enqueuedAt : JsString) (task : JsValue) : JsValue :=
  .obj [(js "op", .str (js "enqueue")), (js "taskId", .str taskId),
    (js "enqueuedAt", .str enqueuedAt), (js "task", task)]

/-- The envelope `finish` writes. -/
def finishEnvelope (taskId : JsString) (status : TaskQueueStatus) (finishedAt : JsString)
    (metadata : Option JsValue) : JsValue :=
  .obj [(js "op", .str (js "finish")), (js "taskId", .str taskId),
    (js "status", .str (js status.text)), (js "finishedAt", .str finishedAt),
    (js "metadata", metadata.getD (.num .undefined))]

/-- What the replay uses of an envelope. -/
inductive QueueEnvelope where
  | enqueue (pending : PendingTask)
  | finish (taskId : JsString)

/-- The value is an object whose `type` is a string. -/
def isTask : Plain → Bool
  | .obj members => match members.lookup (js "type") with
    | some (.str _) => true
    | _ => false
  | _ => false

/-- The envelope an object is. -/
def readEnvelope (members : List (JsString × Plain)) : Option QueueEnvelope :=
  match members.lookup (js "op"), members.lookup (js "taskId") with
  | some (.str op), some (.str taskId) =>
    if op = js "enqueue" then
      match members.lookup (js "enqueuedAt"), members.lookup (js "task") with
      | some (.str enqueuedAt), some task =>
        if isTask task then some (.enqueue ⟨taskId, enqueuedAt, ofPlain task⟩) else none
      | _, _ => none
    else if op = js "finish" then
      match members.lookup (js "finishedAt"), members.lookup (js "status") with
      | some (.str _), some (.str status) =>
        if status ∈ [js "completed", js "failed", js "canceled"] then some (.finish taskId)
        else none
      | _, _ => none
    else none
  | _, _ => none

def parseEnvelope (raw : Text) : Option QueueEnvelope :=
  match parseJson raw with
  | some (.obj members) => readEnvelope members
  | _ => none

/-! ## The service -/

inductive QueueError where
  /-- An `AppError` of code `OVERLOAD` and status 429, `task queue is full`. -/
  | overload (pendingTasks : ℕ) (maxPendingTasks : JsNumber)
  | wal (error : WalError)
  deriving DecidableEq

structure TaskQueueServiceOptions where
  maxPendingTasks : Option JsNumber
  maxWalBytes : Option JsNumber
  faultInject : Bool

/-- The log options a service passes on, with their default. -/
def TaskQueueServiceOptions.wal (options : TaskQueueServiceOptions) : WalOptions where
  maxWalBytes := options.maxWalBytes.getD (.ofNat (10 * 1024 * 1024))
  faultInject := options.faultInject

structure TaskQueueService where
  options : TaskQueueServiceOptions
  /-- The entries of the map in their order. -/
  pending : List (JsString × PendingTask)
  /-- The elements of the set in their order. -/
  recoveredTaskIds : List JsString
  totalEnqueued : ℕ
  totalFinished : ℕ

/-- What a call draws from its environment. -/
structure Env where
  randomUUID : Text
  /-- `new Date().toISOString()`. -/
  nowIso : Text
  io : Io

/-- `Map.delete`. -/
def deleteMember {α : Type} (k : JsString) (members : List (JsString × α)) : List (JsString × α) :=
  members.filter fun m => m.1 ≠ k

/-- Apply an envelope to the pending tasks. -/
def QueueEnvelope.apply (pending : List (JsString × PendingTask)) :
    QueueEnvelope → List (JsString × PendingTask)
  | enqueue task => setMember task.taskId task pending
  | finish taskId => deleteMember taskId pending

/-- One round of the loop of `recover`. -/
def recoverRecord (service : TaskQueueService) (record : WalRecord) : TaskQueueService :=
  match parseEnvelope record.payload with
  | none => service
  | some (.enqueue task) =>
    { service with
      pending := setMember task.taskId task service.pending
      recoveredTaskIds := if task.taskId ∈ service.recoveredTaskIds then service.recoveredTaskIds
        else service.recoveredTaskIds ++ [task.taskId]
      totalEnqueued := service.totalEnqueued + 1 }
  | some (.finish taskId) =>
    { service with
      pending := deleteMember taskId service.pending
      recoveredTaskIds := service.recoveredTaskIds.filter (· ≠ taskId)
      totalFinished := service.totalFinished + 1 }

/-- A service and the files of its log. -/
structure Queue where
  service : TaskQueueService
  disk : Disk

/-- The constructor with its call of `recover`. -/
def TaskQueueService.new (options : TaskQueueServiceOptions) (disk : Disk) :
    Except QueueError Queue :=
  match recoverAndRead (ensureActiveWal disk) with
  | (.ok records, disk) => .ok ⟨records.foldl recoverRecord ⟨options, [], [], 0, 0⟩, disk⟩
  | (.error e, _) => .error (.wal e)

/-- Serialise an envelope and append it to the log. -/
def writeEnvelope (queue : Queue) (io : Io) (envelope : JsValue) :
    Except QueueError Unit × Disk :=
  match stringify [] envelope with
  | some (some payload) =>
    match enqueuePayload queue.service.options.wal io payload queue.disk with
    | (.ok _, disk) => (.ok (), disk)
    | (.error e, disk) => (.error (.wal e), disk)
  | _ => (.error (.wal .notSerializable), queue.disk)

def TaskQueueService.enqueue (queue : Queue) (env : Env) (task : QueueTaskInput) :
    Except QueueError (Text × Text) × Queue :=
  let service := queue.service
  let maxPendingTasks := service.options.maxPendingTasks.getD (.ofNat 100)
  if maxPendingTasks.le (.ofNat service.pending.length) then
    (.error (.overload service.pending.length maxPendingTasks), queue)
  else
    let taskId := ofText env.randomUUID
    let enqueuedAt := ofText env.nowIso
    match writeEnvelope queue env.io (enqueueEnvelope taskId enqueuedAt task.value) with
    | (.error e, disk) => (.error e, ⟨service, disk⟩)
    | (.ok (), disk) => (.ok (env.randomUUID, env.nowIso),
        ⟨{ service with
            pending := setMember taskId ⟨taskId, enqueuedAt, task.value⟩ service.pending
            totalEnqueued := service.totalEnqueued + 1 }, disk⟩)

def TaskQueueService.finish (queue : Queue) (env : Env) (taskId : JsString)
    (status : TaskQueueStatus) (metadata : Option JsValue) : Except QueueError Bool × Queue :=
  let service := queue.service
  if (service.pending.lookup taskId).isNone then (.ok false, queue)
  else
    match writeEnvelope queue env.io (finishEnvelope taskId status (ofText env.nowIso) metadata) with
    | (.error e, disk) => (.error e, ⟨service, disk⟩)
    | (.ok (), disk) => (.ok true,
        ⟨{ service with
            pending := deleteMember taskId service.pending
            recoveredTaskIds := service.recoveredTaskIds.filter (· ≠ taskId)
            totalFinished := service.totalFinished + 1 }, disk⟩)

end MemphisOS.TaskQueue
