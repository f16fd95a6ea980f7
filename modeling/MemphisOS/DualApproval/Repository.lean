import MemphisOS.Admin.Identity
import MemphisOS.Ecma.Date
import MemphisOS.Sql.Program
import MemphisOS.Sql.Table
import Mathlib.Data.Char
import Mathlib.Data.List.Lex

/-!
# The dual-approval repository

The three tables of the repository and its operations, each as a program of SQL
statements. Clock values and random identifiers come from the environment of the call.
-/

namespace MemphisOS.DualApproval

open Ecma Sql

/-! ## Tables -/

inductive Action where
  | freeze
  | unfreeze
  deriving DecidableEq

inductive State where
  | pending
  | approved
  | expired
  | canceled
  deriving DecidableEq

inductive TransitionAction where
  | approve
  | cancel
  deriving DecidableEq

/-- A row of `dual_approval_requests`. -/
structure Request where
  requestId : Text
  action : Action
  state : State
  initiatorId : Text
  approverId : Option Text
  reason : Option Text
  signature : Option Text
  expiresAtMs : JsNumber
  stateVersion : ℕ
  createdAt : Text
  updatedAt : Text
  deriving DecidableEq

/-- A row of `dual_approval_events`. -/
structure Event where
  eventId : Text
  requestId : Text
  fromState : Option State
  toState : State
  actorId : Text
  signature : Option Text
  createdAt : Text
  deriving DecidableEq

/-- A row of `dual_approval_idempotency`. -/
structure Idempotency where
  approvalRequestId : Text
  requestId : Text
  action : TransitionAction
  actorId : Text
  createdAt : Text
  deriving DecidableEq

structure Db where
  requests : Table Request.requestId
  events : Table Event.eventId
  idempotency : Table Idempotency.approvalRequestId

def Db.empty : Db := ⟨.empty, .empty, .empty⟩

/-- `CHECK (approver_id IS NULL OR initiator_id <> approver_id)`. -/
def Request.checked (row : Request) : Bool := row.approverId ≠ some row.initiatorId

/-! ## Errors -/

inductive ErrorCode where
  | validationError
  | permissionDenied
  deriving DecidableEq

/-- A value in the details of an error. -/
inductive Detail where
  | text (t : Text)
  | state (s : State)
  | action (a : TransitionAction)
  | version (v : JsNumber)
  deriving DecidableEq

inductive ApprovalError where
  /-- `RangeError: Invalid time value`. -/
  | invalidTime
  /-- `identity cannot be empty`. -/
  | emptyIdentity
  /-- A failing statement. -/
  | sqlite
  /-- An `AppError`. -/
  | app (code : ErrorCode) (message : Text) (statusCode : ℕ) (details : List (String × Detail))
  deriving DecidableEq

/-- A program of the repository. -/
abbrev Repo (α : Type) := Program Db ApprovalError α

/-- `TransitionAlreadyApplied`. -/
def transitionAlreadyApplied (details : List (String × Detail)) : ApprovalError :=
  .app .validationError "TransitionAlreadyApplied".toList 409 details

/-! ## Statements -/

/-- The columns that identify a use of an `approvalRequestId`. -/
structure Reservation where
  approvalRequestId : Text
  requestId : Text
  action : TransitionAction
  actorId : Text
  deriving DecidableEq

/-- The row holds the same request, action and actor. -/
def Reservation.sameAs (r : Reservation) (row : Idempotency) : Bool :=
  row.requestId = r.requestId && row.action = r.action && row.actorId = r.actorId

/-- `approval_request_id already used`. -/
def Reservation.alreadyUsed (r : Reservation) : ApprovalError :=
  .app .validationError "approval_request_id already used".toList 409
    [("approvalRequestId", .text r.approvalRequestId), ("requestId", .text r.requestId),
      ("action", .action r.action)]

/-- A column that is `NOT NULL` refuses `NaN`, which is bound as `NULL`. -/
def insertRequest (row : Request) : Repo Unit := .statement .sqlite fun db =>
  if row.expiresAtMs ≠ .nan ∧ row.checked then
    (db.requests.insert row).map fun requests => ((), { db with requests })
  else none

/-- The number of changed rows. -/
def updateRequests (selected : Request → Bool) (set : Request → Request)
    (hset : ∀ r, (set r).requestId = r.requestId) : Repo ℕ := .statement .sqlite fun db =>
  let requests := db.requests.update selected set hset
  if requests.rows.all Request.checked then
    some (db.requests.changes selected, { db with requests })
  else none

/-- The request an event belongs to must exist. -/
def insertEvent (event : Event) : Repo Unit := .statement .sqlite fun db =>
  if (db.requests.find event.requestId).isSome then
    (db.events.insert event).map fun events => ((), { db with events })
  else none

def get (requestId : Text) : Repo (Option Request) :=
  .query .sqlite fun db => db.requests.find requestId

def getOrThrow (requestId : Text) : Repo Request := do
  match ← get requestId with
  | some row => return row
  | none => .throw (.app .validationError ("approval request not found: ".toList ++ requestId) 404
      [("requestId", .text requestId)])

/-- `INSERT ... ON CONFLICT(approval_request_id) DO NOTHING`: the number of new rows. -/
def insertIdempotency (row : Idempotency) : Repo ℕ := .statement .sqlite fun db =>
  match db.idempotency.insert row with
  | some idempotency => some (1, { db with idempotency })
  | none => some (0, db)

def selectIdempotency (approvalRequestId : Text) : Repo (Option Idempotency) :=
  .query .sqlite fun db => db.idempotency.find approvalRequestId

def reserveIdempotency (input : Reservation) (createdAt : Text) : Repo Bool := do
  let inserted ← insertIdempotency
    ⟨input.approvalRequestId, input.requestId, input.action, input.actorId, createdAt⟩
  if inserted = 1 then return true
  else
    match ← selectIdempotency input.approvalRequestId with
    | some existing => if input.sameAs existing then return false else .throw input.alreadyUsed
    | none => .throw input.alreadyUsed

def isIdempotentReplay (input : Reservation) : Repo Bool := do
  match ← selectIdempotency input.approvalRequestId with
  | none => return false
  | some existing => if input.sameAs existing then return true else .throw input.alreadyUsed

/-! ## Operations -/

/-- The clock and the identifiers a call draws. -/
structure Env where
  dateNow : JsNumber
  /-- The values of successive calls of `randomUUID`. -/
  randomUUID : ℕ → Text

structure CreateRequestInput where
  action : Action
  initiatorId : Text
  ttlMs : Option JsNumber
  reason : Option Text
  signature : Option Text
  nowMs : Option JsNumber

/-- The input of `approve` and `cancel`. -/
structure TransitionInput where
  approvalRequestId : Text
  requestId : Text
  /-- `approverId` or `actorId`. -/
  actorId : Text
  expectedStateVersion : JsNumber
  signature : Option Text
  nowMs : Option JsNumber

/-- `new Date(nowMs).toISOString()`. -/
def isoOrThrow (nowMs : JsNumber) : Except ApprovalError Text :=
  (toISOString nowMs).elim (.error .invalidTime) .ok

def normalizeOrThrow (host : Host) (input : Text) : Except ApprovalError Text :=
  (normalizeIdentity host input).elim (.error .emptyIdentity) .ok

/-- A comparison of `state_version` with a number, on either side of the database. -/
def Request.hasVersion (row : Request) (version : JsNumber) : Bool :=
  (JsNumber.ofNat row.stateVersion).strictEq version

/-- `nowMs + Math.max(1, ttlMs)`. -/
def expiry (nowMs : JsNumber) (ttlMs : Option JsNumber) : JsNumber :=
  nowMs.add (.max (.ofNat 1) (ttlMs.getD (.ofNat (5 * 60 * 1000))))

/-- The row a new request is stored as; the column drops the sign of a zero. -/
def newRequest (input : CreateRequestInput) (requestId initiator nowIso : Text)
    (expiresAtMs : JsNumber) : Request where
  requestId := requestId
  action := input.action
  state := .pending
  initiatorId := initiator
  approverId := none
  reason := input.reason
  signature := input.signature
  expiresAtMs := expiresAtMs.dropZeroSign
  stateVersion := 0
  createdAt := nowIso
  updatedAt := nowIso

/-- The two inserts run outside a transaction. -/
def createRequest (host : Host) (env : Env) (input : CreateRequestInput) : Repo Request := do
  let nowMs := input.nowMs.getD env.dateNow
  let requestId := env.randomUUID 0
  let nowIso ← .ofExcept (isoOrThrow nowMs)
  let initiator ← .ofExcept (normalizeOrThrow host input.initiatorId)
  insertRequest (newRequest input requestId initiator nowIso (expiry nowMs input.ttlMs))
  insertEvent ⟨env.randomUUID 1, requestId, none, .pending, initiator, input.signature, nowIso⟩
  getOrThrow requestId

/-- Reserve the identifier, move the selected request, record the event. -/
def reserveAndMove (reservation : Reservation) (nowIso : Text) (version : JsNumber)
    (set : Request → Request) (hset : ∀ r, (set r).requestId = r.requestId) (event : Event) :
    Repo Request := do
  if ← reserveIdempotency reservation nowIso then
    let changed ← updateRequests (fun row => row.requestId = reservation.requestId &&
      row.state = .pending && row.hasVersion version) set hset
    if changed ≠ 1 then
      .throw (transitionAlreadyApplied [("requestId", .text reservation.requestId)])
    else
      insertEvent event
      getOrThrow reservation.requestId
  else getOrThrow reservation.requestId

/-- `SET state='expired', state_version=state_version+1, updated_at=?`. -/
def Request.expire (nowIso : Text) (row : Request) : Request :=
  { row with state := .expired, stateVersion := row.stateVersion + 1, updatedAt := nowIso }

/-- The `SET` clause of an approval. -/
def Request.approve (approver : Text) (signature : Option Text) (nowIso : Text) (row : Request) :
    Request :=
  { row with
    state := .approved
    approverId := some approver
    signature := signature
    stateVersion := row.stateVersion + 1
    updatedAt := nowIso }

/-- The `SET` clause of a cancellation. -/
def Request.cancel (signature : Option Text) (nowIso : Text) (row : Request) : Request :=
  { row with
    state := .canceled
    signature := signature
    stateVersion := row.stateVersion + 1
    updatedAt := nowIso }

/-- The details of an error about a version. -/
def versionDetails (input : TransitionInput) (current : Request) : List (String × Detail) :=
  [("requestId", .text input.requestId), ("expectedStateVersion", .version input.expectedStateVersion),
    ("actualStateVersion", .version (.ofNat current.stateVersion))]

/-- The details of an error about a state. -/
def stateDetails (input : TransitionInput) (current : Request) : List (String × Detail) :=
  [("requestId", .text input.requestId), ("state", .state current.state),
    ("stateVersion", .version (.ofNat current.stateVersion))]

/-- The body of the transaction of `approve`. -/
def approveBody (input : TransitionInput) (nowMs : JsNumber) (nowIso approver eventId : Text) :
    Repo Request := do
  let reservation : Reservation := ⟨input.approvalRequestId, input.requestId, .approve, approver⟩
  let moved (toState : State) : Event :=
    ⟨eventId, input.requestId, some .pending, toState, approver, input.signature, nowIso⟩
  if ← isIdempotentReplay reservation then getOrThrow input.requestId
  else
    let current ← getOrThrow input.requestId
    if current.state ≠ .pending then
      .throw (transitionAlreadyApplied (stateDetails input current))
    else if current.expiresAtMs.lt nowMs then
      reserveAndMove reservation nowIso (.ofNat current.stateVersion) (.expire nowIso)
        (fun _ => rfl) (moved .expired)
    else if current.initiatorId = approver then
      .throw (.app .permissionDenied "initiator cannot self-approve".toList 403
        [("requestId", .text input.requestId)])
    else if ¬current.hasVersion input.expectedStateVersion then
      .throw (transitionAlreadyApplied (versionDetails input current))
    else
      reserveAndMove reservation nowIso input.expectedStateVersion
        (.approve approver input.signature nowIso) (fun _ => rfl) (moved .approved)

def approve (host : Host) (env : Env) (input : TransitionInput) : Repo Request := do
  let nowMs := input.nowMs.getD env.dateNow
  let nowIso ← .ofExcept (isoOrThrow nowMs)
  let approver ← .ofExcept (normalizeOrThrow host input.actorId)
  .transaction .sqlite (approveBody input nowMs nowIso approver (env.randomUUID 0))

/-- The body of the transaction of `cancel`. -/
def cancelBody (input : TransitionInput) (nowIso actor eventId : Text) : Repo Request := do
  let reservation : Reservation := ⟨input.approvalRequestId, input.requestId, .cancel, actor⟩
  if ← isIdempotentReplay reservation then getOrThrow input.requestId
  else
    let current ← getOrThrow input.requestId
    if current.state ≠ .pending then
      .throw (transitionAlreadyApplied (stateDetails input current))
    else if ¬current.hasVersion input.expectedStateVersion then
      .throw (transitionAlreadyApplied (versionDetails input current))
    else
      reserveAndMove reservation nowIso input.expectedStateVersion
        (.cancel input.signature nowIso) (fun _ => rfl)
        ⟨eventId, input.requestId, some .pending, .canceled, actor, input.signature, nowIso⟩

def cancel (host : Host) (env : Env) (input : TransitionInput) : Repo Request := do
  let nowIso ← .ofExcept (isoOrThrow (input.nowMs.getD env.dateNow))
  let actor ← .ofExcept (normalizeOrThrow host input.actorId)
  .transaction .sqlite (cancelBody input nowIso actor (env.randomUUID 0))

/-- The loop of `expirePending` over the ids of the rows it selected. -/
def expireRows (nowIso : Text) (randomUUID : ℕ → Text) : List Text → ℕ → Repo ℕ
  | [], updated => return updated
  | requestId :: rest, updated => do
    let changed ← updateRequests (fun row => row.requestId = requestId && row.state = .pending)
      (.expire nowIso) (fun _ => rfl)
    if changed ≠ 1 then expireRows nowIso randomUUID rest updated
    else
      insertEvent ⟨randomUUID updated, requestId, some .pending, .expired, "system".toList, none,
        nowIso⟩
      expireRows nowIso randomUUID rest (updated + 1)

def expirePending (env : Env) (nowMs : Option JsNumber) : Repo ℕ := do
  let nowMs := nowMs.getD env.dateNow
  let nowIso ← .ofExcept (isoOrThrow nowMs)
  let rows ← .query .sqlite fun db => db.requests.rows.filter fun row =>
    row.state = .pending && row.expiresAtMs.lt nowMs
  .transaction .sqlite (expireRows nowIso env.randomUUID (rows.map Request.requestId) 0)

/-- The lists `listEvents` may return: the events of the request in an order in which
`created_at` does not decrease. -/
def ListEvents (db : Db) (requestId : Text) (events : List Event) : Prop :=
  events.Perm (db.events.rows.filter fun event => event.requestId = requestId) ∧
    events.Pairwise fun a b => a.createdAt ≤ b.createdAt

/-! ## Calls -/

inductive Call where
  | createRequest (input : CreateRequestInput)
  | approve (input : TransitionInput)
  | cancel (input : TransitionInput)
  | expirePending (nowMs : Option JsNumber)

/-- A call with its environment and the statement that fails in it, if one does. -/
structure Step where
  call : Call
  env : Env
  fault : Option ℕ

/-- What a call returns. -/
inductive Reply where
  | request (row : Request)
  | count (n : ℕ)
  deriving DecidableEq

/-- The program of a call. -/
def Call.program (host : Host) (env : Env) : Call → Repo Reply
  | .createRequest input => return .request (← DualApproval.createRequest host env input)
  | .approve input => return .request (← DualApproval.approve host env input)
  | .cancel input => return .request (← DualApproval.cancel host env input)
  | .expirePending nowMs => return .count (← DualApproval.expirePending env nowMs)

/-- The result of a step and the database after it. -/
def Step.exec (host : Host) (db : Db) (step : Step) : Except ApprovalError Reply × Db :=
  let (result, session) := (step.call.program host step.env).run ⟨db, step.fault⟩
  (result, session.db)

/-- The database after a sequence of steps from empty tables. -/
def stateAfter (host : Host) (steps : List Step) : Db :=
  steps.foldl (fun db step => (step.exec host db).2) .empty

end MemphisOS.DualApproval
