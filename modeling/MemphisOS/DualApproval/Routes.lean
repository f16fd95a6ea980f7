import MemphisOS.Admin.Signature
import MemphisOS.DualApproval.Safety
import MemphisOS.Http.Schemas

/-!
# The dual-approval routes

The three HTTP routes: the schemas of their bodies, the payload each of them has signed,
and the calls they make. A handler runs up to its last statement without giving way to
another request.
-/

namespace MemphisOS.DualApproval

open Ecma Sql

/-! ## Schemas -/

/-- `z.string().uuid()`. -/
def readUuid (platform : Platform) : Plain → Option JsString
  | .str s => if platform.isZodUuid s then some s else none
  | _ => none

/-- `z.enum(['freeze', 'unfreeze'])`. -/
def readAction : Plain → Option Action
  | .str s => if s = js "freeze" then some .freeze else if s = js "unfreeze" then some .unfreeze
    else none
  | _ => none

/-- The paths of the issues, given which fields are fine. -/
def issuePaths (fields : List (String × Bool)) : List String :=
  (fields.filter fun field => !field.2).map Prod.fst

/-- What `dualApprovalRequestSchema` reads. -/
structure RequestData where
  action : Action
  initiatorId : JsString
  ttlMs : Option JsNumber
  reason : Option JsString
  signature : Option JsString
  deriving DecidableEq

/-- What `dualApprovalApproveSchema` and `dualApprovalCancelSchema` read. -/
structure TransitionData where
  approvalRequestId : JsString
  requestId : JsString
  /-- `approverId` or `actorId`. -/
  actorId : JsString
  expectedStateVersion : JsNumber
  signature : Option JsString
  deriving DecidableEq

/-- `dualApprovalRequestSchema`: the data or the paths of the issues, each path once. -/
def dualApprovalRequestSchema : Plain → Except (List String) RequestData
  | .obj body =>
    match requiredField body "action" readAction, requiredField body "initiatorId" (readString 1 256),
      optionalField body "ttlMs" (readInt 1 (some 3600000)),
      optionalField body "reason" (readString 1 2000),
      optionalField body "signature" (readString 1 4096) with
    | some action, some initiatorId, some ttlMs, some reason, some signature =>
      .ok ⟨action, initiatorId, ttlMs, reason, signature⟩
    | action, initiatorId, ttlMs, reason, signature => .error (issuePaths
        [("action", action.isSome), ("initiatorId", initiatorId.isSome), ("ttlMs", ttlMs.isSome),
          ("reason", reason.isSome), ("signature", signature.isSome)])
  | _ => .error [""]

/-- The two schemas of transitions, which differ in the name of the actor's field. -/
def transitionSchema (platform : Platform) (actorKey : String) :
    Plain → Except (List String) TransitionData
  | .obj body =>
    match requiredField body "approvalRequestId" (readUuid platform),
      requiredField body "requestId" (readUuid platform),
      requiredField body actorKey (readString 1 256),
      requiredField body "expectedStateVersion" (readInt 0 none),
      optionalField body "signature" (readString 1 4096) with
    | some approvalRequestId, some requestId, some actorId, some expectedStateVersion,
        some signature =>
      .ok ⟨approvalRequestId, requestId, actorId, expectedStateVersion, signature⟩
    | approvalRequestId, requestId, actorId, expectedStateVersion, signature => .error (issuePaths
        [("approvalRequestId", approvalRequestId.isSome), ("requestId", requestId.isSome),
          (actorKey, actorId.isSome), ("expectedStateVersion", expectedStateVersion.isSome),
          ("signature", signature.isSome)])
  | _ => .error [""]

def dualApprovalApproveSchema (platform : Platform) : Plain → Except (List String) TransitionData :=
  transitionSchema platform "approverId"

def dualApprovalCancelSchema (platform : Platform) : Plain → Except (List String) TransitionData :=
  transitionSchema platform "actorId"

/-! ## Payloads -/

def Action.text : Action → String
  | freeze => "freeze"
  | unfreeze => "unfreeze"

/-- The payload an initiator signs. -/
def RequestData.payload (data : RequestData) : List (JsString × Plain) :=
  [(js "action", .str (js data.action.text)),
    (js "ttlMs", .num (data.ttlMs.getD (.ofNat (5 * 60 * 1000)))),
    (js "reason", data.reason.elim .null .str)]

/-- The payload an approver or a canceling actor signs. -/
def TransitionData.payload (data : TransitionData) : List (JsString × Plain) :=
  [(js "approvalRequestId", .str data.approvalRequestId), (js "requestId", .str data.requestId),
    (js "expectedStateVersion", .num data.expectedStateVersion)]

/-- A body that its route's schema accepts. -/
inductive Parsed where
  | request (data : RequestData)
  | approve (data : TransitionData)
  | cancel (data : TransitionData)
  deriving DecidableEq

/-- The schema of a route. -/
def parseBody (platform : Platform) (body : Plain) :
    AdminActionType → Except (List String) Parsed
  | .request => (dualApprovalRequestSchema body).map .request
  | .approve => (dualApprovalApproveSchema platform body).map .approve
  | .cancel => (dualApprovalCancelSchema platform body).map .cancel

/-- What the handler has verified. -/
def Parsed.verification : Parsed → VerifyAdminActionSignatureInput
  | request data =>
    ⟨.request, wellFormed data.initiatorId, data.signature.map wellFormed, data.payload⟩
  | approve data =>
    ⟨.approve, wellFormed data.actorId, data.signature.map wellFormed, data.payload⟩
  | cancel data =>
    ⟨.cancel, wellFormed data.actorId, data.signature.map wellFormed, data.payload⟩

/-! ## Handlers -/

def RequestData.input (data : RequestData) : CreateRequestInput where
  action := data.action
  initiatorId := wellFormed data.initiatorId
  ttlMs := data.ttlMs
  reason := data.reason.map wellFormed
  signature := data.signature.map wellFormed
  nowMs := none

def TransitionData.input (data : TransitionData) : TransitionInput where
  approvalRequestId := wellFormed data.approvalRequestId
  requestId := wellFormed data.requestId
  actorId := wellFormed data.actorId
  expectedStateVersion := data.expectedStateVersion
  signature := data.signature.map wellFormed
  nowMs := none

/-- The answer of a route; only transitions say whether they were replayed. -/
structure Response where
  request : Request
  replayed : Option Bool
  deriving DecidableEq

/-- `listEvents(requestId).length`. -/
def countEvents (requestId : Text) : Repo ℕ :=
  .query .sqlite fun db =>
    (db.events.rows.filter fun event => event.requestId = requestId).length

/-- The database part of the request route. -/
def handleRequest (host : Host) (env : Env) (data : RequestData) : Repo Response := do
  let record ← createRequest host env data.input
  let _ ← countEvents record.requestId
  return ⟨record, none⟩

/-- The database part of the other routes around their transition. -/
def handleTransition (data : TransitionData) (transition : Repo Request) : Repo Response := do
  let eventsBefore ← countEvents data.input.requestId
  let record ← transition
  let eventsAfter ← countEvents record.requestId
  return ⟨record, some (eventsAfter ≤ eventsBefore)⟩

/-- The call a handler makes. -/
def Parsed.call : Parsed → Call
  | request data => .createRequest data.input
  | approve data => .approve data.input
  | cancel data => .cancel data.input

/-- The database part of a handler. -/
def Parsed.handle (host : Host) (env : Env) : Parsed → Repo Response
  | request data => handleRequest host env data
  | approve data => handleTransition data (DualApproval.approve host env data.input)
  | cancel data => handleTransition data (DualApproval.cancel host env data.input)

inductive HttpError where
  /-- An `AppError` of code `VALIDATION_ERROR` and status 400. -/
  | invalidPayload (message : String) (issues : List String)
  | signature (error : AdminError)
  | repository (error : ApprovalError)
  deriving DecidableEq

/-- The message about a body its schema refuses. -/
def invalidPayloadMessage : AdminActionType → String
  | .request => "Invalid dual approval request payload"
  | .approve => "Invalid dual approval approve payload"
  | .cancel => "Invalid dual approval cancel payload"

/-- A request to a route, with the environment it is handled in and the statement that
fails, if one does. -/
structure HttpStep where
  route : AdminActionType
  body : Plain
  rawEnv : ProcessEnv
  env : Env
  fault : Option ℕ

/-- The result of a request and the database after it. -/
def HttpStep.exec (platform : Platform) (db : Db) (step : HttpStep) :
    Except HttpError Response × Db :=
  match parseBody platform step.body step.route with
  | .error issues => (.error (.invalidPayload (invalidPayloadMessage step.route) issues), db)
  | .ok parsed =>
    match verifyAdminActionSignature platform parsed.verification step.rawEnv with
    | .error e => (.error (.signature e), db)
    | .ok _ =>
      let (result, session) := (parsed.handle platform.toHost step.env).run ⟨db, step.fault⟩
      (result.mapError .repository, session.db)

/-- The database after a sequence of requests from empty tables. -/
def stateAfterHttp (platform : Platform) (steps : List HttpStep) : Db :=
  steps.foldl (fun db step => (step.exec platform db).2) .empty

/-! ## The effect of a request -/

variable {host : Host} {platform : Platform} {db : Db}

/-- A transition between two readings of its events changes what the transition alone
changes, or nothing at all. -/
theorem handleTransition_db {data : TransitionData} {transition : Repo Request} {env : Env}
    {call : Call} (h : call.program host env = (do return .request (← transition)))
    (s : Session Db) :
    ((handleTransition data transition).run s).2.db = s.db ∨ ∃ fault,
      ((handleTransition data transition).run s).2.db =
        (Step.exec host s.db ⟨call, env, fault⟩).2 := by
  unfold handleTransition
  have hdb : ((countEvents data.input.requestId).run s).2.db = s.db := Program.run_query_db _ _ s
  rcases hbefore : (countEvents data.input.requestId).run s with ⟨_ | eventsBefore, mid⟩
  · rw [hbefore] at hdb
    rw [Program.run_bind_of_error hbefore]
    exact .inl hdb
  · rw [hbefore] at hdb
    rw [Program.run_bind_of_ok hbefore]
    obtain ⟨result, last, hrun, hexec⟩ := exec_eq host ⟨call, env, mid.fault⟩ h s.db
    refine .inr ⟨mid.fault, ?_⟩
    have hmid : mid = ⟨s.db, mid.fault⟩ := by rw [← hdb]
    rw [hexec, hmid]
    exact (Program.run_bind_query_db _).trans (by rw [hrun])

/-- A handler changes what its call changes, or nothing at all. -/
theorem handle_db (host : Host) (env : Env) (parsed : Parsed) (s : Session Db) :
    ((parsed.handle host env).run s).2.db = s.db ∨ ∃ fault,
      ((parsed.handle host env).run s).2.db =
        (Step.exec host s.db ⟨parsed.call, env, fault⟩).2 := by
  cases parsed with
  | request data =>
    obtain ⟨result, last, hrun, hexec⟩ :=
      exec_eq host ⟨.createRequest data.input, env, s.fault⟩ rfl s.db
    refine .inr ⟨s.fault, ?_⟩
    rw [Parsed.call, hexec]
    exact (Program.run_bind_query_db _).trans (by rw [hrun])
  | approve data => exact handleTransition_db rfl s
  | cancel data => exact handleTransition_db rfl s

/-- A request that is parsed and verified is handled. -/
theorem HttpStep.exec_of_verified {step : HttpStep} {parsed : Parsed}
    {result : VerifyAdminActionSignatureResult}
    (hparse : parseBody platform step.body step.route = .ok parsed)
    (hverify : verifyAdminActionSignature platform parsed.verification step.rawEnv = .ok result) :
    (step.exec platform db).2 =
      ((parsed.handle platform.toHost step.env).run ⟨db, step.fault⟩).2.db := by
  unfold HttpStep.exec
  rw [hparse]
  dsimp only
  rw [hverify]

/-- A request that is parsed and verified makes its call, unless reading the events fails
before; no other request touches the database. -/
theorem HttpStep.exec_db (platform : Platform) (db : Db) (step : HttpStep) :
    (step.exec platform db).2 = db ∨
    ∃ parsed result fault, parseBody platform step.body step.route = .ok parsed ∧
      verifyAdminActionSignature platform parsed.verification step.rawEnv = .ok result ∧
      (step.exec platform db).2 =
        (Step.exec platform.toHost db ⟨parsed.call, step.env, fault⟩).2 := by
  cases hparse : parseBody platform step.body step.route with
  | error issues =>
    rw [HttpStep.exec, hparse]
    exact .inl rfl
  | ok parsed =>
    cases hverify : verifyAdminActionSignature platform parsed.verification step.rawEnv with
    | error e =>
      rw [HttpStep.exec, hparse]
      dsimp only
      rw [hverify]
      exact .inl rfl
    | ok result =>
      rw [HttpStep.exec_of_verified hparse hverify]
      rcases handle_db platform.toHost step.env parsed ⟨db, step.fault⟩ with hsame | ⟨fault, hcall⟩
      · exact .inl hsame
      · exact .inr ⟨parsed, result, fault, rfl, hverify, hcall⟩

end MemphisOS.DualApproval
