import MemphisOS.Ecma.JsonLines

/-!
# The lifecycle of decisions

The transitions of a decision record, the audit log of transitions and the command
`decide transition`, which takes the record as JSON text. The history entry the command appends to
another file and what it prints are left out.
-/

namespace MemphisOS.Decision

open Ecma

/-! ## Values as texts -/

/-- `ToString` of a value that `JSON.parse` returns. It throws on an object with a property
`toString`, which then is no method. -/
def toText (v : Plain) : Option JsString :=
  (Json.fold (β := Bool × Option JsString) (true, some (js "null"))
    (fun b => (false, some (js (if b then "true" else "false"))))
    (fun n => (false, some (ofText (numberText n)))) (fun s => (false, some s))
    (fun items => (false, (items.mapM fun (item : Bool × Option JsString) =>
      if item.1 then some [] else item.2).map
      (List.intercalate (js ","))))
    (fun members => (false, if members.any (·.1 = js "toString") then none
      else some (js "[object Object]"))) v).2

/-- `ToString` of a value that may be undefined. -/
def toTextOrUndefined : Option Plain → Option JsString
  | none => some (js "undefined")
  | some v => toText v

/-- A property of a value that `JSON.parse` returns; `null` has none to ask for. -/
def property (v : Plain) (key : JsString) : Option (Option Plain) :=
  match v with
  | .null => none
  | .obj members => some (members.lookup key)
  | _ => some none

/-! ## Transitions -/

/-- The targets of each status. -/
def ALLOWED : List (JsString × List JsString) :=
  [(js "proposed", [js "accepted", js "rejected", js "superseded"]),
    (js "accepted", [js "implemented", js "superseded"]),
    (js "implemented", [js "verified", js "superseded"]),
    (js "verified", [js "superseded"]),
    (js "superseded", []),
    (js "rejected", [])]

/-- The properties every object inherits. None of them has a method `includes`. -/
def objectPrototype : List JsString :=
  [js "__defineGetter__", js "__defineSetter__", js "hasOwnProperty", js "__lookupGetter__",
    js "__lookupSetter__", js "isPrototypeOf", js "propertyIsEnumerable", js "toString",
    js "valueOf", js "__proto__", js "toLocaleString", js "constructor"]

inductive DecisionError where
  /-- The flag `--input` or `--to` is missing. -/
  | usage
  | syntaxError
  | typeError
  /-- `invalid transition: ...`. -/
  | invalidTransition (message : JsString)

def transitionDecision (record : Plain) (toStatus nowIso : JsString) : Except DecisionError Plain :=
  match property record (js "status") with
  | none => .error .typeError
  | some status =>
    match toTextOrUndefined status with
    | none => .error .typeError
    | some key =>
      if (ALLOWED.lookup key).isNone && key ∈ objectPrototype then .error .typeError
      else if toStatus ∈ (ALLOWED.lookup key).getD [] then
        match record with
        | .obj members => .ok (.obj (setMember (js "updatedAt") (.str nowIso)
            (setMember (js "status") (.str toStatus) members)))
        | _ => .error .typeError
      else .error (.invalidTransition (js "invalid transition: " ++ key ++ js " -> " ++ toStatus))

/-! ## The audit log -/

/-- The members of a `DecisionAuditEvent` of a transition, behind its id. -/
def auditEvent (eventId ts : JsString) (decisionId status : Option Plain)
    (toStatus correlationId : JsString) : List (JsString × Plain) :=
  [(js "eventId", .str eventId), (js "ts", .str ts)] ++
    (decisionId.map fun id => (js "decisionId", id)).toList ++
    [(js "action", .str (js "transition"))] ++
    (status.map fun status => (js "from", status)).toList ++
    [(js "to", .str toStatus), (js "actor", .str (js "cli")), (js "correlationId", .str correlationId)]

/-- The log with the line of an event behind it. -/
def appendDecisionAudit (log : Text) (event : List (JsString × Plain)) : Text :=
  log ++ jsonLine (jsonImage (.obj event))

/-- The events of a log; a log that does not exist is empty. -/
def readDecisionAudit (log : Text) : Option (List Plain) := readJsonLines log

/-! ## The command -/

/-- The flags of `decide transition`, and what a run of it draws from its environment. -/
structure Invocation where
  input : Option JsString
  /-- The flag `--to`. -/
  toStatus : Option JsString
  randomUUID : Text
  dateNow : ℕ
  /-- The readings of `new Date().toISOString()` in the record and in the event. -/
  updatedAt : Text
  ts : Text

/-- The record, the target and the event of an invocation that gets as far as the log. -/
def Invocation.event (invocation : Invocation) :
    Except DecisionError (Plain × List (JsString × Plain)) :=
  match invocation.input, invocation.toStatus with
  | some input, some toStatus =>
    if input = [] ∨ toStatus = [] then .error .usage
    else
      match parseString input with
      | none => .error .syntaxError
      | some record =>
        match transitionDecision record toStatus (ofText invocation.updatedAt) with
        | .error e => .error e
        | .ok next =>
          let id := (property record (js "id")).join
          match toTextOrUndefined id with
          | none => .error .typeError
          | some idText => .ok (next, auditEvent (ofText invocation.randomUUID)
              (ofText invocation.ts) id (property record (js "status")).join toStatus
              (idText ++ js ":" ++ ofText (digits invocation.dateNow)))
  | _, _ => .error .usage

/-- The next record and the number of events in the log, and the log. -/
def handleDecisionTransition (log : Text) (invocation : Invocation) :
    Except DecisionError (Plain × ℕ) × Text :=
  match invocation.event with
  | .error e => (.error e, log)
  | .ok (next, event) =>
    let log := appendDecisionAudit log event
    match readDecisionAudit log with
    | none => (.error .syntaxError, log)
    | some events => (.ok (next, events.length), log)

end MemphisOS.Decision
