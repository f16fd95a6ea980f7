import MemphisOS.Ecma.Maps
import MemphisOS.Ecma.StringMethods
import Mathlib.Data.List.DropRight
import Mathlib.Data.Int.ConditionallyCompleteOrder

/-!
# The alert emitter

Alerts with one key are sent at most once a window; the others are counted, and a flush reports the
count in a summary, an alert of its own. A call runs up to its first `await`: a send is on its way
until the transport has answered, and a flush goes on when its summary has been answered for. Times
and the window are in milliseconds.
-/

namespace MemphisOS.Runtime

open Ecma

inductive AlertSeverity where
  | critical
  | high
  | medium
  | low

def AlertSeverity.text : AlertSeverity → JsString
  | critical => js "critical"
  | high => js "high"
  | medium => js "medium"
  | low => js "low"

structure Alert where
  id : Option JsString
  severity : AlertSeverity
  message : JsString
  details : Option (List (JsString × JsValue))

structure DedupState where
  firstSeenAt : ℤ
  lastSentAt : ℤ
  suppressedCount : ℕ

/-- The text a hashed key is the digest of; `JSON.stringify` may throw on the details. -/
def hashedText (alert : Alert) : Option JsString :=
  (stringify [] (.obj (alert.details.getD []))).map fun details =>
    alert.severity.text ++ js "|" ++ alert.message ++ js "|" ++
      (details.map ofText).getD (js "undefined")

/-- `digest` is the SHA-256 hash of a string in hexadecimal. -/
def alertKey (digest : JsString → JsString) (alert : Alert) : Option JsString :=
  match alert.id with
  | some id => if id.trim ≠ [] then some id.trim else (hashedText alert).map digest
  | none => (hashedText alert).map digest

/-- The alert a flush emits. -/
def summaryAlert (key : JsString) (count : ℕ) : Alert where
  id := some (js "AlertSuppressed:" ++ key)
  severity := .high
  message := js "AlertSuppressed"
  details := some [(js "alertId", .str key), (js "count", .num (.number (.ofNat count)))]

/-! ## What has happened -/

/-- A call of the transport. -/
structure Send where
  key : JsString
  alert : Alert
  time : ℤ
  /-- The key whose suppressed alerts a summary reports, and their number. -/
  reports : Option (JsString × ℕ)
  /-- Whether the transport took the alert, once it has answered. -/
  outcome : Option Bool

/-- An alert that was suppressed, and the sends before it. -/
structure Suppression where
  key : JsString
  time : ℤ
  before : List Send

/-- A key whose count was reset for a summary. -/
structure Flushed where
  key : JsString
  time : ℤ

/-- A call of `flushSuppressed` that waits for its last summary. -/
structure FlushCall where
  nowMs : ℤ
  /-- The keys it has not come to. -/
  keys : List JsString
  /-- The send it waits for; none when the summary was suppressed. -/
  awaits : Option ℕ

/-- An emitter, the calls that wait and what has happened. -/
structure Emitter where
  state : List (JsString × DedupState)
  flushing : List FlushCall
  sends : List Send
  suppressed : List Suppression
  flushed : List Flushed
  /-- The time of the last call. -/
  now : ℤ

/-- An emitter that is created at some time. -/
def Emitter.new (now : ℤ) : Emitter := ⟨[], [], [], [], [], now⟩

structure AlertDelivery where
  ok : Bool
  deduped : Bool
  suppressedCount : Option ℕ

/-- What `emit` has done up to its `await`. -/
inductive Emitted where
  | deduped (suppressedCount : ℕ)
  /-- The number of the send it waits for. -/
  | sending (send : ℕ)

/-- What `emit` returns, once the transport has answered. A failed send is logged instead. -/
def Emitter.delivery (emitter : Emitter) : Emitted → Option AlertDelivery
  | .deduped count => some ⟨true, true, some count⟩
  | .sending send =>
    (emitter.sends[send]?.bind Send.outcome).map fun ok => ⟨ok, false, none⟩

/-! ## Calls -/

variable (window : ℕ) (digest : JsString → JsString)

/-- A later alert of a key within the window. -/
def Emitter.suppress (emitter : Emitter) (key : JsString) (current : DedupState) (nowMs : ℤ) :
    Emitter :=
  { emitter with
    state := setMember key { current with suppressedCount := current.suppressedCount + 1 }
      emitter.state
    suppressed := emitter.suppressed ++ [⟨key, nowMs, emitter.sends⟩] }

/-- The entry of a key whose alert is sent. -/
def sentState (nowMs : ℤ) : Option DedupState → DedupState
  | none => ⟨nowMs, nowMs, 0⟩
  | some current => { current with lastSentAt := nowMs }

def Emitter.send (emitter : Emitter) (key : JsString) (alert : Alert)
    (reports : Option (JsString × ℕ)) (nowMs : ℤ) : Emitter :=
  { emitter with
    state := setMember key (sentState nowMs (emitter.state.lookup key)) emitter.state
    sends := emitter.sends ++ [⟨key, alert, nowMs, reports, none⟩] }

/-- `emit` up to its `await`; none when the key cannot be computed. -/
def Emitter.emit (emitter : Emitter) (alert : Alert) (reports : Option (JsString × ℕ))
    (nowMs : ℤ) : Option (Emitter × Emitted) :=
  (alertKey digest alert).map fun key =>
    match emitter.state.lookup key with
    | some current =>
      if nowMs - current.lastSentAt < window then
        (emitter.suppress key current nowMs, .deduped (current.suppressedCount + 1))
      else (emitter.send key alert reports nowMs, .sending emitter.sends.length)
    | none => (emitter.send key alert reports nowMs, .sending emitter.sends.length)

def Emitted.awaits : Emitted → Option ℕ
  | .deduped _ => none
  | .sending send => some send

/-- The count of a key is reset. -/
def Emitter.reset (emitter : Emitter) (key : JsString) (snapshot : DedupState) (nowMs : ℤ) :
    Emitter :=
  { emitter with
    state := setMember key { snapshot with suppressedCount := 0, lastSentAt := nowMs } emitter.state
    flushed := emitter.flushed ++ [⟨key, nowMs⟩] }

/-- The loop of `flushSuppressed` up to its next `await`. -/
def Emitter.flushKeys (emitter : Emitter) (nowMs : ℤ) : List JsString → Emitter
  | [] => emitter
  | key :: keys =>
    match emitter.state.lookup key with
    | none => emitter.flushKeys nowMs keys
    | some snapshot =>
      if snapshot.suppressedCount ≤ 0 then emitter.flushKeys nowMs keys
      else if nowMs - snapshot.lastSentAt < window then emitter.flushKeys nowMs keys
      else
        let count := snapshot.suppressedCount
        let emitter := emitter.reset key snapshot nowMs
        match emitter.emit window digest (summaryAlert key count) (some (key, count)) nowMs with
        | none => emitter
        | some (emitter, emitted) =>
          { emitter with flushing := emitter.flushing ++ [⟨nowMs, keys, emitted.awaits⟩] }

inductive Action where
  | emit (alert : Alert) (nowMs : ℤ)
  | flushSuppressed (nowMs : ℤ)
  /-- The transport answers a send. -/
  | settle (send : ℕ) (ok : Bool)
  /-- A waiting flush goes on. -/
  | resume (call : ℕ)

/-- The answer of a send. -/
def Emitter.settle (emitter : Emitter) (i : ℕ) (ok : Bool) : Emitter :=
  { emitter with sends := emitter.sends.modify i fun send => { send with outcome := some ok } }

/-- A flush goes on when its summary has been answered for. -/
def Emitter.answered (emitter : Emitter) (call : FlushCall) : Bool :=
  match call.awaits with
  | none => true
  | some i => (emitter.sends[i]?.bind Send.outcome).isSome

/-- One step of a process with an emitter; none when it cannot happen. -/
def Emitter.step (emitter : Emitter) : Action → Option Emitter
  | .emit alert nowMs =>
    if emitter.now ≤ nowMs then
      let emitter := { emitter with now := nowMs }
      match emitter.emit window digest alert none nowMs with
      | none => some emitter
      | some (emitter, _) => some emitter
    else none
  | .flushSuppressed nowMs =>
    if emitter.now ≤ nowMs then
      let emitter := { emitter with now := nowMs }
      some (emitter.flushKeys window digest nowMs (emitter.state.map Prod.fst))
    else none
  | .settle i ok =>
    match emitter.sends[i]? with
    | some send => if send.outcome = none then some (emitter.settle i ok) else none
    | none => none
  | .resume i =>
    match emitter.flushing[i]? with
    | some call =>
      if emitter.answered call then
        let emitter := { emitter with flushing := emitter.flushing.eraseIdx i }
        some (emitter.flushKeys window digest call.nowMs call.keys)
      else none
    | none => none

/-- The states and the actions of a run, and the state it ends in. -/
inductive Run : List (Emitter × Action) → Emitter → Prop
  | start (now : ℤ) : Run [] (.new now)
  | step {steps : List (Emitter × Action)} {emitter emitter' : Emitter} {action : Action} :
      Run steps emitter → emitter.step window digest action = some emitter' →
        Run (steps ++ [(emitter, action)]) emitter'

end MemphisOS.Runtime
