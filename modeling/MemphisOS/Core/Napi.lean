import MemphisOS.Core.LoopEngine
import MemphisOS.Core.SignedRuns
import MemphisOS.Serde.Value

/-!
# The native module

The functions `memphis-napi` exports for chains and loops, from the JSON texts of their
arguments to the JSON text of their answer.
-/

namespace MemphisCore

open Ecma Serde

/-- The native module in its environment. -/
structure Napi where
  crates : Crates
  env : Env
  /-- The message of the error `serde_json` raises on a text that is not of the named type. -/
  serdeMessage : String → Text → Text

/-! ## Arguments -/

def BlockType.all : List BlockType :=
  [journal, ask, decision, system, systemEvent, toolCall, toolResult, error, walletTxRequested,
    walletTxSigned, walletTxBroadcast, walletTxConfirmed, walletTxFailed]

def readBlockType : Decoder BlockType := variant (BlockType.all.map fun t => (t.name, t))

def readBlockData : Decoder BlockData := fun v => do
  let [blockType, content, tags] ← fields ["type", "content", "tags"] 0 v | none
  return ⟨← blockType.bind readBlockType, ← content.bind string, ← tags.bind (sequence string)⟩

/-- `signer` and `signature` have defaults. -/
def readBlock : Decoder Block := fun v => do
  let [index, timestamp, chain, data, prevHash, hash, signer, signature] ←
    fields ["index", "timestamp", "chain", "data", "prev_hash", "hash", "signer", "signature"] 2 v
    | none
  return ⟨← index.bind u64, ← timestamp.bind string, ← chain.bind string,
    ← data.bind readBlockData, ← prevHash.bind string, ← hash.bind string,
    ← optionField string signer, ← optionField string signature⟩

def readLoopState : Decoder LoopState := fun v => do
  let [steps, toolCalls, waitMs, errors, completed, haltReason] ←
    fields ["steps", "tool_calls", "wait_ms", "errors", "completed", "halt_reason"] 0 v | none
  return ⟨← steps.bind u32, ← toolCalls.bind u32, ← waitMs.bind u64, ← errors.bind u32,
    ← completed.bind boolean, ← optionField string haltReason⟩

def readLoopLimits : Decoder LoopLimits := fun v => do
  let [maxSteps, maxToolCalls, maxWaitMs, maxErrors] ←
    fields ["max_steps", "max_tool_calls", "max_wait_ms", "max_errors"] 0 v | none
  return ⟨← maxSteps.bind u32, ← maxToolCalls.bind u32, ← maxWaitMs.bind u64, ← maxErrors.bind u32⟩

def readToolCall : Decoder LoopAction := fun v => do
  let [tool] ← fields ["tool"] 0 v | none
  return .toolCall (← tool.bind string)

def readWait : Decoder LoopAction := fun v => do
  let [durationMs] ← fields ["duration_ms"] 0 v | none
  return .wait (← durationMs.bind u64)

def readComplete : Decoder LoopAction := fun v => do
  let [summary] ← fields ["summary"] 0 v | none
  return .complete (← summary.bind string)

def readError : Decoder LoopAction := fun v => do
  let [recoverable, message] ← fields ["recoverable", "message"] 0 v | none
  return .error (← recoverable.bind boolean) (← message.bind string)

/-- The tag of an action is the type of its data. -/
def readLoopAction : Decoder LoopAction := fun v => do
  let [type, data] ← fields ["type", "data"] 0 v | none
  let read ← type.bind (variant [("tool_call", readToolCall), ("wait", readWait),
    ("complete", readComplete), ("error", readError)])
  data.bind read

/-- Block data without a type are not read. -/
theorem readBlockData_eq_none {ms : List (JsString × Document)}
    (h : ms.lookup (js "type") = none) : readBlockData (.obj ms) = none := by
  rw [readBlockData, fields]
  split
  · simp [h]
  · rfl

/-- A block is not read when its data are not. -/
theorem readBlock_eq_none {ms : List (JsString × Document)} {data : Document}
    (hdata : ms.lookup (js "data") = some data) (h : readBlockData data = none) :
    readBlock (.obj ms) = none := by
  rw [readBlock, fields]
  split
  · simp [hdata, h]
  · rfl

/-! ## Answers -/

/-- An answer: an `ApiResult`. -/
def respond (succeeded : Bool) (data error : Json ℕ) : Text :=
  (Json.obj [(js "ok", .bool succeeded), (js "data", data), (js "error", error)]).write digits [] []

def ok (data : Json ℕ) : Text := respond true data .null

def err (msg : Text) : Text := respond false .null (jsonText msg)

def optionValue : Option Text → Json ℕ
  | none => .null
  | some t => jsonText t

/-- A block as a value whose keys are kept sorted. -/
def Block.toValue (block : Block) : Json ℕ :=
  .obj ([(js "chain", jsonText block.chain), (js "data", block.data.toValue),
    (js "hash", jsonText block.hash), (js "index", .num block.index.toNat),
    (js "prev_hash", jsonText block.prevHash)] ++
    block.signature.toList.map (fun t => (js "signature", jsonText t)) ++
    block.signer.toList.map (fun t => (js "signer", jsonText t)) ++
    [(js "timestamp", jsonText block.timestamp)])

/-- A state as a value whose keys are kept sorted. -/
def LoopState.toValue (state : LoopState) : Json ℕ :=
  .obj [(js "completed", .bool state.completed), (js "errors", .num state.errors.toNat),
    (js "halt_reason", optionValue state.haltReason), (js "steps", .num state.steps.toNat),
    (js "tool_calls", .num state.toolCalls.toNat), (js "wait_ms", .num state.waitMs.toNat)]

/-- The outcome of an action as a value whose keys are kept sorted. -/
def outcomeValue : LoopOutcome → Json ℕ
  | (state, .ok ()) => .obj [(js "applied", .bool true), (js "state", state.toValue)]
  | (state, .error reason) =>
    .obj [(js "applied", .bool false), (js "reason", jsonText reason), (js "state", state.toValue)]

def ReplayReport.toValue (report : ReplayReport) : Json ℕ :=
  .obj [(js "accepted", .num report.accepted), (js "rejected", .num report.rejected),
    (js "errors", .arr (report.errors.map jsonText)),
    (js "snapshot", .obj [(js "blocks", .num report.snapshot.blocks),
      (js "last_hash", optionValue report.snapshot.lastHash),
      (js "state_hash", jsonText report.snapshot.stateHash)])]

def AppendAnswer.text : AppendAnswer → Text
  | failed error => err error
  | rejected errors =>
    ok (.obj [(js "appended", .bool false), (js "errors", .arr (errors.map jsonText))])
  | appended chain =>
    ok (.obj [(js "appended", .bool true), (js "chain", .arr (chain.map Block.toValue)),
      (js "length", .num chain.length)])

/-! ## Exports -/

namespace Napi

variable (napi : Napi)

/-- What a text is read as, or the error with the name of the argument. -/
def argument {α : Type} (decode : Decoder α) (type name : String) (t : Text) : Except Text α :=
  match (parse t).bind decode with
  | some a => .ok a
  | none => .error ("invalid_".toList ++ name.toList ++ ": ".toList ++ napi.serdeMessage type t)

/-- The answer of `chain_append` before it is serialised. -/
def appendAnswer (chainJson blockJson : Text) : AppendAnswer :=
  match napi.argument (sequence readBlock) "Vec<Block>" "chain_json" chainJson with
  | .error e => .failed e
  | .ok blocks =>
    match napi.argument readBlock "Block" "block_json" blockJson with
    | .error e => .failed e
    | .ok block => appendBlock napi.crates napi.env blocks block

def chainAppend (chainJson blockJson : Text) : Text := (napi.appendAnswer chainJson blockJson).text

def soulReplay (chainName blocksJson : Text) : Text :=
  match napi.argument (sequence readBlock) "Vec<Block>" "blocks_json" blocksJson with
  | .error e => err e
  | .ok blocks => ok (replay napi.crates chainName blocks).toValue

def soulLoopStep (stateJson actionJson : Text) (limitsJson : Option Text) : Text :=
  match napi.argument readLoopState "LoopState" "loop_state_json" stateJson with
  | .error e => err e
  | .ok state =>
    match napi.argument readLoopAction "LoopAction" "loop_action_json" actionJson with
    | .error e => err e
    | .ok action =>
      let limits := match limitsJson with
        | some raw => napi.argument readLoopLimits "LoopLimits" "loop_limits_json" raw
        | none => .ok {}
      match limits with
      | .error e => err e
      | .ok limits => ok (outcomeValue (state.apply action limits))

end Napi

/-- A module in an environment without variables. -/
def sampleNapi : Napi where
  crates := sampleCrates
  env _ := none
  serdeMessage _ _ := "missing field".toList

end MemphisCore
