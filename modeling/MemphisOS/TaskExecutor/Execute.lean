import MemphisOS.TaskExecutor.Events
import MemphisOS.TaskExecutor.LoopStep

/-!
# Executions of the task executor

`execute` as a program that appends events, scans the chain directory for a stored result and calls
the provider, and the steps such a program takes on the directory.
-/

namespace MemphisOS.TaskExecutor

open Ecma Bridge MemphisCore

structure TaskExecutionContext where
  taskId : Option JsString
  runId : Option JsString
  source : Option JsString
  agentId : Option JsString
  enableReplayDedupe : Option Bool

structure TaskExecutionRequest where
  input : JsString
  provider : Option JsString
  strategy : Option JsString
  execution : TaskExecutionContext

/-- The identifiers `idFactory` makes for an execution without its own. -/
structure FreshIds where
  task : JsString
  run : JsString

def TaskExecutionRequest.runId (request : TaskExecutionRequest) (fresh : FreshIds) : JsString :=
  request.execution.runId.getD (js "run_" ++ fresh.run)

/-- `enableReplayDedupe ?? Boolean(runId)`. -/
def TaskExecutionRequest.replayDedupeEnabled (request : TaskExecutionRequest) : Bool :=
  request.execution.enableReplayDedupe.getD (truthy (request.execution.runId.map .str))

/-- What an execution does next. -/
inductive Program where
  | emit (event : TaskEvent) (next : Program)
  | findCachedResult (runId toolCallId : JsString) (next : Option GenerateResult → Program)
  | runProviderGenerate (next : Except JsString GenerateResult → Program)
  | done (result : GenerateResult)
  | throw (message : JsString)

/-- `DEFAULT_LOOP_LIMITS`. -/
def defaultLoopLimits : SoulLoopLimits := ⟨.ofNat 32, .ofNat 16, .ofNat 120000, .ofNat 4⟩

/-- `DEFAULT_LOOP_STATE`. -/
def defaultLoopState : SoulLoopState :=
  ⟨.ofNat 0, .ofNat 0, .ofNat 0, .ofNat 0, false, none⟩

variable (host : BridgeHost)

/-- `inputDigest`. -/
def TaskExecutionRequest.inputDigest (request : TaskExecutionRequest) : JsString :=
  ofText (host.sha256 (wellFormed request.input))

/-- A step through the bridge, or the local one; after an error the bridge is not asked again. -/
def applyLoopStep (adapter : Option Napi) (state : SoulLoopState) (action : SoulLoopAction) :
    SoulLoopStepResult × Option Napi :=
  match adapter.bind fun napi => nativeStep host napi state action defaultLoopLimits with
  | some result => (result, adapter)
  | none => (applyFallbackLoopStep state action defaultLoopLimits, none)

/-- `toolCallStep.reason ?? 'unknown'`. -/
def reasonText (step : SoulLoopStepResult) : JsString := step.reason.getD (js "unknown")

def loopStepRejected (correlation : TaskEventCorrelation) (phase : String)
    (step : SoulLoopStepResult) : TaskEvent :=
  .other "error" "task.loop_step_rejected" correlation
    [(js "phase", .str (js phase)), (js "reason", .str (reasonText step))] (by decide)

/-- The handler of an error. -/
def handleError (correlation : TaskEventCorrelation) (adapter : Option Napi)
    (loopState : SoulLoopState) (message : JsString) : Program :=
  let (errorStep, _) := applyLoopStep host adapter loopState (.error false message)
  .emit (.other "error" "task.error" correlation
    [(js "message", .str message), (js "loopState", errorStep.state.value)] (by decide))
    (.throw message)

/-- The end of an execution that has a result. -/
def complete (correlation : TaskEventCorrelation) (source : JsString) (replayDedupeEnabled : Bool)
    (adapter : Option Napi) (loopState : SoulLoopState) (result : GenerateResult) : Program :=
  let (completeStep, adapter) :=
    applyLoopStep host adapter loopState (.complete (result.output.take 120))
  if completeStep.applied then
    .emit (.other "system_event" "task.completed" correlation
      [(js "source", .str source), (js "providerUsed", .str result.providerUsed),
        (js "modelUsed", result.modelUsed.elim .null .str),
        (js "replayedToolResult", .bool replayDedupeEnabled)] (by decide))
      (.done result)
  else
    .emit (loopStepRejected correlation "complete" completeStep)
      (handleError host correlation adapter completeStep.state
        (js "task loop rejected complete: " ++ reasonText completeStep))

/-- The part of an execution that calls the provider. -/
def generate (correlation : TaskEventCorrelation) (source : JsString) (replayDedupeEnabled : Bool)
    (adapter : Option Napi) (loopState : SoulLoopState) : Program :=
  .runProviderGenerate fun
    | .ok result => .emit (.toolResult correlation result)
        (complete host correlation source replayDedupeEnabled adapter loopState result)
    | .error message => handleError host correlation adapter loopState message

def execute (adapter : Option Napi) (fresh : FreshIds) (request : TaskExecutionRequest) : Program :=
  let taskId := request.execution.taskId.getD (js "task_" ++ fresh.task)
  let runId := request.runId fresh
  let source := request.execution.source.getD (js "orchestration.generate")
  let agentId := request.execution.agentId.getD (js "orchestrator")
  let correlationBase : TaskEventCorrelation := ⟨taskId, runId, agentId, none⟩
  let toolCorrelation := { correlationBase with toolCallId := some (toolCallId runId) }
  let inputDigest := request.inputDigest host
  let replayDedupeEnabled := request.replayDedupeEnabled
  .emit (.other "system_event" "task.created" correlationBase
    [(js "source", .str source),
      (js "providerRequested", .str (request.provider.getD (js "auto"))),
      (js "strategy", .str (request.strategy.getD (js "default"))),
      (js "inputDigest", .str inputDigest),
      (js "replayDedupeEnabled", .bool replayDedupeEnabled)] (by decide)) <|
  let (toolCallStep, adapter) :=
    applyLoopStep host adapter defaultLoopState (.toolCall providerTool)
  if toolCallStep.applied then
    .emit (.other "tool_call" "task.tool_call" toolCorrelation
      [(js "tool", .str providerTool), (js "inputDigest", .str inputDigest)] (by decide)) <|
    if replayDedupeEnabled then
      .findCachedResult runId (toolCallId runId) fun
        | some result => .emit (.other "system_event" "task.tool_result.reused" toolCorrelation
            [(js "tool", .str providerTool), (js "providerUsed", .str result.providerUsed)]
            (by decide))
            (complete host correlationBase source replayDedupeEnabled adapter toolCallStep.state
              result)
        | none => generate host correlationBase source replayDedupeEnabled adapter
            toolCallStep.state
    else generate host correlationBase source replayDedupeEnabled adapter toolCallStep.state
  else
    .emit (loopStepRejected correlationBase "tool_call" toolCallStep)
      (.throw (js "task loop rejected tool_call: " ++ reasonText toolCallStep))

/-! ## Steps -/

/-- The order `b.localeCompare(a)` gives names. -/
def NameAfter (a b : Text × List UInt8) : Prop := host.localeLe (ofText b.1) (ofText a.1) = true

instance : DecidableRel (NameAfter host) := fun _ _ => inferInstanceAs (Decidable (_ = true))

def findCachedResult (entries : Chain.Dir) (runId toolCallId : JsString) : Option GenerateResult :=
  ((Chain.blockFiles entries).insertionSort (NameAfter host)).findSome? fun e =>
    cachedResult runId toolCallId e.2

/-- The block files that are not empty. -/
def writtenFiles (dir : Chain.Dir) : Chain.Dir := (Chain.blockFiles dir).filter fun e => e.2 ≠ []

/-- What becomes of an event in a directory: the block it is stored in, if any. -/
inductive Emits (fs : Chain.FileSystem) (event : TaskEvent) :
    Chain.Dir → Option Chain.ChainBlock → Chain.Dir → Prop
  /-- Events are switched off, or the append throws, as it always does on the native backend, and the
  error is caught. Empty block files and files that are no block files may come and go. -/
  | lost {dir dir' : Chain.Dir} : writtenFiles dir' = writtenFiles dir →
      (Chain.fileNames dir').Nodup → dir'.length ≤ fs.capacity → Emits fs event dir none dir'
  | stored {dir listing pruned listing' : Chain.Dir} {blocks : List Chain.ChainBlock}
      {call : Chain.AppendCall} {eventId timestamp : JsString} {date : ℤ}
      (statFails unlinkFails : Text → Bool) : call.data = event.record eventId timestamp →
      listing.Perm dir →
      pruned = (Chain.pruneTrailingEmptyBlockFiles statFails unlinkFails listing).foldl
        Chain.unlink dir →
      listing'.Perm pruned →
      Chain.readAndValidateChainBlocks host.toChainHost listing' = .ok blocks →
      (Chain.writeFile pruned
        (Chain.fileName (call.block host.toChainHost blocks (isoText date)).index)
        (call.block host.toChainHost blocks (isoText date)).payload).length ≤ fs.capacity →
      Emits fs event dir (some (call.block host.toChainHost blocks (isoText date)))
        (Chain.writeFile pruned
          (Chain.fileName (call.block host.toChainHost blocks (isoText date)).index)
          (call.block host.toChainHost blocks (isoText date)).payload)

/-- What a step of an execution does. -/
inductive Act where
  | emitted (event : TaskEvent) (stored : Option Chain.ChainBlock)
  | scanned
  | called

/-- One step of an execution. -/
inductive ExecutionStep (fs : Chain.FileSystem) :
    Chain.Dir × Program → Act → Chain.Dir × Program → Prop
  | emit {event : TaskEvent} {next : Program} {dir dir' : Chain.Dir}
      {stored : Option Chain.ChainBlock} : Emits host fs event dir stored dir' →
      ExecutionStep fs (dir, .emit event next) (.emitted event stored) (dir', next)
  | scan {runId toolCallId : JsString} {next : Option GenerateResult → Program}
      {dir listing : Chain.Dir} : listing.Perm dir →
      ExecutionStep fs (dir, .findCachedResult runId toolCallId next) .scanned
        (dir, next (findCachedResult host listing runId toolCallId))
  | call {next : Except JsString GenerateResult → Program} {dir : Chain.Dir}
      (answer : Except JsString GenerateResult) :
      ExecutionStep fs (dir, .runProviderGenerate next) .called (dir, next answer)

/-! ## Loop steps of an execution -/

variable {host} {adapter : Option Napi}

/-- Where the bridge and the local step agree, it does not matter which of them is asked. -/
theorem applyLoopStep_of_agree {state : LoopState} {action : LoopAction}
    (hstate : state.waitMs.toNat < 2 ^ 53) (haction : action.waits < 2 ^ 53)
    (hagree : StepsAgree state action {}) :
    (applyLoopStep host adapter (.ofNative state) (.ofNative action)).1 =
      .ofNative (state.apply action {}) := by
  have hlimits : defaultLoopLimits = .ofNative {} := rfl
  cases adapter with
  | none =>
    rw [applyLoopStep, Option.bind_none, hlimits]
    exact (agree_iff.mpr hagree).symm
  | some napi =>
    rw [applyLoopStep, Option.bind_some, hlimits, nativeStep_eq (representableState_of_lt hstate)
      (representableAction_of_lt haction) (representableLimits_of_lt (by decide))]

/-- The state after the tool call. -/
def calledState : LoopState := ⟨1, 1, 0, 0, false, none⟩

theorem applyLoopStep_toolCall :
    (applyLoopStep host adapter defaultLoopState (.toolCall providerTool)).1 =
      ⟨true, none, .ofNative calledState⟩ := by
  have hagree : StepsAgree .new (.toolCall "provider.generate".toList) {} :=
    ⟨rfl, rfl, by decide, .inr (by decide)⟩
  have hstate : defaultLoopState = .ofNative .new := rfl
  have haction : SoulLoopAction.toolCall providerTool =
      .ofNative (.toolCall "provider.generate".toList) := rfl
  rw [hstate, haction, applyLoopStep_of_agree (by decide) (by decide) hagree]
  rfl

/-- The bridge refuses a summary with a lone surrogate. -/
theorem nativeStep_complete_eq_none {napi : Napi} {summary : JsString}
    (h : ∀ t, summary ≠ ofText t) (state : LoopState) (limits : SoulLoopLimits)
    (hstate : state.waitMs.toNat < 2 ^ 53) :
    nativeStep host napi (.ofNative state) (.complete summary) limits = none := by
  have hdecode : Serde.decodeString summary = none := by
    cases hs : Serde.decodeString summary with
    | none => rfl
    | some t => exact absurd (Serde.decodeString_eq_some.mp hs) (h t)
  have hread : readLoopAction ((jsonImage (SoulLoopAction.complete summary).value).mapNumbers
      numberText) = none := by
    have hcomplete : readLoopAction (.obj [(js "type", .str (js "complete")),
        (js "data", .obj [(js "summary", .str summary)])]) =
          readComplete (.obj [(js "summary", .str summary)]) := readLoopAction_eq rfl _
    rw [readComplete, Serde.fields_obj 0 rfl (by decide)] at hcomplete
    refine hcomplete.trans ?_
    simp [hdecode]
  have hanswer : ∃ e, napi.soulLoopStep (jsonText [] (SoulLoopState.ofNative state).value)
      (jsonText [] (SoulLoopAction.complete summary).value) (some (jsonText [] limits.value)) =
        err e := by
    rw [Napi.soulLoopStep, argument_of_readAs (representableState_of_lt hstate), Napi.argument,
      Serde.parse_jsonText (by simp [Json.Blank]), Option.bind_some, hread]
    exact ⟨_, rfl⟩
  obtain ⟨e, he⟩ := hanswer
  rw [nativeStep, soulLoopStep, he, parseEnvelope_err]
  rfl

/-- The local step does not look at the summary. -/
theorem applyFallbackLoopStep_complete (state : SoulLoopState) (limits : SoulLoopLimits)
    (summary summary' : JsString) : applyFallbackLoopStep state (.complete summary) limits =
      applyFallbackLoopStep state (.complete summary') limits := rfl

/-- The end of an execution is never refused. -/
theorem applyLoopStep_complete (summary : JsString) :
    (applyLoopStep host adapter (.ofNative calledState) (.complete summary)).1.applied = true := by
  have hagree (t : Text) : StepsAgree calledState (.complete t) {} :=
    ⟨rfl, rfl, by decide, .inr trivial⟩
  have hwaits (t : Text) : (LoopAction.complete t).waits < 2 ^ 53 := Nat.two_pow_pos 53
  by_cases h : ∃ t, summary = ofText t
  · obtain ⟨t, rfl⟩ := h
    rw [show SoulLoopAction.complete (ofText t) = .ofNative (.complete t) from rfl,
      applyLoopStep_of_agree (by decide) (hwaits t) (hagree t)]
    rfl
  · rw [not_exists] at h
    have hnone : (adapter.bind fun napi => nativeStep host napi (.ofNative calledState)
        (.complete summary) defaultLoopLimits) = none := by
      cases adapter with
      | none => rfl
      | some napi => exact nativeStep_complete_eq_none h calledState _ (by decide)
    have hlocal : applyFallbackLoopStep (.ofNative calledState) (.complete []) defaultLoopLimits =
        .ofNative (calledState.apply (.complete []) {}) := (agree_iff.mpr (hagree [])).symm
    rw [applyLoopStep, hnone]
    simp only [applyFallbackLoopStep_complete _ _ summary [], hlocal]
    rfl

end MemphisOS.TaskExecutor
