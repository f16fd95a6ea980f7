import MemphisOS.Bridge.Envelope

/-!
# Loop steps with and without the native bridge

The loop state of the task executor, its local step, and the step through the bridge, which
sends the JSON texts of state, action and limits to the loop engine. The two agree except on
halted states, at saturated counters and where doubles add up differently.
-/

namespace MemphisOS.TaskExecutor

open Ecma Bridge MemphisCore

inductive SoulLoopAction where
  | toolCall (tool : JsString)
  | wait (durationMs : JsNumber)
  | complete (summary : JsString)
  | error (recoverable : Bool) (message : JsString)

structure SoulLoopLimits where
  maxSteps : JsNumber
  maxToolCalls : JsNumber
  maxWaitMs : JsNumber
  maxErrors : JsNumber

structure SoulLoopState where
  steps : JsNumber
  toolCalls : JsNumber
  waitMs : JsNumber
  errors : JsNumber
  completed : Bool
  haltReason : Option JsString
  deriving DecidableEq

structure SoulLoopStepResult where
  applied : Bool
  reason : Option JsString
  state : SoulLoopState
  deriving DecidableEq

/-! ## The local step -/

/-- Halt for a reason and refuse the action. -/
def SoulLoopState.halt (state : SoulLoopState) (reason : String) : SoulLoopStepResult :=
  ⟨false, some (js reason), { state with haltReason := some (js reason) }⟩

def applyFallbackLoopStep (state : SoulLoopState) (action : SoulLoopAction)
    (limits : SoulLoopLimits) : SoulLoopStepResult :=
  let next := { state with steps := state.steps.add (.ofNat 1) }
  if next.completed ∨ truthy (next.haltReason.map .str) then
    ⟨false, some (js "loop_already_halted"), next⟩
  else if limits.maxSteps.lt next.steps then next.halt "max_steps_exceeded"
  else
    match action with
    | .toolCall _ =>
      let next := { next with toolCalls := next.toolCalls.add (.ofNat 1) }
      if limits.maxToolCalls.lt next.toolCalls then next.halt "max_tool_calls_exceeded"
      else ⟨true, none, next⟩
    | .wait durationMs =>
      let next := { next with waitMs := next.waitMs.add (.max (.ofNat 0) durationMs.trunc) }
      if limits.maxWaitMs.lt next.waitMs then next.halt "max_wait_exceeded"
      else ⟨true, none, next⟩
    | .error recoverable _ =>
      let next := { next with errors := next.errors.add (.ofNat 1) }
      if limits.maxErrors.lt next.errors then next.halt "max_errors_exceeded"
      else if recoverable then ⟨true, none, next⟩
      else ⟨true, none, { next with
        completed := true
        haltReason := some (js "non_recoverable_error") }⟩
    | .complete _ => ⟨true, none, { next with completed := true }⟩

/-! ## The step through the bridge -/

def SoulLoopState.value (state : SoulLoopState) : Plain :=
  .obj [(js "steps", .num state.steps), (js "tool_calls", .num state.toolCalls),
    (js "wait_ms", .num state.waitMs), (js "errors", .num state.errors),
    (js "completed", .bool state.completed), (js "halt_reason", state.haltReason.elim .null .str)]

def SoulLoopAction.value : SoulLoopAction → Plain
  | toolCall tool => .obj [(js "type", .str (js "tool_call")),
      (js "data", .obj [(js "tool", .str tool)])]
  | wait durationMs => .obj [(js "type", .str (js "wait")),
      (js "data", .obj [(js "duration_ms", .num durationMs)])]
  | complete summary => .obj [(js "type", .str (js "complete")),
      (js "data", .obj [(js "summary", .str summary)])]
  | error recoverable message => .obj [(js "type", .str (js "error")),
      (js "data", .obj [(js "recoverable", .bool recoverable), (js "message", .str message)])]

def SoulLoopLimits.value (limits : SoulLoopLimits) : Plain :=
  .obj [(js "max_steps", .num limits.maxSteps), (js "max_tool_calls", .num limits.maxToolCalls),
    (js "max_wait_ms", .num limits.maxWaitMs), (js "max_errors", .num limits.maxErrors)]

/-- The fields of a state that are read. -/
def SoulLoopState.ofValue (value : Plain) : Option SoulLoopState :=
  match property value "steps", property value "tool_calls", property value "wait_ms",
    property value "errors", property value "completed", property value "halt_reason" with
  | some (.num steps), some (.num toolCalls), some (.num waitMs), some (.num errors),
      some (.bool completed), some .null =>
    some ⟨steps, toolCalls, waitMs, errors, completed, none⟩
  | some (.num steps), some (.num toolCalls), some (.num waitMs), some (.num errors),
      some (.bool completed), some (.str haltReason) =>
    some ⟨steps, toolCalls, waitMs, errors, completed, some haltReason⟩
  | _, _, _, _, _, _ => none

/-- The fields of a result that are read. -/
def SoulLoopStepResult.ofValue (value : Plain) : Option SoulLoopStepResult :=
  match property value "applied", property value "reason",
    (property value "state").bind SoulLoopState.ofValue with
  | some (.bool applied), none, some state => some ⟨applied, none, state⟩
  | some (.bool applied), some (.str reason), some state => some ⟨applied, some reason, state⟩
  | _, _, _ => none

variable (host : BridgeHost) (napi : Napi)

/-- `NapiChainAdapter.soulLoopStep`. -/
def soulLoopStep (state : SoulLoopState) (action : SoulLoopAction) (limits : SoulLoopLimits) :
    Except JsString Plain :=
  parseEnvelope host (napi.soulLoopStep (jsonText [] state.value) (jsonText [] action.value)
    (some (jsonText [] limits.value))) "soul_loop_step"

/-- The result of a step through the bridge, when it gives one. -/
def nativeStep (state : SoulLoopState) (action : SoulLoopAction) (limits : SoulLoopLimits) :
    Option SoulLoopStepResult :=
  (soulLoopStep host napi state action limits).toOption.bind SoulLoopStepResult.ofValue

/-! ## Representation -/

def SoulLoopState.ofNative (state : LoopState) : SoulLoopState :=
  ⟨.ofNat state.steps.toNat, .ofNat state.toolCalls.toNat, .ofNat state.waitMs.toNat,
    .ofNat state.errors.toNat, state.completed, state.haltReason.map ofText⟩

def SoulLoopAction.ofNative : LoopAction → SoulLoopAction
  | .toolCall tool => toolCall (ofText tool)
  | .wait durationMs => wait (.ofNat durationMs.toNat)
  | .complete summary => complete (ofText summary)
  | .error recoverable message => error recoverable (ofText message)

def SoulLoopLimits.ofNative (limits : LoopLimits) : SoulLoopLimits :=
  ⟨.ofNat limits.maxSteps.toNat, .ofNat limits.maxToolCalls.toNat, .ofNat limits.maxWaitMs.toNat,
    .ofNat limits.maxErrors.toNat⟩

def SoulLoopStepResult.ofNative : LoopOutcome → SoulLoopStepResult
  | (state, .ok ()) => ⟨true, none, .ofNative state⟩
  | (state, .error reason) => ⟨false, some (ofText reason), .ofNative state⟩

/-- The text of a value is read as the native value. -/
def ReadAs {α : Type} (decode : Serde.Decoder α) (value : Plain) (a : α) : Prop :=
  (Serde.parse (jsonText [] value)).bind decode = some a

/-- The bridge passes the state unchanged. -/
def RepresentableState (state : LoopState) : Prop :=
  ReadAs readLoopState (SoulLoopState.ofNative state).value state

/-- The bridge passes the action unchanged. -/
def RepresentableAction (action : LoopAction) : Prop :=
  ReadAs readLoopAction (SoulLoopAction.ofNative action).value action

/-- The bridge passes the limits unchanged. -/
def RepresentableLimits (limits : LoopLimits) : Prop :=
  ReadAs readLoopLimits (SoulLoopLimits.ofNative limits).value limits

variable {host napi} {state : LoopState} {action : LoopAction} {limits : LoopLimits}

theorem argument_of_readAs {α : Type} {decode : Serde.Decoder α} {value : Plain} {a : α}
    (h : ReadAs decode value a) (type name : String) :
    napi.argument decode type name (jsonText [] value) = .ok a := by
  rw [ReadAs] at h
  rw [Napi.argument, h]

/-! ## What is representable -/

theorem toNat_lt_precision (n : UInt32) : n.toNat < 2 ^ 53 := n.toNat_lt.trans (by norm_num)

/-- A safe integer is sent as its digits. -/
theorem sent_ofNat {n : ℕ} (h : n < 2 ^ 53) :
    (jsonImage (.num (.ofNat n))).mapNumbers numberText = .num (digits n) := by
  rw [show jsonImage (.num (.ofNat n)) = .num (.ofNat n) from Chain.jsonNumber_ofNat h]
  exact congrArg Json.num (numberText_ofNat h)

theorem sent_u32 (n : UInt32) :
    (jsonImage (.num (.ofNat n.toNat))).mapNumbers numberText = .num (digits n.toNat) :=
  sent_ofNat (toNat_lt_precision n)

theorem readAs_iff {α : Type} {decode : Serde.Decoder α} {value : Plain} {a : α} :
    ReadAs decode value a ↔ decode ((jsonImage value).mapNumbers numberText) = some a := by
  rw [ReadAs, Serde.parse_jsonText (by simp [Json.Blank]), Option.bind_some]

/-- Limits are representable when the one on waits is a safe integer. -/
theorem representableLimits_of_lt (h : limits.maxWaitMs.toNat < 2 ^ 53) :
    RepresentableLimits limits := by
  have hsent : (jsonImage (SoulLoopLimits.ofNative limits).value).mapNumbers numberText =
      .obj [(js "max_steps", .num (digits limits.maxSteps.toNat)),
        (js "max_tool_calls", .num (digits limits.maxToolCalls.toNat)),
        (js "max_wait_ms", .num (digits limits.maxWaitMs.toNat)),
        (js "max_errors", .num (digits limits.maxErrors.toNat))] := by
    simp only [SoulLoopLimits.value, SoulLoopLimits.ofNative, jsonImage_obj, Json.mapNumbers_obj,
      List.map_cons, List.map_nil, sent_u32, sent_ofNat h]
  rw [RepresentableLimits, readAs_iff, hsent, readLoopLimits, Serde.fields_obj 0 rfl (by decide)]
  simp

/-- States are representable when their wait is a safe integer. -/
theorem representableState_of_lt (h : state.waitMs.toNat < 2 ^ 53) : RepresentableState state := by
  have hsent : (jsonImage (SoulLoopState.ofNative state).value).mapNumbers numberText =
      .obj [(js "steps", .num (digits state.steps.toNat)),
        (js "tool_calls", .num (digits state.toolCalls.toNat)),
        (js "wait_ms", .num (digits state.waitMs.toNat)),
        (js "errors", .num (digits state.errors.toNat)), (js "completed", .bool state.completed),
        (js "halt_reason", state.haltReason.elim .null fun t => .str (ofText t))] := by
    cases hreason : state.haltReason <;>
      simp only [SoulLoopState.value, SoulLoopState.ofNative, jsonImage_obj, Json.mapNumbers_obj,
        List.map_cons, List.map_nil, sent_u32, sent_ofNat h, hreason] <;> rfl
  rw [RepresentableState, readAs_iff, hsent, readLoopState, Serde.fields_obj 0 rfl (by decide)]
  obtain ⟨steps, toolCalls, waitMs, errors, completed, haltReason⟩ := state
  cases haltReason <;> simp [Serde.optionField, Serde.option]

/-- An action is read by the decoder of its type. -/
theorem readLoopAction_eq {name : String} {read : Serde.Decoder LoopAction}
    (hname : Serde.variant [("tool_call", readToolCall), ("wait", readWait),
      ("complete", readComplete), ("error", readError)] (.str (js name)) = some read)
    (data : Serde.Document) :
    readLoopAction (.obj [(js "type", .str (js name)), (js "data", data)]) = read data := by
  rw [readLoopAction, Serde.fields_obj 0 rfl (by decide)]
  simp [hname]

/-- Actions are representable when their wait is a safe integer. -/
theorem representableAction_of_lt (h : action.waits < 2 ^ 53) : RepresentableAction action := by
  rw [RepresentableAction, readAs_iff]
  cases action with
  | toolCall tool =>
    have hread : readLoopAction (.obj [(js "type", .str (js "tool_call")),
        (js "data", .obj [(js "tool", .str (ofText tool))])]) =
          readToolCall (.obj [(js "tool", .str (ofText tool))]) := readLoopAction_eq rfl _
    rw [readToolCall, Serde.fields_obj 0 rfl (by decide)] at hread
    refine hread.trans ?_
    simp
  | wait durationMs =>
    have hread : readLoopAction (.obj [(js "type", .str (js "wait")),
        (js "data", .obj [(js "duration_ms", .num (digits durationMs.toNat))])]) =
          readWait (.obj [(js "duration_ms", .num (digits durationMs.toNat))]) :=
      readLoopAction_eq rfl _
    have hsent : (jsonImage (SoulLoopAction.ofNative (.wait durationMs)).value).mapNumbers
        numberText = .obj [(js "type", .str (js "wait")),
          (js "data", .obj [(js "duration_ms", .num (digits durationMs.toNat))])] := by
      simp only [SoulLoopAction.value, SoulLoopAction.ofNative, jsonImage_obj, Json.mapNumbers_obj,
        List.map_cons, List.map_nil, sent_ofNat (show durationMs.toNat < 2 ^ 53 from h)]
      rfl
    rw [readWait, Serde.fields_obj 0 rfl (by decide)] at hread
    rw [hsent, hread]
    simp
  | complete summary =>
    have hread : readLoopAction (.obj [(js "type", .str (js "complete")),
        (js "data", .obj [(js "summary", .str (ofText summary))])]) =
          readComplete (.obj [(js "summary", .str (ofText summary))]) := readLoopAction_eq rfl _
    rw [readComplete, Serde.fields_obj 0 rfl (by decide)] at hread
    refine hread.trans ?_
    simp
  | error recoverable message =>
    have hread : readLoopAction (.obj [(js "type", .str (js "error")),
        (js "data", .obj [(js "recoverable", .bool recoverable),
          (js "message", .str (ofText message))])]) =
          readError (.obj [(js "recoverable", .bool recoverable),
            (js "message", .str (ofText message))]) := readLoopAction_eq rfl _
    rw [readError, Serde.fields_obj 0 rfl (by decide)] at hread
    refine hread.trans ?_
    simp

theorem ofValue_state (state : LoopState) :
    SoulLoopState.ofValue (own (state.toValue.mapNumbers .ofNat)) = some (.ofNative state) := by
  rw [LoopState.toValue, Json.mapNumbers_obj, own_obj_of_inOwnOrder]
  · obtain ⟨steps, toolCalls, waitMs, errors, completed, haltReason⟩ := state
    cases haltReason <;> rfl
  · exact show InOwnOrder [js "completed", js "errors", js "halt_reason", js "steps",
      js "tool_calls", js "wait_ms"] from ⟨by decide, by decide⟩

theorem SoulLoopStepResult.ofValue_eq {value stateValue : Plain} {result : SoulLoopStepResult}
    (happlied : property value "applied" = some (.bool result.applied))
    (hreason : property value "reason" = result.reason.map .str)
    (hfield : property value "state" = some stateValue)
    (hstate : SoulLoopState.ofValue stateValue = some result.state) :
    SoulLoopStepResult.ofValue value = some result := by
  obtain ⟨applied, reason, state⟩ := result
  rw [SoulLoopStepResult.ofValue, happlied, hreason, hfield, Option.bind_some, hstate]
  cases reason <;> rfl

theorem ofValue_outcome (outcome : LoopOutcome) :
    SoulLoopStepResult.ofValue (own ((outcomeValue outcome).mapNumbers .ofNat)) =
      some (.ofNative outcome) := by
  obtain ⟨state, result⟩ := outcome
  cases result with
  | ok u =>
    have hfields : own ((outcomeValue (state, .ok u)).mapNumbers .ofNat) =
        .obj [(js "applied", .bool true), (js "state", own (state.toValue.mapNumbers .ofNat))] := by
      rw [outcomeValue, Json.mapNumbers_obj, own_obj_of_inOwnOrder]
      · rfl
      · exact show InOwnOrder [js "applied", js "state"] from ⟨by decide, by decide⟩
    rw [hfields]
    exact SoulLoopStepResult.ofValue_eq rfl rfl rfl (ofValue_state state)
  | error reason =>
    have hfields : own ((outcomeValue (state, .error reason)).mapNumbers .ofNat) =
        .obj [(js "applied", .bool false), (js "reason", .str (ofText reason)),
          (js "state", own (state.toValue.mapNumbers .ofNat))] := by
      rw [outcomeValue, Json.mapNumbers_obj, own_obj_of_inOwnOrder]
      · rfl
      · exact show InOwnOrder [js "applied", js "reason", js "state"] from
          ⟨by decide, by decide⟩
    rw [hfields]
    exact SoulLoopStepResult.ofValue_eq rfl rfl rfl (ofValue_state state)

/-- **The bridge.** On representable arguments the step through the bridge is that of the loop
engine. -/
theorem nativeStep_eq (hstate : RepresentableState state) (haction : RepresentableAction action)
    (hlimits : RepresentableLimits limits) :
    nativeStep host napi (.ofNative state) (.ofNative action) (.ofNative limits) =
      some (.ofNative (state.apply action limits)) := by
  have hanswer : napi.soulLoopStep (jsonText [] (SoulLoopState.ofNative state).value)
      (jsonText [] (SoulLoopAction.ofNative action).value)
      (some (jsonText [] (SoulLoopLimits.ofNative limits).value)) =
        ok (outcomeValue (state.apply action limits)) := by
    simp only [Napi.soulLoopStep, argument_of_readAs hstate, argument_of_readAs haction,
      argument_of_readAs hlimits]
  rw [nativeStep, soulLoopStep, hanswer, parseEnvelope_ok]
  exact ofValue_outcome _

/-! ## Agreement -/

/-- The wait, added as 64-bit integers and as doubles, is the same number on the same side of
the limit. -/
def WaitsAgree (state : LoopState) (durationMs : UInt64) (limits : LoopLimits) : Prop :=
  let sum := (saturatingAdd64 state.waitMs durationMs).toNat
  JsNumber.ofNat sum = (JsNumber.ofNat state.waitMs.toNat).add (.ofNat durationMs.toNat) ∧
    ((JsNumber.ofNat limits.maxWaitMs.toNat).lt (.ofNat sum) = true ↔ limits.maxWaitMs.toNat < sum)

/-- The state has not halted, and the counters of the action have room. -/
def StepsAgree (state : LoopState) (action : LoopAction) (limits : LoopLimits) : Prop :=
  state.completed = false ∧ state.haltReason = none ∧ state.steps.toNat < 2 ^ 32 - 1 ∧
    (limits.maxSteps.toNat ≤ state.steps.toNat ∨
      match action with
      | .toolCall _ => state.toolCalls.toNat < 2 ^ 32 - 1
      | .wait durationMs => WaitsAgree state durationMs limits
      | .error _ _ => state.errors.toNat < 2 ^ 32 - 1
      | .complete _ => True)

theorem lt_ofNat {m n : ℕ} (hm : m < 2 ^ 53) (hn : n < 2 ^ 53) :
    (JsNumber.ofNat m).lt (.ofNat n) = true ↔ m < n := by
  rw [JsNumber.ofNat_eq hm, JsNumber.ofNat_eq hn]
  simp [JsNumber.lt]

/-- A counter and the number that counts along agree until the counter saturates. -/
theorem ofNat_saturatingAdd32_one {a : UInt32} :
    JsNumber.ofNat (saturatingAdd32 a 1).toNat = (JsNumber.ofNat a.toNat).add (.ofNat 1) ↔
      a.toNat < 2 ^ 32 - 1 := by
  have hone : (1 : UInt32).toNat = 1 := rfl
  have ha : a.toNat < 2 ^ 32 := a.toNat_lt
  rw [JsNumber.add_one (by omega), JsNumber.ofNat_inj _ (by omega), saturatingAdd32]
  · split
    · next hroom =>
      rw [UInt32.toNat_add]
      omega
    · next hfull =>
      rw [UInt32.toNat_ofNat']
      omega
  · exact (UInt32.toNat_lt _).trans (by norm_num)

/-- They exceed a limit together. -/
theorem lt_saturatingAdd32_one {a : UInt32} (h : a.toNat < 2 ^ 32 - 1) (limit : UInt32) :
    (JsNumber.ofNat limit.toNat).lt ((JsNumber.ofNat a.toNat).add (.ofNat 1)) = true ↔
      saturatingAdd32 a 1 > limit := by
  rw [← ofNat_saturatingAdd32_one.mpr h, lt_ofNat, gt_iff_lt, UInt32.lt_iff_toNat_lt]
  · exact (UInt32.toNat_lt _).trans (by norm_num)
  · exact (UInt32.toNat_lt _).trans (by norm_num)

/-- The local step always counts. -/
theorem steps_applyFallbackLoopStep (state : SoulLoopState) (action : SoulLoopAction)
    (limits : SoulLoopLimits) :
    (applyFallbackLoopStep state action limits).state.steps = state.steps.add (.ofNat 1) := by
  simp only [applyFallbackLoopStep]
  split
  · rfl
  · split
    · rfl
    · cases action with
      | toolCall tool => simp only; split <;> rfl
      | wait durationMs => simp only; split <;> rfl
      | complete summary => rfl
      | error recoverable message =>
        simp only
        split
        · rfl
        · split <;> rfl

theorem steps_apply (h : state.shouldHalt = false) :
    (state.apply action limits).1.steps = saturatingAdd32 state.steps 1 := by
  rw [LoopState.apply, if_neg (by simp [h])]
  simp only
  split
  · rfl
  · cases action with
    | toolCall tool => simp only; split <;> rfl
    | wait durationMs => simp only; split <;> rfl
    | complete summary => rfl
    | error recoverable message =>
      simp only
      split
      · rfl
      · split <;> rfl

theorem steps_ofNative (outcome : LoopOutcome) :
    (SoulLoopStepResult.ofNative outcome).state.steps = .ofNat outcome.1.steps.toNat := by
  obtain ⟨state, result⟩ := outcome
  cases result <;> rfl

/-- A halted state is not counted by the loop engine. -/
theorem not_agree_of_shouldHalt (h : state.shouldHalt = true) :
    SoulLoopStepResult.ofNative (state.apply action limits) ≠
      applyFallbackLoopStep (.ofNative state) (.ofNative action) (.ofNative limits) := by
  intro heq
  have hlt : state.steps.toNat < 2 ^ 32 := state.steps.toNat_lt
  have hsteps := congrArg (fun result => result.state.steps) heq
  simp only [steps_ofNative, steps_applyFallbackLoopStep, apply_of_shouldHalt h] at hsteps
  rw [SoulLoopState.ofNative, JsNumber.add_one (by omega),
    JsNumber.ofNat_inj (by omega) (by omega)] at hsteps
  omega

/-- A saturated step counter is not counted by the loop engine. -/
theorem room_of_agree (h : state.shouldHalt = false)
    (heq : SoulLoopStepResult.ofNative (state.apply action limits) =
      applyFallbackLoopStep (.ofNative state) (.ofNative action) (.ofNative limits)) :
    state.steps.toNat < 2 ^ 32 - 1 := by
  have hsteps := congrArg (fun result => result.state.steps) heq
  simp only [steps_ofNative, steps_applyFallbackLoopStep, steps_apply h] at hsteps
  exact ofNat_saturatingAdd32_one.mp hsteps

theorem ofNative_halt (state : LoopState) (reason : String) :
    SoulLoopStepResult.ofNative (state.halt reason) = (SoulLoopState.ofNative state).halt reason := by
  simp only [LoopState.halt, SoulLoopState.halt, SoulLoopStepResult.ofNative,
    SoulLoopState.ofNative, Option.map_some, js]

/-- A state that has not halted and has room for a step. -/
structure Running (state : LoopState) : Prop where
  completed : state.completed = false
  haltReason : state.haltReason = none
  steps : state.steps.toNat < 2 ^ 32 - 1

theorem Running.shouldHalt (h : Running state) : state.shouldHalt = false := by
  simp [LoopState.shouldHalt, h.completed, h.haltReason]

/-- Both sides halt at the limit of steps. -/
theorem agree_of_maxSteps (h : Running state)
    (hmax : saturatingAdd32 state.steps 1 > limits.maxSteps) :
    SoulLoopStepResult.ofNative (state.apply action limits) =
      applyFallbackLoopStep (.ofNative state) (.ofNative action) (.ofNative limits) := by
  have hsteps := ofNat_saturatingAdd32_one.mpr h.steps
  have hover := (lt_saturatingAdd32_one h.steps _).mpr hmax
  simp only [LoopState.apply, h.shouldHalt, Bool.false_eq_true, if_false, if_pos hmax]
  simp only [applyFallbackLoopStep, SoulLoopState.ofNative, SoulLoopLimits.ofNative, h.completed,
    h.haltReason, Option.map_none, truthy, Bool.false_eq_true, or_self, if_false, if_pos hover,
    ofNative_halt, hsteps]

/-- A tool call and its counter. -/
theorem agree_toolCall_iff (h : Running state)
    (hmax : ¬saturatingAdd32 state.steps 1 > limits.maxSteps) (tool : Text) :
    SoulLoopStepResult.ofNative (state.apply (.toolCall tool) limits) =
      applyFallbackLoopStep (.ofNative state) (.ofNative (.toolCall tool)) (.ofNative limits) ↔
        state.toolCalls.toNat < 2 ^ 32 - 1 := by
  have hsteps := ofNat_saturatingAdd32_one.mpr h.steps
  have hover := mt (lt_saturatingAdd32_one h.steps _).mp hmax
  simp only [LoopState.apply, h.shouldHalt, Bool.false_eq_true, if_false, if_neg hmax]
  simp only [applyFallbackLoopStep, SoulLoopAction.ofNative, SoulLoopState.ofNative,
    SoulLoopLimits.ofNative, h.completed, h.haltReason, Option.map_none, truthy, Bool.false_eq_true,
    or_self, if_false, if_neg hover]
  constructor
  · intro heq
    have hfield := congrArg (fun result => result.state.toolCalls) heq
    refine ofNat_saturatingAdd32_one.mp ?_
    split at hfield <;> split at hfield <;> exact hfield
  · intro hroom
    have hcount := ofNat_saturatingAdd32_one.mpr hroom
    have hlimit := lt_saturatingAdd32_one hroom limits.maxToolCalls
    by_cases hexceeds : saturatingAdd32 state.toolCalls 1 > limits.maxToolCalls
    · simp only [if_pos hexceeds, if_pos (hlimit.mpr hexceeds), ofNative_halt,
        SoulLoopState.ofNative, hsteps, hcount, Option.map_none]
    · simp only [if_neg hexceeds, if_neg (mt hlimit.mp hexceeds), SoulLoopStepResult.ofNative,
        SoulLoopState.ofNative, hsteps, hcount, Option.map_none]

/-- An error and its counter. -/
theorem agree_error_iff (h : Running state)
    (hmax : ¬saturatingAdd32 state.steps 1 > limits.maxSteps) (recoverable : Bool)
    (message : Text) :
    SoulLoopStepResult.ofNative (state.apply (.error recoverable message) limits) =
      applyFallbackLoopStep (.ofNative state) (.ofNative (.error recoverable message))
        (.ofNative limits) ↔ state.errors.toNat < 2 ^ 32 - 1 := by
  have hsteps := ofNat_saturatingAdd32_one.mpr h.steps
  have hover := mt (lt_saturatingAdd32_one h.steps _).mp hmax
  simp only [LoopState.apply, h.shouldHalt, Bool.false_eq_true, if_false, if_neg hmax]
  simp only [applyFallbackLoopStep, SoulLoopAction.ofNative, SoulLoopState.ofNative,
    SoulLoopLimits.ofNative, h.completed, h.haltReason, Option.map_none, truthy, Bool.false_eq_true,
    or_self, if_false, if_neg hover]
  constructor
  · intro heq
    have hfield := congrArg (fun result => result.state.errors) heq
    refine ofNat_saturatingAdd32_one.mp ?_
    cases recoverable <;> simp only [if_true, Bool.false_eq_true, if_false] at hfield <;>
      split at hfield <;> split at hfield <;> exact hfield
  · intro hroom
    have hcount := ofNat_saturatingAdd32_one.mpr hroom
    have hlimit := lt_saturatingAdd32_one hroom limits.maxErrors
    by_cases hexceeds : saturatingAdd32 state.errors 1 > limits.maxErrors
    · simp only [if_pos hexceeds, if_pos (hlimit.mpr hexceeds), ofNative_halt,
        SoulLoopState.ofNative, hsteps, hcount, Option.map_none]
    · simp only [if_neg hexceeds, if_neg (mt hlimit.mp hexceeds)]
      cases recoverable with
      | true => simp only [if_true, SoulLoopStepResult.ofNative, SoulLoopState.ofNative, hsteps,
          hcount, Option.map_none]
      | false => simp only [Bool.false_eq_true, if_false, SoulLoopStepResult.ofNative,
          SoulLoopState.ofNative, hsteps, hcount, Option.map_some, js]

/-- A wait and its sum. -/
theorem agree_wait_iff (h : Running state)
    (hmax : ¬saturatingAdd32 state.steps 1 > limits.maxSteps) (durationMs : UInt64) :
    SoulLoopStepResult.ofNative (state.apply (.wait durationMs) limits) =
      applyFallbackLoopStep (.ofNative state) (.ofNative (.wait durationMs)) (.ofNative limits) ↔
        WaitsAgree state durationMs limits := by
  have hsteps := ofNat_saturatingAdd32_one.mpr h.steps
  have hover := mt (lt_saturatingAdd32_one h.steps _).mp hmax
  have hlimit : saturatingAdd64 state.waitMs durationMs > limits.maxWaitMs ↔
      limits.maxWaitMs.toNat < (saturatingAdd64 state.waitMs durationMs).toNat := by
    rw [gt_iff_lt, UInt64.lt_iff_toNat_lt]
  simp only [LoopState.apply, h.shouldHalt, Bool.false_eq_true, if_false, if_neg hmax]
  simp only [applyFallbackLoopStep, SoulLoopAction.ofNative, SoulLoopState.ofNative,
    SoulLoopLimits.ofNative, h.completed, h.haltReason, Option.map_none, truthy, Bool.false_eq_true,
    or_self, if_false, if_neg hover, JsNumber.trunc_ofNat, JsNumber.max_zero_ofNat, WaitsAgree,
    ← hlimit]
  constructor
  · intro heq
    have hfield := congrArg (fun result => result.state.waitMs) heq
    have happlied := congrArg (fun result => result.applied) heq
    have hsum : JsNumber.ofNat (saturatingAdd64 state.waitMs durationMs).toNat =
        (JsNumber.ofNat state.waitMs.toNat).add (.ofNat durationMs.toNat) := by
      split at hfield <;> split at hfield <;> exact hfield
    rw [← hsum] at happlied
    refine ⟨hsum, ?_⟩
    split at happlied <;> split at happlied
    · next hnative hlocal => exact iff_of_true hlocal hnative
    · cases happlied
    · cases happlied
    · next hnative hlocal => exact iff_of_false hlocal hnative
  · rintro ⟨hsum, hsame⟩
    rw [hsum] at hsame
    by_cases hexceeds : saturatingAdd64 state.waitMs durationMs > limits.maxWaitMs
    · simp only [if_pos hexceeds, if_pos (hsame.mpr hexceeds), ofNative_halt,
        SoulLoopState.ofNative, hsteps, hsum, Option.map_none]
    · simp only [if_neg hexceeds, if_neg (mt hsame.mp hexceeds), SoulLoopStepResult.ofNative,
        SoulLoopState.ofNative, hsteps, hsum, Option.map_none]

theorem agree_complete (h : Running state)
    (hmax : ¬saturatingAdd32 state.steps 1 > limits.maxSteps) (summary : Text) :
    SoulLoopStepResult.ofNative (state.apply (.complete summary) limits) =
      applyFallbackLoopStep (.ofNative state) (.ofNative (.complete summary))
        (.ofNative limits) := by
  have hsteps := ofNat_saturatingAdd32_one.mpr h.steps
  have hover := mt (lt_saturatingAdd32_one h.steps _).mp hmax
  simp only [LoopState.apply, h.shouldHalt, Bool.false_eq_true, if_false, if_neg hmax]
  simp only [applyFallbackLoopStep, SoulLoopAction.ofNative, SoulLoopState.ofNative,
    SoulLoopLimits.ofNative, h.completed, h.haltReason, Option.map_none, truthy, Bool.false_eq_true,
    or_self, if_false, if_neg hover, SoulLoopStepResult.ofNative, hsteps]

theorem saturatingAdd32_gt_iff {a limit : UInt32} (h : a.toNat < 2 ^ 32 - 1) :
    saturatingAdd32 a 1 > limit ↔ limit.toNat ≤ a.toNat := by
  have hone : (1 : UInt32).toNat = 1 := rfl
  rw [saturatingAdd32, if_pos (by omega), gt_iff_lt, UInt32.lt_iff_toNat_lt, UInt32.toNat_add]
  omega

/-- **One step.** The two steps agree exactly when the state has not halted and the counters of
the action have room. -/
theorem agree_iff : SoulLoopStepResult.ofNative (state.apply action limits) =
    applyFallbackLoopStep (.ofNative state) (.ofNative action) (.ofNative limits) ↔
      StepsAgree state action limits := by
  by_cases hrunning : Running state
  · obtain ⟨hcompleted, hreason, hroom⟩ := hrunning
    simp only [StepsAgree, hcompleted, hreason, hroom, true_and, ← saturatingAdd32_gt_iff hroom]
    by_cases hmax : saturatingAdd32 state.steps 1 > limits.maxSteps
    · exact iff_of_true (agree_of_maxSteps ⟨hcompleted, hreason, hroom⟩ hmax) (.inl hmax)
    · rw [or_iff_right hmax]
      cases action with
      | toolCall tool => exact agree_toolCall_iff ⟨hcompleted, hreason, hroom⟩ hmax tool
      | wait durationMs => exact agree_wait_iff ⟨hcompleted, hreason, hroom⟩ hmax durationMs
      | complete summary =>
        exact iff_of_true (agree_complete ⟨hcompleted, hreason, hroom⟩ hmax summary) trivial
      | error recoverable message =>
        exact agree_error_iff ⟨hcompleted, hreason, hroom⟩ hmax recoverable message
  · refine iff_of_false (fun heq => hrunning ?_) fun h => hrunning ⟨h.1, h.2.1, h.2.2.1⟩
    cases hhalt : state.shouldHalt with
    | true => exact absurd heq (not_agree_of_shouldHalt hhalt)
    | false =>
      obtain ⟨hcompleted, hreason⟩ : state.completed = false ∧ state.haltReason = none := by
        simpa [LoopState.shouldHalt] using hhalt
      exact ⟨hcompleted, hreason, room_of_agree hhalt heq⟩

/-- Waits that are exact on both sides agree. -/
theorem waitsAgree_of_lt {durationMs : UInt64}
    (hsum : state.waitMs.toNat + durationMs.toNat < 2 ^ 53) (hlimit : limits.maxWaitMs.toNat < 2 ^ 53) :
    WaitsAgree state durationMs limits := by
  have hadd : (saturatingAdd64 state.waitMs durationMs).toNat =
      state.waitMs.toNat + durationMs.toNat := by
    rw [saturatingAdd64, if_pos (by omega), UInt64.toNat_add]
    omega
  refine ⟨?_, ?_⟩
  · rw [hadd, JsNumber.ofNat_eq (by omega : state.waitMs.toNat < 2 ^ 53),
      JsNumber.ofNat_eq (by omega : durationMs.toNat < 2 ^ 53), JsNumber.add, JsNumber.ofNat,
      Nat.cast_add]
  · rw [hadd]
    exact lt_ofNat hlimit hsum

/-! ## Runs -/

/-- The results of the local step on actions one after another. -/
def fallbackRun (limits : SoulLoopLimits) :
    SoulLoopState → List SoulLoopAction → List SoulLoopStepResult
  | _, [] => []
  | state, action :: actions =>
    let result := applyFallbackLoopStep state action limits
    result :: fallbackRun limits result.state actions

/-- The results of the step through the bridge on actions one after another. -/
def nativeRun (host : BridgeHost) (napi : Napi) (limits : SoulLoopLimits) :
    SoulLoopState → List SoulLoopAction → Option (List SoulLoopStepResult)
  | _, [] => some []
  | state, action :: actions => do
    let result ← nativeStep host napi state action limits
    let results ← nativeRun host napi limits result.state actions
    return result :: results

/-- Every step of a run passes the bridge unchanged and agrees. -/
def RunAgrees (limits : LoopLimits) : LoopState → List LoopAction → Prop
  | _, [] => True
  | state, action :: actions =>
    RepresentableState state ∧ RepresentableAction action ∧ StepsAgree state action limits ∧
      RunAgrees limits (state.apply action limits).1 actions

theorem state_ofNative (outcome : LoopOutcome) :
    (SoulLoopStepResult.ofNative outcome).state = .ofNative outcome.1 := by
  obtain ⟨state, result⟩ := outcome
  cases result <;> rfl

/-- Runs whose steps all agree give the same results. -/
theorem nativeRun_eq (hlimits : RepresentableLimits limits) (actions : List LoopAction)
    (h : RunAgrees limits state actions) :
    nativeRun host napi (.ofNative limits) (.ofNative state) (actions.map .ofNative) =
      some (fallbackRun (.ofNative limits) (.ofNative state) (actions.map .ofNative)) := by
  induction actions generalizing state with
  | nil => rfl
  | cons action actions ih =>
    obtain ⟨hstate, haction, hagree, hrest⟩ := h
    have hstep : nativeStep host napi (.ofNative state) (.ofNative action) (.ofNative limits) = _ :=
      nativeStep_eq hstate haction hlimits
    have hresult := agree_iff.mpr hagree
    rw [List.map_cons, nativeRun, hstep, Option.bind_eq_bind, Option.bind_some, state_ofNative,
      ih hrest, fallbackRun, ← hresult, state_ofNative]
    rfl

/-- **Agreement.** A step through the bridge gives what the local step gives exactly when the state
has not halted and the counters have room; runs of such steps give the same results. -/
theorem loop_steps_agree (host : BridgeHost) (napi : Napi) (hlimits : RepresentableLimits limits) :
    (∀ state action, RepresentableState state → RepresentableAction action →
      (nativeStep host napi (.ofNative state) (.ofNative action) (.ofNative limits) =
        some (applyFallbackLoopStep (.ofNative state) (.ofNative action) (.ofNative limits)) ↔
          StepsAgree state action limits)) ∧
    ∀ state actions, RunAgrees limits state actions →
      nativeRun host napi (.ofNative limits) (.ofNative state) (actions.map .ofNative) =
        some (fallbackRun (.ofNative limits) (.ofNative state) (actions.map .ofNative)) := by
  refine ⟨fun state action hstate haction => ?_, fun state actions => nativeRun_eq hlimits actions⟩
  rw [nativeStep_eq hstate haction hlimits, Option.some_inj]
  exact agree_iff

/-- A tool call in a new state. -/
theorem loop_steps_agree_sample :
    nativeStep sampleHost sampleNapi (.ofNative .new) (.ofNative (.toolCall "web_search".toList))
      (.ofNative {}) = some (applyFallbackLoopStep (.ofNative .new)
        (.ofNative (.toolCall "web_search".toList)) (.ofNative {})) := by
  have hlimits : RepresentableLimits {} := representableLimits_of_lt (by decide)
  refine ((loop_steps_agree sampleHost sampleNapi hlimits).1 _ _ (representableState_of_lt (by decide))
    (representableAction_of_lt (by decide))).mpr ?_
  exact ⟨rfl, rfl, by decide, .inr (by decide)⟩

/-- A state after `Complete`. -/
def completedState : LoopState := ⟨3, 1, 0, 0, true, none⟩

/-- After `Complete` the local step counts on and the loop engine does not. -/
theorem completed_steps_differ :
    ¬∀ state action limits, RepresentableState state → RepresentableAction action →
      RepresentableLimits limits →
        nativeStep sampleHost sampleNapi (.ofNative state) (.ofNative action) (.ofNative limits) =
          some (applyFallbackLoopStep (.ofNative state) (.ofNative action) (.ofNative limits)) := by
  intro hagree
  have hstate : RepresentableState completedState := representableState_of_lt (by decide)
  have haction : RepresentableAction (.complete []) := representableAction_of_lt (by decide)
  have hlimits : RepresentableLimits {} := representableLimits_of_lt (by decide)
  have heq := hagree _ _ _ hstate haction hlimits
  rw [nativeStep_eq hstate haction hlimits, Option.some_inj] at heq
  exact not_agree_of_shouldHalt rfl heq

end MemphisOS.TaskExecutor
