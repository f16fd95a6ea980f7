import MemphisOS.Bridge.Envelope
import MemphisOS.Chain.Append

/-!
# Events of the task executor

The events an execution appends to its chain, the results of providers among them, and what is
read back of a result from the file of a block.
-/

namespace MemphisOS.TaskExecutor

open Ecma Bridge

/-- The result of a provider. -/
structure GenerateResult where
  id : JsString
  providerUsed : JsString
  modelUsed : Option JsString
  output : JsString
  usage : Option (List (JsString × Plain))
  timingMs : JsNumber
  trace : Option (List (JsString × Plain))

/-- The names `asProviderName` knows. -/
def providerNames : List JsString :=
  [js "shared-llm", js "decentralized-llm", js "local-fallback", js "ollama"]

def GenerateResult.value (result : GenerateResult) : Plain :=
  .obj ([(js "id", .str result.id), (js "providerUsed", .str result.providerUsed)] ++
    optionalMember "modelUsed" (result.modelUsed.map .str) ++
    [(js "output", .str result.output)] ++ optionalMember "usage" (result.usage.map .obj) ++
    [(js "timingMs", .num result.timingMs)] ++ optionalMember "trace" (result.trace.map .obj))

/-- A property that is an object. -/
def objectProperty (value : Plain) (name : String) : Option (List (JsString × Plain)) :=
  match property value name with
  | some (.obj ms) => some ms
  | _ => none

def asGenerateResult (value : Plain) : Option GenerateResult :=
  match stringProperty value "providerUsed", stringProperty value "id",
    stringProperty value "output", property value "timingMs" with
  | some providerUsed, some id, some output, some (.num timingMs) =>
    if providerUsed ∈ providerNames ∧ id ≠ [] ∧ timingMs.isFinite ∧ ¬timingMs.lt (.ofNat 0) then
      some
        { id
          providerUsed
          modelUsed := stringProperty value "modelUsed"
          output
          usage := objectProperty value "usage"
          timingMs := timingMs.trunc
          trace := objectProperty value "trace" }
    else none
  | _, _, _, _ => none

/-! ## Events -/

structure TaskEventCorrelation where
  taskId : JsString
  runId : JsString
  agentId : JsString
  toolCallId : Option JsString

/-- `PROVIDER_TOOL`. -/
def providerTool : JsString := js "provider.generate"

/-- The identifier of the tool call of a run. -/
def toolCallId (runId : JsString) : JsString := js "tool:" ++ providerTool ++ js ":" ++ runId

/-- An event; the result of a provider is the payload of no other event than `task.tool_result`,
which names the tool call of its run. -/
inductive TaskEvent where
  | toolResult (correlation : TaskEventCorrelation) (result : GenerateResult)
  | other (blockType event : String) (correlation : TaskEventCorrelation)
      (payload : List (JsString × Plain)) (h : js event ≠ js "task.tool_result")

def TaskEvent.blockType : TaskEvent → String
  | toolResult _ _ => "tool_result"
  | other blockType _ _ _ _ => blockType

def TaskEvent.event : TaskEvent → String
  | toolResult _ _ => "task.tool_result"
  | other _ event _ _ _ => event

def TaskEvent.correlation : TaskEvent → TaskEventCorrelation
  | toolResult correlation _ =>
    { correlation with toolCallId := some (toolCallId correlation.runId) }
  | other _ _ correlation _ _ => correlation

def TaskEvent.payload : TaskEvent → Plain
  | toolResult _ result => .obj [(js "tool", .str providerTool), (js "result", result.value)]
  | other _ _ _ payload _ => .obj payload

def TaskEventCorrelation.value (correlation : TaskEventCorrelation) : Plain :=
  .obj [(js "taskId", .str correlation.taskId), (js "runId", .str correlation.runId),
    (js "agentId", .str correlation.agentId),
    (js "toolCallId", correlation.toolCallId.elim .null .str)]

/-- The envelope of an event. -/
def TaskEvent.envelope (event : TaskEvent) (eventId timestamp : JsString) : Plain :=
  .obj [(js "schemaVersion", .num (.ofNat 1)), (js "eventId", .str eventId),
    (js "timestamp", .str timestamp), (js "event", .str (js event.event)),
    (js "correlation", event.correlation.value), (js "payload", event.payload)]

def TaskEvent.tags (event : TaskEvent) : List JsString :=
  [js "event:" ++ js event.event, js "task:" ++ event.correlation.taskId,
    js "run:" ++ event.correlation.runId] ++
    match event.correlation.toolCallId with
    | none | some [] => []
    | some toolCallId => [js "tool_call:" ++ toolCallId]

/-- The data of the block of an event. -/
def TaskEvent.record (event : TaskEvent) (eventId timestamp : JsString) :
    List (JsString × Plain) :=
  [(js "type", .str (js event.blockType)),
    (js "content", .str (ofText (jsonText [] (event.envelope eventId timestamp)))),
    (js "tags", .arr (event.tags.map .str))]

/-! ## Cached results -/

/-- The envelope in the file of a block. -/
def readEnvelope (bytes : List UInt8) : Option Plain := do
  let block ← parseJson (decodeUtf8 bytes)
  let data ← property block "data"
  parseString (← stringProperty data "content")

/-- One round of the loop of `findCachedResult`. -/
def cachedResult (runId toolCallId : JsString) (bytes : List UInt8) : Option GenerateResult :=
  match readEnvelope bytes with
  | some envelope =>
    let correlation := property envelope "correlation"
    if stringProperty envelope "event" = some (js "task.tool_result") ∧
        correlation.bind (stringProperty · "runId") = some runId ∧
        correlation.bind (stringProperty · "toolCallId") = some toolCallId then
      ((property envelope "payload").bind (property · "result")).bind asGenerateResult
    else none
  | none => none

/-! ## Results read back -/

/-- A result that is reused: the provider is known, the identifier is not empty and the timing is
a finite number that is not negative. -/
structure GenerateResult.WellFormed (result : GenerateResult) : Prop where
  id : result.id ≠ []
  providerUsed : result.providerUsed ∈ providerNames
  finite : result.timingMs.isFinite = true
  nonneg : result.timingMs.lt (.ofNat 0) = false

/-- The properties of an object as they are read back. -/
def storedMembers (ms : List (JsString × Plain)) : List (JsString × Plain) :=
  orderMembers (defineMembers (ms.map fun m => (m.1, own (jsonImage m.2))))

/-- A result as it is read back, with an integral timing. -/
def GenerateResult.reused (result : GenerateResult) : GenerateResult :=
  { result with
    usage := result.usage.map storedMembers
    timingMs := result.timingMs.dropZeroSign.trunc
    trace := result.trace.map storedMembers }

theorem own_jsonImage_obj (ms : List (JsString × Plain)) :
    own (jsonImage (.obj ms)) = .obj (storedMembers ms) := by
  rw [jsonImage_obj, own_obj, List.map_map]
  rfl

theorem own_jsonImage_optional (value : Option (List (JsString × Plain))) :
    (value.map Json.obj).map (fun v => own (jsonImage v)) =
      (value.map storedMembers).map Json.obj := by
  rw [Option.map_map, Option.map_map]
  exact congrArg (value.map ·) (funext own_jsonImage_obj)

variable {result : GenerateResult}

theorem inOwnOrder_value (result : GenerateResult) : ∀ ms, result.value = .obj ms →
    InOwnOrder (ms.map Prod.fst) := by
  rintro _ ⟨⟩
  have hkeys : InOwnOrder [js "id", js "providerUsed", js "modelUsed", js "output", js "usage",
      js "timingMs", js "trace"] := ⟨by decide, by decide⟩
  have hsublist := ((((((List.Sublist.refl [js "id", js "providerUsed"]).append
    (keys_optionalMember "modelUsed" (result.modelUsed.map .str))).append
    (.refl [js "output"])).append
    (keys_optionalMember "usage" (result.usage.map .obj))).append
    (.refl [js "timingMs"])).append
    (keys_optionalMember "trace" (result.trace.map .obj)))
  simp only [List.map_append, List.map_cons, List.map_nil]
  exact ⟨hkeys.1.sublist hsublist, hkeys.2.sublist hsublist⟩

/-- What is read of the text of a result. -/
theorem own_resultValue (result : GenerateResult) : own (jsonImage result.value) =
    .obj ([(js "id", .str result.id), (js "providerUsed", .str result.providerUsed)] ++
      optionalMember "modelUsed" (result.modelUsed.map .str) ++
      [(js "output", .str result.output)] ++
      optionalMember "usage" ((result.usage.map storedMembers).map .obj) ++
      [(js "timingMs", own (jsonNumber result.timingMs))] ++
      optionalMember "trace" ((result.trace.map storedMembers).map .obj)) := by
  rw [GenerateResult.value, jsonImage_obj, own_obj_of_inOwnOrder]
  · obtain ⟨id, providerUsed, modelUsed, output, usage, timingMs, trace⟩ := result
    cases modelUsed <;> cases usage <;> cases trace <;>
      simp only [optionalMember, Option.map_none, Option.map_some, Option.toList_none,
        Option.toList_some, List.map_nil, List.map_cons, List.append_nil, List.nil_append,
        List.cons_append, own_jsonImage_obj] <;> rfl
  · rw [List.map_map]
    exact inOwnOrder_value result _ rfl

/-- The properties of a result that are read. -/
theorem properties_value (result : GenerateResult) : let value := own (jsonImage result.value)
    stringProperty value "providerUsed" = some result.providerUsed ∧
      stringProperty value "id" = some result.id ∧
      stringProperty value "output" = some result.output ∧
      property value "timingMs" = some (own (jsonNumber result.timingMs)) ∧
      stringProperty value "modelUsed" = result.modelUsed ∧
      objectProperty value "usage" = result.usage.map storedMembers ∧
      objectProperty value "trace" = result.trace.map storedMembers := by
  rw [own_resultValue]
  obtain ⟨id, providerUsed, modelUsed, output, usage, timingMs, trace⟩ := result
  cases modelUsed <;> cases usage <;> cases trace <;>
    exact ⟨rfl, rfl, rfl, rfl, rfl, rfl, rfl⟩

theorem own_jsonNumber_finite {n : JsNumber} (h : n.isFinite = true) :
    own (jsonNumber n) = .num n.dropZeroSign ∧ n.dropZeroSign.isFinite = true ∧
      n.dropZeroSign.lt (.ofNat 0) = n.lt (.ofNat 0) := by
  cases n with
  | finite => exact ⟨rfl, rfl, rfl⟩
  | negZero =>
    refine ⟨rfl, JsNumber.isFinite_ofNat (by norm_num), ?_⟩
    rw [JsNumber.dropZeroSign, JsNumber.ofNat_eq (by norm_num)]
    simp [JsNumber.lt]
  | _ => cases h

theorem own_jsonNumber_not_finite {n : JsNumber} (h : n.isFinite = false) :
    own (jsonNumber n) = .null := by
  cases n with
  | finite | negZero => cases h
  | _ => rfl

/-- **Reuse.** A result is read back, with an integral timing, exactly when it is well-formed. -/
theorem asGenerateResult_of_wellFormed (h : result.WellFormed) :
    asGenerateResult (own (jsonImage result.value)) = some result.reused := by
  obtain ⟨hprovider, hid, houtput, htiming, hmodel, husage, htrace⟩ := properties_value result
  obtain ⟨hnumber, hfinite, hsign⟩ := own_jsonNumber_finite h.finite
  have hvalid : result.providerUsed ∈ providerNames ∧ result.id ≠ [] ∧
      result.timingMs.dropZeroSign.isFinite = true ∧
      ¬result.timingMs.dropZeroSign.lt (.ofNat 0) = true :=
    ⟨h.providerUsed, h.id, hfinite, by rw [hsign, h.nonneg]; exact Bool.false_ne_true⟩
  rw [hnumber] at htiming
  simp only [asGenerateResult, hprovider, hid, houtput, htiming, if_pos hvalid, hmodel, husage,
    htrace]
  rfl

theorem asGenerateResult_of_not_wellFormed (h : ¬result.WellFormed) :
    asGenerateResult (own (jsonImage result.value)) = none := by
  obtain ⟨hprovider, hid, houtput, htiming, -⟩ := properties_value result
  cases hfinite : result.timingMs.isFinite with
  | false =>
    rw [own_jsonNumber_not_finite hfinite] at htiming
    simp only [asGenerateResult, hprovider, hid, houtput, htiming]
  | true =>
    obtain ⟨hnumber, hstored, hsign⟩ := own_jsonNumber_finite hfinite
    rw [hnumber] at htiming
    simp only [asGenerateResult, hprovider, hid, houtput, htiming]
    rw [if_neg]
    rintro ⟨hknown, hne, -, hnonneg⟩
    rw [hsign, Bool.not_eq_true] at hnonneg
    exact h ⟨hne, hknown, hfinite, hnonneg⟩

/-! ## Events read back -/

variable {event : TaskEvent} {runId eventId timestamp : JsString} {block : Chain.ChainBlock} {n : ℕ}

theorem ownOrdered_record (event : TaskEvent) (eventId timestamp : JsString) :
    OwnOrdered (.obj (event.record eventId timestamp)) := by
  rw [TaskEvent.record, ownOrdered_obj]
  refine ⟨show InOwnOrder [js "type", js "content", js "tags"] from ⟨by decide, by decide⟩, ?_⟩
  simp only [List.mem_cons, List.not_mem_nil, or_false]
  rintro m (rfl | rfl | rfl)
  · trivial
  · trivial
  · rw [ownOrdered_arr]
    intro v hv
    obtain ⟨tag, -, rfl⟩ := List.mem_map.mp hv
    trivial

/-- The envelope is read back from the file of its block. -/
theorem readEnvelope_payload (hn : n < 2 ^ 53) (hindex : block.index = .ofNat n)
    (hdata : block.data = event.record eventId timestamp) :
    readEnvelope block.payload = some (own (jsonImage (event.envelope eventId timestamp))) := by
  have hordered : OwnOrdered (.obj block.data) := hdata ▸ ownOrdered_record event eventId timestamp
  have hblock : property block.image.value "data" = some (.obj (Chain.imageData block.data)) := rfl
  have hcontent : stringProperty (.obj (Chain.imageData block.data)) "content" =
      some (ofText (jsonText [] (event.envelope eventId timestamp))) := by
    rw [hdata]
    rfl
  rw [readEnvelope, Chain.ChainBlock.payload, decodeUtf8_encodeUtf8,
    Chain.parseJson_payload hn hindex hordered]
  simp only [Option.bind_eq_bind, Option.bind_some, hblock, hcontent, parseString_ofText]
  exact parseJson_jsonText_own (by simp [Json.Blank]) _

theorem own_envelope (event : TaskEvent) (eventId timestamp : JsString) :
    own (jsonImage (event.envelope eventId timestamp)) =
      .obj [(js "schemaVersion", own (jsonImage (.num (.ofNat 1)))), (js "eventId", .str eventId),
        (js "timestamp", .str timestamp), (js "event", .str (js event.event)),
        (js "correlation", own (jsonImage event.correlation.value)),
        (js "payload", own (jsonImage event.payload))] := by
  rw [TaskEvent.envelope, jsonImage_obj, own_obj_of_inOwnOrder]
  · rfl
  · exact show InOwnOrder [js "schemaVersion", js "eventId", js "timestamp", js "event",
      js "correlation", js "payload"] from ⟨by decide, by decide⟩

theorem own_correlation (correlation : TaskEventCorrelation) :
    own (jsonImage correlation.value) =
      .obj [(js "taskId", .str correlation.taskId), (js "runId", .str correlation.runId),
        (js "agentId", .str correlation.agentId),
        (js "toolCallId", correlation.toolCallId.elim .null .str)] := by
  rw [TaskEventCorrelation.value, jsonImage_obj, own_obj_of_inOwnOrder]
  · cases correlation.toolCallId <;> rfl
  · exact show InOwnOrder [js "taskId", js "runId", js "agentId", js "toolCallId"] from
      ⟨by decide, by decide⟩

/-- What the scan for a run makes of an event. -/
def TaskEvent.cached (runId : JsString) : TaskEvent → Option GenerateResult
  | toolResult correlation result =>
    if correlation.runId = runId then asGenerateResult (own (jsonImage result.value)) else none
  | other _ _ _ _ _ => none

/-- **Scanning a stored event.** -/
theorem cachedResult_payload (hn : n < 2 ^ 53) (hindex : block.index = .ofNat n)
    (hdata : block.data = event.record eventId timestamp) (runId : JsString) :
    cachedResult runId (toolCallId runId) block.payload = event.cached runId := by
  have hevent : stringProperty (own (jsonImage (event.envelope eventId timestamp))) "event" =
      some (js event.event) := by
    rw [own_envelope]
    rfl
  have hcorrelation : property (own (jsonImage (event.envelope eventId timestamp))) "correlation" =
      some (own (jsonImage event.correlation.value)) := by
    rw [own_envelope]
    rfl
  have hpayload : property (own (jsonImage (event.envelope eventId timestamp))) "payload" =
      some (own (jsonImage event.payload)) := by
    rw [own_envelope]
    rfl
  have hrun : stringProperty (own (jsonImage event.correlation.value)) "runId" =
      some event.correlation.runId := by
    rw [own_correlation]
    rfl
  have htool : stringProperty (own (jsonImage event.correlation.value)) "toolCallId" =
      event.correlation.toolCallId := by
    rw [own_correlation]
    cases event.correlation.toolCallId <;> rfl
  simp only [cachedResult, readEnvelope_payload hn hindex hdata, hevent, hcorrelation, hpayload,
    Option.bind_some, hrun, htool, Option.some.injEq]
  cases event with
  | toolResult correlation result =>
    have hresult : property (own (jsonImage (TaskEvent.toolResult correlation result).payload))
        "result" = some (own (jsonImage result.value)) := by
      rw [TaskEvent.payload, jsonImage_obj, own_obj_of_inOwnOrder]
      · rfl
      · exact show InOwnOrder [js "tool", js "result"] from ⟨by decide, by decide⟩
    rw [hresult, TaskEvent.cached]
    refine if_congr ⟨fun h => h.2.1, fun h => ?_⟩ rfl rfl
    subst h
    exact ⟨rfl, rfl, rfl⟩
  | other blockType event correlation payload h => exact if_neg fun heq => h heq.1

end MemphisOS.TaskExecutor
