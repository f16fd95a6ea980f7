import MemphisOS.Ecma.StringMethods
import MemphisOS.Ecma.Utf8
import MemphisOS.Http.Schemas
import MemphisOS.TaskQueue.Service

/-!
# Chat requests

A chat request is read by a schema, enqueued as a task, and, when the process has stopped before
the task was finished, read again by a parser of its own.
-/

namespace MemphisOS.Chat

open Ecma TaskQueue

/-! ## Requests -/

inductive Provider where
  | auto
  | sharedLlm
  | decentralizedLlm
  | localFallback
  | ollama
  deriving DecidableEq

def Provider.text : Provider → String
  | auto => "auto"
  | sharedLlm => "shared-llm"
  | decentralizedLlm => "decentralized-llm"
  | localFallback => "local-fallback"
  | ollama => "ollama"

inductive Strategy where
  | default
  | latencyAware
  deriving DecidableEq

def Strategy.text : Strategy → String
  | default => "default"
  | latencyAware => "latency-aware"

structure GenerateOptions where
  temperature : Option JsNumber
  maxTokens : Option JsNumber
  timeoutMs : Option JsNumber
  deriving DecidableEq

structure GenerateInput where
  input : JsString
  provider : Option Provider
  model : Option JsString
  sessionId : Option JsString
  options : Option GenerateOptions
  strategy : Option Strategy
  deriving DecidableEq

/-! ## The schema -/

def readOptions : Plain → Option GenerateOptions
  | .obj body => do
    let temperature ← optionalField body "temperature" (readNumberIn 0 2)
    let maxTokens ← optionalField body "maxTokens" (readInt 1 (some 32768))
    let timeoutMs ← optionalField body "timeoutMs" (readInt 100 (some 120000))
    return ⟨temperature, maxTokens, timeoutMs⟩
  | _ => none

def chatGenerateSchema : Plain → Option GenerateInput
  | .obj body => do
    let input ← requiredField body "input" (readString 1 20000)
    let provider ← optionalField body "provider" (readEnum
      [.auto, .sharedLlm, .decentralizedLlm, .localFallback, .ollama] Provider.text)
    let model ← optionalField body "model" (readString 1 200)
    let sessionId ← optionalField body "sessionId" (readString 1 200)
    let strategy ← optionalField body "strategy" (readEnum [.default, .latencyAware] Strategy.text)
    let options ← optionalField body "options" readOptions
    return ⟨input, provider, model, sessionId, options, strategy⟩
  | _ => none

/-! ## The task -/

/-- The options that are set. -/
def GenerateOptions.members (options : GenerateOptions) : List (JsString × Plain) :=
  [(js "temperature", options.temperature), (js "maxTokens", options.maxTokens),
    (js "timeoutMs", options.timeoutMs)].filterMap fun m => m.2.map fun n => (m.1, .num n)

/-- The payload of the task. -/
def GenerateInput.payload (request : GenerateInput) : List (JsString × Plain) :=
  [(js "input", .str request.input),
    (js "provider", .str (js (request.provider.getD .auto).text)),
    (js "model", request.model.elim .null .str),
    (js "sessionId", request.sessionId.elim .null .str),
    (js "options", request.options.elim .null fun options => .obj options.members),
    (js "strategy", .str (js (request.strategy.getD .default).text))]

/-- The metadata of the task, given the digest of a text. -/
def GenerateInput.metadata (sha256 : Text → Text) (request : GenerateInput) :
    List (JsString × Plain) :=
  [(js "provider", .str (js (request.provider.getD .auto).text)),
    (js "strategy", .str (js (request.strategy.getD .default).text)),
    (js "sessionId", request.sessionId.elim .null .str),
    (js "inputDigest", .str (ofText (sha256 (wellFormed request.input)))),
    (js "inputBytes", .num (.ofNat (encodeUtf8 (wellFormed request.input)).length))]

/-- The members of the task the route enqueues. -/
def GenerateInput.taskMembers (sha256 : Text → Text) (requestId : JsString)
    (request : GenerateInput) : List (JsString × Plain) :=
  [(js "type", .str (js "chat.generate")), (js "requestId", .str requestId),
    (js "metadata", .obj (request.metadata sha256)), (js "payload", .obj request.payload)]

def GenerateInput.task (sha256 : Text → Text) (requestId : JsString) (request : GenerateInput) :
    QueueTaskInput where
  members := (request.taskMembers sha256 requestId).map fun m => (m.1, ofPlain m.2)
  typed := ⟨js "chat.generate", rfl⟩

/-! ## The parser of queued payloads -/

/-- A member of a value that may be none. -/
def member (name : String) : JsValue → Option JsValue
  | .obj members => members.lookup (js name)
  | _ => none

/-- `parseProviderName(value)`. -/
def parseProviderName (value : JsString) : Option Provider :=
  [.sharedLlm, .decentralizedLlm, .localFallback, .ollama].find? fun p : Provider =>
    js p.text = value

/-- A number, if the value is one. -/
def numberOf : Option JsValue → Option JsNumber
  | some (.num (.number n)) => some n
  | _ => none

/-- A string, if the value is one. -/
def stringOf : Option JsValue → Option JsString
  | some (.str s) => some s
  | _ => none

def parseGenerateOptions : Option JsValue → Option GenerateOptions
  | some (.obj members) =>
    let out : GenerateOptions := ⟨numberOf (members.lookup (js "temperature")),
      (numberOf (members.lookup (js "maxTokens"))).map JsNumber.trunc,
      (numberOf (members.lookup (js "timeoutMs"))).map JsNumber.trunc⟩
    if out = ⟨none, none, none⟩ then none else some out
  | _ => none

/-- The provider of a payload: rejected, absent or given. -/
def parseProvider : Option JsValue → Option (Option Provider)
  | none | some .null | some (.num .undefined) => some none
  | some (.str value) =>
    if value = js "auto" then some (some .auto) else (parseProviderName value).map some
  | some _ => none

def parseStrategy : Option JsValue → Option Strategy
  | none | some .null | some (.num .undefined) => some .default
  | some (.str value) =>
    if value = js "latency-aware" then some .latencyAware
    else if value = js "default" then some .default
    else none
  | some _ => none

def parseQueuedChatPayload : Option JsValue → Option GenerateInput
  | some (.obj members) => do
    let input ← stringOf (members.lookup (js "input"))
    if input.trim = [] then none
    else
      let provider ← parseProvider (members.lookup (js "provider"))
      let strategy ← parseStrategy (members.lookup (js "strategy"))
      return ⟨input, provider, stringOf (members.lookup (js "model")),
        stringOf (members.lookup (js "sessionId")),
        parseGenerateOptions (members.lookup (js "options")), some strategy⟩
  | _ => none

/-- The request a recovered task is dispatched again as. -/
def redispatched (task : PendingTask) : Option GenerateInput :=
  if stringOf (member "type" task.task) = some (js "chat.generate") then
    parseQueuedChatPayload (member "payload" task.task)
  else none

end MemphisOS.Chat
