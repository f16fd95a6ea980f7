import MemphisOS.Agent.System

/-!
# The gateway

The routes of the gateway: a shell for allowed programs, a call of a provider, and reports. A
request is authenticated and counted before its handler runs.
-/

namespace MemphisOS.Gateways

open Ecma Bridge Agent

/-! ## Generation -/

structure GenerateInput where
  input : JsString
  provider : Plain
  model : Option Plain
  sessionId : Option Plain

/-- What `OrchestrationService.generate` does: it throws, or it runs the task of the input. -/
inductive Generation where
  | refused (error : AppError)
  | executes (input : GenerateInput)

def forbiddenGeneration : AppError :=
  ⟨.permissionDenied, js "forbidden in safe mode: generation is disabled", 403⟩

/-- The check of `generate`. -/
def generationForbidden (rawEnv : Environment) : Bool :=
  ((rawEnv "MEMPHIS_SAFE_MODE").getD []).lowersTo "true"

def generate (rawEnv : Environment) (input : GenerateInput) : Generation :=
  if generationForbidden rawEnv then .refused forbiddenGeneration else .executes input

/-! ## Handlers -/

structure GatewayConfig where
  authToken : Option JsString
  dangerouslyAllowExec : Bool

structure Gateway where
  config : GatewayConfig
  execPolicy : GatewayExecPolicy
  globalLimiter : JsString → Bool
  sensitiveLimiter : JsString → Bool
  execLimiter : JsString → Bool

structure Request where
  method : JsString
  /-- The path of the parsed URL. -/
  pathname : JsString
  authorization : Option JsString
  remoteAddress : Option JsString
  body : Text

inductive Answer where
  | preflight
  | notFound
  | unauthorized
  | failed (error : AppError)
  /-- The answer to a `TypeError`, of status 500. -/
  | threw
  /-- The answer of a route that only reports. -/
  | report
  | executed (ran : Ran ExecResult)
  | generated (generation : Generation)

/-- The commands a request handed to a shell. -/
def Answer.commands : Answer → List ShellCommand
  | executed ran => ran.commands
  | _ => []

/-- A generation that a request started. -/
def Answer.generates : Answer → Option GenerateInput
  | generated (.executes input) => some input
  | _ => none

def forbidden : AppError := ⟨.permissionDenied, js "forbidden in safe mode", 403⟩

def rateLimitExceeded : AppError := ⟨.providerRateLimit, js "Rate limit exceeded", 429⟩

/-- The check of the handlers. -/
def gatewaySafeMode (rawEnv : Environment) : Bool :=
  ((rawEnv "MEMPHIS_SAFE_MODE").getD []).lowersTo "true"

def parseJsonBody (body : Text) (route : String) : Except AppError Plain :=
  match parseJson body with
  | some value => .ok value
  | none => .error ⟨.validationError, js "invalid json body for " ++ js route, 400⟩

variable (rawEnv : Environment) (host : ShellHost)

/-- The handler of `POST /exec`. -/
def execHandler (gateway : Gateway) (body : Text) : Answer :=
  if gatewaySafeMode rawEnv then .failed forbidden
  else
    match parseJsonBody body "/exec" with
    | .error e => .failed e
    | .ok .null => .threw
    | .ok value =>
      if !truthy (property value "command") then .failed commandRequired
      else
        match property value "command" with
        | some (.str command) =>
          match enforceGatewayExecPolicy command gateway.execPolicy with
          | .error e => .failed e
          | .ok () => .executed
            (exec rawEnv host command ⟨property value "cwd", property value "timeout", []⟩)
        | _ => .threw

/-- The handler of `POST /provider/chat`. -/
def providerChatHandler (body : Text) : Answer :=
  if gatewaySafeMode rawEnv then .failed forbidden
  else
    match parseJsonBody body "/provider/chat" with
    | .error e => .failed e
    | .ok .null => .threw
    | .ok value =>
      if !truthy (property value "input") then
        .failed ⟨.validationError, js "input required", 400⟩
      else
        match property value "input" with
        | some (.str input) =>
          if input.trim = [] then .failed ⟨.validationError, js "input required", 400⟩
          else
            let provider := match property value "provider" with
              | none | some .null => .str (js "auto")
              | some provider => provider
            .generated (generate rawEnv
              ⟨input, provider, property value "model", property value "sessionId"⟩)
        | _ => .threw

/-- The routes and whether each needs the token. -/
def routes : List ((JsString × JsString) × Bool) :=
  [((js "GET", js "/health"), false), ((js "GET", js "/status"), false),
    ((js "POST", js "/exec"), true), ((js "GET", js "/metrics"), false),
    ((js "GET", js "/ops/status"), false), ((js "GET", js "/providers"), false),
    ((js "POST", js "/provider/chat"), true)]

def isLoopbackIp (ip : Option JsString) : Bool :=
  ip ∈ [some (js "127.0.0.1"), some (js "::1"), some (js "::ffff:127.0.0.1")]

/-- The request may use its route. -/
def authorized (gateway : Gateway) (request : Request) (auth : Bool) : Bool :=
  if request.pathname = js "/exec" then
    gateway.config.dangerouslyAllowExec && isLoopbackIp request.remoteAddress ||
      (enforceGatewayExecAuth request.authorization gateway.config.authToken).isOk
  else
    match gateway.config.authToken with
    | none | some [] => true
    | some authToken => !auth || request.authorization = some (js "Bearer " ++ authToken)

/-- The limiters let the request pass. -/
def withinLimits (gateway : Gateway) (request : Request) : Bool :=
  let key := request.remoteAddress.getD (js "unknown") ++ js ":" ++ request.method
  let routeKey := key ++ js ":" ++ request.pathname
  gateway.globalLimiter key &&
    (request.pathname ≠ js "/exec" && request.pathname ≠ js "/provider/chat" ||
      gateway.sensitiveLimiter routeKey) &&
    (request.pathname ≠ js "/exec" || gateway.execLimiter routeKey)

def serve (gateway : Gateway) (request : Request) : Answer :=
  if request.method = js "OPTIONS" then .preflight
  else
    match routes.lookup (request.method, request.pathname) with
    | none => .notFound
    | some auth =>
      if !authorized gateway request auth then .unauthorized
      else if !withinLimits gateway request then .failed rateLimitExceeded
      else if request.pathname = js "/exec" then execHandler rawEnv host gateway request.body
      else if request.pathname = js "/provider/chat" then providerChatHandler rawEnv request.body
      else .report

/-- **In safe mode a request neither runs a command nor generates.** -/
theorem serve_harmless (henabled : gatewaySafeMode rawEnv = true) (gateway : Gateway)
    (request : Request) : (serve rawEnv host gateway request).commands = [] ∧
      (serve rawEnv host gateway request).generates = none := by
  have hexec : execHandler rawEnv host gateway request.body = .failed forbidden := by
    rw [execHandler, if_pos henabled]
  have hchat : providerChatHandler rawEnv request.body = .failed forbidden := by
    rw [providerChatHandler, if_pos henabled]
  unfold serve
  rw [hexec, hchat]
  split
  · exact ⟨rfl, rfl⟩
  · split
    · exact ⟨rfl, rfl⟩
    · split_ifs <;> exact ⟨rfl, rfl⟩

end MemphisOS.Gateways
