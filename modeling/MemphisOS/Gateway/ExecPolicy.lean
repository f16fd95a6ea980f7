import MemphisOS.Ecma.StringMethods

/-!
# The execution policy of the gateway

Which commands the gateway hands to a shell: a list of tokens that no command may contain and
a list of programs that one may start with.
-/

namespace MemphisOS

open Ecma

inductive ErrorCode where
  | validationError
  | providerUnavailable
  | providerTimeout
  | providerRateLimit
  | overload
  | configError
  | internalError
  | missingEnv
  | missingOllama
  | invalidApiKey
  | networkError
  | permissionDenied
  deriving DecidableEq

def ErrorCode.text : ErrorCode → String
  | validationError => "VALIDATION_ERROR"
  | providerUnavailable => "PROVIDER_UNAVAILABLE"
  | providerTimeout => "PROVIDER_TIMEOUT"
  | providerRateLimit => "PROVIDER_RATE_LIMIT"
  | overload => "OVERLOAD"
  | configError => "CONFIG_ERROR"
  | internalError => "INTERNAL_ERROR"
  | missingEnv => "MISSING_ENV"
  | missingOllama => "MISSING_OLLAMA"
  | invalidApiKey => "INVALID_API_KEY"
  | networkError => "NETWORK_ERROR"
  | permissionDenied => "PERMISSION_DENIED"

structure AppError where
  code : ErrorCode
  message : JsString
  statusCode : ℕ
  deriving DecidableEq

/-- The environment variables that are set. -/
abbrev Environment := String → Option JsString

namespace Gateways

structure GatewayExecPolicy where
  restrictedMode : Bool
  allowlist : List JsString
  blockedTokens : List JsString

/-- `DEFAULT_BLOCKED_TOKENS`. -/
def defaultBlockedTokens : List JsString :=
  [js "&&", js "||", js ";", js "|", js ">", js "<", js "$(", [0x60]]

/-- The programs that are allowed when none are configured. -/
def defaultAllowlist : List JsString :=
  [js "echo", js "pwd", js "ls", js "whoami", js "date", js "uptime"]

def splitCsv (value : Option JsString) (fallback : List JsString) : List JsString :=
  match value with
  | none | some [] => fallback
  | some value => ((value.splitOn 0x2C).map JsString.trim).filter (· ≠ [])

def toBool (value : Option JsString) (fallback : Bool) : Bool :=
  match value with
  | none => fallback
  | some value => value.lowersTo "true"

def loadGatewayExecPolicy (rawEnv : Environment) : Except AppError GatewayExecPolicy :=
  let restrictedMode := toBool (rawEnv "GATEWAY_EXEC_RESTRICTED_MODE") true
  let allowlist := splitCsv (rawEnv "GATEWAY_EXEC_ALLOWLIST") defaultAllowlist
  let blockedTokens := splitCsv (rawEnv "GATEWAY_EXEC_BLOCKED_TOKENS") defaultBlockedTokens
  if restrictedMode ∧ allowlist = [] then
    .error ⟨.validationError,
      js "GATEWAY_EXEC_ALLOWLIST cannot be empty when restricted mode is enabled", 500⟩
  else .ok ⟨restrictedMode, allowlist, blockedTokens⟩

/-- An ASCII letter or digit, an underscore, a hyphen, a dot or a slash. -/
def isTokenUnit (u : UInt16) : Bool :=
  (0x61 ≤ u.toNat && u.toNat ≤ 0x7A) || (0x41 ≤ u.toNat && u.toNat ≤ 0x5A) ||
    (0x30 ≤ u.toNat && u.toNat ≤ 0x39) || u.toNat = 0x5F || (0x2D ≤ u.toNat && u.toNat ≤ 0x2F)

/-- The program of a command: the last segment of the path it starts with. -/
def firstToken (command : JsString) : JsString :=
  let fullToken := command.takeWhile isTokenUnit
  let last := (fullToken.splitOn 0x2F).getLast?.getD []
  if last = [] then fullToken else last

def commandRequired : AppError := ⟨.validationError, js "command required", 400⟩

def enforceGatewayExecPolicy (command : JsString) (policy : GatewayExecPolicy) :
    Except AppError Unit :=
  let normalized := command.trim
  if normalized = [] then .error commandRequired
  else if !policy.restrictedMode then .ok ()
  else
    match policy.blockedTokens.find? fun token => token ≠ [] ∧ token <:+: normalized with
    | some token => .error ⟨.validationError, js "command blocked by token policy: " ++ token, 403⟩
    | none =>
      let baseCommand := firstToken normalized
      if baseCommand = [] then .error commandRequired
      else if baseCommand ∈ policy.allowlist then .ok ()
      else .error ⟨.validationError, js "command not in gateway allowlist: " ++ baseCommand, 403⟩

/-- `assertGatewayExecAuthConfigured` with the token of the configuration. -/
def assertGatewayExecAuthConfigured (authToken : Option JsString) : Except AppError Unit :=
  if authToken.any (·.trim ≠ []) then .ok ()
  else .error ⟨.configError, js "gateway /exec requires authToken", 500⟩

def enforceGatewayExecAuth (authHeader authToken : Option JsString) : Except AppError Unit := do
  assertGatewayExecAuthConfigured authToken
  if authHeader = authToken.map (js "Bearer " ++ ·) then .ok ()
  else .error ⟨.validationError, js "unauthorized", 401⟩

end Gateways

end MemphisOS
