import MemphisOS.Gateway.ExecPolicy

/-!
# The guard of the HTTP server

What happens to a request before its route is looked up: the checks of the `onRequest` hook, in
their order. They look at the method and at the URL as it was sent.
-/

namespace MemphisOS.Http

open Ecma

structure Request where
  method : JsString
  url : JsString
  ip : JsString
  /-- The request id. -/
  id : JsString
  authorization : Option JsString

/-- The errors the hook answers with, and the status of each. -/
inductive GuardError where
  | safeMode
  | revocationStale (reason : JsString)
  | unauthorized

def GuardError.status : GuardError → ℕ
  | safeMode => 403
  | revocationStale _ => 503
  | unauthorized => 401

def GuardError.code : GuardError → String
  | safeMode => "PERMISSION_DENIED"
  | revocationStale _ => "SERVICE_UNAVAILABLE"
  | unauthorized => "UNAUTHORIZED"

def GuardError.message : GuardError → String
  | safeMode => "forbidden in safe mode"
  | revocationStale _ => "high-risk route blocked: revocation cache stale"
  | unauthorized => "unauthorized"

def normalizeRoutePath (url : JsString) : JsString := url.takeWhile (· ≠ 0x3F)

def GuardError.details (request : Request) : GuardError → List (String × JsString)
  | safeMode => [("route", normalizeRoutePath request.url), ("method", request.method)]
  | revocationStale reason => [("route", normalizeRoutePath request.url),
      ("method", request.method), ("reason", reason)]
  | unauthorized => []

inductive HookOutcome where
  /-- An answer without a body. -/
  | preflight
  /-- The error `Rate limit exceeded`. -/
  | limited
  | refused (error : GuardError)
  /-- The request goes on to its route. -/
  | admitted

/-- What the hook finds in its process. -/
structure Server where
  env : Environment
  /-- `process.env.MEMPHIS_API_TOKEN` when the server was created. -/
  apiToken : Option JsString
  /-- The keys `globalLimiter` lets pass. -/
  globalLimiter : JsString → Bool
  /-- The keys `sensitiveLimiter` lets pass. -/
  sensitiveLimiter : JsString → Bool
  /-- The reason why an enabled revocation cache counts as stale. -/
  revocationStale : Option JsString

/-! ## Tables of routes -/

def sensitiveExactRoutes : List JsString :=
  [js "/metrics", js "/api/model-d/proposals", js "/v1/chat/generate", js "/v1/metrics",
    js "/v1/ops/status", js "/v1/sessions", js "/v1/vault/init", js "/v1/vault/encrypt",
    js "/v1/vault/decrypt", js "/v1/vault/entries", js "/v1/soul/replay", js "/v1/soul/loop-step"]

def sensitivePrefixRoutes : List JsString := [js "/v1/sessions/"]

def isSensitiveRoute (routePath : JsString) : Bool :=
  routePath ∈ sensitiveExactRoutes || sensitivePrefixRoutes.any (· <+: routePath)

def revocationFailClosedRoutes : List JsString :=
  [js "/v1/admin/dual-approval/request", js "/v1/admin/dual-approval/approve",
    js "/v1/admin/dual-approval/cancel", js "/v1/vault/init", js "/v1/vault/encrypt",
    js "/v1/vault/decrypt"]

def isRevocationFailClosedRoute (method routePath : JsString) : Bool :=
  method = js "POST" && routePath ∈ revocationFailClosedRoutes

def isSafeModeAllowedRoute (method routePath : JsString) : Bool :=
  method = js "GET" &&
    (routePath = js "/health" || routePath = js "/v1/providers/health" ||
      routePath = js "/v1/metrics" || routePath = js "/v1/ops/status" ||
      routePath = js "/v1/sessions" || js "/v1/sessions/" <+: routePath ||
      routePath = js "/v1/vault/entries")

structure EndpointAuthPolicy where
  method : String
  path : String
  requiresAuth : Bool

def apiAuthPolicy : List EndpointAuthPolicy :=
  [⟨"GET", "/health", false⟩, ⟨"GET", "/v1/providers/health", false⟩, ⟨"GET", "/v1/metrics", true⟩,
    ⟨"GET", "/v1/ops/status", true⟩, ⟨"GET", "/v1/sessions", true⟩,
    ⟨"GET", "/v1/sessions/:sessionId/events", true⟩, ⟨"POST", "/v1/chat/generate", true⟩,
    ⟨"POST", "/v1/vault/init", true⟩, ⟨"POST", "/v1/vault/encrypt", true⟩,
    ⟨"POST", "/v1/vault/decrypt", true⟩, ⟨"POST", "/v1/soul/replay", true⟩,
    ⟨"POST", "/v1/soul/loop-step", true⟩, ⟨"GET", "/v1/vault/entries", true⟩,
    ⟨"POST", "/v1/admin/dual-approval/request", true⟩,
    ⟨"POST", "/v1/admin/dual-approval/approve", true⟩,
    ⟨"POST", "/v1/admin/dual-approval/cancel", true⟩,
    ⟨"GET", "/v1/admin/dual-approval/:requestId", true⟩]

/-- The path has the segments of the rule, where one after a colon stands for any. -/
def matchesRule (rule path : JsString) : Bool :=
  let segments := rule.splitOn 0x2F
  let parts := path.splitOn 0x2F
  segments.length = parts.length && (segments.zip parts).all fun (segment, part) =>
    if segment.head? = some 0x3A then part ≠ [] else segment = part

def isAuthRequired (method path : JsString) : Bool :=
  match apiAuthPolicy.find? fun rule => js rule.method = method ∧ matchesRule (js rule.path) path with
  | some rule => rule.requiresAuth
  | none => true

/-! ## The hook -/

/-- `safeModeEnabled(process.env)` of the server. -/
def safeModeEnabled (rawEnv : Environment) : Bool :=
  ((rawEnv "MEMPHIS_SAFE_MODE").getD []).lowersTo "true"

def onRequest (server : Server) (request : Request) : HookOutcome :=
  if request.method = js "OPTIONS" then .preflight
  else if !server.globalLimiter (request.ip ++ js ":" ++ request.method) then .limited
  else
    let routePath := normalizeRoutePath request.url
    if safeModeEnabled server.env && !isSafeModeAllowedRoute request.method routePath then
      .refused .safeMode
    else
      match (if isRevocationFailClosedRoute request.method routePath then server.revocationStale
        else none) with
      | some reason => .refused (.revocationStale reason)
      | none =>
        if isSensitiveRoute routePath &&
          !server.sensitiveLimiter (request.ip ++ js ":" ++ request.method ++ js ":" ++ routePath)
        then .limited
        else if !isAuthRequired request.method routePath then .admitted
        else
          match server.apiToken with
          | none | some [] => .admitted
          | some apiToken =>
            if request.authorization = some (js "Bearer " ++ apiToken) then .admitted
            else .refused .unauthorized

/-- **Denied routes are not reached where the server is in safe mode.** -/
theorem not_admitted {server : Server} {request : Request}
    (henabled : safeModeEnabled server.env = true)
    (hroute : isSafeModeAllowedRoute request.method (normalizeRoutePath request.url) = false) :
    onRequest server request ≠ .admitted := by
  unfold onRequest
  split
  · exact fun h => by cases h
  · split
    · exact fun h => by cases h
    · dsimp only
      rw [henabled, hroute]
      exact fun h => by cases h

end MemphisOS.Http
