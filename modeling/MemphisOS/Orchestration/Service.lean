import MemphisOS.Ecma.NumberOrder
import MemphisOS.Gateway.ExecPolicy
import MemphisOS.TaskExecutor.Events

/-!
# The orchestration service

A request is generated by its primary provider, which is asked again after some errors, and then
by the fallback. A provider that fails is in cooldown for a while, and the primary must not be.
-/

namespace MemphisOS.Orchestration

open Ecma
open Bridge (optionalMember)
open TaskExecutor (GenerateResult)

inductive ProviderName where
  | sharedLlm
  | decentralizedLlm
  | localFallback
  | ollama
  deriving DecidableEq

def ProviderName.text : ProviderName → JsString
  | sharedLlm => js "shared-llm"
  | decentralizedLlm => js "decentralized-llm"
  | localFallback => js "local-fallback"
  | ollama => js "ollama"

inductive Strategy where
  | default
  | latencyAware
  deriving DecidableEq

def Strategy.text : Strategy → JsString
  | default => js "default"
  | latencyAware => js "latency-aware"

/-- What a provider throws; of a value that is not an `Error`, what `String` makes of it. -/
inductive Thrown where
  | app (error : AppError)
  | error (message : JsString)
  | other (text : JsString)

abbrev Outcome := Except Thrown GenerateResult

/-- The configuration; the providers are given by their names. -/
structure OrchestratorDeps where
  defaultProvider : ProviderName
  providers : List ProviderName
  fallbackProvider : Option ProviderName
  maxRetries : Option ℤ
  providerCooldownMs : Option JsNumber

/-- What the choice of a provider reads of a request; `'auto'` is no provider. -/
structure Request where
  provider : Option (Option ProviderName)
  strategy : Option Strategy

/-- Successive readings of a clock, which does not go back. -/
structure Clock where
  now : ℕ → JsNumber
  advances : ∀ {i j : ℕ}, i ≤ j → (now i).le (now j) = true

/-- What a call meets: the clock, what becomes of each invocation of a provider, one after
another, and the average latencies the metrics know. -/
structure World where
  clock : Clock
  outcome : ℕ → Outcome
  avgLatencyMs : ProviderName → Option JsNumber

/-- A call of `generate` of a provider. -/
structure Invocation where
  provider : ProviderName
  viaFallback : Bool
  startedAt : JsNumber
  endedAt : JsNumber
  outcome : Outcome

structure ProviderTraceAttempt where
  attempt : ℕ
  provider : ProviderName
  viaFallback : Bool
  ok : Bool
  latencyMs : JsNumber
  errorCode : Option ErrorCode
  errorMessage : Option JsString

/-! ## The provider policy -/

/-- The map `cooldownUntil`. -/
abbrev Cooldowns := ProviderName → Option JsNumber

def isInCooldown (cooldownUntil : Cooldowns) (provider : ProviderName) (now : JsNumber) : Bool :=
  now.lt ((cooldownUntil provider).getD (.ofNat 0))

def markFailure (cooldownMs : JsNumber) (cooldownUntil : Cooldowns) (provider : ProviderName)
    (now : JsNumber) : Cooldowns :=
  Function.update cooldownUntil provider (some (now.add cooldownMs))

def markSuccess (cooldownUntil : Cooldowns) (provider : ProviderName) : Cooldowns :=
  Function.update cooldownUntil provider none

/-! ## Choosing a provider -/

/-- A call under way: the policy, how often the clock has been read, the invocations made and the
trace. -/
structure CallState where
  cooldownUntil : Cooldowns
  readings : ℕ
  invocations : List Invocation
  attempts : List ProviderTraceAttempt

/-- The keys of the map of providers. -/
def OrchestratorDeps.registered (deps : OrchestratorDeps) : List ProviderName :=
  deps.providers.eraseDups

def OrchestratorDeps.retries (deps : OrchestratorDeps) : ℤ := deps.maxRetries.getD 2

def OrchestratorDeps.cooldownMs (deps : OrchestratorDeps) : JsNumber :=
  deps.providerCooldownMs.getD (.ofNat 30000)

variable (deps : OrchestratorDeps) (world : World)

/-- The comparison of two latencies in the sort is not positive. -/
def latencyBefore (a b : ProviderName) : Bool :=
  let latency := fun name => (world.avgLatencyMs name).getD (.ofNat (2 ^ 53 - 1))
  !(latency b).lt (latency a)

/-- The provider, and how often the clock has been read. -/
def pickAutoProvider (strategy : Strategy) (cooldownUntil : Cooldowns) : ProviderName × ℕ :=
  match strategy with
  | .default => (deps.defaultProvider, 0)
  | .latencyAware =>
    let available := (deps.registered.zipIdx.filter fun (name, i) =>
      !isInCooldown cooldownUntil name (world.clock.now i)).map Prod.fst
    ((available.mergeSort (latencyBefore world)).head?.getD deps.defaultProvider,
      deps.registered.length)

def notConfigured (name : ProviderName) : AppError :=
  ⟨.providerUnavailable, js "Provider not configured: " ++ name.text, 503⟩

def inCooldown (name : ProviderName) : AppError :=
  ⟨.providerUnavailable, js "Provider in cooldown: " ++ name.text, 503⟩

/-- The provider that is requested, or else one that is picked. -/
def pickProvider (request : Request) (cooldownUntil : Cooldowns) : ProviderName × ℕ :=
  match request.provider with
  | some (some name) => (name, 0)
  | _ => pickAutoProvider deps world (request.strategy.getD .default) cooldownUntil

/-- The provider, and how often the clock has been read: the error for a provider in cooldown
also tells the time that remains. -/
def resolveProvider (request : Request) (cooldownUntil : Cooldowns) :
    Except AppError ProviderName × ℕ :=
  let (providerName, readings) := pickProvider deps world request cooldownUntil
  if providerName ∉ deps.registered then (.error (notConfigured providerName), readings)
  else if isInCooldown cooldownUntil providerName (world.clock.now readings) then
    (.error (inCooldown providerName), readings + 2)
  else (.ok providerName, readings + 1)

/-! ## Generating -/

def isRetryable : Thrown → Bool
  | .app error =>
    error.code = .providerTimeout || error.code = .providerUnavailable ||
      error.code = .providerRateLimit
  | _ => false

/-- What is thrown for the last error: an `Error` itself. -/
def rethrown : Option Thrown → Thrown
  | some (.app error) => .app error
  | some (.error message) => .error message
  | _ => .app ⟨.internalError, js "Unknown generate error", 500⟩

def Thrown.code : Thrown → ErrorCode
  | .app appError => appError.code
  | _ => .internalError

def Thrown.message : Thrown → JsString
  | .app appError => appError.message
  | .error message => message
  | .other text => text

def traceAttempt (attempt : ℕ) (invocation : Invocation) : ProviderTraceAttempt :=
  let error := match invocation.outcome with
    | .ok _ => none
    | .error error => some error
  { attempt
    provider := invocation.provider
    viaFallback := invocation.viaFallback
    ok := error.isNone
    latencyMs := invocation.endedAt.sub invocation.startedAt
    errorCode := error.map Thrown.code
    errorMessage := error.map Thrown.message }

/-- The next invocation of a provider, between two readings of the clock. -/
def invoke (provider : ProviderName) (viaFallback : Bool) (s : CallState) : Invocation :=
  { provider, viaFallback
    startedAt := world.clock.now s.readings
    endedAt := world.clock.now (s.readings + 1)
    outcome := world.outcome s.invocations.length }

/-- The state after a success. -/
def CallState.succeed (s : CallState) (attempt : ℕ) (invocation : Invocation) : CallState :=
  { cooldownUntil := markSuccess s.cooldownUntil invocation.provider
    readings := s.readings + 2
    invocations := s.invocations ++ [invocation]
    attempts := s.attempts ++ [traceAttempt attempt invocation] }

/-- The state after a failure, whose time is a third reading of the clock. -/
def CallState.fail (s : CallState) (attempt : ℕ) (invocation : Invocation) : CallState :=
  { cooldownUntil := markFailure deps.cooldownMs s.cooldownUntil invocation.provider
      (world.clock.now (s.readings + 2))
    readings := s.readings + 3
    invocations := s.invocations ++ [invocation]
    attempts := s.attempts ++ [traceAttempt attempt invocation] }

/-- The loop `while (attempt <= maxRetries)`, which can be entered as often as is given. -/
def retryLoop (provider : ProviderName) (viaFallback : Bool) :
    ℕ → ℕ → Option Thrown → CallState → Outcome × CallState
  | 0, _, lastError, s => (.error (rethrown lastError), s)
  | remaining + 1, attempt, _, s =>
    let invocation := invoke world provider viaFallback s
    match invocation.outcome with
    | .ok out => (.ok out, s.succeed (attempt + 1) invocation)
    | .error error =>
      let s := s.fail deps world (attempt + 1) invocation
      if !isRetryable error || (attempt : ℤ) = deps.retries then (.error (rethrown (some error)), s)
      else retryLoop provider viaFallback remaining (attempt + 1) (some error) s

def tryGenerateWithRetry (provider : ProviderName) (viaFallback : Bool) (s : CallState) :
    Outcome × CallState :=
  retryLoop deps world provider viaFallback (deps.retries + 1).toNat 0 none s

def ProviderTraceAttempt.value (attempt : ProviderTraceAttempt) : Plain :=
  .obj ([(js "attempt", .num (.ofNat attempt.attempt)), (js "provider", .str attempt.provider.text),
    (js "viaFallback", .bool attempt.viaFallback), (js "ok", .bool attempt.ok),
    (js "latencyMs", .num attempt.latencyMs)] ++
    optionalMember "errorCode" (attempt.errorCode.map fun code => .str (js code.text)) ++
    optionalMember "errorMessage" (attempt.errorMessage.map .str))

/-- The property `trace` of a result. -/
def traceMembers (request : Request) (attempts : List ProviderTraceAttempt) :
    List (JsString × Plain) :=
  let requested := match request.provider with
    | some (some name) => name.text
    | _ => js "auto"
  [(js "strategy", .str (request.strategy.getD .default).text),
    (js "requestedProvider", .str requested),
    (js "attempts", .arr (attempts.map ProviderTraceAttempt.value))]

/-- A result gets the trace of the call. -/
def withTrace (request : Request) : Outcome × CallState → Outcome × CallState
  | (.ok out, s) => (.ok { out with trace := some (traceMembers request s.attempts) }, s)
  | (.error error, s) => (.error error, s)

/-- What follows an error of the primary, or of its resolution. -/
def generateWithFallback (request : Request) (primary : Option ProviderName)
    (primaryError : Thrown) (s : CallState) : Outcome × CallState :=
  match deps.fallbackProvider with
  | none => (.error primaryError, s)
  | some fallback =>
    if fallback ∉ deps.registered then (.error primaryError, s)
    else if primary = some fallback then (.error primaryError, s)
    else withTrace request (tryGenerateWithRetry deps world fallback true s)

/-- A call before its primary is invoked. -/
def CallState.opened (cooldownUntil : Cooldowns) (readings : ℕ) : CallState :=
  ⟨cooldownUntil, readings, [], []⟩

def generateWithProviders (request : Request) (cooldownUntil : Cooldowns) : Outcome × CallState :=
  match resolveProvider deps world request cooldownUntil with
  | (.error error, readings) =>
    generateWithFallback deps world request none (.app error) (.opened cooldownUntil readings)
  | (.ok primary, readings) =>
    match tryGenerateWithRetry deps world primary false (.opened cooldownUntil readings) with
    | (.ok out, s) => withTrace request (.ok out, s)
    | (.error error, s) => generateWithFallback deps world request (some primary) error s

/-! ## What a call may do -/

/-- The providers a call asks, one after another. -/
inductive Asks (request : Request) (cooldownUntil : Cooldowns) : Outcome × CallState → Prop
  | nobody {error : AppError} {readings : ℕ} :
      resolveProvider deps world request cooldownUntil = (.error error, readings) →
      (∀ name, deps.fallbackProvider = some name → name ∉ deps.registered) →
      Asks request cooldownUntil (.error (.app error), .opened cooldownUntil readings)
  | fallback {error : AppError} {readings : ℕ} {name : ProviderName} :
      resolveProvider deps world request cooldownUntil = (.error error, readings) →
      deps.fallbackProvider = some name → name ∈ deps.registered →
      Asks request cooldownUntil (withTrace request
        (tryGenerateWithRetry deps world name true (.opened cooldownUntil readings)))
  | primary {primary : ProviderName} {readings : ℕ} {out : GenerateResult} {s : CallState} :
      resolveProvider deps world request cooldownUntil = (.ok primary, readings) →
      tryGenerateWithRetry deps world primary false (.opened cooldownUntil readings) =
        (.ok out, s) →
      Asks request cooldownUntil (withTrace request (.ok out, s))
  | primaryFails {primary : ProviderName} {readings : ℕ} {error : Thrown} {s : CallState} :
      resolveProvider deps world request cooldownUntil = (.ok primary, readings) →
      tryGenerateWithRetry deps world primary false (.opened cooldownUntil readings) =
        (.error error, s) →
      (∀ name, deps.fallbackProvider = some name → name ∈ deps.registered → primary = name) →
      Asks request cooldownUntil (.error error, s)
  | both {primary name : ProviderName} {readings : ℕ} {error : Thrown} {s : CallState} :
      resolveProvider deps world request cooldownUntil = (.ok primary, readings) →
      tryGenerateWithRetry deps world primary false (.opened cooldownUntil readings) =
        (.error error, s) →
      deps.fallbackProvider = some name → name ∈ deps.registered → primary ≠ name →
      Asks request cooldownUntil (withTrace request (tryGenerateWithRetry deps world name true s))

theorem asks_generateWithProviders (request : Request) (cooldownUntil : Cooldowns) :
    Asks deps world request cooldownUntil
      (generateWithProviders deps world request cooldownUntil) := by
  unfold generateWithProviders
  split
  · next error readings hresolve =>
    unfold generateWithFallback
    split
    · next hnone =>
      refine .nobody hresolve fun name hname => ?_
      rw [hnone] at hname
      cases hname
    · next name hname =>
      split
      · next hnot =>
        refine .nobody hresolve fun name' hname' => ?_
        obtain rfl := Option.some.inj (hname.symm.trans hname')
        exact hnot
      · next hregistered =>
        rw [if_neg nofun]
        exact .fallback hresolve hname (not_not.mp hregistered)
  · next primary readings hresolve =>
    split
    · next out s hasked => exact .primary hresolve hasked
    · next error s hasked =>
      unfold generateWithFallback
      split
      · next hnone =>
        refine .primaryFails hresolve hasked fun name hname => ?_
        rw [hnone] at hname
        cases hname
      · next name hname =>
        split
        · next hnot =>
          refine .primaryFails hresolve hasked fun name' hname' hregistered => ?_
          obtain rfl := Option.some.inj (hname.symm.trans hname')
          exact absurd hregistered hnot
        · next hregistered =>
          split
          · next heq =>
            refine .primaryFails hresolve hasked fun name' hname' _ => ?_
            exact Option.some.inj (heq.trans (hname.symm.trans hname'))
          · next hne =>
            exact .both hresolve hasked hname (not_not.mp hregistered) fun heq =>
              hne (congrArg some heq)

end MemphisOS.Orchestration
