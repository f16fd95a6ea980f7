import MemphisOS.Gateway.Server
import MemphisOS.Http.Guard

/-!
# The readers of the safe mode flag

The startup check trims the flag before it compares it. The server, the orchestration, the agent
and the gateway compare it as it is, so that they miss a flag with white space around it.
-/

namespace MemphisOS.SafeMode

open Ecma Agent Gateways

variable {rawEnv : Environment}

/-! ## Startup -/

/-- `parseBool` of the startup checks. -/
def parseBool (value : Option JsString) (fallback : Bool) : Bool :=
  match value with
  | none => fallback
  | some value => value.trim.lowersTo "true"

/-- `safeModeEnabled` of the startup checks. -/
def safeModeEnabled (rawEnv : Environment) : Bool := parseBool (rawEnv "MEMPHIS_SAFE_MODE") false

/-! ## The other readers -/

/-- The flag as the other readers see it. -/
def spellsTrue (rawEnv : Environment) : Bool :=
  ((rawEnv "MEMPHIS_SAFE_MODE").getD []).lowersTo "true"

/-- Every other reader takes safe mode as on. -/
structure ReadersAgree (rawEnv : Environment) : Prop where
  server : Http.safeModeEnabled rawEnv = true
  orchestration : generationForbidden rawEnv = true
  agent : inSafeMode rawEnv = true
  gateway : gatewaySafeMode rawEnv = true

/-- Nothing that safe mode forbids is possible. -/
structure Enforced (rawEnv : Environment) : Prop extends ReadersAgree rawEnv where
  routes : ∀ (server : Http.Server) (request : Http.Request), server.env = rawEnv →
    Http.isSafeModeAllowedRoute request.method (Http.normalizeRoutePath request.url) = false →
      Http.onRequest server request ≠ .admitted
  generation : ∀ input, generate rawEnv input = .refused forbiddenGeneration
  exec : ∀ host command opts, (exec rawEnv host command opts).commands = []
  execAsync : ∀ host command cwd, (execAsync rawEnv host command cwd).commands = []
  launchApp : ∀ host name command cwd env,
    (launchApp rawEnv host name command cwd env).commands = []
  pullOllamaModel : ∀ host model, (pullOllamaModel rawEnv host model).commands = []
  ensureOllama : ∀ host running, (ensureOllama rawEnv host running).commands = []
  requests : ∀ host gateway request, (serve rawEnv host gateway request).commands = [] ∧
    (serve rawEnv host gateway request).generates = none

/-- The guards cover the operations behind them. -/
theorem enforced_of_spellsTrue (h : spellsTrue rawEnv = true) : Enforced rawEnv := by
  have hagent : inSafeMode rawEnv = true := h
  exact
    { server := h
      orchestration := h
      agent := h
      gateway := h
      routes := by
        rintro server request rfl hroute
        exact Http.not_admitted h hroute
      generation := fun input => if_pos h
      exec := fun host command opts => by rw [Agent.exec, if_pos hagent]
      execAsync := fun host command cwd => by rw [Agent.execAsync, if_pos hagent]
      launchApp := fun host name command cwd env => by rw [Agent.launchApp, if_pos hagent]
      pullOllamaModel := fun host model => by rw [Agent.pullOllamaModel, if_pos hagent]
      ensureOllama := fun host running => by rw [Agent.ensureOllama, if_pos hagent]
      requests := fun host gateway request => serve_harmless rawEnv host h gateway request }

/-! ## White space -/

/-- The letters of `true` are no white space in either case. -/
theorem isSpaceUnit_eq_false {u : UInt16} (h : JsString.lowerUnit u ∈ js "true") :
    JsString.isSpaceUnit u = false := by
  have hletter : (65 ≤ u.toNat ∧ u.toNat ≤ 90) ∨ (97 ≤ u.toNat ∧ u.toNat ≤ 122) := by
    unfold JsString.lowerUnit at h
    split at h
    · next hupper =>
      exact .inl ⟨UInt16.le_iff_toNat_le.mp hupper.1, UInt16.le_iff_toNat_le.mp hupper.2⟩
    · have hall : (js "true").all (fun v => 97 ≤ v.toNat && v.toNat ≤ 122) = true := rfl
      have hu := List.all_eq_true.mp hall u h
      rw [Bool.and_eq_true, decide_eq_true_eq, decide_eq_true_eq] at hu
      exact .inr hu
  have hcode : (charOfUnit u).toNat = u.toNat := toNat_ofNat_char (by omega)
  rw [JsString.isSpaceUnit, isJsSpace, hcode]
  simp only [List.mem_cons, List.not_mem_nil, or_false, Bool.or_eq_false_iff, decide_eq_false_iff_not,
    Bool.and_eq_false_iff]
  omega

/-- A spelling of `true` has nothing to trim. -/
theorem trim_eq_of_lowersTo {value : JsString} (h : value.lowersTo "true" = true) :
    value.trim = value := by
  have h : value.map JsString.lowerUnit = js "true" := of_decide_eq_true h
  exact JsString.trim_eq_self fun u hu => isSpaceUnit_eq_false (h ▸ List.mem_map_of_mem hu)

/-- **The readers agree on flags without white space around them.** Where startup takes safe
mode as on it is enforced, exactly when no flag needs to be trimmed to spell `true`. -/
theorem enforced_iff (rawEnv : Environment) :
    (safeModeEnabled rawEnv = true → Enforced rawEnv) ↔
      ∀ value, rawEnv "MEMPHIS_SAFE_MODE" = some value → value.trim.lowersTo "true" = true →
        value.trim = value := by
  constructor
  · intro h value hvalue htrue
    have henabled : safeModeEnabled rawEnv = true := by
      rw [safeModeEnabled, hvalue]
      exact htrue
    have hserver := (h henabled).server
    rw [Http.safeModeEnabled, hvalue] at hserver
    exact trim_eq_of_lowersTo hserver
  · intro h henabled
    refine enforced_of_spellsTrue ?_
    rw [safeModeEnabled] at henabled
    cases hvalue : rawEnv "MEMPHIS_SAFE_MODE" with
    | none =>
      rw [hvalue] at henabled
      cases henabled
    | some value =>
      rw [hvalue] at henabled
      have htrim := h value hvalue henabled
      rw [spellsTrue, hvalue]
      exact (congrArg (JsString.lowersTo · "true") htrim).symm.trans henabled

/-! ## A flag with white space -/

/-- The flag has a space in front and one behind. -/
def sampleEnvironment : Environment := fun name =>
  if name = "MEMPHIS_SAFE_MODE" then some (js " true ") else none

/-- A process that reports safe mode generates. -/
theorem spaced_flag_generates : safeModeEnabled sampleEnvironment = true ∧
    (∀ input, generate sampleEnvironment input = .executes input) ∧
      ¬Enforced sampleEnvironment := by
  have hignored : generationForbidden sampleEnvironment = false := by decide
  refine ⟨by decide, fun input => ?_, fun h => ?_⟩
  · rw [generate, hignored]
    rfl
  · have horchestration := h.orchestration
    rw [hignored] at horchestration
    cases horchestration

end MemphisOS.SafeMode
