import MemphisOS.Apps.Manifest
import MemphisOS.Decision.Lifecycle
import MemphisOS.Gateway.ExecPolicy

/-!
# Plans and their execution

A plan lists what an action requires, the secrets it binds and the steps it takes. An execution
plans the action, and resolves the templates of its secret files once more before it writes them.
-/

namespace MemphisOS.Apps

open Ecma Files.Paths Bridge VaultAdapter

/-! ## Secrets -/

/-- The vault under an environment: the file of its entries, if there is one, and `vaultDecrypt`,
which gives a plaintext or throws an error with a message. -/
structure Vault where
  entriesFile : Option (List UInt8)
  vaultDecrypt : Plain → Except JsString JsString

variable (host : AppsHost) (vault : Vault)

def listVaultEntries (key : JsString) : List Plain :=
  let all := readAll host.toVaultHost vault.entriesFile
  if key = [] then all else all.filter fun entry => stringProperty entry "key" = some key

def getLatestVaultEntry (key : JsString) : Option Plain := (listVaultEntries host vault key).getLast?

def verifyVaultEntry (entry : Plain) : Bool :=
  stringProperty entry "fingerprint" = some (computeFingerprint host.toVaultHost entry)

/-- What the steps from a vault key to its secret lead to. -/
inductive SecretReading where
  | missing
  | unverified
  | failed (message : JsString)
  | resolved (plaintext : JsString)

/-- The latest entry of a key is verified and decrypted. -/
def readSecret (key : JsString) : SecretReading :=
  match getLatestVaultEntry host vault key with
  | none => .missing
  | some latest =>
    if !verifyVaultEntry host latest then .unverified
    else
      match vault.vaultDecrypt latest with
      | .error message => .failed message
      | .ok plaintext => .resolved plaintext

inductive BindingTarget where
  | env
  | file
  deriving DecidableEq

inductive BindingSource where
  | env
  | vault

structure ManagedAppSecretBindingStatus where
  target : BindingTarget
  envName : JsString
  path : Option JsString
  source : BindingSource
  vaultKey : Option JsString
  mode : Option JsString
  status : Status
  ok : Bool
  detail : JsString

def envBinding (envName vaultKey : JsString) (source : BindingSource) (ok : Bool)
    (detail : JsString) : ManagedAppSecretBindingStatus where
  target := .env
  envName := envName
  path := none
  source := source
  vaultKey := some vaultKey
  mode := none
  status := if ok then .pass else .fail
  ok := ok
  detail := detail

def fileBinding (path : JsString) (binding : VaultFileBinding) (ok : Bool) (detail : JsString) :
    ManagedAppSecretBindingStatus where
  target := .file
  envName := []
  path := some path
  source := .vault
  vaultKey := some binding.key
  mode := binding.mode
  status := if ok then .pass else .fail
  ok := ok
  detail := detail

/-- A requirement on a secret or a variable. -/
def secretRequirement (id : JsString) (ok : Bool) (detail : JsString) :
    ManagedAppRequirementStatus where
  id := id
  status := if ok then .pass else .fail
  ok := ok
  required := true
  detail := detail

/-- A variable that is set to more than white space. -/
def configured (env : Env) (name : JsString) : Option JsString :=
  (env name).filter fun value => value.trim ≠ []

/-- What one of several secrets gives: its value or file, its binding and its requirement. -/
structure Resolved (α : Type) where
  result : Option α
  binding : ManagedAppSecretBindingStatus
  requirement : ManagedAppRequirementStatus

/-- Entries in the order of `localeCompare` on their keys. -/
def sortEntries {α : Type} (entries : List (JsString × α)) : List (JsString × α) :=
  entries.mergeSort fun left right => host.localeCompare left.1 right.1 ≤ 0

/-- One turn of the loop over the variables that are bound to secrets. -/
def resolveVaultEnvEntry (rawEnv : Env) (envName vaultKey : JsString) :
    Resolved (JsString × JsString) :=
  let requirement := secretRequirement (js "secret-env:" ++ envName)
  match configured rawEnv envName with
  | some directValue =>
    { result := some (envName, directValue)
      binding := envBinding envName vaultKey .env true
        (envName ++ js " provided directly via environment")
      requirement := requirement true (envName ++ js " available directly; vault key " ++ vaultKey ++
        js " not needed for this run") }
  | none =>
    match readSecret host vault vaultKey with
    | .missing =>
      { result := none
        binding := envBinding envName vaultKey .vault false
          (envName ++ js " missing; add vault key " ++ vaultKey ++ js " or export " ++ envName)
        requirement := requirement false
          (envName ++ js " unavailable; no vault entry found for " ++ vaultKey) }
    | .unverified =>
      { result := none
        binding := envBinding envName vaultKey .vault false
          (envName ++ js " vault entry failed fingerprint verification")
        requirement := requirement false (envName ++ js " unavailable; vault entry " ++ vaultKey ++
          js " failed fingerprint verification") }
    | .failed message =>
      { result := none
        binding := envBinding envName vaultKey .vault false
          (envName ++ js " vault resolution failed: " ++ message)
        requirement := requirement false (envName ++ js " unavailable; vault key " ++ vaultKey ++
          js " failed to decrypt (" ++ message ++ js ")") }
    | .resolved plaintext =>
      { result := some (envName, plaintext)
        binding := envBinding envName vaultKey .vault true
          (envName ++ js " resolved from vault key " ++ vaultKey)
        requirement := requirement true (envName ++ js " resolved from vault key " ++ vaultKey) }

def resolveActionVaultEnv (action : ManagedAppAction) (rawEnv : Env) :
    List (Resolved (JsString × JsString)) :=
  (sortEntries host action.vaultEnv).map fun entry =>
    resolveVaultEnvEntry host vault rawEnv entry.1 entry.2

structure SecretFile where
  path : JsString
  content : JsString
  mode : Option JsString

/-- The path a template leads to. -/
def resolveTemplate (template : JsString) (vars : List (JsString × JsString)) : JsString :=
  resolve host.cwd [interpolateTemplate template vars]

/-- One turn of the loop over the files that are bound to secrets. -/
def resolveVaultFileEntry (filePath : JsString) (binding : VaultFileBinding) :
    Resolved SecretFile :=
  let requirement := secretRequirement (js "secret-file:" ++ filePath)
  match readSecret host vault binding.key with
  | .missing =>
    { result := none
      binding := fileBinding filePath binding false
        (filePath ++ js " missing; add vault key " ++ binding.key)
      requirement := requirement false
        (filePath ++ js " unavailable; no vault entry found for " ++ binding.key) }
  | .unverified =>
    { result := none
      binding := fileBinding filePath binding false
        (filePath ++ js " vault entry failed fingerprint verification")
      requirement := requirement false (filePath ++ js " unavailable; vault entry " ++ binding.key ++
        js " failed fingerprint verification") }
  | .failed message =>
    { result := none
      binding := fileBinding filePath binding false
        (filePath ++ js " vault resolution failed: " ++ message)
      requirement := requirement false (filePath ++ js " unavailable; vault key " ++ binding.key ++
        js " failed to decrypt (" ++ message ++ js ")") }
  | .resolved content =>
    { result := some ⟨filePath, content, binding.mode⟩
      binding := fileBinding filePath binding true
        (filePath ++ js " resolved from vault key " ++ binding.key)
      requirement := requirement true (filePath ++ js " resolved from vault key " ++ binding.key) }

def resolveActionVaultFiles (action : ManagedAppAction) (templateVars : List (JsString × JsString)) :
    List (Resolved SecretFile) :=
  (sortEntries host action.vaultFiles).map fun entry =>
    resolveVaultFileEntry host vault (resolveTemplate host entry.1 templateVars) entry.2

/-- The variables that are injected. -/
def injectedEnv (resolution : List (Resolved (JsString × JsString))) : Env :=
  fun name => (resolution.filterMap Resolved.result).lookup name

def checkActionEnvRequirements (action : ManagedAppAction) (env : Env) :
    List ManagedAppRequirementStatus :=
  action.requiresEnv.map fun name =>
    let ok := (configured env name).isSome
    secretRequirement (js "env:" ++ name) ok
      (name ++ js (if ok then " configured" else " is required for this action"))

/-! ## Plans -/

inductive Thrown where
  | app (error : AppError)
  | typeError

/-- The action of a name. What an object inherits is found as well, and has no secrets to list. -/
def resolveAction (manifest : ManagedAppManifest) (actionName : JsString) :
    Except Thrown ManagedAppAction :=
  match manifest.actions.lookup actionName with
  | some action => .ok action
  | none =>
    if actionName ∈ Decision.objectPrototype then .error .typeError
    else .error (.app ⟨.validationError, js "managed app action not found: " ++ actionName, 404⟩)

structure PlanOptions where
  rawEnv : Option Env
  apply : Bool

structure ManagedAppPlan where
  ok : Bool
  supportedPlatform : Bool
  id : JsString
  name : JsString
  description : JsString
  homepage : Option JsString
  capabilities : List ManagedAppCapability
  capabilityGuidance : List JsString
  source : ManagedAppManifestSource
  action : JsString
  summary : JsString
  applyRequested : Bool
  willExecute : Bool
  paths : ManagedAppResolvedPaths
  exportedEnv : List (JsString × JsString)
  secretBindings : List ManagedAppSecretBindingStatus
  cwd : JsString
  steps : List JsString
  requirements : List ManagedAppRequirementStatus
  notes : List JsString

/-- `options.rawEnv ?? process.env`. -/
def PlanOptions.env (options : PlanOptions) : Env := options.rawEnv.getD host.processEnv

/-- The variables of the templates of a plan. -/
def templateVars (manifest : ManagedAppManifest) (rawEnv : Env) : List (JsString × JsString) :=
  let paths := resolveManagedAppPaths host manifest rawEnv
  setMember (js "MEMPHIS_MANIFESTS_DIR") paths.manifestsDir (exportedEnvForManifest manifest paths)

/-- The variables overridden by those of the action. -/
def withActionEnv (action : ManagedAppAction) (vars : List (JsString × JsString)) :
    List (JsString × JsString) :=
  action.env.foldl (fun env entry => setMember entry.1 (interpolateTemplate entry.2 vars) env) vars

def planAction (ref : ManagedAppManifestRef) (actionName : JsString) (options : PlanOptions)
    (action : ManagedAppAction) : ManagedAppPlan :=
  let rawEnv := options.env host
  let manifest := ref.manifest
  let paths := resolveManagedAppPaths host manifest rawEnv
  let vars := templateVars host manifest rawEnv
  let secrets := resolveActionVaultEnv host vault action rawEnv
  let files := resolveActionVaultFiles host vault action vars
  let requirements := checkManagedAppRequirements host manifest rawEnv ++
    secrets.map Resolved.requirement ++ files.map Resolved.requirement ++
    checkActionEnvRequirements action (rawEnv.override (injectedEnv secrets))
  let ok := requirements.all fun status => !status.required || status.ok
  { ok
    supportedPlatform :=
      ((requirements.find? (·.id = js "platform")).map (·.ok)).getD true
    id := manifest.id
    name := manifest.name
    description := manifest.description
    homepage := manifest.homepage
    capabilities := manifest.capabilities
    capabilityGuidance := guidanceForManagedAppCapabilities manifest.capabilities
    source := ref.source
    action := actionName
    summary := action.summary
    applyRequested := options.apply
    willExecute := options.apply && ok
    paths
    exportedEnv := withActionEnv action vars
    secretBindings := secrets.map Resolved.binding ++ files.map Resolved.binding
    cwd := resolveTemplate host (action.cwd.getD paths.home) vars
    steps := action.steps.map (interpolateTemplate · vars)
    requirements
    notes := manifest.notes }

def planManagedAppAction (ref : ManagedAppManifestRef) (actionName : JsString)
    (options : PlanOptions) : Except Thrown ManagedAppPlan :=
  (resolveAction ref.manifest actionName).map (planAction host vault ref actionName options)

/-! ## Execution -/

structure ManagedAppStepResult where
  step : JsString
  cwd : JsString
  exitCode : ℕ
  stdout : JsString
  stderr : JsString

structure ManagedAppExecutionResult extends ManagedAppPlan where
  executed : Bool
  results : List ManagedAppStepResult

/-- A file that has been written. -/
structure WrittenFile where
  path : JsString
  content : JsString
  permissions : ℕ

/-- `Number.parseInt(mode, 8)` of octal digits. -/
def parseOctal (mode : JsString) : ℕ := mode.foldl (fun n u => 8 * n + (u.toNat - 48)) 0

/-- The files that are written, one after another. -/
def materializeSecretFiles (files : List SecretFile) : List WrittenFile :=
  files.map fun file => ⟨file.path, file.content, parseOctal (file.mode.getD (js "600"))⟩

/-- The directory of global commands of npm. -/
def npmGlobalBin (rawEnv : Env) : Option JsString :=
  let result := host.spawnBash (js "npm prefix -g") none (host.processEnv.override rawEnv)
  let directory := (result.stdout.getD []).trim
  if result.status ≠ some 0 ∨ directory = [] then none else some (join [directory, js "bin"])

/-- What an execution does, whether it returns or throws. -/
structure Execution where
  /-- What resolving the secret files gave, once it has been done. -/
  secretFiles : List (Resolved SecretFile)
  written : List WrittenFile
  outcome : Except Thrown ManagedAppExecutionResult

def stepFailed (step : JsString) : Thrown :=
  .app ⟨.internalError, js "managed app action failed: " ++ step, 500⟩

/-- The loop over the steps, up to the first that fails. -/
def runSteps (cwd : JsString) (env : Env) : List JsString → Except Thrown (List ManagedAppStepResult)
  | [] => .ok []
  | step :: steps =>
    let run := host.spawnBash step (some cwd) env
    let result : ManagedAppStepResult :=
      ⟨step, cwd, run.status.getD 1, run.stdout.getD [], run.stderr.getD []⟩
    if result.exitCode ≠ 0 then .error (stepFailed step)
    else (runSteps cwd env steps).map (result :: ·)

/-- The environment of the steps. -/
def stepEnv (plan : ManagedAppPlan) (rawEnv injected : Env) : Env :=
  let mergedEnv := ((host.processEnv.override rawEnv).override
    fun name => plan.exportedEnv.lookup name).override injected
  match npmGlobalBin host rawEnv with
  | none => mergedEnv
  | some globalNpmBin => mergedEnv.override fun name =>
      if name = js "PATH" then
        some (globalNpmBin ++ js ":" ++
          ((mergedEnv (js "PATH")).or (host.processEnv (js "PATH"))).getD [])
      else none

def requirementsFailed (plan : ManagedAppPlan) : Thrown :=
  let failed := (plan.requirements.filter fun status => status.required && !status.ok).map (·.detail)
  .app ⟨.validationError,
    js "managed app action cannot run until requirements pass: " ++ (js "; ").intercalate failed, 400⟩

def executeAction (ref : ManagedAppManifestRef) (actionName : JsString) (options : PlanOptions)
    (action : ManagedAppAction) : Execution :=
  let plan := planAction host vault ref actionName options action
  if !options.apply then ⟨[], [], .ok ⟨plan, false, []⟩⟩
  else if !plan.ok then ⟨[], [], .error (requirementsFailed plan)⟩
  else
    let rawEnv := options.env host
    let secrets := resolveActionVaultEnv host vault action rawEnv
    let vars := setMember (js "MEMPHIS_MANIFESTS_DIR") plan.paths.manifestsDir plan.exportedEnv
    let secretFiles := resolveActionVaultFiles host vault action vars
    { secretFiles
      written := materializeSecretFiles (secretFiles.filterMap Resolved.result)
      outcome := (runSteps host plan.cwd (stepEnv host plan rawEnv (injectedEnv secrets))
        plan.steps).map (⟨plan, true, ·⟩) }

def executeManagedAppAction (ref : ManagedAppManifestRef) (actionName : JsString)
    (options : PlanOptions) : Execution :=
  match resolveAction ref.manifest actionName with
  | .error thrown => ⟨[], [], .error thrown⟩
  | .ok action => executeAction host vault ref actionName options action

end MemphisOS.Apps
