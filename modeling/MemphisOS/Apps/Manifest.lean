import MemphisOS.Chain.Confinement
import MemphisOS.Vault.Adapter

/-!
# Managed apps

The manifest of an app names its actions, the requirements of the platform, and templates for
paths and commands, in which references to variables are replaced.
-/

namespace MemphisOS.Apps

open Ecma Files.Paths

/-- The variables that are set. -/
abbrev Env := JsString → Option JsString

/-- `{ ...env, ...overrides }`. -/
def Env.override (env overrides : Env) : Env := fun name => (overrides name).or (env name)

/-- What `spawnSync('bash', ['-lc', script], options)` gives; a killed process has no status. -/
structure Spawned where
  status : Option ℕ
  stdout : Option JsString
  stderr : Option JsString

/-- What the functions use of the platform. -/
structure AppsHost extends VaultAdapter.VaultHost where
  /-- `left.localeCompare(right)`. -/
  localeCompare : JsString → JsString → ℤ
  cwd : WorkingDirectory
  homedir : JsString
  /-- `process.env`. -/
  processEnv : Env
  /-- `process.platform`. -/
  platform : JsString
  /-- `process.versions.node`. -/
  nodeVersion : JsString
  /-- Runs a script in a directory with an environment. -/
  spawnBash : JsString → Option JsString → Env → Spawned

/-! ## Manifests -/

inductive ManagedAppCapability where
  | workspace
  | memory
  | browser
  | mcp
  | secrets
  | service
  deriving DecidableEq

inductive ManagedAppPlatform where
  | linux
  | darwin
  | win32

def ManagedAppPlatform.text : ManagedAppPlatform → String
  | linux => "linux"
  | darwin => "darwin"
  | win32 => "win32"

structure ManagedAppRuntimeCommand where
  name : JsString
  required : Bool
  detail : Option JsString

structure VaultFileBinding where
  key : JsString
  mode : Option JsString

structure ManagedAppAction where
  summary : JsString
  cwd : Option JsString
  steps : List JsString
  env : List (JsString × JsString)
  requiresEnv : List JsString
  vaultEnv : List (JsString × JsString)
  vaultFiles : List (JsString × VaultFileBinding)

structure ManagedAppNode where
  minVersion : JsString
  recommendedVersion : Option JsString

structure ManagedAppRuntime where
  node : Option ManagedAppNode
  commands : List ManagedAppRuntimeCommand
  systemdUserService : Bool

inductive ExposedPath where
  | home
  | state
  | config

/-- The paths of a manifest are templates. -/
structure ManagedAppPaths where
  home : JsString
  state : JsString
  config : JsString
  expose : List (JsString × ExposedPath)

structure ManagedAppManifest where
  id : JsString
  name : JsString
  description : JsString
  homepage : Option JsString
  capabilities : List ManagedAppCapability
  platforms : List ManagedAppPlatform
  runtime : ManagedAppRuntime
  paths : ManagedAppPaths
  actions : List (JsString × ManagedAppAction)
  notes : List JsString

inductive ManagedAppManifestSource where
  | builtin
  | file (path : JsString)

structure ManagedAppManifestRef where
  manifest : ManagedAppManifest
  source : ManagedAppManifestSource

inductive Status where
  | pass
  | warn
  | fail
  deriving DecidableEq

structure ManagedAppRequirementStatus where
  id : JsString
  status : Status
  ok : Bool
  required : Bool
  detail : JsString

structure ManagedAppResolvedPaths where
  dataDir : JsString
  manifestsDir : JsString
  appsDir : JsString
  appRoot : JsString
  home : JsString
  state : JsString
  config : JsString

/-! ## Templates -/

/-- A unit of the class `[A-Z0-9_]`. -/
def isNameUnit (u : UInt16) : Bool :=
  (0x41 ≤ u.toNat && u.toNat ≤ 0x5A) || (0x30 ≤ u.toNat && u.toNat ≤ 0x39) || u.toNat = 0x5F

/-- The name in the reference a string starts with: a dollar sign and a name in braces. -/
def referenceName : JsString → Option JsString
  | 0x24 :: 0x7B :: rest =>
    let name := rest.takeWhile isNameUnit
    if name ≠ [] ∧ (rest.drop name.length).head? = some 0x7D then some name else none
  | _ => none

/-- Replaces references after the units that belong to the last one. -/
def interpolateFrom (vars : List (JsString × JsString)) : ℕ → JsString → JsString
  | _, [] => []
  | skip + 1, _ :: rest => interpolateFrom vars skip rest
  | 0, u :: rest =>
    match referenceName (u :: rest) with
    | some name => (vars.lookup name).getD [] ++ interpolateFrom vars (name.length + 2) rest
    | none => u :: interpolateFrom vars 0 rest

def interpolateTemplate (template : JsString) (vars : List (JsString × JsString)) : JsString :=
  interpolateFrom vars 0 template

/-! ## Versions -/

/-- `Number(part) || 0`. -/
def versionPart (part : JsString) : JsNumber :=
  let n := part.toNumber
  if n = .nan ∨ n.dropZeroSign = .ofNat 0 then .ofNat 0 else n

def compareVersions (left right : JsString) : ℤ :=
  let leftParts := (left.splitOn 0x2E).map versionPart
  let rightParts := (right.splitOn 0x2E).map versionPart
  let width := max leftParts.length rightParts.length
  ((List.range width).findSome? fun index =>
    let a := leftParts.getD index (.ofNat 0)
    let b := rightParts.getD index (.ofNat 0)
    if b.lt a then some 1 else if a.lt b then some (-1) else none).getD 0

/-! ## Guidance -/

def guidanceText : ManagedAppCapability → JsString
  | .workspace => js "Workspace: initialize or sync a local project root with " ++ [0x60] ++
      js "memphis workspace init ./brain --json" ++ [0x60] ++ js " and " ++ [0x60] ++
      js "memphis context sync ./brain --json" ++ [0x60] ++ js "."
  | .memory => js "Memory: keep vector stores or indexes downstream and prefer the workspace " ++
      [0x60] ++ js "memory/" ++ [0x60] ++ js " directory for local state."
  | .browser => js "Browser: keep browser adapters downstream and expose them through managed " ++
      js "app actions instead of baking browser logic into MemphisOS core."
  | .mcp => js "MCP: expose a clear " ++ [0x60] ++ js "status" ++ [0x60] ++ js " or " ++ [0x60] ++
      js "doctor" ++ [0x60] ++ js " action for the downstream MCP endpoint; Memphis built-in MCP " ++
      js "health is reported separately by " ++ [0x60] ++ js "memphis doctor" ++ [0x60] ++ js "."
  | .secrets => js "Secrets: broker credentials through the Memphis vault and " ++ [0x60] ++
      js "vaultEnv" ++ [0x60] ++ js "/" ++ [0x60] ++ js "vaultFiles" ++ [0x60] ++
      js " bindings rather than committed env files."
  | .service => js "Service: prefer a supervised long-running process such as a systemd --user " ++
      js "service and verify it through explicit lifecycle actions."

def guidanceForManagedAppCapabilities (capabilities : List ManagedAppCapability) :
    List JsString :=
  ([.workspace, .memory, .browser, .mcp, .secrets, .service].filter (· ∈ capabilities)).map
    guidanceText

/-! ## Paths and variables -/

variable (host : AppsHost)

/-- The process with the variables of an environment. -/
def processWith (rawEnv : Env) : Chain.Process := ⟨host.cwd, host.homedir, fun name => rawEnv (js name)⟩

def getAppsPath (rawEnv : Env) : JsString :=
  join [Chain.getDataDir (processWith host rawEnv), js "apps"]

def manifestsDir (rawEnv : Env) : JsString := join [getAppsPath host rawEnv, js "manifests"]

def resolveManagedAppPaths (manifest : ManagedAppManifest) (rawEnv : Env) :
    ManagedAppResolvedPaths :=
  let dataDir := Chain.getDataDir (processWith host rawEnv)
  let appsDir := getAppsPath host rawEnv
  let appRoot := join [appsDir, manifest.id]
  let baseVars := [(js "MEMPHIS_DATA_DIR", dataDir), (js "MEMPHIS_APPS_DIR", appsDir),
    (js "APP_ID", manifest.id), (js "APP_ROOT", appRoot)]
  let resolved := fun template => resolve host.cwd [interpolateTemplate template baseVars]
  { dataDir
    manifestsDir := manifestsDir host rawEnv
    appsDir, appRoot
    home := resolved manifest.paths.home
    state := resolved manifest.paths.state
    config := resolved manifest.paths.config }

/-- The path a variable exposes. -/
def ManagedAppResolvedPaths.exposed (paths : ManagedAppResolvedPaths) : ExposedPath → JsString
  | .home => paths.home
  | .state => paths.state
  | .config => paths.config

def exportedEnvForManifest (manifest : ManagedAppManifest) (paths : ManagedAppResolvedPaths) :
    List (JsString × JsString) :=
  manifest.paths.expose.foldl
    (fun vars entry => setMember entry.1 (paths.exposed entry.2) vars)
    [(js "MEMPHIS_DATA_DIR", paths.dataDir), (js "MEMPHIS_APPS_DIR", paths.appsDir),
      (js "APP_ID", manifest.id), (js "APP_ROOT", paths.appRoot), (js "APP_HOME", paths.home),
      (js "APP_STATE_DIR", paths.state), (js "APP_CONFIG_PATH", paths.config),
      (js "MEMPHIS_MANAGED_APP", js "1")]

/-! ## Requirements -/

def checkCommandAvailable (name : JsString) (rawEnv : Env) : Bool :=
  (host.spawnBash (js "command -v " ++ name) none (host.processEnv.override rawEnv)).status = some 0

/-- The requirement on the platform. -/
def platformRequirement (manifest : ManagedAppManifest) : ManagedAppRequirementStatus :=
  let ok := manifest.platforms.any fun platform => js platform.text = host.platform
  { id := js "platform"
    status := if ok then .pass else .fail
    ok
    required := true
    detail :=
      if ok then js "platform supported: " ++ host.platform
      else js "platform " ++ host.platform ++ js " not in supported set: " ++
        (js ", ").intercalate (manifest.platforms.map fun platform => js platform.text) }

/-- The requirements on the version of node. -/
def nodeRequirements (node : ManagedAppNode) : List ManagedAppRequirementStatus :=
  let current := host.nodeVersion
  let minOk := 0 ≤ compareVersions current node.minVersion
  { id := js "node-min-version"
    status := if minOk then .pass else .fail
    ok := minOk
    required := true
    detail :=
      if minOk then js "node " ++ current ++ js " satisfies minimum " ++ node.minVersion
      else js "node " ++ current ++ js " is below minimum " ++ node.minVersion } ::
  match node.recommendedVersion with
  | none | some [] => []
  | some recommendedVersion =>
    let recommendedOk := 0 ≤ compareVersions current recommendedVersion
    [{ id := js "node-recommended-version"
       status := if recommendedOk then .pass else .warn
       ok := recommendedOk
       required := false
       detail :=
        if recommendedOk then
          js "node " ++ current ++ js " satisfies recommended " ++ recommendedVersion
        else js "node " ++ current ++ js " is below recommended " ++ recommendedVersion }]

def commandRequirement (rawEnv : Env) (command : ManagedAppRuntimeCommand) :
    ManagedAppRequirementStatus :=
  let ok := checkCommandAvailable host command.name rawEnv
  { id := js "command:" ++ command.name
    status := if ok then .pass else if command.required then .fail else .warn
    ok
    required := command.required
    detail :=
      if ok then command.name ++ js " available"
      else command.name ++ js " missing" ++
        match command.detail with
        | none | some [] => []
        | some detail => js " (" ++ detail ++ js ")" }

def systemdRequirement (rawEnv : Env) : ManagedAppRequirementStatus :=
  let ok := checkCommandAvailable host (js "systemctl") rawEnv
  { id := js "systemd-user-service"
    status := if ok then .pass else .fail
    ok
    required := true
    detail :=
      if ok then js "systemctl available for Linux user-service workflows"
      else js "systemctl missing; Linux user-service workflows will not work" }

def checkManagedAppRequirements (manifest : ManagedAppManifest) (rawEnv : Env) :
    List ManagedAppRequirementStatus :=
  platformRequirement host manifest ::
    (match manifest.runtime.node with
      | none => []
      | some node => nodeRequirements host node) ++
    manifest.runtime.commands.map (commandRequirement host rawEnv) ++
    if manifest.runtime.systemdUserService then [systemdRequirement host rawEnv] else []

end MemphisOS.Apps
