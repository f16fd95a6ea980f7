import MemphisOS.Apps.Plan
import MemphisOS.Vault.Durability

/-!
# Plans keep secrets

A plan tells that a secret is there, and whether it is more than white space. What else it is, no
part of a plan depends on.
-/

namespace MemphisOS.Apps

open Ecma Files.Paths Bridge VaultAdapter

/-- Secrets that are equal, or that are both more than white space. -/
inductive Alike : JsString → JsString → Prop
  | same (value : JsString) : Alike value value
  | nonBlank {value value' : JsString} (h : value.trim ≠ []) (h' : value'.trim ≠ []) :
      Alike value value'

/-- Keys that lead to the same, up to the secrets. -/
inductive SecretReading.Alike : SecretReading → SecretReading → Prop
  | same (reading : SecretReading) : SecretReading.Alike reading reading
  | resolved {secret secret' : JsString} (h : Apps.Alike secret secret') :
      SecretReading.Alike (.resolved secret) (.resolved secret')

/-- The vaults hold the same keys with the same validity, and differ in secrets that are more than
white space at most. -/
def Vault.SameButSecrets (host : AppsHost) (v w : Vault) : Prop :=
  ∀ key, (readSecret host v key).Alike (readSecret host w key)

variable {host : AppsHost} {v w : Vault} {rawEnv : Env}

/-! ## Secrets in the environment -/

/-- Variables that are unset together, or set to alike secrets. -/
def AlikeVariables (a b : Option JsString) : Prop := Option.Rel Alike a b

theorem AlikeVariables.refl (a : Option JsString) : AlikeVariables a a := by
  cases a with
  | none => exact .none
  | some value => exact .some (.same value)

/-- A variable passes the check for white space with both values. -/
theorem AlikeVariables.isSome_filter {a b : Option JsString} (h : AlikeVariables a b) :
    (a.filter fun value => value.trim ≠ []).isSome =
      (b.filter fun value => value.trim ≠ []).isSome := by
  cases h with
  | none => rfl
  | some halike =>
    cases halike with
    | same => rfl
    | nonBlank ha hb => simp [ha, hb]

theorem AlikeVariables.or {a b c : Option JsString} (h : AlikeVariables a b) :
    AlikeVariables (a.or c) (b.or c) := by
  cases h with
  | none => exact .refl c
  | some halike => exact .some halike

/-- What is injected for one variable. -/
inductive AlikeResults : Option (JsString × JsString) → Option (JsString × JsString) → Prop
  | none : AlikeResults none none
  | some {name a b : JsString} (h : Alike a b) : AlikeResults (some (name, a)) (some (name, b))

/-- One variable: the plan shows the same, and what is injected is alike. -/
theorem resolveVaultEnvEntry_alike (h : v.SameButSecrets host w) (envName vaultKey : JsString) :
    (resolveVaultEnvEntry host v rawEnv envName vaultKey).binding =
        (resolveVaultEnvEntry host w rawEnv envName vaultKey).binding ∧
      (resolveVaultEnvEntry host v rawEnv envName vaultKey).requirement =
        (resolveVaultEnvEntry host w rawEnv envName vaultKey).requirement ∧
      AlikeResults (resolveVaultEnvEntry host v rawEnv envName vaultKey).result
        (resolveVaultEnvEntry host w rawEnv envName vaultKey).result := by
  unfold resolveVaultEnvEntry
  cases configured rawEnv envName with
  | some directValue => exact ⟨rfl, rfl, .some (.same directValue)⟩
  | none =>
    have hreading := h vaultKey
    generalize readSecret host v vaultKey = r at hreading
    generalize readSecret host w vaultKey = r' at hreading
    cases hreading with
    | same =>
      refine ⟨rfl, rfl, ?_⟩
      cases r with
      | missing => exact .none
      | unverified => exact .none
      | failed message => exact .none
      | resolved secret => exact .some (.same secret)
    | resolved halike => exact ⟨rfl, rfl, .some halike⟩

/-- One file: the plan shows the same. -/
theorem resolveVaultFileEntry_alike (h : v.SameButSecrets host w) (filePath : JsString)
    (binding : VaultFileBinding) :
    (resolveVaultFileEntry host v filePath binding).binding =
        (resolveVaultFileEntry host w filePath binding).binding ∧
      (resolveVaultFileEntry host v filePath binding).requirement =
        (resolveVaultFileEntry host w filePath binding).requirement := by
  unfold resolveVaultFileEntry
  have hreading := h binding.key
  generalize readSecret host v binding.key = r at hreading
  generalize readSecret host w binding.key = r' at hreading
  cases hreading with
  | same => exact ⟨rfl, rfl⟩
  | resolved halike => exact ⟨rfl, rfl⟩

/-- The variables that are injected are alike. -/
theorem injectedEnv_alike (h : v.SameButSecrets host w) (action : ManagedAppAction)
    (name : JsString) :
    AlikeVariables (injectedEnv (resolveActionVaultEnv host v action rawEnv) name)
      (injectedEnv (resolveActionVaultEnv host w action rawEnv) name) := by
  unfold injectedEnv resolveActionVaultEnv
  induction sortEntries host action.vaultEnv with
  | nil => exact .none
  | cons entry entries ih =>
    obtain ⟨-, -, hresult⟩ := @resolveVaultEnvEntry_alike host v w rawEnv h entry.1 entry.2
    rw [List.map_cons, List.map_cons, List.filterMap_cons, List.filterMap_cons]
    generalize (resolveVaultEnvEntry host v rawEnv entry.1 entry.2).result = r at hresult
    generalize (resolveVaultEnvEntry host w rawEnv entry.1 entry.2).result = r' at hresult
    cases hresult with
    | none => exact ih
    | @some envName a b halike =>
      dsimp only
      rw [List.lookup_cons, List.lookup_cons]
      by_cases hname : name = envName
      · rw [hname, beq_self_eq_true]
        exact .some halike
      · rw [beq_false_of_ne hname]
        exact ih

/-- The check of the variables that an action requires gives the same. -/
theorem checkActionEnvRequirements_alike {env env' : Env}
    (h : ∀ name, AlikeVariables (env name) (env' name)) (action : ManagedAppAction) :
    checkActionEnvRequirements action env = checkActionEnvRequirements action env' := by
  refine List.map_congr_left fun name _ => ?_
  have hconfigured : (configured env name).isSome = (configured env' name).isSome :=
    (h name).isSome_filter
  rw [hconfigured]

/-! ## Plans -/

theorem planAction_alike (h : v.SameButSecrets host w) (ref : ManagedAppManifestRef)
    (actionName : JsString) (options : PlanOptions) (action : ManagedAppAction) :
    planAction host v ref actionName options action =
      planAction host w ref actionName options action := by
  have hsecretBindings : ∀ rawEnv,
      (resolveActionVaultEnv host v action rawEnv).map Resolved.binding =
        (resolveActionVaultEnv host w action rawEnv).map Resolved.binding := fun rawEnv => by
    rw [resolveActionVaultEnv, resolveActionVaultEnv, List.map_map, List.map_map]
    exact List.map_congr_left fun entry _ => (resolveVaultEnvEntry_alike h entry.1 entry.2).1
  have hsecretRequirements : ∀ rawEnv,
      (resolveActionVaultEnv host v action rawEnv).map Resolved.requirement =
        (resolveActionVaultEnv host w action rawEnv).map Resolved.requirement := fun rawEnv => by
    rw [resolveActionVaultEnv, resolveActionVaultEnv, List.map_map, List.map_map]
    exact List.map_congr_left fun entry _ => (resolveVaultEnvEntry_alike h entry.1 entry.2).2.1
  have hfileBindings : ∀ vars, (resolveActionVaultFiles host v action vars).map Resolved.binding =
      (resolveActionVaultFiles host w action vars).map Resolved.binding := fun vars => by
    rw [resolveActionVaultFiles, resolveActionVaultFiles, List.map_map, List.map_map]
    exact List.map_congr_left fun entry _ => (resolveVaultFileEntry_alike h _ entry.2).1
  have hfileRequirements : ∀ vars,
      (resolveActionVaultFiles host v action vars).map Resolved.requirement =
        (resolveActionVaultFiles host w action vars).map Resolved.requirement := fun vars => by
    rw [resolveActionVaultFiles, resolveActionVaultFiles, List.map_map, List.map_map]
    exact List.map_congr_left fun entry _ => (resolveVaultFileEntry_alike h _ entry.2).2
  have hrequired : ∀ rawEnv : Env, checkActionEnvRequirements action
        (rawEnv.override (injectedEnv (resolveActionVaultEnv host v action rawEnv))) =
      checkActionEnvRequirements action
        (rawEnv.override (injectedEnv (resolveActionVaultEnv host w action rawEnv))) := fun rawEnv =>
    checkActionEnvRequirements_alike (fun name => (injectedEnv_alike h action name).or) action
  unfold planAction
  dsimp only
  rw [hsecretBindings, hsecretRequirements, hfileBindings, hfileRequirements, hrequired]

/-- **Plans do not depend on secrets.** -/
theorem plan_secret (host : AppsHost) (v w : Vault) (ref : ManagedAppManifestRef)
    (actionName : JsString) (options : PlanOptions) (h : v.SameButSecrets host w) :
    planManagedAppAction host v ref actionName options =
      planManagedAppAction host w ref actionName options := by
  have hplan : planAction host v ref actionName options =
      planAction host w ref actionName options :=
    funext fun action => planAction_alike h ref actionName options action
  rw [planManagedAppAction, planManagedAppAction, hplan]

/-! ## A sample -/

def sampleAppsHost : AppsHost where
  toVaultHost := sampleHost
  localeCompare _ _ := 0
  cwd := ⟨js "/work", rfl⟩
  homedir := js "/root"
  processEnv _ := none
  platform := js "linux"
  nodeVersion := js "24.0.0"
  spawnBash _ _ _ := ⟨some 0, some [], some []⟩

/-- The action binds a key to a variable it requires, and to a file below a directory that one of its
own variables names. -/
def sampleAction : ManagedAppAction where
  summary := js "install"
  cwd := none
  steps := [js "true"]
  env := [(js "FOO", js "private")]
  requiresEnv := [js "TOKEN"]
  vaultEnv := [(js "TOKEN", js "TOKEN")]
  vaultFiles := [(js "/srv/$\x7bFOO\x7d/token", ⟨js "TOKEN", none⟩)]

def sampleManifest : ManagedAppManifest where
  id := js "demo"
  name := js "Demo"
  description := js "demo"
  homepage := none
  capabilities := []
  platforms := [.linux]
  runtime := ⟨none, [], false⟩
  paths := ⟨js "$\x7bAPP_ROOT\x7d/home", js "$\x7bAPP_ROOT\x7d/state",
    js "$\x7bAPP_ROOT\x7d/config/app.json", []⟩
  actions := [(js "install", sampleAction)]
  notes := []

def sampleRef : ManagedAppManifestRef := ⟨sampleManifest, .builtin⟩

/-- A call that applies the action. -/
def sampleOptions : PlanOptions := ⟨none, true⟩

def sampleStored : StoredVaultEntry :=
  VaultEntry.stored sampleHost ⟨js "TOKEN", js "aa", js "bb", none, none, none⟩ 0

/-- One entry, which is decrypted to the secret. -/
def sampleVault (secret : String) : Vault where
  entriesFile := some (writeAll [sampleStored.value])
  vaultDecrypt _ := .ok (js secret)

theorem sameButSecrets_sample :
    (sampleVault "alpha").SameButSecrets sampleAppsHost (sampleVault "beta") := by
  intro key
  have hlatest : getLatestVaultEntry sampleAppsHost (sampleVault "alpha") key =
      getLatestVaultEntry sampleAppsHost (sampleVault "beta") key := rfl
  unfold readSecret
  rw [hlatest]
  cases getLatestVaultEntry sampleAppsHost (sampleVault "beta") key with
  | none => exact .same _
  | some latest =>
    dsimp only
    split
    · exact .same _
    · exact .resolved (.nonBlank (by decide) (by decide))

/-- The plans with two different secrets are the same. -/
theorem plan_secret_sample :
    planManagedAppAction sampleAppsHost (sampleVault "alpha") sampleRef (js "install")
        sampleOptions =
      planManagedAppAction sampleAppsHost (sampleVault "beta") sampleRef (js "install")
        sampleOptions :=
  plan_secret sampleAppsHost (sampleVault "alpha") (sampleVault "beta") sampleRef (js "install")
    sampleOptions sameButSecrets_sample

end MemphisOS.Apps
