import MemphisOS.Apps.Secrecy
import MemphisOS.Ecma.Maps
import MemphisOS.Vault.Durability

/-!
# Files that are planned and files that are written

A plan reads the templates of secret files with the variables of the app, an execution with those
of the action as well. The two agree when both lead to the same files.
-/

namespace MemphisOS.Apps

open Ecma Files.Paths Bridge VaultAdapter

/-! ## Files -/

/-- The plan lists the file, with its key and mode. -/
def ManagedAppPlan.Lists (plan : ManagedAppPlan) (path key : JsString) (mode : Option JsString) :
    Prop :=
  ∃ binding ∈ plan.secretBindings, binding.target = .file ∧ binding.path = some path ∧
    binding.vaultKey = some key ∧ binding.mode = mode

/-- The execution writes the secret of the key to the file. -/
def Execution.Writes (execution : Execution) (path key : JsString) (mode : Option JsString) : Prop :=
  ∃ file ∈ execution.secretFiles, file.result.isSome = true ∧ file.binding.path = some path ∧
    file.binding.vaultKey = some key ∧ file.binding.mode = mode

variable (host : AppsHost)

/-- A template of the action leads to the file. -/
def Leads (action : ManagedAppAction) (vars : List (JsString × JsString)) (path key : JsString)
    (mode : Option JsString) : Prop :=
  ∃ entry ∈ action.vaultFiles, resolveTemplate host entry.1 vars = path ∧ entry.2.key = key ∧
    entry.2.mode = mode

/-- The variables of the templates of an execution. -/
def executionVars (manifest : ManagedAppManifest) (rawEnv : Env) (action : ManagedAppAction) :
    List (JsString × JsString) :=
  setMember (js "MEMPHIS_MANIFESTS_DIR") (manifestsDir host rawEnv)
    (withActionEnv action (templateVars host manifest rawEnv))

/-- The templates lead to the same files when the variables of the action are set as well. -/
def SameFiles (ref : ManagedAppManifestRef) (actionName : JsString) (options : PlanOptions) : Prop :=
  ∀ action ∈ ref.manifest.actions.lookup actionName, ∀ path key mode,
    Leads host action (executionVars host ref.manifest (options.env host) action) path key mode ↔
      Leads host action (templateVars host ref.manifest (options.env host)) path key mode

variable {host} {vault : Vault} {ref : ManagedAppManifestRef} {actionName : JsString}
  {options : PlanOptions} {action : ManagedAppAction} {plan : ManagedAppPlan}
  {vars : List (JsString × JsString)} {path key : JsString} {mode : Option JsString}

theorem manifestsDir_eq (manifest : ManagedAppManifest) (rawEnv : Env) :
    (resolveManagedAppPaths host manifest rawEnv).manifestsDir = manifestsDir host rawEnv := by
  rw [resolveManagedAppPaths]

/-! ## What one secret file gives -/

theorem binding_resolveVaultFileEntry (filePath : JsString) (binding : VaultFileBinding) :
    (resolveVaultFileEntry host vault filePath binding).binding.target = .file ∧
      (resolveVaultFileEntry host vault filePath binding).binding.path = some filePath ∧
      (resolveVaultFileEntry host vault filePath binding).binding.vaultKey = some binding.key ∧
      (resolveVaultFileEntry host vault filePath binding).binding.mode = binding.mode := by
  unfold resolveVaultFileEntry
  cases readSecret host vault binding.key <;> exact ⟨rfl, rfl, rfl, rfl⟩

/-- The requirement holds exactly when there is a file to write, whatever its path is. -/
theorem requirement_resolveVaultFileEntry (filePath : JsString) (binding : VaultFileBinding) :
    (resolveVaultFileEntry host vault filePath binding).requirement.required = true ∧
      ((resolveVaultFileEntry host vault filePath binding).requirement.ok = true ↔
        ∃ plaintext, readSecret host vault binding.key = .resolved plaintext) := by
  unfold resolveVaultFileEntry
  cases readSecret host vault binding.key with
  | resolved plaintext => exact ⟨rfl, iff_of_true rfl ⟨plaintext, rfl⟩⟩
  | _ => exact ⟨rfl, iff_of_false Bool.false_ne_true fun ⟨_, h⟩ => by cases h⟩

/-- The file to write has the path, the mode and the secret of its binding. -/
theorem result_resolveVaultFileEntry {file : SecretFile} (filePath : JsString)
    (binding : VaultFileBinding) :
    (resolveVaultFileEntry host vault filePath binding).result = some file ↔
      ∃ plaintext, readSecret host vault binding.key = .resolved plaintext ∧
        file = ⟨filePath, plaintext, binding.mode⟩ := by
  unfold resolveVaultFileEntry
  cases readSecret host vault binding.key with
  | resolved plaintext =>
    constructor
    · intro h
      exact ⟨plaintext, rfl, (Option.some.inj h).symm⟩
    · rintro ⟨_, ⟨⟩, rfl⟩
      rfl
  | _ => exact iff_of_false nofun fun ⟨_, h, _⟩ => by cases h

theorem mem_sortEntries {α : Type} {entry : JsString × α} {entries : List (JsString × α)} :
    entry ∈ sortEntries host entries ↔ entry ∈ entries :=
  List.mem_mergeSort

/-- The resolved files, entry by entry. -/
theorem mem_resolveActionVaultFiles {file : Resolved SecretFile} :
    file ∈ resolveActionVaultFiles host vault action vars ↔ ∃ entry ∈ action.vaultFiles,
      resolveVaultFileEntry host vault (resolveTemplate host entry.1 vars) entry.2 = file := by
  rw [resolveActionVaultFiles, List.mem_map]
  constructor
  · rintro ⟨entry, hentry, rfl⟩
    exact ⟨entry, mem_sortEntries.mp hentry, rfl⟩
  · rintro ⟨entry, hentry, rfl⟩
    exact ⟨entry, mem_sortEntries.mpr hentry, rfl⟩

/-! ## Plans and executions -/

/-- A plan lists the files its templates lead to. -/
theorem lists_planAction :
    (planAction host vault ref actionName options action).Lists path key mode ↔
      Leads host action (templateVars host ref.manifest (options.env host)) path key mode := by
  have hbindings : (planAction host vault ref actionName options action).secretBindings =
      (resolveActionVaultEnv host vault action (options.env host)).map Resolved.binding ++
        (resolveActionVaultFiles host vault action
          (templateVars host ref.manifest (options.env host))).map Resolved.binding := rfl
  have henv : ∀ resolved ∈ resolveActionVaultEnv host vault action (options.env host),
      resolved.binding.target = .env := by
    intro resolved hresolved
    obtain ⟨entry, -, rfl⟩ := List.mem_map.mp hresolved
    unfold resolveVaultEnvEntry
    cases configured (options.env host) entry.1 with
    | some value => rfl
    | none => cases readSecret host vault entry.2 <;> rfl
  rw [ManagedAppPlan.Lists, hbindings]
  constructor
  · rintro ⟨binding, hbinding, htarget, hpath, hkey, hmode⟩
    rcases List.mem_append.mp hbinding with hbinding | hbinding
    · obtain ⟨resolved, hresolved, rfl⟩ := List.mem_map.mp hbinding
      rw [henv resolved hresolved] at htarget
      cases htarget
    · obtain ⟨resolved, hresolved, rfl⟩ := List.mem_map.mp hbinding
      obtain ⟨entry, hentry, rfl⟩ := mem_resolveActionVaultFiles.mp hresolved
      obtain ⟨-, hpath', hkey', hmode'⟩ := @binding_resolveVaultFileEntry host vault
        (resolveTemplate host entry.1 (templateVars host ref.manifest (options.env host))) entry.2
      exact ⟨entry, hentry, Option.some.inj (hpath'.symm.trans hpath),
        Option.some.inj (hkey'.symm.trans hkey), hmode'.symm.trans hmode⟩
  · rintro ⟨entry, hentry, rfl, rfl, rfl⟩
    refine ⟨_, List.mem_append_right _ (List.mem_map_of_mem
      (mem_resolveActionVaultFiles.mpr ⟨entry, hentry, rfl⟩)), ?_⟩
    exact binding_resolveVaultFileEntry _ entry.2

/-- Where a plan is in order, every secret that an action binds to a file can be read. -/
theorem readable_of_ok (hok : (planAction host vault ref actionName options action).ok = true) :
    ∀ entry ∈ action.vaultFiles, ∃ plaintext,
      readSecret host vault entry.2.key = .resolved plaintext := by
  intro entry hentry
  have hmem : (resolveVaultFileEntry host vault (resolveTemplate host entry.1
      (templateVars host ref.manifest (options.env host))) entry.2).requirement ∈
        (planAction host vault ref actionName options action).requirements :=
    List.mem_append_left _ (List.mem_append_right _ (List.mem_map_of_mem
      (mem_resolveActionVaultFiles.mpr ⟨entry, hentry, rfl⟩)))
  obtain ⟨hrequired, hiff⟩ := @requirement_resolveVaultFileEntry host vault (resolveTemplate host
    entry.1 (templateVars host ref.manifest (options.env host))) entry.2
  have hall := List.all_eq_true.mp hok _ hmem
  rw [hrequired, Bool.not_true, Bool.false_or] at hall
  exact hiff.mp hall

/-- An execution writes the files its templates lead to. -/
theorem writes_executeAction (happly : options.apply = true)
    (hok : (planAction host vault ref actionName options action).ok = true) :
    (executeAction host vault ref actionName options action).Writes path key mode ↔
      Leads host action (executionVars host ref.manifest (options.env host) action) path key
        mode := by
  have hvars : setMember (js "MEMPHIS_MANIFESTS_DIR")
      (planAction host vault ref actionName options action).paths.manifestsDir
      (planAction host vault ref actionName options action).exportedEnv =
        executionVars host ref.manifest (options.env host) action := by
    rw [planAction, executionVars, manifestsDir_eq]
  have hfiles : (executeAction host vault ref actionName options action).secretFiles =
      resolveActionVaultFiles host vault action
        (executionVars host ref.manifest (options.env host) action) := by
    have hfalse : ¬ (!true) = true := Bool.false_ne_true
    unfold executeAction
    dsimp only
    rw [happly, hok, if_neg hfalse, if_neg hfalse]
    exact congrArg (resolveActionVaultFiles host vault action) hvars
  rw [Execution.Writes, hfiles]
  constructor
  · rintro ⟨file, hfile, -, hpath, hkey, hmode⟩
    obtain ⟨entry, hentry, rfl⟩ := mem_resolveActionVaultFiles.mp hfile
    obtain ⟨-, hpath', hkey', hmode'⟩ := @binding_resolveVaultFileEntry host vault (resolveTemplate
      host entry.1 (executionVars host ref.manifest (options.env host) action)) entry.2
    exact ⟨entry, hentry, Option.some.inj (hpath'.symm.trans hpath),
      Option.some.inj (hkey'.symm.trans hkey), hmode'.symm.trans hmode⟩
  · rintro ⟨entry, hentry, rfl, rfl, rfl⟩
    obtain ⟨plaintext, hplaintext⟩ := readable_of_ok hok entry hentry
    have hresult := (result_resolveVaultFileEntry (resolveTemplate host entry.1
      (executionVars host ref.manifest (options.env host) action)) entry.2).mpr
        ⟨plaintext, hplaintext, rfl⟩
    refine ⟨_, mem_resolveActionVaultFiles.mpr ⟨entry, hentry, rfl⟩, ?_,
      (binding_resolveVaultFileEntry _ entry.2).2⟩
    rw [hresult]
    rfl

/-- What is written is the secrets of the files, with the permissions of their modes. -/
theorem mem_written {file : WrittenFile} :
    file ∈ (executeAction host vault ref actionName options action).written ↔
      ∃ path key mode plaintext,
        (executeAction host vault ref actionName options action).Writes path key mode ∧
          readSecret host vault key = .resolved plaintext ∧
            file = ⟨path, plaintext, parseOctal (mode.getD (js "600"))⟩ := by
  have hcases : ∃ vars, (executeAction host vault ref actionName options action).written =
        materializeSecretFiles ((executeAction host vault ref actionName options
          action).secretFiles.filterMap Resolved.result) ∧
      ((executeAction host vault ref actionName options action).secretFiles = [] ∨
        (executeAction host vault ref actionName options action).secretFiles =
          resolveActionVaultFiles host vault action vars) := by
    unfold executeAction
    dsimp only
    split
    · exact ⟨[], rfl, .inl rfl⟩
    · split
      · exact ⟨[], rfl, .inl rfl⟩
      · exact ⟨_, rfl, .inr rfl⟩
  obtain ⟨vars, hwritten, hfiles⟩ := hcases
  rw [hwritten, materializeSecretFiles, List.mem_map]
  unfold Execution.Writes
  generalize (executeAction host vault ref actionName options action).secretFiles = files at hfiles
  have hentry : ∀ resolved ∈ files, ∃ filePath binding,
      resolveVaultFileEntry host vault filePath binding = resolved := by
    intro resolved hresolved
    rcases hfiles with rfl | rfl
    · cases hresolved
    · obtain ⟨entry, -, hentry⟩ := mem_resolveActionVaultFiles.mp hresolved
      exact ⟨_, _, hentry⟩
  constructor
  · rintro ⟨secret, hsecret, rfl⟩
    obtain ⟨resolved, hresolved, hresult⟩ := List.mem_filterMap.mp hsecret
    obtain ⟨filePath, binding, rfl⟩ := hentry resolved hresolved
    obtain ⟨plaintext, hplaintext, rfl⟩ :=
      (result_resolveVaultFileEntry filePath binding).mp hresult
    refine ⟨filePath, binding.key, binding.mode, plaintext, ⟨_, hresolved, ?_,
      (binding_resolveVaultFileEntry filePath binding).2⟩, hplaintext, rfl⟩
    rw [hresult]
    rfl
  · rintro ⟨path, key, mode, plaintext, ⟨resolved, hresolved, -, hpath, hkey, hmode⟩, hplaintext,
      rfl⟩
    obtain ⟨filePath, binding, rfl⟩ := hentry resolved hresolved
    obtain ⟨-, hpath', hkey', hmode'⟩ := @binding_resolveVaultFileEntry host vault filePath binding
    obtain rfl := Option.some.inj (hpath'.symm.trans hpath)
    obtain rfl := Option.some.inj (hkey'.symm.trans hkey)
    obtain rfl := hmode'.symm.trans hmode
    exact ⟨_, List.mem_filterMap.mpr ⟨_, hresolved, (result_resolveVaultFileEntry filePath
      binding).mpr ⟨plaintext, hplaintext, rfl⟩⟩, rfl⟩

/-- Without approval, or with a requirement that fails, nothing is written. -/
theorem written_eq_nil (h : options.apply = false ∨
    (planAction host vault ref actionName options action).ok = false) :
    (executeAction host vault ref actionName options action).written = [] := by
  unfold executeAction
  dsimp only
  split
  · rfl
  · next happly =>
    split
    · rfl
    · next hok =>
      rw [Bool.not_eq_true', Bool.not_eq_false] at happly hok
      rcases h with h | h
      · exact absurd (h.symm.trans happly) Bool.false_ne_true
      · exact absurd (h.symm.trans hok) Bool.false_ne_true

/-! ## References -/

/-- The names of the references that are replaced. -/
def referencesFrom : ℕ → JsString → List JsString
  | _, [] => []
  | skip + 1, _ :: rest => referencesFrom skip rest
  | 0, u :: rest =>
    match referenceName (u :: rest) with
    | some name => name :: referencesFrom (name.length + 2) rest
    | none => referencesFrom 0 rest

/-- A template depends on the variables it refers to. -/
theorem interpolateFrom_congr {vars vars' : List (JsString × JsString)} {template : JsString}
    {skip : ℕ} (h : ∀ name ∈ referencesFrom skip template, vars.lookup name = vars'.lookup name) :
    interpolateFrom vars skip template = interpolateFrom vars' skip template := by
  induction template generalizing skip with
  | nil => cases skip <;> rfl
  | cons u rest ih =>
    cases skip with
    | succ skip => exact ih h
    | zero =>
      rw [referencesFrom] at h
      rw [interpolateFrom, interpolateFrom]
      cases hname : referenceName (u :: rest) with
      | none =>
        rw [hname] at h
        exact congrArg (u :: ·) (ih h)
      | some name =>
        rw [hname] at h
        obtain ⟨hfirst, hrest⟩ := List.forall_mem_cons.mp h
        dsimp only
        rw [hfirst, ih hrest]

/-- The variables of the action leave others as they are. -/
theorem lookup_withActionEnv {name : JsString} (h : name ∉ action.env.map Prod.fst) :
    (withActionEnv action vars).lookup name = vars.lookup name := by
  have hloop : ∀ env own : List (JsString × JsString), name ∉ env.map Prod.fst →
      (env.foldl (fun env entry => setMember entry.1 (interpolateTemplate entry.2 vars) env)
        own).lookup name = own.lookup name := by
    intro env
    induction env with
    | nil => exact fun own _ => rfl
    | cons entry env ih =>
      intro own hname
      rw [List.map_cons, List.mem_cons, not_or] at hname
      rw [List.foldl_cons, ih _ hname.2, lookup_setMember, if_neg hname.1]
  exact hloop action.env vars h

/-- The files are the same when their templates refer to no variable of the action. -/
theorem sameFiles_of_references (h : ∀ action ∈ ref.manifest.actions.lookup actionName,
    ∀ entry ∈ action.vaultFiles, ∀ name ∈ referencesFrom 0 entry.1,
      name = js "MEMPHIS_MANIFESTS_DIR" ∨ name ∉ action.env.map Prod.fst) :
    SameFiles host ref actionName options := by
  intro action haction path key mode
  have htemplate : ∀ entry ∈ action.vaultFiles, resolveTemplate host entry.1
        (executionVars host ref.manifest (options.env host) action) =
      resolveTemplate host entry.1 (templateVars host ref.manifest (options.env host)) := by
    intro entry hentry
    refine congrArg (fun path => resolve host.cwd [path]) (interpolateFrom_congr fun name hname => ?_)
    rw [executionVars, lookup_setMember]
    by_cases hmanifests : name = js "MEMPHIS_MANIFESTS_DIR"
    · rw [if_pos hmanifests, templateVars, lookup_setMember, if_pos hmanifests, manifestsDir_eq]
    · rw [if_neg hmanifests]
      exact lookup_withActionEnv ((h action haction entry hentry name hname).resolve_left hmanifests)
  constructor
  · rintro ⟨entry, hentry, rfl, hrest⟩
    exact ⟨entry, hentry, (htemplate entry hentry).symm, hrest⟩
  · rintro ⟨entry, hentry, rfl, hrest⟩
    exact ⟨entry, hentry, htemplate entry hentry, hrest⟩

/-! ## Agreement -/

theorem exists_action (hplan : planManagedAppAction host vault ref actionName options = .ok plan) :
    ∃ action, ref.manifest.actions.lookup actionName = some action ∧
      plan = planAction host vault ref actionName options action ∧
        executeManagedAppAction host vault ref actionName options =
          executeAction host vault ref actionName options action := by
  rw [planManagedAppAction] at hplan
  cases hfound : ref.manifest.actions.lookup actionName with
  | some action =>
    have hresolve : resolveAction ref.manifest actionName = .ok action := by
      rw [resolveAction, hfound]
    rw [hresolve] at hplan
    refine ⟨action, rfl, (Except.ok.inj hplan).symm, ?_⟩
    rw [executeManagedAppAction, hresolve]
  | none =>
    rw [resolveAction, hfound] at hplan
    dsimp only at hplan
    split at hplan <;> cases hplan

/-- **What is written is what is planned exactly when the variables of the action leave the files
as they are.** -/
theorem writes_iff_lists
    (hplan : planManagedAppAction host vault ref actionName options = .ok plan)
    (happly : options.apply = true) (hok : plan.ok = true) :
    (∀ path key mode, (executeManagedAppAction host vault ref actionName options).Writes path key
        mode ↔ plan.Lists path key mode) ↔ SameFiles host ref actionName options := by
  obtain ⟨action, hfound, rfl, hexecute⟩ := exists_action hplan
  rw [hexecute]
  have hagree : (∀ path key mode, (executeAction host vault ref actionName options action).Writes
      path key mode ↔ (planAction host vault ref actionName options action).Lists path key mode) ↔
        ∀ path key mode, Leads host action (executionVars host ref.manifest (options.env host) action)
          path key mode ↔
            Leads host action (templateVars host ref.manifest (options.env host)) path key mode :=
    forall_congr' fun path => forall_congr' fun key => forall_congr' fun mode =>
      iff_congr (writes_executeAction happly hok) lists_planAction
  rw [hagree, SameFiles, hfound]
  constructor
  · rintro h _ ⟨⟩
    exact h
  · exact fun h => h action rfl

/-! ## A file that is not planned -/

theorem settled_sampleStored : Settled sampleHost sampleStored.value := settled_value _ 0

/-- The key leads to the secret. -/
theorem readSecret_sample :
    readSecret sampleAppsHost (sampleVault "alpha") (js "TOKEN") = .resolved (js "alpha") := by
  have hlatest : getLatestVaultEntry sampleAppsHost (sampleVault "alpha") (js "TOKEN") =
      some sampleStored.value := by
    have hobjects : ∀ item ∈ [sampleStored.value], ∃ ms, item = Json.obj ms :=
      List.forall_mem_singleton.mpr ⟨_, rfl⟩
    have hread : readAll sampleHost (some (writeAll [sampleStored.value])) =
        [sampleStored.value] := by
      rw [readAll_writeAll hobjects, List.map_singleton, settled_sampleStored.1,
        settled_sampleStored.2]
      rfl
    have hlist : listVaultEntries sampleAppsHost (sampleVault "alpha") (js "TOKEN") =
        [sampleStored.value].filter fun entry => stringProperty entry "key" = some (js "TOKEN") :=
      congrArg (List.filter _) hread
    rw [getLatestVaultEntry, hlist]
    rfl
  rw [readSecret, hlatest]
  rfl

theorem plan_sample : ∃ plan, planManagedAppAction sampleAppsHost (sampleVault "alpha") sampleRef
    (js "install") sampleOptions = .ok plan ∧ plan.ok = true := by
  refine ⟨planAction sampleAppsHost (sampleVault "alpha") sampleRef (js "install") sampleOptions
    sampleAction, rfl, ?_⟩
  have hsecrets : resolveActionVaultEnv sampleAppsHost (sampleVault "alpha") sampleAction
      (sampleOptions.env sampleAppsHost) = [resolveVaultEnvEntry sampleAppsHost (sampleVault "alpha")
        (sampleOptions.env sampleAppsHost) (js "TOKEN") (js "TOKEN")] :=
    congrArg (List.map _) (List.mergeSort_singleton _)
  have hfiles : ∀ vars, resolveActionVaultFiles sampleAppsHost (sampleVault "alpha") sampleAction
      vars = [resolveVaultFileEntry sampleAppsHost (sampleVault "alpha")
        (resolveTemplate sampleAppsHost (js "/srv/$\x7bFOO\x7d/token") vars) ⟨js "TOKEN", none⟩] :=
    fun vars => congrArg (List.map _) (List.mergeSort_singleton _)
  have henv : resolveVaultEnvEntry sampleAppsHost (sampleVault "alpha")
      (sampleOptions.env sampleAppsHost) (js "TOKEN") (js "TOKEN") =
        { result := some (js "TOKEN", js "alpha")
          binding := envBinding (js "TOKEN") (js "TOKEN") .vault true
            (js "TOKEN" ++ js " resolved from vault key " ++ js "TOKEN")
          requirement := secretRequirement (js "secret-env:" ++ js "TOKEN") true
            (js "TOKEN" ++ js " resolved from vault key " ++ js "TOKEN") } := by
    have hunset : configured (sampleOptions.env sampleAppsHost) (js "TOKEN") = none := rfl
    rw [resolveVaultEnvEntry, hunset, readSecret_sample]
  unfold planAction
  dsimp only
  rw [hsecrets, hfiles, henv, List.all_append, List.all_append, List.all_append, Bool.and_eq_true,
    Bool.and_eq_true, Bool.and_eq_true]
  refine ⟨⟨⟨by decide, rfl⟩, ?_⟩, by decide +kernel⟩
  have hread := fun filePath => (requirement_resolveVaultFileEntry filePath
    (VaultFileBinding.mk (js "TOKEN") none)).2.mpr ⟨_, readSecret_sample⟩
  rw [List.map_singleton, List.all_cons, List.all_nil, Bool.and_true, Bool.or_eq_true]
  exact .inr (hread _)

/-- The condition is about calls like this one. -/
theorem writes_iff_lists_sample : ∃ plan,
    planManagedAppAction sampleAppsHost (sampleVault "alpha") sampleRef (js "install")
      sampleOptions = .ok plan ∧
    ((∀ path key mode, (executeManagedAppAction sampleAppsHost (sampleVault "alpha") sampleRef
        (js "install") sampleOptions).Writes path key mode ↔ plan.Lists path key mode) ↔
      SameFiles sampleAppsHost sampleRef (js "install") sampleOptions) := by
  obtain ⟨plan, hplan, hok⟩ := plan_sample
  exact ⟨plan, hplan, writes_iff_lists hplan rfl hok⟩

/-- The secret is written to a file that the plan does not list. -/
theorem unplanned_file : ∃ plan,
    planManagedAppAction sampleAppsHost (sampleVault "alpha") sampleRef (js "install")
      sampleOptions = .ok plan ∧
    (executeManagedAppAction sampleAppsHost (sampleVault "alpha") sampleRef (js "install")
      sampleOptions).Writes (js "/srv/private/token") (js "TOKEN") none ∧
    ¬ plan.Lists (js "/srv/private/token") (js "TOKEN") none := by
  obtain ⟨plan, hplan, hok⟩ := plan_sample
  obtain ⟨action, hfound, rfl, hexecute⟩ := exists_action hplan
  obtain rfl := Option.some.inj ((show sampleManifest.actions.lookup (js "install") =
    some sampleAction from rfl).symm.trans hfound)
  refine ⟨_, hplan, ?_, ?_⟩
  · rw [hexecute, writes_executeAction rfl hok]
    exact ⟨_, List.mem_singleton_self _, by decide, rfl, rfl⟩
  · rw [lists_planAction]
    rintro ⟨entry, hentry, hpath, -⟩
    obtain rfl := List.mem_singleton.mp hentry
    exact absurd hpath (by decide)

end MemphisOS.Apps
