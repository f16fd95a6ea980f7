import MemphisOS.Chain.Concurrency
import MemphisOS.TaskExecutor.Results

/-!
# Reused results

Executions one after another on a chain directory that other writers change as well. An execution
of a run that has a stored result returns one without calling the provider: the one whose file
name sorts last, which is the latest while the numbers of the blocks have one length. It is
returned whatever the input is.
-/

namespace MemphisOS.TaskExecutor

open Ecma Bridge MemphisCore

/-- An execution that is under way. -/
structure Execution where
  request : TaskExecutionRequest
  fresh : FreshIds
  /-- The results stored before it started. -/
  earlier : List StoredResult
  /-- It has called the provider. -/
  called : Bool
  program : Program

structure ExecutorState where
  dir : Chain.Dir
  running : Option Execution
  /-- The results stored so far. -/
  results : List StoredResult

inductive ExecutorLabel where
  | start (request : TaskExecutionRequest) (fresh : FreshIds)
  | act (act : Act)
  | leave
  | others

/-- What a step of an execution adds to the stored results. -/
def Act.stores (inputDigest : JsString) : Act → List StoredResult
  | .emitted event stored => (stored.map (event.stores inputDigest)).getD []
  | .scanned | .called => []

def Act.calls : Act → Bool
  | .called => true
  | .emitted _ _ | .scanned => false

variable (host : BridgeHost) (fs : Chain.FileSystem) (runId : JsString)

/-- One step of the executor or of another writer, which leaves the results of the run. -/
inductive ExecutorStep : ExecutorState → ExecutorLabel → ExecutorState → Prop
  | start {dir : Chain.Dir} {results : List StoredResult} (adapter : Option Napi)
      (request : TaskExecutionRequest) (fresh : FreshIds) :
      ExecutorStep ⟨dir, none, results⟩ (.start request fresh)
        ⟨dir, some ⟨request, fresh, results, false, execute host adapter fresh request⟩, results⟩
  | act {dir dir' : Chain.Dir} {results : List StoredResult} {execution : Execution}
      {program : Program} {act : Act} :
      ExecutionStep host fs (dir, execution.program) act (dir', program) →
      ExecutorStep ⟨dir, some execution, results⟩ (.act act)
        ⟨dir', some { execution with called := execution.called || act.calls, program := program },
          results ++ act.stores (execution.request.inputDigest host)⟩
  /-- The execution has ended, or its process has. -/
  | leave {dir : Chain.Dir} {running : Option Execution} {results : List StoredResult} :
      ExecutorStep ⟨dir, running, results⟩ .leave ⟨dir, none, results⟩
  | others {dir dir' : Chain.Dir} {running : Option Execution} {results : List StoredResult} :
      (Chain.fileNames dir').Nodup → dir'.length ≤ fs.capacity →
      (∀ f, HoldsResult runId f → (f ∈ dir' ↔ f ∈ dir)) →
      ExecutorStep ⟨dir, running, results⟩ .others ⟨dir', running, results⟩

/-- The executor on a directory without results of the run. -/
def executorSystem : TransitionSystem ExecutorState ExecutorLabel where
  init s := (Chain.fileNames s.dir).Nodup ∧ s.dir.length ≤ fs.capacity ∧
    (∀ f ∈ s.dir, ¬HoldsResult runId f) ∧ s.running = none ∧ s.results = []
  step := ExecutorStep host fs runId

/-- The execution is one of the run. -/
def Execution.IsOf (execution : Execution) : Prop :=
  execution.request.runId execution.fresh = runId

/-- The execution may call the provider. -/
def Execution.MayCall (execution : Execution) : Prop :=
  execution.request.replayDedupeEnabled = false ∨ resultsOf runId execution.earlier = []

/-- An execution that looks for the results of the run, when there are any, never calls the provider
and never throws; it returns the latest of them and can always get to its end. -/
def ReplaysLatest (S : TransitionSystem ExecutorState ExecutorLabel) : Prop :=
  ∀ s, S.Reachable s → ∀ execution, s.running = some execution → execution.IsOf runId →
    execution.request.replayDedupeEnabled = true →
    ∀ latest, (resultsOf runId execution.earlier).getLast? = some latest →
      execution.called = false ∧ (∀ message, execution.program ≠ .throw message) ∧
        (∀ result, execution.program = .done result → result = latest.result.reused) ∧
        ∃ t, S.Leads s t ∧
          t.running = some { execution with program := .done latest.result.reused }

/-- An execution of the run that returns without having called the provider returns a result that
was stored for the same input. -/
def BindsInput (S : TransitionSystem ExecutorState ExecutorLabel) : Prop :=
  ∀ s, S.Reachable s → ∀ execution, s.running = some execution → execution.IsOf runId →
    ∀ result, execution.program = .done result → execution.called = false →
      ∃ e ∈ resultsOf runId execution.earlier,
        e.inputDigest = execution.request.inputDigest host ∧ result = e.result.reused

/-! ## What an execution may do -/

/-- The program looks only for results of the run and stores none, throws nothing, returns only
what is allowed, given what the scan may find, and calls the provider only if it may. -/
def Program.Answers (found ok : GenerateResult → Prop) (calls : Prop) : Program → Prop
  | emit event next => (∀ inputDigest block, event.stores inputDigest block = []) ∧
      next.Answers found ok calls
  | findCachedResult id toolCall next => id = runId ∧ toolCall = toolCallId runId ∧
      (∀ result, found result → (next (some result)).Answers found ok calls) ∧
      (calls → (next none).Answers found ok calls)
  | runProviderGenerate _ => calls
  | done result => ok result
  | throw _ => False

/-- An answer of an execution that has not called the provider. -/
def Execution.Reuses (execution : Execution) (result : GenerateResult) : Prop :=
  execution.request.replayDedupeEnabled = true ∧ Reusable host runId execution.earlier result

variable {host fs runId} {s t : ExecutorState} {execution : Execution}
  {found ok : GenerateResult → Prop} {calls : Prop}

theorem complete_answers {correlation : TaskEventCorrelation} {source : JsString} {dedupe : Bool}
    {adapter : Option Napi} {result : GenerateResult} (h : ok result) :
    (complete host correlation source dedupe adapter (.ofNative calledState) result).Answers runId
      found ok calls := by
  simp only [complete, applyLoopStep_complete, if_true]
  exact ⟨fun _ _ => rfl, h⟩

/-- An execution of the run that looks for results may call the provider only when it finds none. -/
theorem execute_answers {adapter : Option Napi} {fresh : FreshIds} {request : TaskExecutionRequest}
    (hfound : request.replayDedupeEnabled = true → ∀ result, found result → ok result)
    (h : request.replayDedupeEnabled = false → calls) :
    (execute host adapter fresh request).Answers (request.runId fresh) found ok calls := by
  simp only [execute, applyLoopStep_toolCall, if_true]
  refine ⟨fun _ _ => rfl, fun _ _ => rfl, ?_⟩
  split
  · next hon =>
    exact ⟨rfl, rfl, fun result hresult => ⟨fun _ _ => rfl,
      complete_answers (hfound hon result hresult)⟩, id⟩
  · next hoff => exact h (Bool.not_eq_true _ ▸ hoff)

/-! ## Steps -/

theorem ResultsInv.act {results : List StoredResult} {dir dir' : Chain.Dir} {act : Act}
    {program program' : Program} (h : ResultsInv fs runId results dir)
    (hstep : ExecutionStep host fs (dir, program) act (dir', program')) (inputDigest : JsString) :
    ResultsInv fs runId (results ++ act.stores inputDigest) dir' := by
  cases hstep with
  | emit hemits => exact h.emits hemits inputDigest
  | scan _ => simpa [Act.stores] using h
  | call _ => simpa [Act.stores] using h

/-- A step calls the provider or leads on to a program that may do no more. -/
theorem Program.Answers.step (horder : LocaleOrder host) {results : List StoredResult}
    {dir dir' : Chain.Dir} {act : Act} {program program' : Program}
    (h : program.Answers runId (Reusable host runId results) ok calls)
    (hinv : ResultsInv fs runId results dir) (hcalls : resultsOf runId results = [] → calls)
    (hstep : ExecutionStep host fs (dir, program) act (dir', program')) :
    act.calls = true ∧ calls ∨ act.calls = false ∧ (∀ inputDigest, act.stores inputDigest = []) ∧
      program'.Answers runId (Reusable host runId results) ok calls := by
  cases hstep with
  | @emit event _ _ _ stored _ =>
    right
    refine ⟨rfl, fun inputDigest => ?_, h.2⟩
    cases stored with
    | none => rfl
    | some block => exact h.1 inputDigest block
  | @scan id toolCall next _ listing hlisting =>
    right
    obtain ⟨rfl, rfl, hsome, hnone⟩ := h
    refine ⟨rfl, fun _ => rfl, ?_⟩
    have hfound := hinv.findCachedResult horder hlisting
    split at hfound
    · next result heq =>
      rw [heq]
      exact hsome result hfound
    · next heq =>
      rw [heq]
      exact hnone (hcalls hfound)
  | call _ => exact .inl ⟨rfl, h⟩

variable (host fs runId) in
/-- What holds in every reachable state. -/
structure ExecutorInv (s : ExecutorState) : Prop where
  results : ResultsInv fs runId s.results s.dir
  mayCall : ∀ execution, s.running = some execution → execution.IsOf runId →
    execution.called = true → execution.MayCall runId
  earlier : ∀ execution, s.running = some execution → execution.IsOf runId →
    execution.called = false → s.results = execution.earlier
  answers : ∀ execution, s.running = some execution → execution.IsOf runId →
    execution.called = false →
      execution.program.Answers runId (Reusable host runId execution.earlier)
        (execution.Reuses host runId) (execution.MayCall runId)

theorem ExecutorInv.init (h : (executorSystem host fs runId).init s) :
    ExecutorInv host fs runId s := by
  obtain ⟨hnames, hroom, hnone, hrunning, hresults⟩ := h
  constructor
  · rw [hresults]
    constructor
    · exact hnames
    · exact hroom
    all_goals simp [resultsOf]
    exact fun a b hf hholds => hnone (a, b) hf hholds
  all_goals
    intro execution hsome
    rw [hrunning] at hsome
    cases hsome

/-- The invariant of a step that changes only the directory or ends the execution. -/
theorem ExecutorInv.of_running (hs : ExecutorInv host fs runId s) (hresults : t.results = s.results)
    (hrunning : t.running = none ∨ t.running = s.running)
    (h : ResultsInv fs runId s.results t.dir) : ExecutorInv host fs runId t := by
  have hsame : ∀ execution, t.running = some execution → s.running = some execution := by
    intro execution hsome
    rcases hrunning with hnone | hsame
    · rw [hnone] at hsome
      cases hsome
    · rwa [← hsame]
  constructor
  · rwa [hresults]
  · exact fun execution hsome => hs.mayCall execution (hsame execution hsome)
  · rw [hresults]
    exact fun execution hsome => hs.earlier execution (hsame execution hsome)
  · exact fun execution hsome => hs.answers execution (hsame execution hsome)

/-- What a step of an execution of the run that has not called the provider leads to. -/
theorem ExecutorInv.act_cases (horder : LocaleOrder host) {dir dir' : Chain.Dir}
    {results : List StoredResult} {act : Act} {program : Program}
    (hs : ExecutorInv host fs runId ⟨dir, some execution, results⟩) (hof : execution.IsOf runId)
    (hcalled : execution.called = false)
    (hstep : ExecutionStep host fs (dir, execution.program) act (dir', program)) :
    act.calls = true ∧ execution.MayCall runId ∨
      act.calls = false ∧ (∀ inputDigest, act.stores inputDigest = []) ∧
        program.Answers runId (Reusable host runId execution.earlier)
          (execution.Reuses host runId) (execution.MayCall runId) := by
  have hanswers := hs.answers execution rfl hof hcalled
  have hinv := hs.results
  rw [show results = execution.earlier from hs.earlier execution rfl hof hcalled] at hinv
  exact hanswers.step horder hinv .inr hstep

theorem ExecutorInv.step (horder : LocaleOrder host) {label : ExecutorLabel}
    (hs : ExecutorInv host fs runId s) (h : ExecutorStep host fs runId s label t) :
    ExecutorInv host fs runId t := by
  cases h with
  | start adapter request fresh =>
    refine ⟨hs.results, ?_, ?_, ?_⟩
    all_goals
      rintro _ ⟨⟩ hof hcalled
    · cases hcalled
    · rfl
    · obtain rfl : request.runId fresh = runId := hof
      exact execute_answers (fun hon result hresult => ⟨hon, hresult⟩) .inl
  | @act dir dir' results execution program act hstep =>
    refine ⟨hs.results.act hstep _, ?_, ?_, ?_⟩
    all_goals
      rintro _ ⟨⟩ hof hcalled
      simp only [Bool.or_eq_true, Bool.or_eq_false_iff] at hcalled
    · cases hearlier : execution.called with
      | true => exact hs.mayCall execution rfl hof hearlier
      | false =>
        rcases hs.act_cases horder hof hearlier hstep with ⟨-, hmay⟩ | ⟨hcalls, -, -⟩
        · exact hmay
        · simp [hearlier, hcalls] at hcalled
    · rcases hs.act_cases horder hof hcalled.1 hstep with ⟨hcalls, -⟩ | ⟨-, hstores, -⟩
      · simp [hcalls] at hcalled
      · simpa [hstores] using hs.earlier execution rfl hof hcalled.1
    · rcases hs.act_cases horder hof hcalled.1 hstep with ⟨hcalls, -⟩ | ⟨-, -, hanswers⟩
      · simp [hcalls] at hcalled
      · exact hanswers
  | leave => exact hs.of_running rfl (.inl rfl) hs.results
  | others hnames hroom hsame =>
    exact hs.of_running rfl (.inr rfl) (hs.results.of_same hnames hroom hsame)

theorem executorInv (horder : LocaleOrder host)
    (hs : (executorSystem host fs runId).Reachable s) : ExecutorInv host fs runId s :=
  hs.invariant (fun _ => .init) fun _ _ _ hinv hstep => hinv.step horder hstep

/-! ## Reuse -/

/-- An execution that may not call the provider gets to its end, whatever is stored on the way. -/
theorem exists_leads_done (horder : LocaleOrder host)
    {S : TransitionSystem ExecutorState ExecutorLabel}
    (hact : ∀ s act t, ExecutorStep host fs runId s (.act act) t → S.step s (.act act) t)
    {results : List StoredResult} {dir : Chain.Dir} (hinv : ResultsInv fs runId results dir)
    (hne : resultsOf runId results ≠ []) {program : Program}
    (h : program.Answers runId (Reusable host runId results) ok False) (execution : Execution) :
    ∃ result, ok result ∧
      S.Leads ⟨dir, some { execution with program := program }, results⟩
        ⟨dir, some { execution with program := .done result }, results⟩ := by
  induction program with
  | emit event next ih =>
    obtain ⟨result, hresult, hleads⟩ := ih h.2
    refine ⟨result, hresult, Relation.ReflTransGen.head ⟨.act (.emitted event none), ?_⟩ hleads⟩
    have hstep : ExecutorStep host fs runId
        ⟨dir, some { execution with program := .emit event next }, results⟩
        (.act (.emitted event none)) _ := .act (.emit (.lost rfl hinv.names hinv.room))
    simpa [Act.stores, Act.calls] using hact _ _ _ hstep
  | findCachedResult id toolCall next ih =>
    obtain ⟨rfl, rfl, hsome, -⟩ := h
    have hfound := hinv.findCachedResult horder (.refl dir)
    split at hfound
    · next found heq =>
      obtain ⟨result, hresult, hleads⟩ := ih _ (hsome found hfound)
      refine ⟨result, hresult, Relation.ReflTransGen.head ⟨.act .scanned, ?_⟩ hleads⟩
      have hstep : ExecutorStep host fs id
          ⟨dir, some { execution with program := .findCachedResult id (toolCallId id) next }, results⟩
          (.act .scanned) _ := .act (.scan (.refl dir))
      rw [heq] at hstep
      simpa [Act.stores, Act.calls] using hact _ _ _ hstep
    · exact absurd hfound hne
  | runProviderGenerate next => exact h.elim
  | done result => exact ⟨result, h, .refl⟩
  | throw message => exact h.elim

/-- **Reuse.** An execution that looks for the results of the run, when there are any, never calls
the provider and never throws; it returns one whose file name sorts last. -/
theorem ExecutorInv.reuse (hs : ExecutorInv host fs runId s) (hrunning : s.running = some execution)
    (hof : execution.IsOf runId) (hdedupe : execution.request.replayDedupeEnabled = true)
    (hne : resultsOf runId execution.earlier ≠ []) :
    execution.called = false ∧ s.results = execution.earlier ∧
      execution.program.Answers runId (Reusable host runId execution.earlier)
        (execution.Reuses host runId) False := by
  have hmay : ¬execution.MayCall runId := by
    rintro (hoff | hnone)
    · rw [hdedupe] at hoff
      cases hoff
    · exact hne hnone
  have hcalled : execution.called = false := by
    rw [Bool.eq_false_iff]
    exact fun hcalled => hmay (hs.mayCall execution hrunning hof hcalled)
  refine ⟨hcalled, hs.earlier execution hrunning hof hcalled, ?_⟩
  have hanswers := hs.answers execution hrunning hof hcalled
  rwa [show execution.MayCall runId = False from propext (iff_false_intro hmay)] at hanswers

/-- Executions start only on requests and results of a kind. -/
def startsWhen (P : TaskExecutionRequest → FreshIds → List StoredResult → Prop)
    (s : ExecutorState) : ExecutorLabel → Prop
  | .start request fresh => P request fresh s.results
  | _ => True

theorem holds_of_startsWhen {P : TaskExecutionRequest → FreshIds → List StoredResult → Prop}
    (hs : ((executorSystem host fs runId).restrict (startsWhen P)).Reachable s) :
    ∀ execution, s.running = some execution →
      P execution.request execution.fresh execution.earlier := by
  refine hs.invariant (I := fun s => ∀ execution, s.running = some execution →
    P execution.request execution.fresh execution.earlier) ?_ ?_
  · rintro s ⟨-, -, -, hnone, -⟩ execution hsome
    rw [hnone] at hsome
    cases hsome
  · rintro s label t hinv ⟨hguard, hstep⟩
    cases hstep with
    | start adapter request fresh =>
      rintro _ ⟨⟩
      exact hguard
    | @act _ _ _ execution _ _ _ =>
      rintro _ ⟨⟩
      exact hinv execution rfl
    | leave =>
      rintro _ ⟨⟩
    | others => exact hinv

variable (host runId) in
/-- An execution that looks for the results of the run starts only when the file name of none but
the latest sorts last. -/
def LatestSortsLast (request : TaskExecutionRequest) (fresh : FreshIds)
    (results : List StoredResult) : Prop :=
  request.runId fresh = runId → request.replayDedupeEnabled = true →
    ∀ latest, (resultsOf runId results).getLast? = some latest →
      ∀ e ∈ resultsOf runId results, SortsLast host runId results e → e = latest

/-- **Replay.** The latest result of a run is returned, without a call of the provider, as long as
its file name sorts last. -/
theorem replays_latest (horder : LocaleOrder host) :
    ReplaysLatest runId
      ((executorSystem host fs runId).restrict (startsWhen (LatestSortsLast host runId))) := by
  intro s hs execution hrunning hof hdedupe latest hlatest
  have hinv := executorInv horder hs.of_restrict
  have hsorts := holds_of_startsWhen hs execution hrunning hof hdedupe latest hlatest
  have hne : resultsOf runId execution.earlier ≠ [] := by
    rintro hnil
    rw [hnil] at hlatest
    cases hlatest
  obtain ⟨hcalled, hearlier, hanswers⟩ := hinv.reuse hrunning hof hdedupe hne
  have hlast : ∀ result, execution.Reuses host runId result → result = latest.result.reused := by
    rintro _ ⟨-, e, he, hsortsLast, rfl⟩
    rw [hsorts e he hsortsLast]
  refine ⟨hcalled, ?_, ?_, ?_⟩
  · intro message hprogram
    rw [hprogram] at hanswers
    exact hanswers
  · intro result hprogram
    rw [hprogram] at hanswers
    exact hlast result hanswers
  · obtain ⟨dir, running, results⟩ := s
    obtain rfl : running = some execution := hrunning
    obtain rfl : results = execution.earlier := hearlier
    obtain ⟨result, hresult, hleads⟩ := exists_leads_done horder
      (S := (executorSystem host fs runId).restrict (startsWhen (LatestSortsLast host runId)))
      (fun _ _ _ hstep => ⟨trivial, hstep⟩) hinv.results hne hanswers execution
    rw [hlast result hresult] at hleads
    exact ⟨_, hleads, rfl⟩

variable (host runId) in
/-- An execution that looks for the results of the run starts only when the result whose file name
sorts last was stored for the same input. -/
def SameInput (request : TaskExecutionRequest) (fresh : FreshIds)
    (results : List StoredResult) : Prop :=
  request.runId fresh = runId → request.replayDedupeEnabled = true →
    ∀ e ∈ resultsOf runId results, SortsLast host runId results e →
      e.inputDigest = request.inputDigest host

/-- **Binding.** What is returned without a call of the provider was stored for the same input, as
long as the result whose file name sorts last was. -/
theorem binds_input (horder : LocaleOrder host) :
    BindsInput host runId
      ((executorSystem host fs runId).restrict (startsWhen (SameInput host runId))) := by
  intro s hs execution hrunning hof result hprogram hcalled
  have hanswers := (executorInv horder hs.of_restrict).answers execution hrunning hof hcalled
  rw [hprogram] at hanswers
  obtain ⟨hdedupe, e, he, hsortsLast, rfl⟩ := hanswers
  exact ⟨e, he, holds_of_startsWhen hs execution hrunning hof hdedupe e he hsortsLast, rfl⟩

/-! ## Executions that store every event -/

variable {P : TaskExecutionRequest → FreshIds → List StoredResult → Prop}
  {blocks : List Chain.ChainBlock}

/-- An event is stored after a chain. -/
theorem exists_stored (hchained : Chain.Chained host.toChainHost blocks)
    (hroom : blocks.length < fs.capacity) (event : TaskEvent) :
    ∃ block, Chain.Continues host.toChainHost blocks block ∧
      (∀ runId, cachedResult runId (toolCallId runId) block.payload = event.cached runId) ∧
      Emits host fs event (Chain.storedFiles blocks) (some block)
        (Chain.storedFiles (blocks ++ [block])) := by
  have hcapacity := fs.capacity_lt
  have hlength : blocks.length < 2 ^ 53 - 1 := hroom.trans hcapacity
  let call : Chain.AppendCall := ⟨js "system", event.record [] [], ownOrdered_record _ _ _, 0⟩
  have hprepared := Chain.prepared_block hchained hlength call (isoText 0) 0
  have hfiles : (Chain.blockFiles (Chain.storedFiles blocks)).Perm (Chain.storedFiles blocks) :=
    .of_eq (Chain.blockFiles_storedFiles blocks)
  set block := call.block host.toChainHost (blocks.map Chain.ChainBlock.image) (isoText 0)
  have hnew := Chain.fileName_new hchained hprepared.continues hlength
  have hwrite : Chain.writeFile (Chain.storedFiles blocks) (Chain.fileName block.index)
      block.payload = Chain.storedFiles (blocks ++ [block]) := by
    rw [Chain.writeFile, Chain.unlink_of_not_mem hnew, Chain.storedFiles, Chain.storedFiles,
      List.map_append, List.map_singleton]
  refine ⟨block, hprepared.continues, fun runId =>
    cachedResult_payload (by omega) hprepared.continues.index hprepared.data runId, ?_⟩
  have hpruned := Chain.prune_of_perm hchained hlength hfiles (fun _ => false) (fun _ => false)
  have hread := Chain.readAndValidate_of_perm hchained hlength hfiles
  have hfits : (Chain.writeFile (Chain.storedFiles blocks) (Chain.fileName block.index)
      block.payload).length ≤ fs.capacity := by
    rw [hwrite, Chain.storedFiles, List.length_map, List.length_append]
    exact hroom
  have hstored : Emits host fs event (Chain.storedFiles blocks) (some block)
      (Chain.writeFile (Chain.storedFiles blocks) (Chain.fileName block.index) block.payload) :=
    .stored (fun _ => false) (fun _ => false) rfl (.refl _) (by rw [hpruned]; rfl) (.refl _) hread
      hfits
  rwa [hwrite] at hstored

theorem reachable_act {act : Act}
    (hs : ((executorSystem host fs runId).restrict (startsWhen P)).Reachable s)
    (hstep : ExecutorStep host fs runId s (.act act) t) :
    ((executorSystem host fs runId).restrict (startsWhen P)).Reachable t := by
  have hlabelled : ((executorSystem host fs runId).restrict (startsWhen P)).step s (.act act) t :=
    ⟨trivial, hstep⟩
  exact hs.next hlabelled

theorem reachable_start {dir : Chain.Dir} {results : List StoredResult}
    (hs : ((executorSystem host fs runId).restrict (startsWhen P)).Reachable ⟨dir, none, results⟩)
    {request : TaskExecutionRequest} {fresh : FreshIds} (hP : P request fresh results) :
    ((executorSystem host fs runId).restrict (startsWhen P)).Reachable
      ⟨dir, some ⟨request, fresh, results, false, execute host none fresh request⟩, results⟩ := by
  have hlabelled : ((executorSystem host fs runId).restrict (startsWhen P)).step
      ⟨dir, none, results⟩ (.start request fresh)
      ⟨dir, some ⟨request, fresh, results, false, execute host none fresh request⟩, results⟩ :=
    ⟨hP, .start none request fresh⟩
  exact hs.next hlabelled

theorem reachable_leave {dir : Chain.Dir} {running : Option Execution} {results : List StoredResult}
    (hs : ((executorSystem host fs runId).restrict (startsWhen P)).Reachable
      ⟨dir, running, results⟩) :
    ((executorSystem host fs runId).restrict (startsWhen P)).Reachable ⟨dir, none, results⟩ := by
  have hlabelled : ((executorSystem host fs runId).restrict (startsWhen P)).step
      ⟨dir, running, results⟩ .leave ⟨dir, none, results⟩ := ⟨trivial, .leave⟩
  exact hs.next hlabelled

theorem reachable_emit {event : TaskEvent} {next : Program} {request : TaskExecutionRequest}
    {fresh : FreshIds} {earlier results : List StoredResult} {called : Bool}
    (hs : ((executorSystem host fs runId).restrict (startsWhen P)).Reachable
      ⟨Chain.storedFiles blocks, some ⟨request, fresh, earlier, called, .emit event next⟩, results⟩)
    (hchained : Chain.Chained host.toChainHost blocks) (hroom : blocks.length < fs.capacity) :
    ∃ block, Chain.Chained host.toChainHost (blocks ++ [block]) ∧
      block.index = .ofNat (blocks.length + 1) ∧
      ((executorSystem host fs runId).restrict (startsWhen P)).Reachable
        ⟨Chain.storedFiles (blocks ++ [block]), some ⟨request, fresh, earlier, called, next⟩,
          results ++ event.stores (request.inputDigest host) block⟩ := by
  obtain ⟨block, hnext, -, hemits⟩ := exists_stored hchained hroom event
  refine ⟨block, hchained.concat hnext, hnext.index, ?_⟩
  have hstep : ExecutorStep host fs runId
      ⟨_, some ⟨request, fresh, earlier, called, .emit event next⟩, results⟩
      (.act (.emitted event (some block))) _ := .act (.emit hemits)
  simpa [Act.stores, Act.calls] using reachable_act hs hstep

/-- An execution that does not look for results stores the one the provider answers. -/
theorem reachable_execution {results : List StoredResult}
    (hs : ((executorSystem host fs runId).restrict (startsWhen P)).Reachable
      ⟨Chain.storedFiles blocks, none, results⟩)
    (hchained : Chain.Chained host.toChainHost blocks) (hroom : blocks.length + 4 ≤ fs.capacity)
    (request : TaskExecutionRequest) (fresh : FreshIds) (hP : P request fresh results)
    (hoff : request.replayDedupeEnabled = false) (result : GenerateResult) :
    ∃ new block, Chain.Chained host.toChainHost (blocks ++ new) ∧ new.length = 4 ∧
      block.index = .ofNat (blocks.length + 3) ∧
      ((executorSystem host fs runId).restrict (startsWhen P)).Reachable
        ⟨Chain.storedFiles (blocks ++ new), none,
          results ++ [⟨request.runId fresh, request.inputDigest host, result, block⟩]⟩ := by
  have hs := reachable_start hs hP
  simp only [execute, applyLoopStep_toolCall, if_true, hoff, generate] at hs
  obtain ⟨created, hchained, -, hs⟩ := reachable_emit hs hchained (by omega)
  obtain ⟨toolCall, hchained, -, hs⟩ := reachable_emit hs hchained
    (by simp only [List.length_append, List.length_singleton]; omega)
  have hs := reachable_act hs (.act (.call (.ok result)))
  obtain ⟨block, hchained, hindex, hs⟩ := reachable_emit hs hchained
    (by simp only [List.length_append, List.length_singleton]; omega)
  simp only [complete, applyLoopStep_complete, if_true] at hs
  obtain ⟨completed, hchained, -, hs⟩ := reachable_emit hs hchained
    (by simp only [List.length_append, List.length_singleton]; omega)
  have hs := reachable_leave hs
  refine ⟨[created, toolCall, block, completed], block, ?_, rfl, ?_, ?_⟩
  · simpa using hchained
  · simpa [Nat.add_assoc] using hindex
  · simpa [TaskEvent.stores, Act.stores] using hs

/-- An execution that looks for the results of the run ends with one. -/
theorem reachable_reuse (horder : LocaleOrder host) {dir : Chain.Dir} {results : List StoredResult}
    (hs : ((executorSystem host fs runId).restrict (startsWhen P)).Reachable ⟨dir, none, results⟩)
    (request : TaskExecutionRequest) (fresh : FreshIds) (hP : P request fresh results)
    (hrun : request.runId fresh = runId) (hon : request.replayDedupeEnabled = true)
    (hne : resultsOf runId results ≠ []) :
    ∃ result, Reusable host runId results result ∧
      ((executorSystem host fs runId).restrict (startsWhen P)).Reachable
        ⟨dir, some ⟨request, fresh, results, false, .done result⟩, results⟩ := by
  have hstart := reachable_start hs hP
  have hinv := executorInv horder hstart.of_restrict
  obtain ⟨-, -, hanswers⟩ := hinv.reuse rfl hrun hon hne
  obtain ⟨result, ⟨-, hresult⟩, hleads⟩ := exists_leads_done horder
    (S := (executorSystem host fs runId).restrict (startsWhen P))
    (fun _ _ _ hstep => ⟨trivial, hstep⟩) hinv.results hne hanswers
    ⟨request, fresh, results, false, execute host none fresh request⟩
  exact ⟨result, hresult, hstart.leads hleads⟩

variable (host fs runId) in
/-- There are chains of any length without results of the run. -/
theorem exists_chained {n : ℕ} (hn : n ≤ fs.capacity) :
    ∃ blocks, Chain.Chained host.toChainHost blocks ∧ blocks.length = n ∧
      (executorSystem host fs runId).init ⟨Chain.storedFiles blocks, none, []⟩ := by
  induction n with
  | zero => exact ⟨[], .nil, rfl, List.nodup_nil, Nat.zero_le _, by simp [Chain.storedFiles], rfl, rfl⟩
  | succ n ih =>
    obtain ⟨blocks, hchained, hlength, hnames, -, hnone, -, -⟩ := ih (by omega)
    have hroom : blocks.length < fs.capacity := by omega
    obtain ⟨block, hnext, hcached, -⟩ := exists_stored hchained hroom
      (.other "system_event" "task.created" ⟨[], [], [], none⟩ [] (by decide))
    have hfiles : Chain.storedFiles (blocks ++ [block]) = Chain.storedFiles blocks ++
        [(Chain.fileName block.index, block.payload)] := by
      rw [Chain.storedFiles, List.map_append]
      rfl
    have hnew := Chain.fileName_new hchained hnext
      (by have hcapacity := fs.capacity_lt; omega)
    refine ⟨blocks ++ [block], hchained.concat hnext, by simp [hlength], ?_, ?_, ?_, rfl, rfl⟩
    · rw [hfiles]
      exact Chain.nodup_concat hnames hnew _
    · rw [hfiles, List.length_append, Chain.storedFiles, List.length_map, hlength]
      exact hn
    · rw [hfiles]
      intro f hf hholds
      rcases List.mem_append.mp hf with hf | hf
      · exact hnone f hf hholds
      · obtain rfl := List.mem_singleton.mp hf
        have hsome := hholds.2
        rw [hcached runId] at hsome
        cases hsome

/-! ## Samples -/

theorem localeOrder_sampleHost : LocaleOrder sampleHost where
  total a b := by
    rcases List.le_total a b with h | h
    · exact .inl (decide_eq_true h)
    · exact .inr (decide_eq_true h)
  trans _ _ _ hab hbc :=
    decide_eq_true (List.le_trans (of_decide_eq_true hab) (of_decide_eq_true hbc))

def sampleRun : JsString := js "run-1"

def sampleFresh : FreshIds := ⟨js "1", js "1"⟩

def sampleRequest (input : String) (enableReplayDedupe : Bool) : TaskExecutionRequest :=
  ⟨js input, none, none, ⟨none, some sampleRun, none, none, some enableReplayDedupe⟩⟩

def sampleResult (output : String) : GenerateResult :=
  ⟨js "gen-1", js "ollama", none, js output, none, .ofNat 5, none⟩

theorem wellFormed_sampleResult (output : String) : (sampleResult output).WellFormed where
  id := show js "gen-1" ≠ [] by decide
  providerUsed := show js "ollama" ∈ providerNames by decide
  finite := JsNumber.isFinite_ofNat (by norm_num)
  nonneg := by
    rw [sampleResult, JsNumber.ofNat_eq (by norm_num), JsNumber.ofNat_eq (by norm_num)]
    simp [JsNumber.lt]

theorem inputDigest_inj {input input' : String} {dedupe dedupe' : Bool}
    (h : (sampleRequest input dedupe).inputDigest sampleHost =
      (sampleRequest input' dedupe').inputDigest sampleHost) : input.toList = input'.toList := by
  have hdigest : ∀ (input : String) (dedupe : Bool),
      (sampleRequest input dedupe).inputDigest sampleHost = ofText (wellFormed (js input)) :=
    fun _ _ => rfl
  rw [hdigest, hdigest, js, js, wellFormed_ofText, wellFormed_ofText] at h
  exact ofText_injective h

/-- The result of an execution of the sample run. -/
def sampleStoredResult (input output : String) (block : Chain.ChainBlock) : StoredResult :=
  ⟨sampleRun, (sampleRequest input false).inputDigest sampleHost, sampleResult output, block⟩

theorem inputDigest_sampleStoredResult (input output : String) (block : Chain.ChainBlock)
    (dedupe : Bool) : (sampleStoredResult input output block).inputDigest =
      (sampleRequest input dedupe).inputDigest sampleHost := rfl

theorem belongsTo_sample (input output : String) (block : Chain.ChainBlock) :
    (sampleStoredResult input output block).BelongsTo sampleRun :=
  ⟨rfl, wellFormed_sampleResult output⟩

theorem resultsOf_samples (input output output' : String) (block block' : Chain.ChainBlock) :
    resultsOf sampleRun
        [sampleStoredResult input output block, sampleStoredResult input output' block'] =
      [sampleStoredResult input output block, sampleStoredResult input output' block'] := by
  simp [resultsOf, belongsTo_sample]

theorem resultsOf_sample (input output : String) (block : Chain.ChainBlock) :
    resultsOf sampleRun [sampleStoredResult input output block] =
      [sampleStoredResult input output block] := by
  simp [resultsOf, belongsTo_sample]

/-- One execution of the sample run, which does not look for results, on an empty directory. -/
theorem exists_one_result (hP : ∀ request, request.replayDedupeEnabled = false →
    P request sampleFresh []) (input output : String) :
    ∃ dir block, ((executorSystem sampleHost Chain.sampleFileSystem sampleRun).restrict
      (startsWhen P)).Reachable ⟨dir, none, [sampleStoredResult input output block]⟩ := by
  obtain ⟨blocks, hchained, hlength, hinit⟩ :=
    exists_chained sampleHost Chain.sampleFileSystem sampleRun (Nat.zero_le _)
  have hs : ((executorSystem sampleHost Chain.sampleFileSystem sampleRun).restrict
      (startsWhen P)).Reachable _ := .of_init hinit
  have hroom : blocks.length + 4 ≤ Chain.sampleFileSystem.capacity := by
    rw [hlength]
    decide
  obtain ⟨new, block, -, -, -, hs⟩ := reachable_execution hs hchained hroom
    (sampleRequest input false) sampleFresh (hP _ rfl) rfl (sampleResult output)
  exact ⟨_, block, hs⟩

/-- A second question under the same run id gets the answer to the first. -/
theorem other_input_answered : ¬BindsInput sampleHost sampleRun
    (executorSystem sampleHost Chain.sampleFileSystem sampleRun) := by
  intro hbinds
  obtain ⟨dir, block, hs⟩ := exists_one_result (P := fun _ _ _ => True) (fun _ _ => trivial)
    "first question" "first answer"
  have hresults := resultsOf_sample "first question" "first answer" block
  obtain ⟨result, -, hs⟩ := reachable_reuse localeOrder_sampleHost hs
    (sampleRequest "second question" true) sampleFresh trivial rfl rfl (by rw [hresults]; simp)
  obtain ⟨e, he, hdigest, -⟩ := hbinds _ hs.of_restrict _ rfl rfl result rfl rfl
  rw [hresults] at he
  obtain rfl := List.mem_singleton.mp he
  rw [inputDigest_sampleStoredResult _ _ _ false] at hdigest
  exact absurd (inputDigest_inj hdigest) (by simp)

/-- The first question asked again is answered from the chain. -/
theorem binds_input_sample : ∃ s execution result,
    ((executorSystem sampleHost Chain.sampleFileSystem sampleRun).restrict
      (startsWhen (SameInput sampleHost sampleRun))).Reachable s ∧
    s.running = some execution ∧ execution.program = .done result ∧ execution.called = false ∧
    ∃ e ∈ resultsOf sampleRun execution.earlier,
      e.inputDigest = execution.request.inputDigest sampleHost ∧ result = e.result.reused := by
  obtain ⟨dir, block, hs⟩ := exists_one_result (P := SameInput sampleHost sampleRun)
    (fun request hoff _ hon => absurd (hoff.symm.trans hon) (by decide))
    "first question" "first answer"
  have hresults := resultsOf_sample "first question" "first answer" block
  have hsame : SameInput sampleHost sampleRun (sampleRequest "first question" true) sampleFresh
      [sampleStoredResult "first question" "first answer" block] := by
    intro _ _ e he _
    rw [hresults] at he
    obtain rfl := List.mem_singleton.mp he
    exact inputDigest_sampleStoredResult _ _ _ _
  obtain ⟨result, -, hs⟩ := reachable_reuse localeOrder_sampleHost hs
    (sampleRequest "first question" true) sampleFresh hsame rfl rfl (by rw [hresults]; simp)
  exact ⟨_, _, result, hs, rfl, rfl, rfl,
    binds_input localeOrder_sampleHost _ hs _ rfl rfl result rfl rfl⟩

theorem replays_latest_sample : ∃ s execution latest,
    ((executorSystem sampleHost Chain.sampleFileSystem sampleRun).restrict
      (startsWhen (LatestSortsLast sampleHost sampleRun))).Reachable s ∧
    s.running = some execution ∧
    (resultsOf sampleRun execution.earlier).getLast? = some latest ∧ execution.called = false ∧
    ∃ t, ((executorSystem sampleHost Chain.sampleFileSystem sampleRun).restrict
      (startsWhen (LatestSortsLast sampleHost sampleRun))).Leads s t ∧
        t.running = some { execution with program := .done latest.result.reused } := by
  obtain ⟨dir, block, hs⟩ := exists_one_result (P := LatestSortsLast sampleHost sampleRun)
    (fun request hoff _ hon => absurd (hoff.symm.trans hon) (by decide))
    "first question" "first answer"
  have hresults := resultsOf_sample "first question" "first answer" block
  have hlatest : LatestSortsLast sampleHost sampleRun (sampleRequest "first question" true)
      sampleFresh [sampleStoredResult "first question" "first answer" block] := by
    intro _ _ latest hlast e he _
    rw [hresults] at he hlast
    rw [List.mem_singleton.mp he]
    exact Option.some.inj hlast
  have hs := reachable_start hs hlatest
  have hlast : (resultsOf sampleRun [sampleStoredResult "first question" "first answer"
      block]).getLast? = some (sampleStoredResult "first question" "first answer" block) := by
    rw [hresults]
    rfl
  obtain ⟨hcalled, -, -, hleads⟩ :=
    replays_latest localeOrder_sampleHost _ hs _ rfl rfl rfl _ hlast
  exact ⟨_, _, _, hs, rfl, hlast, hcalled, hleads⟩

/-- A directory with room for more than a million blocks. -/
def largeFileSystem : Chain.FileSystem := ⟨2 ^ 40, by norm_num⟩

/-- Two executions of the sample run, which do not look for results, after a chain of a length. -/
theorem exists_two_results {n : ℕ} (hn : n + 8 ≤ largeFileSystem.capacity)
    (input output output' : String) :
    ∃ dir block block', block.index = .ofNat (n + 3) ∧ block'.index = .ofNat (n + 7) ∧
      ((executorSystem sampleHost largeFileSystem sampleRun).restrict
        (startsWhen fun _ _ _ => True)).Reachable ⟨dir, none,
          [sampleStoredResult input output block, sampleStoredResult input output' block']⟩ := by
  obtain ⟨blocks, hchained, hlength, hinit⟩ :=
    exists_chained sampleHost largeFileSystem sampleRun ((Nat.le_add_right n 8).trans hn)
  have hs : ((executorSystem sampleHost largeFileSystem sampleRun).restrict
      (startsWhen fun _ _ _ => True)).Reachable _ := .of_init hinit
  obtain ⟨new, block, hchained, hnew, hindex, hs⟩ := reachable_execution hs hchained (by omega)
    (sampleRequest input false) sampleFresh trivial rfl (sampleResult output)
  have hlength' : (blocks ++ new).length = n + 4 := by
    rw [List.length_append, hlength, hnew]
  obtain ⟨new', block', -, -, hindex', hs⟩ := reachable_execution hs hchained (by omega)
    (sampleRequest input false) sampleFresh trivial rfl (sampleResult output')
  rw [hlength] at hindex
  rw [hlength'] at hindex'
  exact ⟨_, block, block', hindex, hindex', hs⟩

theorem fileName_millionth : sampleHost.localeLe (ofText (Chain.fileName (.ofNat (999996 + 3))))
    (ofText (Chain.fileName (.ofNat (999996 + 7)))) = false := by
  rw [Chain.fileName, Chain.fileName, numberText_ofNat (by norm_num), numberText_ofNat (by norm_num)]
  decide

/-- After a million blocks the name of the latest result does not sort last, and an older result
is returned. -/
theorem older_result_returned :
    ¬ReplaysLatest sampleRun (executorSystem sampleHost largeFileSystem sampleRun) := by
  intro hreplays
  have hroom : 999996 + 8 ≤ largeFileSystem.capacity := by
    rw [largeFileSystem]
    norm_num
  obtain ⟨dir, block, block', hindex, hindex', hs⟩ :=
    exists_two_results hroom "question" "first answer" "second answer"
  have hresults := resultsOf_samples "question" "first answer" "second answer" block block'
  have hlast : (resultsOf sampleRun [sampleStoredResult "question" "first answer" block,
      sampleStoredResult "question" "second answer" block']).getLast? =
        some (sampleStoredResult "question" "second answer" block') := by
    rw [hresults]
    rfl
  obtain ⟨result, ⟨e, he, hsorts, hreused⟩, hs⟩ := reachable_reuse localeOrder_sampleHost hs
    (sampleRequest "question" true) sampleFresh trivial rfl rfl (by rw [hresults]; simp)
  obtain ⟨-, -, hdone, -⟩ := hreplays _ hs.of_restrict _ rfl rfl rfl _ hlast
  have hanswer := hdone result rfl
  rw [hresults] at he
  rcases List.mem_cons.mp he with rfl | he
  · have houtput : js "first answer" = js "second answer" :=
      congrArg GenerateResult.output (hreused.symm.trans hanswer)
    exact absurd houtput (by decide)
  · obtain rfl := List.mem_singleton.mp he
    have hname := hsorts (sampleStoredResult "question" "first answer" block)
      (by rw [hresults]; simp)
    rw [NameAfter, StoredResult.file, StoredResult.file, sampleStoredResult, sampleStoredResult,
      hindex, hindex', fileName_millionth] at hname
    cases hname

end MemphisOS.TaskExecutor
