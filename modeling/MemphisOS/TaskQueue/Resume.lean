import MemphisOS.TaskQueue.FailedWrites

/-!
# Resuming recovered tasks

After a restart the queue fails the tasks it has recovered or hands them to a handler again.
Each of them is then finished in the log and in memory. A finish whose write fails is tried once
more.
-/

namespace MemphisOS.TaskQueue

open Ecma

inductive TaskQueueResumePolicy where
  | keep
  | fail
  | redispatch
  deriving DecidableEq

structure TaskQueueResumeResult where
  policy : TaskQueueResumePolicy
  scanned : ℕ
  redispatched : ℕ
  failed : ℕ
  canceled : ℕ
  kept : ℕ
  errors : List JsString

structure TaskQueueResumeSummary extends TaskQueueResumeResult where
  completedAt : Text

/-- What the language and the operating system leave open: `localeCompare`, and the message of
an error. -/
structure QueueHost where
  localeCompare : JsString → JsString → ℤ
  message : QueueError → JsString

/-- `a.enqueuedAt` and `b.enqueuedAt`, then `a.taskId` and `b.taskId`, in the order of `sort`. -/
def QueueHost.before (host : QueueHost) (a b : PendingTask) : Bool :=
  if a.enqueuedAt = b.enqueuedAt then host.localeCompare a.taskId b.taskId ≤ 0
  else host.localeCompare a.enqueuedAt b.enqueuedAt ≤ 0

def TaskQueueService.listPending (host : QueueHost) (service : TaskQueueService) :
    List PendingTask :=
  (service.pending.map Prod.snd).mergeSort host.before

/-! ## Rounds -/

/-- What the handler does with a task: it returns a status or nothing, or it throws an error
with a message. -/
inductive Outcome where
  | returned (status : Option TaskQueueStatus)
  | threw (message : JsString)

/-- What a round of the loop draws from its environment. -/
structure Round where
  outcome : Outcome
  /-- The environment of the first `finish`. -/
  env : Env
  /-- The environment of the `finish` in the `catch` block. -/
  retryEnv : Env

/-- The input of `resumeRecoveredPending`. -/
structure ResumeInput where
  policy : Option TaskQueueResumePolicy
  /-- A handler is given. -/
  redispatch : Bool

/-- The state of the loop, with the tasks the handler was called with, the records `finish` has
written so far and its calls, each with the session before it. -/
structure Resumption where
  session : Session
  out : TaskQueueResumeResult
  dispatched : List JsString
  finishes : List (Session × Call)

def normalizeResumeStatus (status : Option TaskQueueStatus) : TaskQueueStatus :=
  status.getD .completed

/-- The metadata of a finish in the loop. -/
def resumeMetadata (reason : String) (error : Option JsString) : JsValue :=
  .obj ([(js "reason", .str (js reason)), (js "recoveredOnStartup", .bool true)] ++
    (error.map fun message => (js "error", .str message)).toList)

/-- The call of `this.finish`. -/
def Resumption.finish (r : Resumption) (env : Env) (taskId : JsString) (status : TaskQueueStatus)
    (metadata : JsValue) : Except QueueError Bool × Resumption :=
  let call := Call.finish env taskId status (some metadata)
  ((TaskQueueService.finish r.session.queue env taskId status (some metadata)).1,
    { r with session := r.session.next call, finishes := r.finishes ++ [(r.session, call)] })

/-- `this.recoveredTaskIds.delete(taskId)`. -/
def Resumption.forget (r : Resumption) (taskId : JsString) : Resumption :=
  let service := r.session.queue.service
  let recoveredTaskIds := service.recoveredTaskIds.filter (· ≠ taskId)
  { r with session := ⟨⟨{ service with recoveredTaskIds }, r.session.queue.disk⟩,
      r.session.returned⟩ }

/-- Count a task that was finished with the status. -/
def TaskQueueResumeResult.count (out : TaskQueueResumeResult) :
    TaskQueueStatus → TaskQueueResumeResult
  | .completed => { out with redispatched := out.redispatched + 1 }
  | .canceled => { out with canceled := out.canceled + 1 }
  | .failed => { out with failed := out.failed + 1 }

/-- The `try` block of a round: its error, if it throws one, as a message. -/
def resumeAttempt (host : QueueHost) (policy : TaskQueueResumePolicy) (round : Round)
    (taskId : JsString) (r : Resumption) : Except JsString Unit × Resumption :=
  if policy = .fail then
    match r.finish round.env taskId .failed (resumeMetadata "resume_policy_fail" none) with
    | (.ok _, r) => (.ok (), { r with out := { r.out with failed := r.out.failed + 1 } })
    | (.error e, r) => (.error (host.message e), r)
  else
    let r := { r with dispatched := r.dispatched ++ [taskId] }
    match round.outcome with
    | .threw message => (.error message, r)
    | .returned status =>
      let resumeStatus := normalizeResumeStatus status
      match r.finish round.env taskId resumeStatus
        (resumeMetadata "resume_policy_redispatch" none) with
      | (.ok _, r) => (.ok (), { r with out := r.out.count resumeStatus })
      | (.error e, r) => (.error (host.message e), r)

/-- A round of the loop. -/
def resumeTask (host : QueueHost) (policy : TaskQueueResumePolicy) (round : Round)
    (taskId : JsString) (r : Resumption) : Except QueueError Unit × Resumption :=
  match resumeAttempt host policy round taskId r with
  | (.ok (), r) => (.ok (), r.forget taskId)
  | (.error message, r) =>
    match r.finish round.retryEnv taskId .failed
      (resumeMetadata "resume_policy_redispatch_error" (some message)) with
    | (.error e, r) => (.error e, r.forget taskId)
    | (.ok _, r) =>
      let errors := r.out.errors ++ [js "task " ++ taskId ++ js ": " ++ message]
      (.ok (), Resumption.forget
        { r with out := { r.out with failed := r.out.failed + 1, errors } } taskId)

/-- The loop over the tasks, with what its rounds draw from the environment. -/
def resumeLoop (host : QueueHost) (policy : TaskQueueResumePolicy) :
    List JsString → (ℕ → Round) → Resumption → Except QueueError Unit × Resumption
  | [], _, r => (.ok (), r)
  | taskId :: taskIds, rounds, r =>
    match resumeTask host policy (rounds 0) taskId r with
    | (.ok (), r) => resumeLoop host policy taskIds (fun i => rounds (i + 1)) r
    | (.error e, r) => (.error e, r)

def recordLastResume (result : TaskQueueResumeResult) (completedAt : Text) :
    TaskQueueResumeSummary :=
  { result with completedAt }

/-- The tasks `resumeRecoveredPending` scans. -/
def recoveredPending (host : QueueHost) (service : TaskQueueService) : List PendingTask :=
  (service.listPending host).filter fun task => task.taskId ∈ service.recoveredTaskIds

/-- `this.recoveredTaskIds.clear()`. -/
def Resumption.clear (r : Resumption) : Resumption :=
  { r with session := ⟨⟨{ r.session.queue.service with recoveredTaskIds := [] },
      r.session.queue.disk⟩, r.session.returned⟩ }

/-- The state in which the loop starts. -/
def Resumption.start (queue : Queue) (policy : TaskQueueResumePolicy) (scanned : ℕ) : Resumption :=
  ⟨⟨queue, []⟩, ⟨policy, scanned, 0, 0, 0, 0, []⟩, [], []⟩

/-- The result, its summary and the state at the end, or the state when an error is thrown. -/
def resumeRecoveredPending (host : QueueHost) (defaultResumePolicy : TaskQueueResumePolicy)
    (input : ResumeInput) (rounds : ℕ → Round) (completedAt : Text) (queue : Queue) :
    Except QueueError TaskQueueResumeSummary × Resumption :=
  let policy := input.policy.getD defaultResumePolicy
  let recovered := recoveredPending host queue.service
  let scanned := recovered.length
  let r := Resumption.start queue policy scanned
  let finished (r : Resumption) := (.ok (recordLastResume r.out completedAt), r)
  if scanned = 0 then finished r
  else if policy = .keep then
    finished (Resumption.clear { r with out := { r.out with kept := scanned } })
  else if policy = .redispatch ∧ input.redispatch = false then
    finished (Resumption.clear { r with out := { r.out with
      kept := scanned
      errors := [js "resume redispatch requested but no redispatch handler was provided"] } })
  else
    match resumeLoop host policy (recovered.map PendingTask.taskId) rounds r with
    | (.ok (), r) => finished r
    | (.error e, r) => (.error e, r)

/-! ## Recovered queues -/

/-- The queues that a service that starts on some files gets to, whatever its calls do. -/
def queueCalls (options : TaskQueueServiceOptions) (disk : Disk) :
    TransitionSystem Queue Call where
  init queue := TaskQueueService.new options disk = .ok queue
  step queue call queue' := queue' = call.perform queue

/-- The map has each task under its id, and recovered tasks are pending. -/
structure Tracks (pending : List (JsString × PendingTask)) (recovered : List JsString) :
    Prop where
  keys : (pending.map Prod.fst).Nodup
  named : ∀ m ∈ pending, m.2.taskId = m.1
  recovered : ∀ id ∈ recovered, id ∈ pending.map Prod.fst

variable {queue queue' : Queue} {call : Call} {taskId : JsString} {task : PendingTask}
  {pending : List (JsString × PendingTask)} {recovered recovered' : List JsString}

theorem Tracks.put (h : Tracks pending recovered) (task : PendingTask)
    (hrecovered : ∀ id ∈ recovered', id = task.taskId ∨ id ∈ recovered) :
    Tracks (setMember task.taskId task pending) recovered' where
  keys := nodup_setMember h.keys _ _
  named m hm := by
    rcases mem_of_mem_setMember hm with rfl | hm
    · rfl
    · exact h.named m hm
  recovered id hid := by
    rw [keys_setMember]
    rcases hrecovered id hid with rfl | hid
    · split
      · assumption
      · exact List.mem_append_right _ List.mem_cons_self
    · have hkey := h.recovered id hid
      split
      · exact hkey
      · exact List.mem_append_left _ hkey

theorem Tracks.drop (h : Tracks pending recovered) (taskId : JsString) :
    Tracks (deleteMember taskId pending) (recovered.filter (· ≠ taskId)) where
  keys := h.keys.sublist (List.filter_sublist.map Prod.fst)
  named m hm := h.named m (List.mem_filter.mp hm).1
  recovered id hid := by
    obtain ⟨hid, hne⟩ := List.mem_filter.mp hid
    obtain ⟨m, hm, rfl⟩ := List.mem_map.mp (h.recovered id hid)
    exact List.mem_map.mpr ⟨m, List.mem_filter.mpr ⟨hm, hne⟩, rfl⟩

theorem Tracks.forget (h : Tracks pending recovered) (taskId : JsString) :
    Tracks pending (recovered.filter (· ≠ taskId)) where
  keys := h.keys
  named := h.named
  recovered id hid := h.recovered id (List.mem_filter.mp hid).1

/-- The maps of a service agree. -/
def TaskQueueService.Tracked (service : TaskQueueService) : Prop :=
  Tracks service.pending service.recoveredTaskIds

theorem tracked_recoverRecord {service : TaskQueueService} (h : service.Tracked)
    (record : WalRecord) : (recoverRecord service record).Tracked := by
  unfold recoverRecord
  cases parseEnvelope record.payload with
  | none => exact h
  | some envelope =>
    cases envelope with
    | enqueue task =>
      refine Tracks.put h task fun id hid => ?_
      dsimp only at hid
      split at hid
      · exact .inr hid
      · rcases List.mem_append.mp hid with hid | hid
        · exact .inr hid
        · exact .inl (List.mem_singleton.mp hid)
    | finish taskId => exact Tracks.drop h taskId

theorem tracked_new {options : TaskQueueServiceOptions} {disk : Disk}
    (h : TaskQueueService.new options disk = .ok queue) : queue.service.Tracked := by
  rw [TaskQueueService.new] at h
  split at h
  · next records disk' hread =>
    obtain rfl := Except.ok.inj h
    have hrecords : ∀ records : List WalRecord, ∀ service : TaskQueueService, service.Tracked →
        (records.foldl recoverRecord service).Tracked := by
      intro records
      induction records with
      | nil => exact fun service hservice => hservice
      | cons record records ih =>
        exact fun service hservice => ih _ (tracked_recoverRecord hservice record)
    exact hrecords records _ ⟨by simp, by simp, by simp⟩
  · cases h

theorem tracked_perform (h : queue.service.Tracked) (call : Call) :
    (call.perform queue).service.Tracked := by
  cases call with
  | enqueue env task =>
    unfold Call.perform TaskQueueService.enqueue
    dsimp only
    split
    · exact h
    · split
      · exact h
      · exact Tracks.put h ⟨ofText env.randomUUID, ofText env.nowIso, task.value⟩
          fun id hid => .inr hid
  | finish env taskId status metadata =>
    unfold Call.perform TaskQueueService.finish
    dsimp only
    split
    · exact h
    · split
      · exact h
      · exact Tracks.drop h taskId

/-- Every queue that is reached has its maps in agreement and its lock free. -/
theorem reachable_tracked {options : TaskQueueServiceOptions} {disk : Disk}
    (hqueue : (queueCalls options disk).Reachable queue) :
    queue.service.Tracked ∧ queue.disk.lock = false := by
  apply hqueue.invariant (I := fun queue => queue.service.Tracked ∧ queue.disk.lock = false)
  · intro queue hnew
    obtain ⟨payloads, hholds⟩ := inStep_new hnew
    exact ⟨tracked_new hnew, hholds.holds.unlocked⟩
  · rintro queue call queue' ⟨htracked, hunlocked⟩ rfl
    exact ⟨tracked_perform htracked call,
      (Session.next_cases (s := ⟨queue, []⟩) call hunlocked).1⟩

/-! ## Finishing a task -/

/-- The loop gets from one state to another: it has called `finish` some times. -/
structure Resumption.Leads (r r' : Resumption) : Prop where
  unlocked : r.session.queue.disk.lock = false → r'.session.queue.disk.lock = false
  returned : r.session.returned <+: r'.session.returned
  finishes : r.finishes <+: r'.finishes
  survives : r.session.queue.disk.lock = false → r.session.Survives →
    (∀ f ∈ r'.finishes, f.1.harmed f.2 = false) → r'.session.Survives

variable {r r' r'' : Resumption} {host : QueueHost} {policy : TaskQueueResumePolicy} {round : Round}
  {env : Env} {status : TaskQueueStatus} {metadata : JsValue}

theorem Resumption.Leads.refl (r : Resumption) : r.Leads r :=
  ⟨id, List.prefix_rfl, List.prefix_rfl, fun _ hsurvives _ => hsurvives⟩

theorem Resumption.Leads.trans (h : r.Leads r') (h' : r'.Leads r'') : r.Leads r'' where
  unlocked hunlocked := h'.unlocked (h.unlocked hunlocked)
  returned := h.returned.trans h'.returned
  finishes := h.finishes.trans h'.finishes
  survives hunlocked hsurvives hharmless := h'.survives (h.unlocked hunlocked)
    (h.survives hunlocked hsurvives fun f hf => hharmless f (h'.finishes.subset hf)) hharmless

theorem Resumption.leads_finish (r : Resumption) (env : Env) (taskId : JsString)
    (status : TaskQueueStatus) (metadata : JsValue) :
    r.Leads (r.finish env taskId status metadata).2 where
  unlocked hunlocked := (Session.next_cases _ hunlocked).1
  returned := List.prefix_append _ _
  finishes := List.prefix_append _ _
  survives hunlocked hsurvives hharmless :=
    hsurvives.next hunlocked (hharmless (_, _) (List.mem_append_right _ List.mem_cons_self))

theorem Resumption.leads_forget (r : Resumption) (taskId : JsString) :
    r.Leads (r.forget taskId) :=
  ⟨id, List.prefix_rfl, List.prefix_rfl, fun _ hsurvives _ => hsurvives⟩

/-- The task is finished: it is not pending or recovered any more, and its record is written. -/
structure Resumption.Finishes (taskId : JsString) (r r' : Resumption) : Prop where
  pending : r'.session.queue.service.pending =
    deleteMember taskId r.session.queue.service.pending
  recovered : r'.session.queue.service.recoveredTaskIds =
    r.session.queue.service.recoveredTaskIds.filter (· ≠ taskId)
  written : ∃ record ∈ r'.session.returned, parseEnvelope record.payload = some (.finish taskId)

theorem payload_of_enqueuePayload {options : WalOptions} {io : Io} {payload : Text}
    {disk disk' : Disk} {record : WalRecord}
    (h : enqueuePayload options io payload disk = (.ok record, disk')) :
    record.payload = payload := by
  unfold enqueuePayload at h
  split at h
  · cases (Prod.mk.inj h).1
  · obtain ⟨d, hlocked, -⟩ := withLock_ok h
    split at hlocked
    · cases (Prod.mk.inj hlocked).1
    · unfold appendToWal at hlocked
      dsimp only at hlocked
      split at hlocked
      · obtain rfl := Except.ok.inj (Prod.mk.inj hlocked).1
        rfl
      · cases (Prod.mk.inj hlocked).1

/-- What `finish` does with a pending task. -/
theorem Resumption.finish_cases (r : Resumption) (env : Env) (status : TaskQueueStatus)
    (metadata : JsValue) (hpending : (r.session.queue.service.pending.lookup taskId).isSome) :
    (∃ e r', r.finish env taskId status metadata = (.error e, r') ∧
      r'.session.queue.service = r.session.queue.service ∧ r'.out = r.out ∧
      r'.dispatched = r.dispatched) ∨
    ∃ b r', r.finish env taskId status metadata = (.ok b, r') ∧ r.Finishes taskId r' ∧
      r'.out = r.out ∧ r'.dispatched = r.dispatched := by
  have hnone : ¬(r.session.queue.service.pending.lookup taskId).isNone = true := by
    rw [Option.isNone_iff_eq_none]
    exact Option.isSome_iff_ne_none.mp hpending
  rcases hwrite : writeEnvelope r.session.queue env.io
    (finishEnvelope taskId status (ofText env.nowIso) (some metadata)) with ⟨_ | _, disk⟩
  · next e =>
    have hfinish : TaskQueueService.finish r.session.queue env taskId status (some metadata) =
        (.error e, ⟨r.session.queue.service, disk⟩) := by
      rw [TaskQueueService.finish, if_neg hnone, hwrite]
    have hresult : (r.finish env taskId status metadata).1 = .error e :=
      congrArg Prod.fst hfinish
    refine .inl ⟨e, _, Prod.ext hresult rfl, ?_, rfl, rfl⟩
    exact congrArg (fun result => result.2.service) hfinish
  · have hfinish : TaskQueueService.finish r.session.queue env taskId status (some metadata) =
        (.ok true, ⟨{ r.session.queue.service with
          pending := deleteMember taskId r.session.queue.service.pending
          recoveredTaskIds := r.session.queue.service.recoveredTaskIds.filter (· ≠ taskId)
          totalFinished := r.session.queue.service.totalFinished + 1 }, disk⟩) := by
      rw [TaskQueueService.finish, if_neg hnone, hwrite]
    obtain ⟨payload, record, hpayload, hrecord⟩ := writeEnvelope_ok hwrite
    have hresult : (r.finish env taskId status metadata).1 = .ok true :=
      congrArg Prod.fst hfinish
    refine .inr ⟨true, _, Prod.ext hresult rfl, ⟨?_, ?_, ?_⟩, rfl, rfl⟩
    · exact congrArg (fun result => result.2.service.pending) hfinish
    · exact congrArg (fun result => result.2.service.recoveredTaskIds) hfinish
    · have hcall : (Call.finish env taskId status (some metadata)).record r.session.queue =
          some record := by
        rw [Call.record, Call.append, Call.payload, Call.accepted, if_pos hpending, Call.envelope,
          hpayload]
        exact congrArg (fun append => append.1.toOption) hrecord
      refine ⟨record, ?_, ?_⟩
      · refine List.mem_append_right _ ?_
        rw [hcall]
        exact List.mem_cons_self
      · rw [payload_of_enqueuePayload hrecord]
        exact parseEnvelope_finish hpayload

/-- The tasks counted so far. -/
def TaskQueueResumeResult.settled (out : TaskQueueResumeResult) : ℕ :=
  out.redispatched + out.failed + out.canceled

/-- The task is finished and counted. -/
structure Resumption.Settles (taskId : JsString) (r r' : Resumption) : Prop extends
    r.Leads r', r.Finishes taskId r' where
  settled : r'.out.settled = r.out.settled + 1
  scanned : r'.out.scanned = r.out.scanned
  kept : r'.out.kept = r.out.kept

/-- Nothing has changed in memory. -/
structure Resumption.Fails (r r' : Resumption) : Prop extends r.Leads r' where
  service : r'.session.queue.service = r.session.queue.service
  out : r'.out = r.out

theorem Resumption.Settles.of_dispatched {dispatched : List JsString}
    (h : Resumption.Settles taskId { r with dispatched } r') : r.Settles taskId r' where
  unlocked := h.unlocked
  returned := h.returned
  finishes := h.finishes
  survives := h.survives
  pending := h.pending
  recovered := h.recovered
  written := h.written
  settled := h.settled
  scanned := h.scanned
  kept := h.kept

theorem Resumption.Fails.of_dispatched {dispatched : List JsString}
    (h : Resumption.Fails { r with dispatched } r') : r.Fails r' where
  unlocked := h.unlocked
  returned := h.returned
  finishes := h.finishes
  survives := h.survives
  service := h.service
  out := h.out

/-- At most the task was dispatched. -/
def Resumption.Dispatches (taskId : JsString) (r r' : Resumption) : Prop :=
  r'.dispatched = r.dispatched ∨ r'.dispatched = r.dispatched ++ [taskId]

theorem settled_count (out : TaskQueueResumeResult) (status : TaskQueueStatus) :
    (out.count status).settled = out.settled + 1 := by
  cases status <;> simp only [TaskQueueResumeResult.count, TaskQueueResumeResult.settled] <;> omega

theorem scanned_count (out : TaskQueueResumeResult) (status : TaskQueueStatus) :
    (out.count status).scanned = out.scanned := by
  cases status <;> rfl

theorem kept_count (out : TaskQueueResumeResult) (status : TaskQueueStatus) :
    (out.count status).kept = out.kept := by
  cases status <;> rfl

/-- A finish with the count of its status. -/
def Resumption.finishCounted (host : QueueHost) (r : Resumption) (env : Env) (taskId : JsString)
    (status : TaskQueueStatus) (metadata : JsValue) : Except JsString Unit × Resumption :=
  match r.finish env taskId status metadata with
  | (.ok _, r) => (.ok (), { r with out := r.out.count status })
  | (.error e, r) => (.error (host.message e), r)

theorem Resumption.finishCounted_cases (host : QueueHost) (env : Env) (status : TaskQueueStatus)
    (metadata : JsValue) (hpending : (r.session.queue.service.pending.lookup taskId).isSome) :
    (∃ message r', r.finishCounted host env taskId status metadata = (.error message, r') ∧
      r.Fails r' ∧ r'.dispatched = r.dispatched) ∨
    ∃ r', r.finishCounted host env taskId status metadata = (.ok (), r') ∧ r.Settles taskId r' ∧
      r'.dispatched = r.dispatched := by
  have hleads := r.leads_finish env taskId status metadata
  unfold finishCounted
  rcases r.finish_cases env status metadata hpending with
    ⟨e, r', hfinish, hservice, hout, hdispatched⟩ | ⟨b, r', hfinish, hfinishes, hout, hdispatched⟩
  · rw [hfinish] at hleads ⊢
    exact .inl ⟨_, _, rfl, ⟨hleads, hservice, hout⟩, hdispatched⟩
  · rw [hfinish] at hleads ⊢
    refine .inr ⟨_, rfl, ⟨⟨hleads.1, hleads.2, hleads.3, hleads.4⟩, ⟨hfinishes.1, hfinishes.2,
      hfinishes.3⟩, ?_, ?_, ?_⟩, hdispatched⟩
    · dsimp only
      rw [settled_count, hout]
    · dsimp only
      rw [scanned_count, hout]
    · dsimp only
      rw [kept_count, hout]

/-- What the `try` block does with a pending task: it finishes the task, or it changes nothing
in memory. -/
theorem resumeAttempt_cases (host : QueueHost) (policy : TaskQueueResumePolicy) (round : Round)
    (hpending : (r.session.queue.service.pending.lookup taskId).isSome) :
    (∃ message r', resumeAttempt host policy round taskId r = (.error message, r') ∧
      r.Fails r' ∧ r.Dispatches taskId r') ∨
    ∃ r', resumeAttempt host policy round taskId r = (.ok (), r') ∧ r.Settles taskId r' ∧
      r.Dispatches taskId r' := by
  unfold resumeAttempt
  split
  · rcases r.finishCounted_cases host round.env .failed
      (resumeMetadata "resume_policy_fail" none) hpending with
      ⟨message, r', hfinish, hfails, hdispatched⟩ | ⟨r', hfinish, hsettles, hdispatched⟩
    · exact .inl ⟨message, r', hfinish, hfails, .inl hdispatched⟩
    · exact .inr ⟨r', hfinish, hsettles, .inl hdispatched⟩
  · dsimp only
    split
    · next message hthrew =>
      exact .inl ⟨message, _, rfl, ⟨⟨id, List.prefix_rfl, List.prefix_rfl,
        fun _ hsurvives _ => hsurvives⟩, rfl, rfl⟩, .inr rfl⟩
    · next status hreturned =>
      rcases Resumption.finishCounted_cases
        (r := { r with dispatched := r.dispatched ++ [taskId] }) host round.env
        (normalizeResumeStatus status) (resumeMetadata "resume_policy_redispatch" none) hpending
        with ⟨message, r', hfinish, hfails, hdispatched⟩ | ⟨r', hfinish, hsettles, hdispatched⟩
      · exact .inl ⟨message, r', hfinish, hfails.of_dispatched, .inr hdispatched⟩
      · exact .inr ⟨r', hfinish, hsettles.of_dispatched, .inr hdispatched⟩

theorem filter_ne_again (taskId : JsString) (ids : List JsString) :
    (ids.filter (· ≠ taskId)).filter (· ≠ taskId) = ids.filter (· ≠ taskId) := by
  rw [List.filter_filter]
  simp only [Bool.and_self]

theorem Resumption.Settles.forget (h : r.Settles taskId r') :
    r.Settles taskId (r'.forget taskId) where
  toLeads := h.toLeads.trans (r'.leads_forget taskId)
  pending := h.pending
  recovered := by
    have hforget : (r'.forget taskId).session.queue.service.recoveredTaskIds =
        r'.session.queue.service.recoveredTaskIds.filter (· ≠ taskId) := rfl
    rw [hforget, h.recovered, filter_ne_again]
  written := h.written
  settled := h.settled
  scanned := h.scanned
  kept := h.kept

/-- A round that returns finishes its task, if the task was pending. -/
theorem resumeTask_settles (hpending : (r.session.queue.service.pending.lookup taskId).isSome)
    (h : resumeTask host policy round taskId r = (.ok (), r')) :
    r.Settles taskId r' ∧ r.Dispatches taskId r' := by
  unfold resumeTask at h
  rcases resumeAttempt_cases host policy round hpending with
    ⟨message, s, hattempt, hfails, hdispatches⟩ | ⟨s, hattempt, hsettles, hdispatches⟩
  · rw [hattempt] at h
    dsimp only at h
    rw [← hfails.service] at hpending
    have hleads := s.leads_finish round.retryEnv taskId .failed
      (resumeMetadata "resume_policy_redispatch_error" (some message))
    rcases s.finish_cases round.retryEnv .failed
      (resumeMetadata "resume_policy_redispatch_error" (some message)) hpending with
      ⟨e, t, hfinish, -⟩ | ⟨b, t, hfinish, hfinishes, hout, hdispatched⟩
    · rw [hfinish] at h
      cases (Prod.mk.inj h).1
    · rw [hfinish] at h hleads
      obtain rfl := (Prod.mk.inj h).2
      have htrans := hfails.toLeads.trans hleads
      have hsettles : r.Settles taskId { t with out := { t.out with
          failed := t.out.failed + 1
          errors := t.out.errors ++ [js "task " ++ taskId ++ js ": " ++ message] } } :=
        { unlocked := htrans.unlocked
          returned := htrans.returned
          finishes := htrans.finishes
          survives := htrans.survives
          pending := by rw [hfinishes.pending, hfails.service]
          recovered := by rw [hfinishes.recovered, hfails.service]
          written := hfinishes.written
          settled := by
            rw [hout, hfails.out]
            simp only [TaskQueueResumeResult.settled]
            omega
          scanned := by rw [hout, hfails.out]
          kept := by rw [hout, hfails.out] }
      refine ⟨hsettles.forget, ?_⟩
      rw [Resumption.Dispatches, Resumption.forget]
      dsimp only
      rw [hdispatched]
      exact hdispatches
  · rw [hattempt] at h
    obtain rfl := (Prod.mk.inj h).2
    exact ⟨hsettles.forget, hdispatches⟩

/-! ## The loop -/

/-- The tasks are finished, counted and dispatched at most once each. -/
structure Resumption.Drains (taskIds : List JsString) (r r' : Resumption) : Prop extends
    r.Leads r' where
  pending : r'.session.queue.service.pending =
    r.session.queue.service.pending.filter fun m => m.1 ∉ taskIds
  recovered : r'.session.queue.service.recoveredTaskIds =
    r.session.queue.service.recoveredTaskIds.filter (· ∉ taskIds)
  written : ∀ taskId ∈ taskIds, ∃ record ∈ r'.session.returned,
    parseEnvelope record.payload = some (.finish taskId)
  settled : r'.out.settled = r.out.settled + taskIds.length
  scanned : r'.out.scanned = r.out.scanned
  kept : r'.out.kept = r.out.kept
  dispatched : ∃ ids, r'.dispatched = r.dispatched ++ ids ∧ ids.Sublist taskIds

theorem Resumption.Drains.nil (r : Resumption) : r.Drains [] r where
  toLeads := .refl r
  pending := by simp
  recovered := by simp
  written taskId h := by cases h
  settled := rfl
  scanned := rfl
  kept := rfl
  dispatched := ⟨[], (List.append_nil _).symm, List.Sublist.refl _⟩

variable {taskIds : List JsString}

theorem Resumption.Drains.cons (hsettles : r.Settles taskId r') (hdispatches : r.Dispatches taskId r')
    (h : r'.Drains taskIds r'') : r.Drains (taskId :: taskIds) r'' where
  toLeads := hsettles.toLeads.trans h.toLeads
  pending := by
    rw [h.pending, hsettles.pending, deleteMember, List.filter_filter]
    refine List.filter_congr fun m _ => ?_
    simp [Bool.and_comm]
  recovered := by
    rw [h.recovered, hsettles.recovered, List.filter_filter]
    refine List.filter_congr fun id _ => ?_
    simp [Bool.and_comm]
  written id hid := by
    rcases List.mem_cons.mp hid with rfl | hid
    · obtain ⟨record, hrecord, henvelope⟩ := hsettles.written
      exact ⟨record, h.returned.subset hrecord, henvelope⟩
    · exact h.written id hid
  settled := by
    rw [h.settled, hsettles.settled, List.length_cons]
    omega
  scanned := h.scanned.trans hsettles.scanned
  kept := h.kept.trans hsettles.kept
  dispatched := by
    obtain ⟨ids, hids, hsub⟩ := h.dispatched
    rcases hdispatches with hsame | hadded
    · exact ⟨ids, by rw [hids, hsame], hsub.cons taskId⟩
    · exact ⟨taskId :: ids, by rw [hids, hadded, List.append_assoc, List.singleton_append],
        hsub.cons_cons taskId⟩

/-- **The loop.** It finishes pending tasks with different ids when it returns. -/
theorem resumeLoop_drains {rounds : ℕ → Round} (hnodup : taskIds.Nodup)
    (hpending : ∀ id ∈ taskIds, (r.session.queue.service.pending.lookup id).isSome)
    (h : resumeLoop host policy taskIds rounds r = (.ok (), r')) : r.Drains taskIds r' := by
  induction taskIds generalizing rounds r with
  | nil =>
    obtain rfl := (Prod.mk.inj h).2
    exact .nil _
  | cons taskId taskIds ih =>
    obtain ⟨hnot, hnodup⟩ := List.nodup_cons.mp hnodup
    rw [resumeLoop] at h
    split at h
    · next s htask =>
      obtain ⟨hsettles, hdispatches⟩ := resumeTask_settles (hpending taskId List.mem_cons_self) htask
      refine .cons hsettles hdispatches (ih hnodup (fun id hid => ?_) h)
      have hne : id ≠ taskId := fun heq => hnot (heq ▸ hid)
      rw [hsettles.pending, deleteMember, lookup_filter (fun k => k ≠ taskId), if_pos (by simpa)]
      exact hpending id (List.mem_cons_of_mem _ hid)
    · cases (Prod.mk.inj h).1

/-! ## Accounting -/

theorem mem_listPending {service : TaskQueueService} :
    task ∈ service.listPending host ↔ ∃ m ∈ service.pending, m.2 = task := by
  rw [TaskQueueService.listPending, (List.mergeSort_perm _ _).mem_iff, List.mem_map]

/-- The ids of the scanned tasks are different and pending, and they are all that was recovered. -/
theorem recoveredPending_ids {service : TaskQueueService} (h : service.Tracked) :
    ((recoveredPending host service).map PendingTask.taskId).Nodup ∧
    (∀ id ∈ (recoveredPending host service).map PendingTask.taskId,
      (service.pending.lookup id).isSome) ∧
    ∀ id ∈ service.recoveredTaskIds,
      id ∈ (recoveredPending host service).map PendingTask.taskId := by
  have hnamed : (service.pending.map Prod.snd).map PendingTask.taskId =
      service.pending.map Prod.fst := by
    rw [List.map_map]
    exact List.map_congr_left h.named
  refine ⟨?_, ?_, ?_⟩
  · have hperm := (List.mergeSort_perm (service.pending.map Prod.snd) host.before).map
      PendingTask.taskId
    rw [hnamed] at hperm
    exact (hperm.nodup_iff.mpr h.keys).sublist (List.filter_sublist.map _)
  · intro id hid
    obtain ⟨task, htask, rfl⟩ := List.mem_map.mp hid
    obtain ⟨m, hm, rfl⟩ := mem_listPending.mp (List.mem_filter.mp htask).1
    rw [h.named m hm, lookup_of_mem h.keys hm]
    rfl
  · intro id hid
    obtain ⟨m, hm, rfl⟩ := List.mem_map.mp (h.recovered id hid)
    refine List.mem_map.mpr ⟨m.2, List.mem_filter.mpr ⟨mem_listPending.mpr ⟨m, hm, rfl⟩, ?_⟩,
      h.named m hm⟩
    rw [h.named m hm]
    exact decide_eq_true hid

/-- The policy finishes what it scans. -/
def ResumeInput.finishes (input : ResumeInput) (defaultResumePolicy : TaskQueueResumePolicy) :
    Prop :=
  let policy := input.policy.getD defaultResumePolicy
  policy = .fail ∨ policy = .redispatch ∧ input.redispatch = true

/-- The counters of a resume and the maps of the queue agree with what was scanned. -/
structure Accounts (host : QueueHost) (finishes : Prop) (queue : Queue)
    (summary : TaskQueueResumeSummary) (r : Resumption) : Prop where
  dispatched : r.dispatched.Nodup ∧
    ∀ id ∈ r.dispatched, id ∈ (recoveredPending host queue.service).map PendingTask.taskId
  scanned : summary.scanned = (recoveredPending host queue.service).length
  counted : summary.scanned =
    summary.redispatched + summary.failed + summary.canceled + summary.kept
  recovered : r.session.queue.service.recoveredTaskIds = []
  pending : finishes → ∀ task ∈ recoveredPending host queue.service,
    r.session.queue.service.pending.lookup task.taskId = none

/-- A restart reads a finish record of each scanned task. -/
def FinishesLogged (host : QueueHost) (queue : Queue) (r : Resumption) : Prop :=
  ∃ records disk, recoverAndRead (ensureActiveWal r.session.queue.disk) = (.ok records, disk) ∧
    ∀ task ∈ recoveredPending host queue.service, ∃ record ∈ records,
      parseEnvelope record.payload = some (.finish task.taskId)

variable {scanned : ℕ} {finishes : Prop} {completedAt : Text}

/-- A loop that has finished all scanned tasks leaves the accounts in order. -/
theorem accounts_of_drains (htracked : queue.service.Tracked)
    (h : (Resumption.start queue policy (recoveredPending host queue.service).length).Drains
      ((recoveredPending host queue.service).map PendingTask.taskId) r) :
    Accounts host finishes queue (recordLastResume r.out completedAt) r := by
  obtain ⟨hnodup, -, hall⟩ := @recoveredPending_ids host _ htracked
  obtain ⟨ids, hids, hsub⟩ := h.dispatched
  have hids : r.dispatched = ids := hids
  have hsettled := h.settled
  rw [List.length_map] at hsettled
  refine ⟨?_, h.scanned, ?_, ?_, fun _ task htask => ?_⟩
  · rw [hids]
    exact ⟨hnodup.sublist hsub, fun id hid => hsub.subset hid⟩
  · have hscanned : r.out.scanned = (recoveredPending host queue.service).length := h.scanned
    have hkept : r.out.kept = 0 := h.kept
    simp only [TaskQueueResumeResult.settled, Resumption.start] at hsettled
    simp only [recordLastResume]
    omega
  · rw [h.recovered, List.filter_eq_nil_iff]
    intro id hid
    simpa using hall id hid
  · rw [h.pending, lookup_filter fun k => k ∉ (recoveredPending host queue.service).map
      PendingTask.taskId]
    have hmem := List.mem_map_of_mem (f := PendingTask.taskId) htask
    simp only [hmem, not_true, decide_false, Bool.false_eq_true, if_false]

/-- What the loop has written is read again if no finish harms a record. -/
theorem finishesLogged_of_drains (hunlocked : queue.disk.lock = false)
    (h : (Resumption.start queue policy scanned).Drains
      ((recoveredPending host queue.service).map PendingTask.taskId) r)
    (hharmless : ∀ f ∈ r.finishes, f.1.harmed f.2 = false) : FinishesLogged host queue r := by
  have hstart : (Resumption.start queue policy scanned).session.Survives :=
    (Session.survives_iff hunlocked).mpr List.nil_subperm
  obtain ⟨records, disk, hrecover, hreturned⟩ := h.survives hunlocked hstart hharmless
  refine ⟨records, disk, hrecover, fun task htask => ?_⟩
  obtain ⟨record, hrecord, henvelope⟩ := h.written _ (List.mem_map_of_mem htask)
  exact ⟨record, hreturned.subset hrecord, henvelope⟩

/-- A resume that keeps the tasks. -/
theorem accounts_of_kept {errors : List JsString} (hfinishes : ¬finishes) :
    Accounts host finishes queue
      (recordLastResume ⟨policy, (recoveredPending host queue.service).length, 0, 0, 0,
        (recoveredPending host queue.service).length, errors⟩ completedAt)
      (Resumption.clear { Resumption.start queue policy 0 with
        out := ⟨policy, (recoveredPending host queue.service).length, 0, 0, 0,
          (recoveredPending host queue.service).length, errors⟩ }) where
  dispatched := ⟨List.nodup_nil, fun id hid => by cases hid⟩
  scanned := rfl
  counted := by
    simp only [recordLastResume]
    omega
  recovered := rfl
  pending h := absurd h hfinishes

/-- **Resume accounting.** When a resume returns, its counters and maps agree; and each task it
had to finish has a finish record in the log, if no finish harms the record of another or is
written behind a part of a record. -/
theorem resume_accounting (options : TaskQueueServiceOptions) (disk : Disk) (queue : Queue)
    (hqueue : (queueCalls options disk).Reachable queue) (host : QueueHost)
    (defaultResumePolicy : TaskQueueResumePolicy) (input : ResumeInput) (rounds : ℕ → Round)
    (completedAt : Text) (summary : TaskQueueResumeSummary) (r : Resumption)
    (hresume : resumeRecoveredPending host defaultResumePolicy input rounds completedAt queue =
      (.ok summary, r)) :
    Accounts host (input.finishes defaultResumePolicy) queue summary r ∧
      ((∀ f ∈ r.finishes, f.1.harmed f.2 = false) → input.finishes defaultResumePolicy →
        FinishesLogged host queue r) := by
  obtain ⟨htracked, hunlocked⟩ := reachable_tracked hqueue
  obtain ⟨hnodup, hpending, hall⟩ := @recoveredPending_ids host _ htracked
  unfold resumeRecoveredPending at hresume
  dsimp only at hresume
  split at hresume
  · next hzero =>
    obtain ⟨hsummary, rfl⟩ := Prod.mk.inj hresume
    obtain rfl := Except.ok.inj hsummary
    have hnone := List.eq_nil_of_length_eq_zero hzero
    have hdrains := Resumption.Drains.nil (Resumption.start queue
      (input.policy.getD defaultResumePolicy) (recoveredPending host queue.service).length)
    have hids : (recoveredPending host queue.service).map PendingTask.taskId = [] := by
      rw [hnone]
      rfl
    rw [← hids] at hdrains
    exact ⟨accounts_of_drains htracked hdrains,
      fun hharmless _ => finishesLogged_of_drains hunlocked hdrains hharmless⟩
  · split at hresume
    · next hkeep =>
      obtain ⟨hsummary, rfl⟩ := Prod.mk.inj hresume
      obtain rfl := Except.ok.inj hsummary
      have hnot : ¬input.finishes defaultResumePolicy := by
        simp [ResumeInput.finishes, hkeep]
      exact ⟨accounts_of_kept hnot, fun _ h => absurd h hnot⟩
    · split at hresume
      · next hredispatch =>
        obtain ⟨hsummary, rfl⟩ := Prod.mk.inj hresume
        obtain rfl := Except.ok.inj hsummary
        have hnot : ¬input.finishes defaultResumePolicy := by
          simp [ResumeInput.finishes, hredispatch.1, hredispatch.2]
        exact ⟨accounts_of_kept hnot, fun _ h => absurd h hnot⟩
      · split at hresume
        · next r' hloop =>
          obtain ⟨hsummary, rfl⟩ := Prod.mk.inj hresume
          obtain rfl := Except.ok.inj hsummary
          have hdrains := resumeLoop_drains hnodup hpending hloop
          exact ⟨accounts_of_drains htracked hdrains,
            fun hharmless _ => finishesLogged_of_drains hunlocked hdrains hharmless⟩
        · cases (Prod.mk.inj hresume).1

/-! ## A retry behind a torn record -/

/-- The queue a service with an unlocked log starts with. -/
def recoveredQueue (options : TaskQueueServiceOptions) (disk : Disk) : Queue :=
  ⟨(parseRecords disk.log).1.foldl recoverRecord ⟨options, [], [], 0, 0⟩,
    { disk with wal := some (disk.log.take (parseRecords disk.log).2), lock := false }⟩

theorem new_eq (options : TaskQueueServiceOptions) {disk : Disk} (hunlocked : disk.lock = false) :
    TaskQueueService.new options disk = .ok (recoveredQueue options disk) := by
  have hactive : (ensureActiveWal disk).lock = false := hunlocked
  rw [TaskQueueService.new, recoverAndRead_eq hactive]
  rfl

/-- A resume that fails a single task. -/
theorem resume_single {m : JsString × PendingTask} {rounds : ℕ → Round}
    (hpending : queue.service.pending = [m])
    (hrecovered : m.2.taskId ∈ queue.service.recoveredTaskIds)
    (hloop : resumeLoop host .fail [m.2.taskId] rounds (Resumption.start queue .fail 1) =
      (.ok (), r)) (completedAt : Text) :
    recoveredPending host queue.service = [m.2] ∧
      resumeRecoveredPending host .fail ⟨none, false⟩ rounds completedAt queue =
        (.ok (recordLastResume r.out completedAt), r) := by
  have hlist : recoveredPending host queue.service = [m.2] := by
    rw [recoveredPending, TaskQueueService.listPending, hpending, List.map_singleton,
      List.mergeSort_singleton, List.filter_singleton, decide_eq_true hrecovered, cond_true]
  refine ⟨hlist, ?_⟩
  unfold resumeRecoveredPending
  rw [hlist]
  dsimp only [Option.getD_none, List.length_singleton, List.map_singleton]
  rw [if_neg Nat.one_ne_zero, if_neg (by decide), if_neg (by simp), hloop]

def sampleHost : QueueHost where
  localeCompare _ _ := 0
  message _ := js "EIO"

/-- A log that is never full. -/
def roomyOptions : TaskQueueServiceOptions where
  maxPendingTasks := none
  maxWalBytes := none
  faultInject := false

/-- A queue that has recovered one task. -/
def sampleRecovered : Queue := recoveredQueue roomyOptions sampleFirst.disk

/-- A round whose first write fails after some bytes, if it fails. -/
def sampleRound (tornWrite : Option ℕ) : Round where
  outcome := .returned none
  env := ⟨[], "1970-01-01T00:00:02.000Z".toList, ⟨2000, tornWrite⟩⟩
  retryEnv := ⟨[], "1970-01-01T00:00:02.000Z".toList, ⟨2000, none⟩⟩

/-- The loop over the recovered task. -/
def sampleLoop (tornWrite : Option ℕ) : Except QueueError Unit × Resumption :=
  resumeLoop sampleHost .fail (sampleRecovered.service.pending.map fun m => m.2.taskId)
    (fun _ => sampleRound tornWrite) (.start sampleRecovered .fail 1)

def isFinish (record : WalRecord) : Bool :=
  match parseEnvelope record.payload with
  | some (.finish _) => true
  | _ => false

theorem sampleRecovered_single :
    (!sampleFirst.disk.lock && sampleRecovered.service.pending.length == 1 &&
      sampleRecovered.service.pending.all fun m =>
        m.2.taskId ∈ sampleRecovered.service.recoveredTaskIds) = true := by
  decide +kernel

theorem sampleLoop_whole :
    ((sampleLoop none).1.isOk && (sampleLoop none).2.finishes.all fun f => !f.1.harmed f.2) =
      true := by
  decide +kernel

theorem sampleLoop_torn :
    ((sampleLoop (some 1)).1.isOk && !(sampleLoop (some 1)).2.session.queue.disk.lock &&
      (parseRecords (sampleLoop (some 1)).2.session.queue.disk.log).1.all fun record =>
        !isFinish record) = true := by
  decide +kernel

/-- The resume of the recovered task returns, and the state it leads to is that of the loop. -/
theorem sampleResume (tornWrite : Option ℕ) (hok : (sampleLoop tornWrite).1.isOk = true) :
    (queueCalls roomyOptions sampleFirst.disk).Reachable sampleRecovered ∧
    (recoveredPending sampleHost sampleRecovered.service).length = 1 ∧
    resumeRecoveredPending sampleHost .fail ⟨none, false⟩ (fun _ => sampleRound tornWrite) []
      sampleRecovered =
        (.ok (recordLastResume (sampleLoop tornWrite).2.out []), (sampleLoop tornWrite).2) := by
  have hsingle := sampleRecovered_single
  rw [Bool.and_eq_true, Bool.and_eq_true, Bool.not_eq_true'] at hsingle
  obtain ⟨⟨hunlocked, hlength⟩, hrecovered⟩ := hsingle
  obtain ⟨m, hpending⟩ := List.length_eq_one_iff.mp (eq_of_beq hlength)
  rw [hpending, List.all_cons, List.all_nil, Bool.and_true, decide_eq_true_eq] at hrecovered
  have hresult : (sampleLoop tornWrite).1 = .ok () := by
    cases hloop : (sampleLoop tornWrite).1 with
    | ok _ => rfl
    | error e =>
      rw [hloop] at hok
      cases hok
  have hloop : resumeLoop sampleHost .fail [m.2.taskId] (fun _ => sampleRound tornWrite)
      (.start sampleRecovered .fail 1) = (.ok (), (sampleLoop tornWrite).2) := by
    have hids : sampleRecovered.service.pending.map (fun m => m.2.taskId) = [m.2.taskId] := by
      rw [hpending]
      rfl
    rw [← hids]
    exact Prod.ext hresult rfl
  obtain ⟨hlist, hresume⟩ := resume_single hpending hrecovered hloop []
  exact ⟨.of_init (new_eq roomyOptions hunlocked), by rw [hlist]; rfl, hresume⟩

/-- The theorem at a recovered task whose finish is written at once. -/
theorem resume_accounting_sample :
    FinishesLogged sampleHost sampleRecovered (sampleLoop none).2 := by
  have hloop := sampleLoop_whole
  rw [Bool.and_eq_true, List.all_eq_true] at hloop
  obtain ⟨hok, hharmless⟩ := hloop
  obtain ⟨hreachable, -, hresume⟩ := sampleResume none hok
  exact (resume_accounting roomyOptions sampleFirst.disk sampleRecovered hreachable sampleHost .fail
    ⟨none, false⟩ (fun _ => sampleRound none) [] _ _ hresume).2
    (fun f hf => by simpa using hharmless f hf) (.inl rfl)

/-- The first write of the finish fails after one byte. The second goes behind that byte, and no
restart reads it. -/
theorem retry_behind_torn_lost :
    ∃ summary r, (queueCalls roomyOptions sampleFirst.disk).Reachable sampleRecovered ∧
      resumeRecoveredPending sampleHost .fail ⟨none, false⟩ (fun _ => sampleRound (some 1)) []
        sampleRecovered = (.ok summary, r) ∧
      ¬FinishesLogged sampleHost sampleRecovered r := by
  have hloop := sampleLoop_torn
  rw [Bool.and_eq_true, Bool.and_eq_true, Bool.not_eq_true', List.all_eq_true] at hloop
  obtain ⟨⟨hok, hunlocked⟩, hnone⟩ := hloop
  obtain ⟨hreachable, hlength, hresume⟩ := sampleResume (some 1) hok
  refine ⟨_, _, hreachable, hresume, ?_⟩
  rintro ⟨records, disk, hrecover, hlogged⟩
  obtain ⟨task, hlist⟩ := List.length_eq_one_iff.mp hlength
  obtain ⟨record, hrecord, henvelope⟩ := hlogged task (hlist ▸ List.mem_cons_self)
  have hread := @recoverAndRead_eq
    (ensureActiveWal (sampleLoop (some 1)).2.session.queue.disk) hunlocked
  rw [hread] at hrecover
  obtain rfl := Except.ok.inj (Prod.mk.inj hrecover).1
  have hnot := hnone record hrecord
  rw [isFinish, henvelope] at hnot
  cases hnot

end MemphisOS.TaskQueue
