import MemphisOS.Storage.QueryBatcher

/-!
# Runs of the query batcher

What the events of a run say about the state it ends in, and what a flush has done when it is
over.
-/

namespace MemphisOS.Storage

open Ecma

variable {ρ : Type}

/-! ## Events -/

namespace Event

def isEnqueueRead : Event ρ → Bool
  | enqueueRead => true
  | _ => false

def isEnqueueWrite : Event ρ → Bool
  | enqueueWrite => true
  | _ => false

def isFlush : Event ρ → Bool
  | flush => true
  | _ => false

def isResolved : Event ρ → Bool
  | resolved => true
  | _ => false

def startedTask : Event ρ → Option Task
  | started task => some task
  | _ => none

end Event

/-- The task is enqueued by one of the events. -/
def Enqueued (events : List (Event ρ)) : Task → Prop
  | .read n => n < events.countP Event.isEnqueueRead
  | .write n => n < events.countP Event.isEnqueueWrite

/-- The promise of the task is settled by one of the events. -/
def Settled (events : List (Event ρ)) (task : Task) : Prop :=
  ∃ outcome, .settled task outcome ∈ events

namespace QueryBatcher

variable {s t : QueryBatcher ρ} {size : JsNumber} {r w : ℕ} {events : List (Event ρ)}
  {event : Event ρ}

/-! ## What the events tell -/

structure Counted (events : List (Event ρ)) (s : QueryBatcher ρ) : Prop where
  reads : s.reads = events.countP Event.isEnqueueRead
  writes : s.writes = events.countP Event.isEnqueueWrite
  flushes : s.flushes = events.countP Event.isFlush
  resolved : s.resolved = events.countP Event.isResolved
  flushing : s.resolved ≤ s.flushes ∧ (s.phase ≠ .idle → s.resolved < s.flushes)

structure Tracked (events : List (Event ρ)) (status : Task → Status ρ) : Prop where
  started : ∀ task, .started task ∈ events ↔ status task ≠ .queued
  once : (events.filterMap Event.startedTask).Nodup
  returned : ∀ task outcome, .returned task outcome ∈ events ↔
    status task = .returned outcome ∨ status task = .settled outcome
  settled : ∀ task outcome, .settled task outcome ∈ events ↔ status task = .settled outcome

/-- The counters count the events. -/
theorem counters_step (hstep : Step size s event t) :
    t.reads = s.reads + event.isEnqueueRead.toNat ∧
      t.writes = s.writes + event.isEnqueueWrite.toNat ∧
      t.flushes = s.flushes + event.isFlush.toNat ∧
      t.resolved = s.resolved + event.isResolved.toNat := by
  cases hstep with
  | enqueueRead => exact ⟨rfl, rfl, rfl, rfl⟩
  | enqueueWrite => exact ⟨rfl, rfl, rfl, rfl⟩
  | flush => exact ⟨rfl, rfl, rfl, rfl⟩
  | returned => exact ⟨rfl, rfl, rfl, rfl⟩
  | settled => exact ⟨rfl, rfl, rfl, rfl⟩
  | advance hadvance =>
    obtain ⟨hkind, hreads, hwrites, hflushes⟩ := advance_cases hadvance
    cases hkind with
    | internal _ hresolved => exact ⟨hreads, hwrites, hflushes, hresolved⟩
    | begun _ hresolved => exact ⟨hreads, hwrites, hflushes, hresolved⟩
    | resolved _ hresolved => exact ⟨hreads, hwrites, hflushes, hresolved⟩
    | startedRead _ hresolved => exact ⟨hreads, hwrites, hflushes, hresolved⟩
    | startedWrite _ hresolved => exact ⟨hreads, hwrites, hflushes, hresolved⟩

/-- A flush that runs was called. -/
theorem flushing_step (h : s.resolved ≤ s.flushes ∧ (s.phase ≠ .idle → s.resolved < s.flushes))
    (hstep : Step size s event t) :
    t.resolved ≤ t.flushes ∧ (t.phase ≠ .idle → t.resolved < t.flushes) := by
  obtain ⟨hle, hlt⟩ := h
  cases hstep with
  | enqueueRead => exact ⟨hle, hlt⟩
  | enqueueWrite => exact ⟨hle, hlt⟩
  | flush => exact ⟨Nat.le_succ_of_le hle, fun hidle => Nat.lt_succ_of_lt (hlt hidle)⟩
  | returned => exact ⟨hle, hlt⟩
  | settled => exact ⟨hle, hlt⟩
  | advance hadvance =>
    obtain ⟨hkind, -, -, hflushes⟩ := advance_cases hadvance
    have hkeep : t.resolved = s.resolved → s.resolved < s.flushes →
        t.resolved ≤ t.flushes ∧ (t.phase ≠ .idle → t.resolved < t.flushes) := by
      intro hresolved hrunning
      rw [hresolved, hflushes]
      exact ⟨hrunning.le, fun _ => hrunning⟩
    cases hkind with
    | internal _ hresolved hidle => exact hkeep hresolved (hlt hidle)
    | begun _ hresolved _ _ hcalled => exact hkeep hresolved hcalled
    | resolved _ hresolved hphase _ hidle =>
      have hrunning := hlt (by simp [hphase])
      rw [hresolved, hflushes]
      exact ⟨hrunning, fun hne => absurd hidle hne⟩
    | startedRead _ hresolved hphase => exact hkeep hresolved (hlt (by simp [hphase]))
    | startedWrite _ hresolved hphase => exact hkeep hresolved (hlt (by simp [hphase]))

theorem Counted.step (h : Counted events s) (hstep : Step size s event t) :
    Counted (events ++ [event]) t := by
  obtain ⟨hreads, hwrites, hflushes, hresolved⟩ := counters_step hstep
  have hcount : ∀ p : Event ρ → Bool,
      (events ++ [event]).countP p = events.countP p + (p event).toNat := by
    intro p
    rw [List.countP_append, List.countP_singleton]
    cases p event <;> rfl
  exact ⟨by rw [hreads, h.reads, hcount], by rw [hwrites, h.writes, hcount],
    by rw [hflushes, h.flushes, hcount], by rw [hresolved, h.resolved, hcount],
    flushing_step h.flushing hstep⟩

/-- An event that starts no task. -/
theorem Tracked.once_concat {status : Task → Status ρ} (h : Tracked events status)
    (hnone : event.startedTask = none) :
    ((events ++ [event]).filterMap Event.startedTask).Nodup := by
  rw [List.filterMap_append, List.filterMap_cons_none hnone, List.filterMap_nil, List.append_nil]
  exact h.once

/-- An event that is about no task changes no status. -/
theorem Tracked.silent {status : Task → Status ρ} (h : Tracked events status)
    (hstarted : ∀ task, event ≠ .started task)
    (hreturned : ∀ task outcome, event ≠ .returned task outcome)
    (hsettled : ∀ task outcome, event ≠ .settled task outcome) :
    Tracked (events ++ [event]) status := by
  have hnone : event.startedTask = none := by
    cases event with
    | started task => exact absurd rfl (hstarted task)
    | _ => rfl
  have hmem : ∀ other, event ≠ other → (other ∈ events ++ [event] ↔ other ∈ events) := by
    intro other hne
    rw [List.mem_append, List.mem_singleton, or_iff_left hne.symm]
  refine ⟨fun task => ?_, h.once_concat hnone, fun task outcome => ?_, fun task outcome => ?_⟩
  · rw [hmem _ (hstarted task), h.started]
  · rw [hmem _ (hreturned task outcome), h.returned]
  · rw [hmem _ (hsettled task outcome), h.settled]

theorem Tracked.start {status : Task → Status ρ} (h : Tracked events status) {task : Task}
    (hqueued : status task = .queued) :
    Tracked (events ++ [.started task]) (Function.update status task .running) := by
  refine ⟨fun other => ?_, ?_, fun other outcome => ?_, fun other outcome => ?_⟩
  · by_cases heq : other = task
    · simp [heq]
    · simp [heq, h.started]
  · rw [List.filterMap_append]
    refine List.nodup_append.mpr ⟨h.once, by simp [Event.startedTask], ?_⟩
    intro other hother last hlast heq
    obtain ⟨e, he, hstarted⟩ := List.mem_filterMap.mp hother
    obtain rfl : last = task := by simpa [Event.startedTask] using hlast
    subst heq
    cases e with
    | started task =>
      cases hstarted
      exact (h.started _).mp he hqueued
    | _ => cases hstarted
  · by_cases heq : other = task
    · simp [heq, h.returned, hqueued]
    · simp [heq, h.returned]
  · by_cases heq : other = task
    · simp [heq, h.settled, hqueued]
    · simp [heq, h.settled]

theorem Tracked.return {status : Task → Status ρ} (h : Tracked events status) {task : Task}
    (hrunning : status task = .running) (outcome : ρ) :
    Tracked (events ++ [.returned task outcome])
      (Function.update status task (.returned outcome)) := by
  refine ⟨fun other => ?_, h.once_concat rfl, fun other outcome' => ?_, fun other outcome' => ?_⟩
  · by_cases heq : other = task
    · simp [heq, h.started, hrunning]
    · simp [heq, h.started]
  · by_cases heq : other = task
    · simp [heq, h.returned, hrunning, eq_comm]
    · simp [heq, h.returned]
  · by_cases heq : other = task
    · simp [heq, h.settled, hrunning]
    · simp [heq, h.settled]

theorem Tracked.settle {status : Task → Status ρ} (h : Tracked events status) {task : Task}
    {outcome : ρ} (hreturned : status task = .returned outcome) :
    Tracked (events ++ [.settled task outcome])
      (Function.update status task (.settled outcome)) := by
  refine ⟨fun other => ?_, h.once_concat rfl, fun other outcome' => ?_, fun other outcome' => ?_⟩
  · by_cases heq : other = task
    · simp [heq, h.started, hreturned]
    · simp [heq, h.started]
  · by_cases heq : other = task
    · simp [heq, h.returned, hreturned]
    · simp [heq, h.returned]
  · by_cases heq : other = task
    · simp [heq, h.settled, hreturned, eq_comm]
    · simp [heq, h.settled]

theorem Tracked.step (h : Tracked events s.status) (hplaced : s.Placed r w)
    (hstep : Step size s event t) : Tracked (events ++ [event]) t.status := by
  cases hstep with
  | enqueueRead => exact h.silent (by simp) (by simp) (by simp)
  | enqueueWrite => exact h.silent (by simp) (by simp) (by simp)
  | flush => exact h.silent (by simp) (by simp) (by simp)
  | returned outcome hrunning => exact h.return hrunning outcome
  | settled hreturned => exact h.settle hreturned
  | advance hadvance =>
    obtain ⟨hkind, -⟩ := advance_cases hadvance
    cases hkind with
    | internal hstatus => exact hstatus ▸ h.silent (by simp) (by simp) (by simp)
    | begun hstatus => exact hstatus ▸ h.silent (by simp) (by simp) (by simp)
    | resolved hstatus => exact hstatus ▸ h.silent (by simp) (by simp) (by simp)
    | startedRead hstatus hresolved hphase hphase' =>
      exact hstatus ▸ h.start (hplaced.queued_of_started
        (.startedRead hstatus hresolved hphase hphase'))
    | startedWrite hstatus hresolved hphase hphase' =>
      exact hstatus ▸ h.start (hplaced.queued_of_started
        (.startedWrite hstatus hresolved hphase hphase'))

/-! ## What is over when a flush is -/

/-- The first `reads` reads and `writes` writes are done when a flush is over, and its writes do not
begin before these reads. -/
structure Covered (flush reads writes : ℕ) (s : QueryBatcher ρ) : Prop where
  finished : flush < s.resolved →
    (∀ n < reads, ∃ outcome, s.status (.read n) = .settled outcome) ∧
      ∀ n < writes, ∃ outcome, s.status (.write n) = .settled outcome
  reading : flush = s.resolved → s.phase.isWriting = true →
    ∀ n < reads, s.status (.read n) ≠ .queued
  reads_le : reads ≤ s.reads
  writes_le : writes ≤ s.writes

/-- No read waits when the second loop begins. -/
theorem Placed.all_reads (h : s.Placed r w) (hwaiting : s.phase.waitingReads = [])
    (hempty : s.readQueue = []) {n : ℕ} (hn : n < s.reads) : s.status (.read n) ≠ .queued := by
  have hle := h.waitingReads
  rw [hwaiting, hempty] at hle
  intro hqueued
  have hr := (h.queuedReads n).mp hqueued
  have hall := numbered_eq_nil hle
  omega

/-- No write waits when the second loop is over. -/
theorem Placed.all_writes (h : s.Placed r w) (hwaiting : s.phase.waitingWrites = [])
    (hempty : s.writeQueue = []) {n : ℕ} (hn : n < s.writes) : s.status (.write n) ≠ .queued := by
  have hle := h.waitingWrites
  rw [hwaiting, hempty] at hle
  intro hqueued
  have hw := (h.queuedWrites n).mp hqueued
  have hall := numbered_eq_nil hle
  omega

theorem Covered.step {flush reads writes : ℕ} (h : Covered flush reads writes s)
    (hplaced : s.Placed r w) (hstep : Step size s event t) : Covered flush reads writes t := by
  obtain ⟨hstarted, hsettled⟩ := hplaced.status_step hstep
  obtain ⟨hreads, hwrites, -, -⟩ := counters_step hstep
  have hreadsLe : reads ≤ t.reads := h.reads_le.trans (by omega)
  have hwritesLe : writes ≤ t.writes := h.writes_le.trans (by omega)
  have hover : flush < s.resolved →
      (∀ n < reads, ∃ outcome, t.status (.read n) = .settled outcome) ∧
        ∀ n < writes, ∃ outcome, t.status (.write n) = .settled outcome := fun hlt =>
    ⟨fun n hn => ((h.finished hlt).1 n hn).imp fun outcome => hsettled _ outcome,
      fun n hn => ((h.finished hlt).2 n hn).imp fun outcome => hsettled _ outcome⟩
  have hreading : flush = s.resolved → s.phase.isWriting = true →
      ∀ n < reads, t.status (.read n) ≠ .queued := fun heq hwriting n hn =>
    hstarted _ (h.reading heq hwriting n hn)
  cases hstep with
  | enqueueRead => exact ⟨hover, hreading, hreadsLe, hwritesLe⟩
  | enqueueWrite => exact ⟨hover, hreading, hreadsLe, hwritesLe⟩
  | flush => exact ⟨hover, hreading, hreadsLe, hwritesLe⟩
  | returned => exact ⟨hover, hreading, hreadsLe, hwritesLe⟩
  | settled => exact ⟨hover, hreading, hreadsLe, hwritesLe⟩
  | advance hadvance =>
    obtain ⟨hkind, -⟩ := advance_cases hadvance
    cases hkind with
    | internal hstatus hresolved _ _ hwriting =>
      refine ⟨hresolved ▸ hover, fun heq ht n hn => ?_, hreadsLe, hwritesLe⟩
      rcases hwriting ht with hs | ⟨hphase, hempty⟩
      · exact hreading (heq.trans hresolved) hs n hn
      · have hwaiting : s.phase.waitingReads = [] := by rw [hphase]; rfl
        exact hstarted _ (hplaced.all_reads hwaiting hempty (hn.trans_le h.reads_le))
    | begun hstatus hresolved _ hphase =>
      refine ⟨hresolved ▸ hover, fun _ ht => ?_, hreadsLe, hwritesLe⟩
      rw [hphase] at ht
      cases ht
    | resolved hstatus hresolved hphase hempty hidle =>
      refine ⟨fun hlt => ?_, fun _ ht => ?_, hreadsLe, hwritesLe⟩
      · rcases Nat.lt_succ_iff_lt_or_eq.mp (hresolved ▸ hlt) with hlt | heq
        · exact hover hlt
        · have hdone : ∀ task, s.status task ≠ .queued →
              ∃ outcome, t.status task = .settled outcome := by
            intro task htask
            have hbusy := hplaced.busy task htask
            rw [hphase] at hbusy
            exact (hbusy.resolve_left List.not_mem_nil).imp fun outcome => hsettled _ outcome
          have hwaiting : s.phase.waitingWrites = [] := by rw [hphase]; rfl
          exact ⟨fun n hn => hdone _ (h.reading heq (by rw [hphase]; rfl) n hn),
            fun n hn => hdone _ (hplaced.all_writes hwaiting hempty (hn.trans_le h.writes_le))⟩
      · rw [hidle] at ht
        cases ht
    | startedRead hstatus hresolved _ hphase =>
      refine ⟨hresolved ▸ hover, fun _ ht => ?_, hreadsLe, hwritesLe⟩
      rw [hphase] at ht
      cases ht
    | startedWrite hstatus hresolved hphase =>
      exact ⟨hresolved ▸ hover, fun heq _ => hreading (heq.trans hresolved) (by rw [hphase]; rfl),
        hreadsLe, hwritesLe⟩

/-! ## Runs -/

/-- What holds of the state a run ends in. -/
structure Described (events : List (Event ρ)) (s : QueryBatcher ρ) : Prop where
  counted : Counted events s
  tracked : Tracked events s.status
  placed : ∃ r w, s.Placed r w

theorem maxBatchSize_atLeast {option : Option JsNumber} (h : option ≠ some .nan) :
    (maxBatchSize option).AtLeast 1 := by
  have hone : JsNumber.ofNat 1 = .finite ((1 : ℕ) : ℚ) _ := JsNumber.ofNat_eq (by norm_num)
  have hten : JsNumber.ofNat 10 = .finite ((10 : ℕ) : ℚ) _ := JsNumber.ofNat_eq (by norm_num)
  have hnan : option.getD (.ofNat 10) ≠ .nan := by
    cases option with
    | none =>
      rw [Option.getD_none, hten]
      intro heq
      cases heq
    | some x => exact fun heq => h (congrArg some heq)
  have hneither : ¬ (JsNumber.ofNat 1 = .nan ∨ option.getD (.ofNat 10) = .nan) := by
    rintro (heq | heq)
    · rw [hone] at heq
      cases heq
    · exact hnan heq
  rw [maxBatchSize, JsNumber.max, if_neg hneither, hone]
  generalize option.getD (.ofNat 10) = x at hnan
  split
  · next hlt =>
    cases x with
    | nan => exact absurd rfl hnan
    | infinity negative => exact (Bool.not_eq_true' negative).mp hlt
    | negZero =>
      have hneg : ((1 : ℕ) : ℚ) < 0 := of_decide_eq_true hlt
      exact absurd hneg (by norm_num)
    | finite q _ => exact (of_decide_eq_true hlt).le
  · exact le_refl _

variable {option : Option JsNumber}

theorem described_of_run (hsize : option ≠ some .nan) (hrun : (system option).Run events s) :
    Described events s := by
  refine hrun.induct ?_ ?_
  · rintro s rfl
    exact ⟨⟨rfl, rfl, rfl, rfl, le_refl 0, fun hidle => absurd rfl hidle⟩,
      ⟨fun _ => iff_of_false List.not_mem_nil fun h => h rfl, List.nodup_nil,
        fun _ _ => by simp, fun _ _ => by simp⟩, 0, 0, placed_start⟩
  · intro events s event t _ h hstep
    obtain ⟨r, w, hplaced⟩ := h.placed
    obtain ⟨r', w', hplaced', -⟩ := hplaced.step (maxBatchSize_atLeast hsize) hstep
    exact ⟨h.counted.step hstep, h.tracked.step hplaced hstep, r', w', hplaced'⟩

/-- A flush covers all tasks that were enqueued before it was called. -/
theorem covered_of_flush {before after : List (Event ρ)} (hsize : option ≠ some .nan)
    (hrun : (system option).Run (before ++ .flush :: after) s) :
    Covered (before.countP Event.isFlush) (before.countP Event.isEnqueueRead)
      (before.countP Event.isEnqueueWrite) s := by
  refine hrun.induct_after (fun u v hbefore hstep => ?_)
    fun events u event v hu hcovered hstep => ?_
  · obtain ⟨⟨hreads, hwrites, hflushes, -, hle, hlt⟩, -, -⟩ := described_of_run hsize hbefore
    rw [← hreads, ← hwrites, ← hflushes]
    cases hstep with
    | flush =>
      refine ⟨fun hover => absurd hle hover.not_ge, fun heq hwriting => ?_, le_refl _, le_refl _⟩
      have hidle : u.phase ≠ .idle := by
        intro hidle
        rw [flush, hidle] at hwriting
        cases hwriting
      exact absurd heq (hlt hidle).ne'
    | advance hadvance =>
      obtain ⟨hkind, -⟩ := advance_cases hadvance
      cases hkind
  · obtain ⟨r, w, hplaced⟩ := (described_of_run hsize hu).placed
    exact hcovered.step hplaced hstep

/-- A flush covers all tasks that were enqueued before it began. -/
theorem covered_of_begun {before after : List (Event ρ)} (hsize : option ≠ some .nan)
    (hrun : (system option).Run (before ++ .begun :: after) s) :
    Covered (before.countP Event.isResolved) (before.countP Event.isEnqueueRead)
      (before.countP Event.isEnqueueWrite) s := by
  refine hrun.induct_after (fun u v hbefore hstep => ?_)
    fun events u event v hu hcovered hstep => ?_
  · obtain ⟨⟨hreads, hwrites, -, hresolved, -⟩, -, -⟩ := described_of_run hsize hbefore
    rw [← hreads, ← hwrites, ← hresolved]
    cases hstep with
    | advance hadvance =>
      obtain ⟨hkind, hreads', hwrites', -⟩ := advance_cases hadvance
      cases hkind with
      | begun _ hsame _ hphase =>
        refine ⟨fun hover => absurd hover (by rw [hsame]; exact lt_irrefl _), fun _ hwriting => ?_,
          hreads'.ge, hwrites'.ge⟩
        rw [hphase] at hwriting
        cases hwriting
  · obtain ⟨r, w, hplaced⟩ := (described_of_run hsize hu).placed
    exact hcovered.step hplaced hstep

/-- Tasks that a flush covers have run when it is over. -/
theorem ran_of_covered {before : List (Event ρ)} {flush : ℕ} (h : Described events s)
    (hcovered : Covered flush (before.countP Event.isEnqueueRead)
      (before.countP Event.isEnqueueWrite) s)
    (hover : flush < events.countP Event.isResolved) {task : Task} (htask : Enqueued before task) :
    .started task ∈ events ∧ Settled events task := by
  obtain ⟨hreads, hwrites⟩ := hcovered.finished (h.counted.resolved.symm ▸ hover)
  have hsettled : ∃ outcome, s.status task = .settled outcome := by
    cases task with
    | read n => exact hreads n htask
    | write n => exact hwrites n htask
  obtain ⟨outcome, hstatus⟩ := hsettled
  refine ⟨(h.tracked.started task).mpr ?_, outcome, (h.tracked.settled task outcome).mpr hstatus⟩
  rw [hstatus]
  intro heq
  cases heq

/-- Where a write starts, the writes before it are settled, and all reads that started. -/
theorem settled_of_write_started {n : ℕ} {v : QueryBatcher ρ} (h : Described events s)
    (hstep : Step size s (.started (.write n)) v) :
    s.phase.isWriting = true ∧ (∀ m < n, Settled events (.write m)) ∧
      ∀ task, s.status task ≠ .queued → Settled events task := by
  obtain ⟨-, htracked, r, w, hplaced⟩ := h
  cases hstep with
  | advance hadvance =>
    obtain ⟨hkind, -⟩ := advance_cases hadvance
    cases hkind with
    | startedRead _ _ hphase =>
      obtain ⟨hread, -⟩ := hplaced.startRead hphase
      cases hread
    | startedWrite _ _ hphase =>
      obtain ⟨hwrite, hsettled, -⟩ := hplaced.startWrite hphase
      cases hwrite
      have hall : ∀ task, s.status task ≠ .queued → Settled events task := fun task htask =>
        (hsettled task htask).imp fun outcome => (htracked.settled task outcome).mpr
      refine ⟨by rw [hphase]; rfl, fun m hm => hall _ fun hqueued => ?_, hall⟩
      exact absurd ((hplaced.queuedWrites m).mp hqueued) hm.not_ge

/-- What a batcher promises over a run. -/
structure Serves (events : List (Event ρ)) : Prop where
  /-- No task starts twice. -/
  startedOnce : (events.filterMap Event.startedTask).Nodup
  /-- A promise is settled with what its own task returned or threw. -/
  ownOutcome : ∀ task outcome, .settled task outcome ∈ events →
    ∀ returned, .returned task returned ∈ events ↔ returned = outcome
  /-- A write starts when all writes that were enqueued before it are settled. -/
  writesInOrder : ∀ before n after, events = before ++ .started (.write n) :: after →
    ∀ m < n, Settled before (.write m)
  /-- A write of a flush starts when all reads that were enqueued before the flush began are
  settled. -/
  readsFirst : ∀ before between n after,
    events = before ++ .begun :: between ++ .started (.write n) :: after →
    (∀ event ∈ between, event.isResolved = false) →
    ∀ m, Enqueued before (.read m) → Settled (before ++ .begun :: between) (.read m)
  /-- When a flush is over, all tasks that were enqueued before it was called have run. -/
  ranWhenCalled : ∀ before after, events = before ++ .flush :: after →
    before.countP Event.isFlush < events.countP Event.isResolved →
    ∀ task, Enqueued before task → .started task ∈ events ∧ Settled events task
  /-- When a flush is over, all tasks that were enqueued before it began have run. -/
  ranWhenBegun : ∀ before after, events = before ++ .begun :: after →
    (∃ event ∈ after, event.isResolved = true) →
    ∀ task, Enqueued before task → .started task ∈ events ∧ Settled events task

/-- **The query batcher.** It keeps its promises over every run, for every size of its batches. -/
theorem serves_of_run (hsize : option ≠ some .nan) (hrun : (system option).Run events s) :
    Serves events := by
  have h := described_of_run hsize hrun
  constructor
  · exact h.tracked.once
  · intro task outcome hsettled returned
    have hstatus := (h.tracked.settled task outcome).mp hsettled
    rw [h.tracked.returned, hstatus]
    simp [eq_comm]
  · rintro before n after rfl m hm
    obtain ⟨u, v, hbefore, hstep⟩ := hrun.split
    exact (settled_of_write_started (described_of_run hsize hbefore) hstep).2.1 m hm
  · rintro before between n after rfl hbetween m hm
    obtain ⟨u, v, hbefore, hstep⟩ := hrun.split
    have hu := described_of_run hsize hbefore
    obtain ⟨hwriting, -, hsettled⟩ := settled_of_write_started hu hstep
    have hzero : between.countP Event.isResolved = 0 :=
      List.countP_eq_zero.mpr fun event hevent => Bool.not_eq_true _ ▸ hbetween event hevent
    have hcount : before.countP Event.isResolved = u.resolved := by
      rw [hu.counted.resolved, List.countP_append,
        List.countP_cons_of_neg (by simp [Event.isResolved]), hzero, Nat.add_zero]
    exact hsettled _ ((covered_of_begun hsize hbefore).reading hcount hwriting m hm)
  · rintro before after rfl hover task htask
    exact ran_of_covered h (covered_of_flush hsize hrun) hover htask
  · rintro before after rfl ⟨event, hevent, hresolved⟩ task htask
    have hover : 0 < after.countP Event.isResolved :=
      List.countP_pos_iff.mpr ⟨event, hevent, hresolved⟩
    refine ran_of_covered h (covered_of_begun hsize hrun) ?_ htask
    rw [List.countP_append, List.countP_cons_of_neg (by simp [Event.isResolved])]
    omega

theorem slices_singleton (task : Task) : slices (maxBatchSize none) [task] = [[task]] := by
  have hsize : maxBatchSize none = .ofNat 10 := by
    have hone : JsNumber.ofNat 1 = .finite ((1 : ℕ) : ℚ) _ := JsNumber.ofNat_eq (by norm_num)
    have hten : JsNumber.ofNat 10 = .finite ((10 : ℕ) : ℚ) _ := JsNumber.ofNat_eq (by norm_num)
    rw [maxBatchSize, JsNumber.max, Option.getD_none, hone, hten]
    simp [JsNumber.lt]
  rw [hsize, slices, List.length_singleton, slicesFrom, List.length_singleton,
    JsNumber.lt_ofNat (by norm_num) (by norm_num), JsNumber.add_ofNat (by norm_num), slice,
    List.length_singleton, relativeStart_ofNat (by norm_num), relativeStart_ofNat (by norm_num)]
  rfl

/-- A write is enqueued, and a flush runs it. -/
theorem serves_of_run_sample : Serves ([.enqueueWrite, .flush, .begun, .internal, .internal,
    .internal, .started (.write 0), .returned (.write 0) 7, .settled (.write 0) 7, .internal,
    .internal, .internal, .resolved] : List (Event ℕ)) := by
  have hstart : (@system ℕ none).Run [] {} := .start rfl
  have henqueued := hstart.next (.enqueueWrite (by simp))
  have hcalled := henqueued.next .flush
  have hbegun := hcalled.next (.advance rfl)
  have hwriting : (system none).Run _
      { ({} : QueryBatcher ℕ).enqueueWrite.flush with
        writeQueue := []
        phase := .writes (slices (maxBatchSize none) [.write 0]) } :=
    (hbegun.next (.advance rfl)).next (.advance rfl)
  rw [slices_singleton] at hwriting
  have hbatch : (system none).Run _
      { ({} : QueryBatcher ℕ).enqueueWrite.flush with
        writeQueue := []
        writeBatches := 1
        phase := .batchWrites [.write 0] [] } := hwriting.next (.advance rfl)
  have hstarted : (system none).Run _
      { ({} : QueryBatcher ℕ).enqueueWrite.flush with
        writeQueue := []
        writeBatches := 1
        phase := .awaitingWrite (.write 0) [] []
        status := Function.update (fun _ => .queued) (.write 0) .running } :=
    hbatch.next (.advance rfl)
  have hreturned := hstarted.next (@Step.returned _ _ _ (.write 0) 7 rfl)
  have hsettled := hreturned.next (@Step.settled _ _ _ (.write 0) 7 rfl)
  have hover := (hsettled.next (.advance rfl)).next (.advance rfl)
  exact serves_of_run (by simp) ((hover.next (.advance rfl)).next (.advance rfl))

end QueryBatcher

end MemphisOS.Storage
