import MemphisOS.Ecma.Arrays
import MemphisOS.Systems.Transition

/-!
# The query batcher

Reads and writes are queued, and run by `flush`: the reads in batches, the writes one at a time.
Between any two steps of a flush other code may run. Tasks return, and tasks and callers enqueue
and flush.
-/

namespace MemphisOS.Storage

open Ecma

/-- A task, by the number of tasks of its kind that were enqueued before it. -/
inductive Task where
  | read (n : ℕ)
  | write (n : ℕ)
  deriving DecidableEq

/-- How far a task is. Its outcome is what it returns or throws. -/
inductive Status (ρ : Type) where
  | queued
  | running
  | returned (outcome : ρ)
  /-- The promise of the task is settled with the outcome. -/
  | settled (outcome : ρ)

/-- Where `flushInternal` stands, with the tasks and batches that are still to come. -/
inductive Phase where
  | idle
  | readLoop
  | reads (batches : List (List Task))
  | startingReads (rest batch : List Task) (batches : List (List Task))
  | awaitingReads (batch : List Task) (batches : List (List Task))
  | writeLoop
  | writes (batches : List (List Task))
  | batchWrites (rest : List Task) (batches : List (List Task))
  | awaitingWrite (task : Task) (rest : List Task) (batches : List (List Task))

structure QueryBatcher (ρ : Type) where
  readQueue : List Task := []
  writeQueue : List Task := []
  reads : ℕ := 0
  writes : ℕ := 0
  readBatches : ℕ := 0
  writeBatches : ℕ := 0
  /-- The flushes that were called; each runs when those before it are over. -/
  flushes : ℕ := 0
  /-- The flushes that are over. -/
  resolved : ℕ := 0
  phase : Phase := .idle
  status : Task → Status ρ := fun _ => .queued

/-- What happens in a run. -/
inductive Event (ρ : Type) where
  | enqueueRead
  | enqueueWrite
  | flush
  /-- `flushInternal` begins for the next flush. -/
  | begun
  | started (task : Task)
  | returned (task : Task) (outcome : ρ)
  | settled (task : Task) (outcome : ρ)
  /-- A flush is over. -/
  | resolved
  | internal

namespace QueryBatcher

variable {ρ : Type} (self : QueryBatcher ρ)

/-- The size of the batches that the constructor sets. -/
def maxBatchSize (option : Option JsNumber) : JsNumber :=
  (JsNumber.ofNat 1).max (option.getD (.ofNat 10))

def enqueueRead : QueryBatcher ρ :=
  { self with readQueue := self.readQueue ++ [.read self.reads], reads := self.reads + 1 }

def enqueueWrite : QueryBatcher ρ :=
  { self with writeQueue := self.writeQueue ++ [.write self.writes], writes := self.writes + 1 }

def flush : QueryBatcher ρ := { self with flushes := self.flushes + 1 }

def setStatus (task : Task) (status : Status ρ) : QueryBatcher ρ :=
  { self with status := Function.update self.status task status }

def isSettled (task : Task) : Bool :=
  match self.status task with
  | .settled _ => true
  | _ => false

/-- The next step of the flushes, if they are not waiting. -/
def advance (size : JsNumber) : Option (Event ρ × QueryBatcher ρ) :=
  match self.phase with
  | .idle =>
    if self.resolved < self.flushes then some (.begun, { self with phase := .readLoop }) else none
  | .readLoop =>
    if self.readQueue = [] then some (.internal, { self with phase := .writeLoop })
    else some (.internal,
      { self with phase := .reads (slices size self.readQueue), readQueue := [] })
  | .reads [] => some (.internal, { self with phase := .readLoop })
  | .reads (batch :: batches) => some (.internal,
      { self with
        phase := .startingReads batch batch batches
        readBatches := self.readBatches + 1 })
  | .startingReads [] batch batches =>
    some (.internal, { self with phase := .awaitingReads batch batches })
  | .startingReads (task :: rest) batch batches => some (.started task,
      { self.setStatus task .running with phase := .startingReads rest batch batches })
  | .awaitingReads batch batches =>
    if batch.all self.isSettled then some (.internal, { self with phase := .reads batches })
    else none
  | .writeLoop =>
    if self.writeQueue = [] then
      some (.resolved, { self with phase := .idle, resolved := self.resolved + 1 })
    else some (.internal,
      { self with phase := .writes (slices size self.writeQueue), writeQueue := [] })
  | .writes [] => some (.internal, { self with phase := .writeLoop })
  | .writes (batch :: batches) => some (.internal,
      { self with phase := .batchWrites batch batches, writeBatches := self.writeBatches + 1 })
  | .batchWrites [] batches => some (.internal, { self with phase := .writes batches })
  | .batchWrites (task :: rest) batches => some (.started task,
      { self.setStatus task .running with phase := .awaitingWrite task rest batches })
  | .awaitingWrite task rest batches =>
    if self.isSettled task then some (.internal, { self with phase := .batchWrites rest batches })
    else none

/-- The steps. An array holds fewer than `2 ^ 32` tasks. -/
inductive Step (size : JsNumber) : QueryBatcher ρ → Event ρ → QueryBatcher ρ → Prop
  | enqueueRead {s : QueryBatcher ρ} :
      s.readQueue.length + 1 < 2 ^ 32 → Step size s .enqueueRead s.enqueueRead
  | enqueueWrite {s : QueryBatcher ρ} :
      s.writeQueue.length + 1 < 2 ^ 32 → Step size s .enqueueWrite s.enqueueWrite
  | flush {s : QueryBatcher ρ} : Step size s .flush s.flush
  | returned {s : QueryBatcher ρ} {task : Task} (outcome : ρ) :
      s.status task = .running →
        Step size s (.returned task outcome) (s.setStatus task (.returned outcome))
  | settled {s : QueryBatcher ρ} {task : Task} {outcome : ρ} :
      s.status task = .returned outcome →
        Step size s (.settled task outcome) (s.setStatus task (.settled outcome))
  | advance {s t : QueryBatcher ρ} {event : Event ρ} :
      s.advance size = some (event, t) → Step size s event t

/-- A batcher and the code around it. -/
def system (option : Option JsNumber) : TransitionSystem (QueryBatcher ρ) (Event ρ) where
  init s := s = {}
  step := Step (maxBatchSize option)

end QueryBatcher

end MemphisOS.Storage

/-!
## What a flush has done

Tasks wait in the order in which they were enqueued, some in the batches of the flush that runs and
the others in the queues, so all that were enqueued before a flush have run when it is over.
-/

namespace MemphisOS.Storage

open Ecma

variable {ρ : Type}

/-! ## Tasks that wait -/

/-- The tasks numbered from `a` to `b`. -/
def numbered (kind : ℕ → Task) (a b : ℕ) : List Task := (List.range' a (b - a)).map kind

theorem numbered_succ (kind : ℕ → Task) {a b : ℕ} (h : a ≤ b) :
    numbered kind a (b + 1) = numbered kind a b ++ [kind b] := by
  have hlast : a + (b - a) = b := by omega
  rw [numbered, numbered, Nat.sub_add_comm h, List.range'_1_concat, List.map_append, hlast]
  rfl

theorem numbered_eq_cons {kind : ℕ → Task} {a b : ℕ} {task : Task} {tasks : List Task}
    (h : task :: tasks = numbered kind a b) :
    task = kind a ∧ tasks = numbered kind (a + 1) b ∧ a + 1 ≤ b := by
  obtain ⟨n, ns, hns, rfl, rfl⟩ := List.map_eq_cons_iff.mp h.symm
  obtain ⟨rfl, hpos, rfl⟩ := List.range'_eq_cons_iff.mp hns
  refine ⟨rfl, ?_, by omega⟩
  rw [numbered, Nat.sub_add_eq]

theorem numbered_eq_nil {kind : ℕ → Task} {a b : ℕ} (h : [] = numbered kind a b) : b ≤ a := by
  have hlength := congrArg List.length h
  rw [numbered, List.length_map, List.length_range', List.length_nil] at hlength
  omega

namespace Phase

def waitingReads : Phase → List Task
  | reads batches => batches.flatten
  | startingReads rest _ batches => rest ++ batches.flatten
  | awaitingReads _ batches => batches.flatten
  | _ => []

def waitingWrites : Phase → List Task
  | writes batches => batches.flatten
  | batchWrites rest batches => rest ++ batches.flatten
  | awaitingWrite _ rest batches => rest ++ batches.flatten
  | _ => []

/-- The tasks that may have started and not settled. -/
def active : Phase → List Task
  | startingReads _ batch _ => batch
  | awaitingReads batch _ => batch
  | awaitingWrite task _ _ => [task]
  | _ => []

/-- The second loop has begun. -/
def isWriting : Phase → Bool
  | writeLoop => true
  | writes _ => true
  | batchWrites _ _ => true
  | awaitingWrite _ _ _ => true
  | _ => false

/-- What is still to be started of a batch is part of it. -/
def Nested : Phase → Prop
  | startingReads rest batch _ => rest ⊆ batch
  | _ => True

end Phase

namespace QueryBatcher

variable {s t : QueryBatcher ρ} {size : JsNumber} {r w : ℕ}

@[simp] theorem status_setStatus_self (s : QueryBatcher ρ) (task : Task) (status : Status ρ) :
    (s.setStatus task status).status task = status := Function.update_self ..

theorem status_setStatus_of_ne (s : QueryBatcher ρ) {task other : Task} (h : other ≠ task)
    (status : Status ρ) : (s.setStatus task status).status other = s.status other :=
  Function.update_of_ne h ..

/-- The reads from number `r` on, and the writes from number `w` on, wait in their order; those
before have settled or are active. -/
structure Placed (s : QueryBatcher ρ) (r w : ℕ) : Prop where
  waitingReads : s.phase.waitingReads ++ s.readQueue = numbered .read r s.reads
  waitingWrites : s.phase.waitingWrites ++ s.writeQueue = numbered .write w s.writes
  reads_le : r ≤ s.reads
  writes_le : w ≤ s.writes
  queuedReads : ∀ n, s.status (.read n) = .queued ↔ r ≤ n
  queuedWrites : ∀ n, s.status (.write n) = .queued ↔ w ≤ n
  busy : ∀ task, s.status task ≠ .queued →
    task ∈ s.phase.active ∨ ∃ outcome, s.status task = .settled outcome
  nested : s.phase.Nested
  readRoom : s.readQueue.length < 2 ^ 32
  writeRoom : s.writeQueue.length < 2 ^ 32

theorem placed_start : Placed ({} : QueryBatcher ρ) 0 0 where
  waitingReads := rfl
  waitingWrites := rfl
  reads_le := Nat.le_refl 0
  writes_le := Nat.le_refl 0
  queuedReads n := iff_of_true rfl n.zero_le
  queuedWrites n := iff_of_true rfl n.zero_le
  busy _ h := absurd rfl h
  nested := trivial
  readRoom := by simp
  writeRoom := by simp

/-- A step of the flush that starts no task. -/
theorem Placed.move (h : s.Placed r w) (hreads : t.reads = s.reads) (hwrites : t.writes = s.writes)
    (hstatus : t.status = s.status)
    (hwaitingReads : t.phase.waitingReads ++ t.readQueue = s.phase.waitingReads ++ s.readQueue)
    (hwaitingWrites : t.phase.waitingWrites ++ t.writeQueue =
      s.phase.waitingWrites ++ s.writeQueue)
    (hactive : ∀ task ∈ s.phase.active,
      task ∈ t.phase.active ∨ ∃ outcome, s.status task = .settled outcome)
    (hnested : t.phase.Nested) (hreadRoom : t.readQueue.length < 2 ^ 32)
    (hwriteRoom : t.writeQueue.length < 2 ^ 32) : t.Placed r w where
  waitingReads := hreads ▸ hwaitingReads.trans h.waitingReads
  waitingWrites := hwrites ▸ hwaitingWrites.trans h.waitingWrites
  reads_le := hreads ▸ h.reads_le
  writes_le := hwrites ▸ h.writes_le
  queuedReads := hstatus ▸ h.queuedReads
  queuedWrites := hstatus ▸ h.queuedWrites
  busy := hstatus ▸ fun task htask => (h.busy task htask).elim (hactive task) Or.inr
  nested := hnested
  readRoom := hreadRoom
  writeRoom := hwriteRoom

/-- A task that has started stays started. -/
theorem Placed.progress (h : s.Placed r w) {task : Task} (hstarted : s.status task ≠ .queued)
    {status : Status ρ} (hstatus : status ≠ .queued)
    (hbusy : task ∈ s.phase.active ∨ ∃ outcome, status = .settled outcome) :
    Placed (s.setStatus task status) r w := by
  have hqueued : ∀ other, (s.setStatus task status).status other = .queued ↔
      s.status other = .queued := by
    intro other
    by_cases hother : other = task
    · subst hother
      rw [status_setStatus_self]
      exact iff_of_false hstatus hstarted
    · rw [status_setStatus_of_ne s hother]
  refine ⟨h.waitingReads, h.waitingWrites, h.reads_le, h.writes_le,
    fun n => (hqueued _).trans (h.queuedReads n), fun n => (hqueued _).trans (h.queuedWrites n),
    fun other hother => ?_, h.nested, h.readRoom, h.writeRoom⟩
  by_cases heq : other = task
  · subst heq
    rw [status_setStatus_self]
    exact hbusy
  · rw [status_setStatus_of_ne s heq] at hother ⊢
    exact h.busy other hother

/-- When the first of the tasks of a kind that wait starts, those behind it still wait. -/
theorem queued_setStatus {kind : ℕ → Task} (hkind : kind.Injective) {a : ℕ}
    (h : ∀ n, s.status (kind n) = .queued ↔ a ≤ n) (n : ℕ) :
    (s.setStatus (kind a) .running).status (kind n) = .queued ↔ a + 1 ≤ n := by
  by_cases hn : n = a
  · subst hn
    rw [status_setStatus_self]
    exact iff_of_false (by intro hqueued; cases hqueued) (by omega)
  · rw [status_setStatus_of_ne s fun heq => hn (hkind heq), h]
    omega

/-- The next task starts: the first of those that wait. -/
theorem Placed.startRead (h : s.Placed r w) {task : Task} {rest batch : List Task}
    {batches : List (List Task)} (hphase : s.phase = .startingReads (task :: rest) batch batches) :
    task = .read r ∧ Placed
      { s.setStatus task .running with phase := .startingReads rest batch batches } (r + 1) w := by
  have hwaiting := h.waitingReads
  have hwrites := h.waitingWrites
  have hnested := h.nested
  rw [hphase] at hwaiting hwrites hnested
  obtain ⟨rfl, hrest, hle⟩ := numbered_eq_cons hwaiting
  refine ⟨rfl, hrest, hwrites, hle, h.writes_le,
    queued_setStatus (fun _ _ => Task.read.inj) h.queuedReads, fun n => ?_, fun task htask => ?_,
    fun task htask => hnested (List.mem_cons_of_mem _ htask), h.readRoom, h.writeRoom⟩
  · change (s.setStatus (.read r) .running).status (.write n) = .queued ↔ _
    rw [status_setStatus_of_ne s (by simp)]
    exact h.queuedWrites n
  · by_cases heq : task = .read r
    · subst heq
      exact Or.inl (hnested List.mem_cons_self)
    · change (s.setStatus (.read r) .running).status task ≠ .queued at htask
      change _ ∨ ∃ outcome, (s.setStatus (.read r) .running).status task = .settled outcome
      rw [status_setStatus_of_ne s heq] at htask ⊢
      have hbusy := h.busy task htask
      rw [hphase] at hbusy
      exact hbusy

theorem Placed.startWrite (h : s.Placed r w) {task : Task} {rest : List Task}
    {batches : List (List Task)} (hphase : s.phase = .batchWrites (task :: rest) batches) :
    task = .write w ∧ (∀ other, s.status other ≠ .queued →
        ∃ outcome, s.status other = .settled outcome) ∧
      Placed { s.setStatus task .running with phase := .awaitingWrite task rest batches }
        r (w + 1) := by
  have hwaiting := h.waitingWrites
  have hreads := h.waitingReads
  have hbusy := h.busy
  rw [hphase] at hwaiting hreads hbusy
  obtain ⟨rfl, hrest, hle⟩ := numbered_eq_cons hwaiting
  have hsettled : ∀ other, s.status other ≠ .queued →
      ∃ outcome, s.status other = .settled outcome := fun other hother =>
    (hbusy other hother).resolve_left List.not_mem_nil
  refine ⟨rfl, hsettled, hreads, hrest, h.reads_le, hle, fun n => ?_,
    queued_setStatus (fun _ _ => Task.write.inj) h.queuedWrites, fun task htask => ?_, trivial,
    h.readRoom, h.writeRoom⟩
  · change (s.setStatus (.write w) .running).status (.read n) = .queued ↔ _
    rw [status_setStatus_of_ne s (by simp)]
    exact h.queuedReads n
  · by_cases heq : task = .write w
    · exact Or.inl (List.mem_singleton.mpr heq)
    · change (s.setStatus (.write w) .running).status task ≠ .queued at htask
      change _ ∨ ∃ outcome, (s.setStatus (.write w) .running).status task = .settled outcome
      rw [status_setStatus_of_ne s heq] at htask ⊢
      exact Or.inr (hsettled task htask)

theorem isSettled_iff {task : Task} :
    s.isSettled task = true ↔ ∃ outcome, s.status task = .settled outcome := by
  rw [isSettled]
  cases s.status task <;> simp

/-- What the flush does keeps the tasks in their places. -/
theorem Placed.advance (h : s.Placed r w) (hsize : size.AtLeast 1) {event : Event ρ}
    (hadvance : s.advance size = some (event, t)) :
    ∃ r' w', t.Placed r' w' ∧ r ≤ r' ∧ w ≤ w' := by
  have hread := h.readRoom
  have hwrite := h.writeRoom
  have hnil : ([] : List Task).length < 2 ^ 32 := by simp
  have hidle : ∀ (phase : Phase) (task : Task), task ∈ ([] : List Task) →
      task ∈ phase.active ∨ ∃ outcome, s.status task = .settled outcome :=
    fun _ _ htask => absurd htask List.not_mem_nil
  have hnested := h.nested
  cases hphase : s.phase with
  | idle =>
    rw [QueryBatcher.advance, hphase] at hadvance
    dsimp only at hadvance
    split at hadvance
    · cases hadvance
      exact ⟨r, w, h.move rfl rfl rfl (hphase ▸ rfl) (hphase ▸ rfl) (hphase ▸ hidle _) trivial
        hread hwrite, le_refl r, le_refl w⟩
    · cases hadvance
  | readLoop =>
    rw [QueryBatcher.advance, hphase] at hadvance
    dsimp only at hadvance
    split at hadvance
    · cases hadvance
      exact ⟨r, w, h.move rfl rfl rfl (hphase ▸ rfl) (hphase ▸ rfl) (hphase ▸ hidle _) trivial
        hread hwrite, le_refl r, le_refl w⟩
    · cases hadvance
      have hflatten := flatten_slices (show s.readQueue.length < 2 ^ 53 by omega) hsize
      refine ⟨r, w, h.move rfl rfl rfl ?_ (hphase ▸ rfl) (hphase ▸ hidle _) trivial
        hnil hwrite, le_refl r, le_refl w⟩
      rw [hphase]
      exact (List.append_nil _).trans hflatten
  | reads batches =>
    cases batches with
    | nil =>
      rw [QueryBatcher.advance, hphase] at hadvance
      cases hadvance
      exact ⟨r, w, h.move rfl rfl rfl (hphase ▸ rfl) (hphase ▸ rfl) (hphase ▸ hidle _) trivial
        hread hwrite, le_refl r, le_refl w⟩
    | cons batch batches =>
      rw [QueryBatcher.advance, hphase] at hadvance
      cases hadvance
      exact ⟨r, w, h.move rfl rfl rfl (hphase ▸ rfl) (hphase ▸ rfl) (hphase ▸ hidle _)
        (List.Subset.refl batch) hread hwrite, le_refl r, le_refl w⟩
  | startingReads rest batch batches =>
    cases rest with
    | nil =>
      rw [QueryBatcher.advance, hphase] at hadvance
      cases hadvance
      exact ⟨r, w, h.move rfl rfl rfl (hphase ▸ rfl) (hphase ▸ rfl)
        (hphase ▸ fun _ htask => Or.inl htask) trivial hread hwrite, le_refl r, le_refl w⟩
    | cons task rest =>
      rw [QueryBatcher.advance, hphase] at hadvance
      cases hadvance
      exact ⟨r + 1, w, (h.startRead hphase).2, Nat.le_succ r, le_refl w⟩
  | awaitingReads batch batches =>
    rw [QueryBatcher.advance, hphase] at hadvance
    dsimp only at hadvance
    split at hadvance
    · next hsettled =>
      cases hadvance
      refine ⟨r, w, h.move rfl rfl rfl (hphase ▸ rfl) (hphase ▸ rfl)
        (hphase ▸ fun task htask => Or.inr (isSettled_iff.mp ?_)) trivial hread hwrite,
        le_refl r, le_refl w⟩
      exact List.all_eq_true.mp hsettled task htask
    · cases hadvance
  | writeLoop =>
    rw [QueryBatcher.advance, hphase] at hadvance
    dsimp only at hadvance
    split at hadvance
    · cases hadvance
      exact ⟨r, w, h.move rfl rfl rfl (hphase ▸ rfl) (hphase ▸ rfl) (hphase ▸ hidle _) trivial
        hread hwrite, le_refl r, le_refl w⟩
    · cases hadvance
      have hflatten := flatten_slices (show s.writeQueue.length < 2 ^ 53 by omega) hsize
      refine ⟨r, w, h.move rfl rfl rfl (hphase ▸ rfl) ?_ (hphase ▸ hidle _) trivial hread hnil,
        le_refl r, le_refl w⟩
      rw [hphase]
      exact (List.append_nil _).trans hflatten
  | writes batches =>
    cases batches with
    | nil =>
      rw [QueryBatcher.advance, hphase] at hadvance
      cases hadvance
      exact ⟨r, w, h.move rfl rfl rfl (hphase ▸ rfl) (hphase ▸ rfl) (hphase ▸ hidle _) trivial
        hread hwrite, le_refl r, le_refl w⟩
    | cons batch batches =>
      rw [QueryBatcher.advance, hphase] at hadvance
      cases hadvance
      exact ⟨r, w, h.move rfl rfl rfl (hphase ▸ rfl) (hphase ▸ rfl) (hphase ▸ hidle _) trivial
        hread hwrite, le_refl r, le_refl w⟩
  | batchWrites rest batches =>
    cases rest with
    | nil =>
      rw [QueryBatcher.advance, hphase] at hadvance
      cases hadvance
      exact ⟨r, w, h.move rfl rfl rfl (hphase ▸ rfl) (hphase ▸ rfl) (hphase ▸ hidle _) trivial
        hread hwrite, le_refl r, le_refl w⟩
    | cons task rest =>
      rw [QueryBatcher.advance, hphase] at hadvance
      cases hadvance
      exact ⟨r, w + 1, (h.startWrite hphase).2.2, le_refl r, Nat.le_succ w⟩
  | awaitingWrite task rest batches =>
    rw [QueryBatcher.advance, hphase] at hadvance
    dsimp only at hadvance
    split at hadvance
    · next hsettled =>
      cases hadvance
      refine ⟨r, w, h.move rfl rfl rfl (hphase ▸ rfl) (hphase ▸ rfl)
        (hphase ▸ fun other hother => Or.inr (isSettled_iff.mp ?_)) trivial hread hwrite,
        le_refl r, le_refl w⟩
      rwa [List.mem_singleton.mp hother]
    · cases hadvance

/-- **Step.** The tasks keep their places, and the numbers of those that started only grow. -/
theorem Placed.step (h : s.Placed r w) (hsize : size.AtLeast 1) {event : Event ρ}
    (hstep : Step size s event t) : ∃ r' w', t.Placed r' w' ∧ r ≤ r' ∧ w ≤ w' := by
  cases hstep with
  | enqueueRead hroom =>
    refine ⟨r, w, ⟨?_, h.waitingWrites, Nat.le_succ_of_le h.reads_le, h.writes_le, h.queuedReads,
      h.queuedWrites, h.busy, h.nested, ?_, h.writeRoom⟩, le_refl r, le_refl w⟩
    · have hwaiting := congrArg (· ++ [Task.read s.reads]) h.waitingReads
      exact (List.append_assoc _ _ _).symm.trans
        (hwaiting.trans (numbered_succ .read h.reads_le).symm)
    · rw [QueryBatcher.enqueueRead, List.length_append]
      exact hroom
  | enqueueWrite hroom =>
    refine ⟨r, w, ⟨h.waitingReads, ?_, h.reads_le, Nat.le_succ_of_le h.writes_le, h.queuedReads,
      h.queuedWrites, h.busy, h.nested, h.readRoom, ?_⟩, le_refl r, le_refl w⟩
    · have hwaiting := congrArg (· ++ [Task.write s.writes]) h.waitingWrites
      exact (List.append_assoc _ _ _).symm.trans
        (hwaiting.trans (numbered_succ .write h.writes_le).symm)
    · rw [QueryBatcher.enqueueWrite, List.length_append]
      exact hroom
  | flush =>
    exact ⟨r, w, h.move rfl rfl rfl rfl rfl (fun _ => Or.inl) h.nested h.readRoom h.writeRoom,
      le_refl r, le_refl w⟩
  | @returned task outcome hrunning =>
    have hstarted : s.status task ≠ .queued := by
      rw [hrunning]
      intro heq
      cases heq
    have hactive := (h.busy _ hstarted).resolve_right (by
      rw [hrunning]
      rintro ⟨outcome, heq⟩
      cases heq)
    exact ⟨r, w, h.progress hstarted (by intro heq; cases heq) (Or.inl hactive), le_refl r,
      le_refl w⟩
  | @settled task outcome hreturned =>
    have hstarted : s.status task ≠ .queued := by
      rw [hreturned]
      intro heq
      cases heq
    exact ⟨r, w, h.progress hstarted (by intro heq; cases heq) (Or.inr ⟨_, rfl⟩), le_refl r,
      le_refl w⟩
  | advance hadvance => exact h.advance hsize hadvance

/-- The kinds of steps the flushes take. -/
inductive Advance (s t : QueryBatcher ρ) : Event ρ → Prop
  | internal : t.status = s.status → t.resolved = s.resolved → s.phase ≠ .idle → t.phase ≠ .idle →
      (t.phase.isWriting = true → s.phase.isWriting = true ∨
        s.phase = .readLoop ∧ s.readQueue = []) → Advance s t .internal
  | begun : t.status = s.status → t.resolved = s.resolved → s.phase = .idle →
      t.phase = .readLoop → s.resolved < s.flushes → Advance s t .begun
  | resolved : t.status = s.status → t.resolved = s.resolved + 1 → s.phase = .writeLoop →
      s.writeQueue = [] → t.phase = .idle → Advance s t .resolved
  | startedRead {task : Task} {rest batch : List Task} {batches : List (List Task)} :
      t.status = (s.setStatus task .running).status → t.resolved = s.resolved →
      s.phase = .startingReads (task :: rest) batch batches →
      t.phase = .startingReads rest batch batches → Advance s t (.started task)
  | startedWrite {task : Task} {rest : List Task} {batches : List (List Task)} :
      t.status = (s.setStatus task .running).status → t.resolved = s.resolved →
      s.phase = .batchWrites (task :: rest) batches →
      t.phase = .awaitingWrite task rest batches → Advance s t (.started task)

theorem advance_cases {event : Event ρ} (hadvance : s.advance size = some (event, t)) :
    Advance s t event ∧ t.reads = s.reads ∧ t.writes = s.writes ∧ t.flushes = s.flushes := by
  unfold advance at hadvance
  split at hadvance
  · next hphase =>
    split at hadvance
    · next hflush =>
      cases hadvance
      exact ⟨.begun rfl rfl hphase rfl hflush, rfl, rfl, rfl⟩
    · cases hadvance
  · next hphase =>
    split at hadvance
    · next hempty =>
      cases hadvance
      exact ⟨.internal rfl rfl (by simp [hphase]) (by simp) (by simp [hphase, hempty]), rfl, rfl,
        rfl⟩
    · cases hadvance
      exact ⟨.internal rfl rfl (by simp [hphase]) (by simp) (by simp [Phase.isWriting]), rfl, rfl,
        rfl⟩
  · next hphase =>
    cases hadvance
    exact ⟨.internal rfl rfl (by simp [hphase]) (by simp) (by simp [Phase.isWriting]), rfl, rfl,
      rfl⟩
  · next hphase =>
    cases hadvance
    exact ⟨.internal rfl rfl (by simp [hphase]) (by simp) (by simp [Phase.isWriting]), rfl, rfl,
      rfl⟩
  · next hphase =>
    cases hadvance
    exact ⟨.internal rfl rfl (by simp [hphase]) (by simp) (by simp [Phase.isWriting]), rfl, rfl,
      rfl⟩
  · next hphase =>
    cases hadvance
    exact ⟨.startedRead rfl rfl hphase rfl, rfl, rfl, rfl⟩
  · next hphase =>
    split at hadvance
    · cases hadvance
      exact ⟨.internal rfl rfl (by simp [hphase]) (by simp) (by simp [Phase.isWriting]), rfl, rfl,
        rfl⟩
    · cases hadvance
  · next hphase =>
    split at hadvance
    · next hempty =>
      cases hadvance
      exact ⟨.resolved rfl rfl hphase hempty rfl, rfl, rfl, rfl⟩
    · cases hadvance
      exact ⟨.internal rfl rfl (by simp [hphase]) (by simp) (by simp [hphase, Phase.isWriting]),
        rfl, rfl, rfl⟩
  · next hphase =>
    cases hadvance
    exact ⟨.internal rfl rfl (by simp [hphase]) (by simp) (by simp [hphase, Phase.isWriting]), rfl,
      rfl, rfl⟩
  · next hphase =>
    cases hadvance
    exact ⟨.internal rfl rfl (by simp [hphase]) (by simp) (by simp [hphase, Phase.isWriting]), rfl,
      rfl, rfl⟩
  · next hphase =>
    cases hadvance
    exact ⟨.internal rfl rfl (by simp [hphase]) (by simp) (by simp [hphase, Phase.isWriting]), rfl,
      rfl, rfl⟩
  · next hphase =>
    cases hadvance
    exact ⟨.startedWrite rfl rfl hphase rfl, rfl, rfl, rfl⟩
  · next hphase =>
    split at hadvance
    · cases hadvance
      exact ⟨.internal rfl rfl (by simp [hphase]) (by simp) (by simp [hphase, Phase.isWriting]),
        rfl, rfl, rfl⟩
    · cases hadvance

/-! ## Statuses -/

/-- A task that starts was waiting. -/
theorem Placed.queued_of_started (h : s.Placed r w) {task : Task}
    (hadvance : Advance s t (.started task)) : s.status task = .queued := by
  cases hadvance with
  | startedRead _ _ hphase _ =>
    obtain ⟨rfl, -⟩ := h.startRead hphase
    exact (h.queuedReads r).mpr (le_refl r)
  | startedWrite _ _ hphase _ =>
    obtain ⟨rfl, -⟩ := h.startWrite hphase
    exact (h.queuedWrites w).mpr (le_refl w)

/-- Only the status of the task of an event changes. -/
theorem status_of_advance {event : Event ρ} (hadvance : Advance s t event) :
    t.status = s.status ∨ ∃ task, event = .started task ∧
      t.status = (s.setStatus task .running).status := by
  cases hadvance with
  | internal hstatus => exact Or.inl hstatus
  | begun hstatus => exact Or.inl hstatus
  | resolved hstatus => exact Or.inl hstatus
  | startedRead hstatus => exact Or.inr ⟨_, rfl, hstatus⟩
  | startedWrite hstatus => exact Or.inr ⟨_, rfl, hstatus⟩

/-- Tasks that have started stay so, and tasks that are settled keep their outcome. -/
theorem Placed.status_step (h : s.Placed r w) {event : Event ρ} (hstep : Step size s event t) :
    (∀ task, s.status task ≠ .queued → t.status task ≠ .queued) ∧
      ∀ task outcome, s.status task = .settled outcome → t.status task = .settled outcome := by
  have hset : ∀ (changed : Task) (status : Status ρ),
      (s.status changed ≠ .queued → status ≠ .queued) →
      (∀ outcome, s.status changed ≠ .settled outcome) →
      (∀ task, s.status task ≠ .queued → (s.setStatus changed status).status task ≠ .queued) ∧
        ∀ task outcome, s.status task = .settled outcome →
          (s.setStatus changed status).status task = .settled outcome := by
    intro changed status hqueued hsettled
    refine ⟨fun task htask => ?_, fun task outcome htask => ?_⟩
    · by_cases heq : task = changed
      · subst heq
        rw [status_setStatus_self]
        exact hqueued htask
      · rwa [status_setStatus_of_ne s heq]
    · by_cases heq : task = changed
      · subst heq
        exact absurd htask (hsettled outcome)
      · rwa [status_setStatus_of_ne s heq]
  cases hstep with
  | enqueueRead => exact ⟨fun _ => id, fun _ _ => id⟩
  | enqueueWrite => exact ⟨fun _ => id, fun _ _ => id⟩
  | flush => exact ⟨fun _ => id, fun _ _ => id⟩
  | returned outcome hrunning =>
    exact hset _ _ (fun _ heq => by cases heq) fun outcome heq => by simp [hrunning] at heq
  | settled hreturned =>
    exact hset _ _ (fun _ heq => by cases heq) fun outcome heq => by simp [hreturned] at heq
  | advance hadvance =>
    obtain ⟨hkind, -⟩ := advance_cases hadvance
    rcases status_of_advance hkind with hstatus | ⟨task, rfl, hstatus⟩
    · rw [hstatus]
      exact ⟨fun _ => id, fun _ _ => id⟩
    · rw [hstatus]
      have hqueued := h.queued_of_started hkind
      exact hset _ _ (fun hne => absurd hqueued hne) fun outcome heq => by simp [hqueued] at heq

end QueryBatcher

end MemphisOS.Storage
