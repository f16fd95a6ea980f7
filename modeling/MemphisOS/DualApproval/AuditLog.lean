import Mathlib.Data.List.Permutation
import MemphisOS.DualApproval.Safety
import MemphisOS.Systems.Transition

/-!
# The audit log

When the listed events of a request are the path of its states. Events are listed by the
text of their time only, and a request is created by two inserts outside a transaction, so
the law needs the clock to have advanced and the second insert to have succeeded.
-/

namespace MemphisOS.DualApproval

open Ecma Sql

variable {host : Host} {db : Db} {step : Step} {id : Text} {row row' : Request} {event : Event}

/-! ## Paths -/

/-- The events lead from one state to another, each starting where the one before ended. -/
def PathFrom : Option State → List Event → State → Prop
  | start, [], target => start = some target
  | start, event :: rest, target => event.fromState = start ∧ PathFrom (some event.toState) rest target

/-- A non-empty path `null → pending → ...` that ends in the current state. -/
def IsAuditPath (events : List Event) (current : State) : Prop :=
  events.head?.map Event.toState = some .pending ∧ PathFrom none events current

instance decidablePathFrom : ∀ start events target, Decidable (PathFrom start events target)
  | _, [], _ => inferInstanceAs (Decidable (_ = _))
  | _, event :: rest, target =>
    have := decidablePathFrom (some event.toState) rest target
    inferInstanceAs (Decidable (_ ∧ _))

instance (events : List Event) (current : State) : Decidable (IsAuditPath events current) :=
  inferInstanceAs (Decidable (_ ∧ _))

/-- Whatever order ties are listed in, the events of every stored request are its path. -/
def AuditConsistent (db : Db) : Prop :=
  ∀ id row, db.requests.find id = some row →
    ∀ events, ListEvents db id events → IsAuditPath events row.state

/-! ## The condition -/

/-- The creation the step would store, if its first insert succeeds, is followed by a
second insert that succeeds. -/
def CreatesWithEvent (host : Host) (db : Db) (step : Step) (input : CreateRequestInput) : Prop :=
  ∀ nowIso initiator, toISOString (input.nowMs.getD step.env.dateNow) = some nowIso →
    normalizeIdentity host input.initiatorId = some initiator →
    (newRequest input (step.env.randomUUID 0) initiator nowIso
      (expiry (input.nowMs.getD step.env.dateNow) input.ttlMs)).expiresAtMs ≠ .nan →
    db.requests.find (step.env.randomUUID 0) = none → step.fault ≠ some 0 →
    step.fault ≠ some 1 ∧ db.events.find (step.env.randomUUID 1) = none

/-- The request, if the call is entitled to move it, was created at a time whose text is
smaller than the text of the call's time. -/
def MovesLater (db : Db) (now : JsNumber) (entitled : Request → Prop) : Prop :=
  ∀ id row nowIso, db.requests.find id = some row → row.state = .pending → entitled row →
    toISOString now = some nowIso → row.createdAt < nowIso

/-- The condition on a step and the database before it. -/
def RecordsInOrder (host : Host) (db : Db) (step : Step) : Prop :=
  match step.call with
  | .createRequest input => CreatesWithEvent host db step input
  | .approve input => MovesLater db (input.now step.env) fun row =>
      row.requestId = input.requestId ∧ db.idempotency.find input.approvalRequestId = none ∧
        ∃ approver, normalizeIdentity host input.actorId = some approver ∧
          (row.expiresAtMs.lt (input.now step.env) = true ∨
            (row.initiatorId ≠ approver ∧ row.hasVersion input.expectedStateVersion = true))
  | .cancel input => MovesLater db (input.now step.env) fun row =>
      row.requestId = input.requestId ∧ db.idempotency.find input.approvalRequestId = none ∧
        (normalizeIdentity host input.actorId).isSome = true ∧
        row.hasVersion input.expectedStateVersion = true
  | .expirePending nowMs => MovesLater db (nowMs.getD step.env.dateNow) fun row =>
      row.expiresAtMs.lt (nowMs.getD step.env.dateNow) = true

/-- The repository from empty tables. -/
def approvals (host : Host) : TransitionSystem Db Step :=
  .ofFunction .empty fun db step => (step.exec host db).2

/-! ## The log of one request -/

/-- The events of an id: none before the request exists, its creation while it is pending,
and its creation and its move, at a later time, afterwards. -/
inductive LogOk : Option Request → List Event → Prop
  | absent : LogOk none []
  | pending {row : Request} {created : Event} : row.state = .pending →
      created.fromState = none → created.toState = .pending →
      created.createdAt = row.createdAt → LogOk (some row) [created]
  | moved {row : Request} {created move : Event} : row.state ≠ .pending →
      created.fromState = none → created.toState = .pending →
      created.createdAt = row.createdAt →
      move.fromState = some .pending → move.toState = row.state →
      created.createdAt < move.createdAt → LogOk (some row) [created, move]

/-- Under the condition a move happens at a later text than the creation. -/
theorem Moves.later (hfind : db.requests.find id = some row) (hpending : row.state = .pending)
    (hmoves : Moves host db step row row' event) (horder : RecordsInOrder host db step) :
    row.createdAt < row'.updatedAt := by
  cases hmoves with
  | approved hcall hid hfree hiso hnorm _ hdistinct hversion =>
    simp only [RecordsInOrder, hcall] at horder
    exact horder id row _ hfind hpending
      ⟨hid, hfree, _, hnorm, .inr ⟨hdistinct, hversion⟩⟩ hiso
  | expiredLate hcall hid hfree hiso hnorm hexpired =>
    simp only [RecordsInOrder, hcall] at horder
    exact horder id row _ hfind hpending ⟨hid, hfree, _, hnorm, .inl hexpired⟩ hiso
  | canceled hcall hid hfree hiso hnorm hversion =>
    simp only [RecordsInOrder, hcall] at horder
    exact horder id row _ hfind hpending ⟨hid, hfree, by simp [hnorm], hversion⟩ hiso
  | expired hcall hiso hexpired =>
    simp only [RecordsInOrder, hcall] at horder
    exact horder id row _ hfind hpending hexpired hiso

/-- What a step does to a request whose log is in order: it keeps it in order, or it
creates the request without an event, or it records a move that is not later. The last two
break the condition. -/
theorem exec_log (hlog : LogOk (db.requests.find id) (db.eventsOf id)) (step : Step) :
    LogOk ((step.exec host db).2.requests.find id) ((step.exec host db).2.eventsOf id) ∨
    (db.requests.find id = none ∧ (∃ row, (step.exec host db).2.requests.find id = some row) ∧
      (step.exec host db).2.eventsOf id = [] ∧ ¬RecordsInOrder host db step) ∨
    ∃ row row', db.requests.find id = some row ∧ row ≠ row' ∧
      (step.exec host db).2.requests.find id = some row' ∧
      ¬row.createdAt < row'.updatedAt ∧ ¬RecordsInOrder host db step := by
  have hchange := exec_change host db step id
  generalize (step.exec host db).2.requests.find id = found,
    (step.exec host db).2.eventsOf id = events at hchange ⊢
  cases hchange with
  | same => exact .inl hlog
  | created _ _ hnone =>
    rw [hnone] at hlog
    left
    generalize db.eventsOf id = before at hlog ⊢
    cases hlog
    exact .pending rfl rfl rfl rfl
  | createdWithoutEvent hcall hid hnone hiso hnorm hnan hfirst hwhy =>
    rw [hnone] at hlog
    refine .inr (.inl ⟨hnone, ⟨_, rfl⟩, ?_, fun horder => ?_⟩)
    · generalize db.eventsOf id = before at hlog ⊢
      cases hlog
      rfl
    · subst hid
      simp only [RecordsInOrder, hcall] at horder
      obtain ⟨hsecond, hfree⟩ := horder _ _ hiso hnorm hnan hnone hfirst
      rcases hwhy with hfault | htaken
      · exact hsecond hfault
      · simp [hfree] at htaken
  | @moved row row' event hfound hpending hmoves =>
    obtain ⟨-, hfrom, hto, htime⟩ := hmoves.records
    obtain ⟨-, -, -, hcreatedAt⟩ := hmoves.keeps
    rw [hfound] at hlog
    generalize db.eventsOf id = before at hlog ⊢
    cases hlog with
    | @pending _ created _ hcreated hcreated' hcreated'' =>
      by_cases hlater : row.createdAt < row'.updatedAt
      · left
        refine .moved hmoves.leaves.1 hcreated hcreated' (hcreated''.trans hcreatedAt.symm) hfrom
          hto ?_
        rwa [hcreated'', htime]
      · refine .inr (.inr ⟨row, row', hfound, ?_, rfl, hlater,
          fun horder => hlater (hmoves.later hfound hpending horder)⟩)
        rintro rfl
        exact hmoves.leaves.1 hpending
    | moved hmoved => exact absurd hpending hmoved

/-- Every log is in order in every state reached under the condition. -/
theorem logOk_of_reachable (hdb : ((approvals host).restrict (RecordsInOrder host)).Reachable db)
    (id : Text) : LogOk (db.requests.find id) (db.eventsOf id) := by
  apply hdb.invariant (I := fun db => LogOk (db.requests.find id) (db.eventsOf id))
  · rintro s rfl
    exact .absent
  · rintro s step t hs ⟨horder, rfl⟩
    rcases exec_log hs step with hlog | ⟨-, -, -, hbroken⟩ |
      ⟨_, _, -, -, -, -, hbroken⟩
    · exact hlog
    · exact absurd horder hbroken
    · exact absurd horder hbroken

/-! ## Listings -/

/-- A log that is in order can only be listed as the path. -/
theorem LogOk.isAuditPath {events : List Event} (h : LogOk (some row) (db.eventsOf id))
    (hlist : ListEvents db id events) : IsAuditPath events row.state := by
  obtain ⟨hperm, hsorted⟩ := hlist
  rw [show (db.events.rows.filter fun event => event.requestId = id) = db.eventsOf id from rfl]
    at hperm
  generalize db.eventsOf id = log at h hperm
  cases h with
  | @pending _ created hpending hfrom hto _ =>
    obtain rfl := List.perm_singleton.mp hperm
    exact ⟨by simp [hto], hfrom, by rw [hto, hpending]; rfl⟩
  | @moved _ created move hmoved hfrom hto _ hfrom' hto' hlater =>
    have hlisted : events = [created, move] := by
      rcases List.perm_pair.mp hperm with h | h
      · exact h
      · rw [h] at hsorted
        simp only [List.pairwise_cons, List.mem_singleton, forall_eq] at hsorted
        exact absurd hlater (not_lt.mpr hsorted.1)
    rw [hlisted]
    exact ⟨by simp [hto], hfrom, by rw [hto]; exact hfrom', by rw [hto']; rfl⟩

/-- A step keeps the audit order when it stores no request without its event and moves
requests at later texts only. -/
def KeepsOrder (host : Host) (db : Db) (step : Step) : Prop :=
  ∀ id row', (step.exec host db).2.requests.find id = some row' →
    (db.requests.find id = none → (step.exec host db).2.eventsOf id ≠ []) ∧
    ∀ row, db.requests.find id = some row → row ≠ row' → row.createdAt < row'.updatedAt

/-- **The audit log.** In every state reached by steps that meet the condition, the listed
events of every stored request are the path of its states. In such a state a further step
leaves all listings paths exactly when it stores no request without its event and moves
requests only at a later text than that of their creation. -/
theorem audit_log_consistent (host : Host) :
    (∀ db, ((approvals host).restrict (RecordsInOrder host)).Reachable db → AuditConsistent db) ∧
    ∀ db step, ((approvals host).restrict (RecordsInOrder host)).Reachable db →
      (AuditConsistent (step.exec host db).2 ↔ KeepsOrder host db step) := by
  refine ⟨?_, ?_⟩
  · intro db hdb id row hrow events hlist
    have hlog := logOk_of_reachable hdb id
    rw [hrow] at hlog
    exact hlog.isAuditPath hlist
  · intro db step hdb
    constructor
    · intro hconsistent id row' hrow'
      refine ⟨fun hnone hempty => ?_, fun row hrow hne => ?_⟩
      · have hpath := hconsistent id row' hrow' [] ⟨by rw [← Db.eventsOf, hempty], by simp⟩
        cases hpath.1
      · rcases exec_of_found hrow step with ⟨hsame, -⟩ | ⟨row₂, move, hpending, hmoves, hafter, hevents⟩
        · exact absurd (Option.some.inj (hsame.symm.trans hrow')) hne
        · obtain rfl := Option.some.inj (hrow'.symm.trans hafter)
          obtain ⟨-, hfrom, -, htime⟩ := hmoves.records
          have hlog := logOk_of_reachable hdb id
          rw [hrow] at hlog
          generalize db.eventsOf id = before at hlog hevents
          cases hlog with
          | moved hmoved => exact absurd hpending hmoved
          | @pending _ created _ _ _ hcreated =>
            by_contra hnot
            -- The move may then be listed before the creation.
            have hpath := hconsistent id row' hrow' [move, created] (by
              refine ⟨by rw [← Db.eventsOf, hevents]; exact .swap _ _ _, ?_⟩
              simp only [List.pairwise_cons, List.mem_singleton, forall_eq, List.not_mem_nil,
                false_implies, implies_true, List.Pairwise.nil, and_true]
              rw [hcreated, htime]
              exact not_lt.mp hnot)
            rw [hpath.2.1] at hfrom
            cases hfrom
    · intro hkeeps id row' hrow' events hlist
      have hlog : LogOk (some row') ((step.exec host db).2.eventsOf id) := by
        rcases exec_log (logOk_of_reachable hdb id) step with hlog | ⟨hnone, -, hempty, -⟩ |
          ⟨row₁, row₂, hrow₁, hne, hrow₂, hnot, -⟩
        · rwa [hrow'] at hlog
        · exact absurd hempty ((hkeeps id row' hrow').1 hnone)
        · exact absurd ((hkeeps id row₂ hrow₂).2 row₁ hrow₁ hne) hnot
      exact hlog.isAuditPath hlist

/-- A database in which a given listing of a request is not its path. -/
theorem not_auditConsistent (id : Text) (events : List Event) (hrow : (db.requests.find id).isSome = true)
    (hlist : events.Perm (db.eventsOf id) ∧ events.Pairwise fun a b => a.createdAt ≤ b.createdAt)
    (hpath : ∀ current, ¬IsAuditPath events current) : ¬AuditConsistent db := by
  intro hconsistent
  obtain ⟨row, hrow⟩ := Option.isSome_iff_exists.mp hrow
  exact hpath row.state (hconsistent id row hrow events hlist)

/-- The sample request is created at one time and approved at an earlier or equal one: the
approval may be listed first. When the second insert of its creation fails, it is stored
without any event. -/
theorem audit_log_inconsistent :
    ¬AuditConsistent (stateAfter sampleHost [sampleCreate 2000, sampleApprove 1000]) ∧
    ¬AuditConsistent (stateAfter sampleHost [sampleCreate 1000, sampleApprove 1000]) ∧
    ¬AuditConsistent (stateAfter sampleHost [{ sampleCreate 1000 with fault := some 1 }]) := by
  refine ⟨?_, ?_, ?_⟩
  · exact not_auditConsistent (sampleUuid '1')
      (((stateAfter sampleHost [sampleCreate 2000, sampleApprove 1000]).eventsOf
        (sampleUuid '1')).reverse) (by decide +kernel) (by decide +kernel)
      (fun _ h => absurd h.1 (by decide +kernel))
  · exact not_auditConsistent (sampleUuid '1')
      (((stateAfter sampleHost [sampleCreate 1000, sampleApprove 1000]).eventsOf
        (sampleUuid '1')).reverse) (by decide +kernel) (by decide +kernel)
      (fun _ h => absurd h.1 (by decide +kernel))
  · exact not_auditConsistent (sampleUuid '1') [] (by decide +kernel)
      (by decide +kernel) (fun _ h => absurd h.1 (by decide +kernel))

end MemphisOS.DualApproval
