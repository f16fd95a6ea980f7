import MemphisOS.DualApproval.Safety

/-!
# Idempotency and atomicity

An identifier is bound to the first use that returned normally and to no other; a repeated
use returns the current record and changes nothing, and a use that throws changes nothing.
-/

namespace MemphisOS.DualApproval

open Ecma Sql

variable {host : Host} {db : Db} {step : Step} {r : Reservation} {steps : List Step}

/-- The use of an identifier that a call makes, when its actor has an identity. -/
def Call.reservation (host : Host) : Call → Option Reservation
  | .approve input => (normalizeIdentity host input.actorId).map fun actor =>
      ⟨input.approvalRequestId, input.requestId, .approve, actor⟩
  | .cancel input => (normalizeIdentity host input.actorId).map fun actor =>
      ⟨input.approvalRequestId, input.requestId, .cancel, actor⟩
  | _ => none

/-- The call is `approve` or `cancel`. -/
def Call.isTransition : Call → Bool
  | .approve _ => true
  | .cancel _ => true
  | _ => false

/-- The clock value of a step. -/
def Step.now (step : Step) : JsNumber :=
  match step.call with
  | .createRequest input => input.nowMs.getD step.env.dateNow
  | .approve input => input.now step.env
  | .cancel input => input.now step.env
  | .expirePending nowMs => nowMs.getD step.env.dateNow

/-- The step returned normally. -/
def Step.Returns (host : Host) (db : Db) (step : Step) : Prop :=
  ∃ reply, (step.exec host db).1 = .ok reply

/-! ## One step -/

/-- A normal return of a transition found its identifier bound or free. -/
theorem returned_of_exec (hr : step.call.reservation host = some r)
    (hreturns : step.Returns host db) : ∃ action input result,
      r.approvalRequestId = input.approvalRequestId ∧ r.requestId = input.requestId ∧
      r.action = action ∧ normalizeIdentity host input.actorId = some r.actorId ∧
      Returned host db step action input result (step.exec host db).2 := by
  obtain ⟨reply, hreply⟩ := hreturns
  cases hcall : step.call with
  | createRequest input => simp [Call.reservation, hcall] at hr
  | expirePending nowMs => simp [Call.reservation, hcall] at hr
  | approve input =>
    rw [hcall] at hr
    obtain ⟨actor, hactor, rfl⟩ := Option.map_eq_some_iff.mp hr
    obtain ⟨result, s, hrun, hexec⟩ := exec_eq host step (by rw [hcall]; rfl) db
    rw [hexec] at hreply ⊢
    cases result with
    | error e => cases hreply
    | ok row => exact ⟨_, input, row, rfl, rfl, rfl, hactor,
        approve_returned hcall (Program.Yields.of_run hrun)⟩
  | cancel input =>
    rw [hcall] at hr
    obtain ⟨actor, hactor, rfl⟩ := Option.map_eq_some_iff.mp hr
    obtain ⟨result, s, hrun, hexec⟩ := exec_eq host step (by rw [hcall]; rfl) db
    rw [hexec] at hreply ⊢
    cases result with
    | error e => cases hreply
    | ok row => exact ⟨_, input, row, rfl, rfl, rfl, hactor,
        cancel_returned hcall (Program.Yields.of_run hrun)⟩

/-- **Atomicity.** An `approve` or `cancel` that throws leaves the tables as they were. -/
theorem exec_error (htransition : step.call.isTransition = true) {e : ApprovalError}
    (herror : (step.exec host db).1 = .error e) : (step.exec host db).2 = db := by
  cases hcall : step.call with
  | createRequest input => simp [Call.isTransition, hcall] at htransition
  | expirePending nowMs => simp [Call.isTransition, hcall] at htransition
  | approve input =>
    obtain ⟨result, s, hrun, hexec⟩ := exec_eq host step (by rw [hcall]; rfl) db
    rw [hexec] at herror ⊢
    cases result with
    | error e' => exact approve_error hrun
    | ok row => cases herror
  | cancel input =>
    obtain ⟨result, s, hrun, hexec⟩ := exec_eq host step (by rw [hcall]; rfl) db
    rw [hexec] at herror ⊢
    cases result with
    | error e' => exact cancel_error hrun
    | ok row => cases herror

/-- A bound identifier stays bound to the same row. -/
theorem exec_idempotency {key : Text} {row : Idempotency}
    (hrow : db.idempotency.find key = some row) (step : Step) :
    (step.exec host db).2.idempotency.find key = some row := by
  have hreturned : ∀ {action input result db'}, Returned host db step action input result db' →
      db'.idempotency.find key = some row := by
    intro action input result db' h
    cases h with
    | replay _ _ _ _ hdb => rwa [hdb]
    | moved _ hinsert =>
      rw [Table.find_insert hinsert]
      split
      · next hkey =>
        have hfree := (Table.insert_eq_some hinsert).1
        rw [hkey, hrow] at hfree
        cases hfree
      · exact hrow
  cases hcall : step.call with
  | createRequest input =>
    obtain ⟨result, s, hrun, hexec⟩ := exec_eq host step (by rw [hcall]; rfl) db
    rw [hexec, createRequest_idempotency hrun]
    exact hrow
  | expirePending nowMs =>
    obtain ⟨result, s, hrun, hexec⟩ := exec_eq host step (by rw [hcall]; rfl) db
    rw [hexec]
    cases result with
    | error e => rwa [show s.db = db from expirePending_error hrun]
    | ok n =>
      have hyields := expirePending_yields host hcall (Program.Yields.of_run hrun)
      rw [hyields.1]
      exact hrow
  | approve input =>
    obtain ⟨result, s, hrun, hexec⟩ := exec_eq host step (by rw [hcall]; rfl) db
    rw [hexec]
    cases result with
    | error e => rwa [show s.db = db from approve_error hrun]
    | ok n => exact hreturned (approve_returned hcall (Program.Yields.of_run hrun))
  | cancel input =>
    obtain ⟨result, s, hrun, hexec⟩ := exec_eq host step (by rw [hcall]; rfl) db
    rw [hexec]
    cases result with
    | error e => rwa [show s.db = db from cancel_error hrun]
    | ok n => exact hreturned (cancel_returned hcall (Program.Yields.of_run hrun))

/-- The identifier is bound to this use, and the request is stored. -/
def Bound (db : Db) (r : Reservation) : Prop :=
  (∃ existing, db.idempotency.find r.approvalRequestId = some existing ∧
    r.sameAs existing = true) ∧ ∃ row, db.requests.find r.requestId = some row

/-- A use that returned normally is bound. -/
theorem bound_of_returns (hr : step.call.reservation host = some r)
    (hreturns : step.Returns host db) : Bound (step.exec host db).2 r := by
  obtain ⟨action, input, result, hid, hrequest, haction, hactor, hreturned⟩ :=
    returned_of_exec hr hreturns
  cases hreturned with
  | replay hactor' hexisting hsame hfind hdb =>
    obtain rfl := Option.some.inj (hactor.symm.trans hactor')
    rw [hdb]
    refine ⟨⟨_, hid ▸ hexisting, ?_⟩, _, hrequest ▸ hfind⟩
    simpa [Reservation.sameAs, hrequest, haction] using hsame
  | moved hactor' hinsert hmoved hmoves =>
    obtain rfl := Option.some.inj (hactor.symm.trans hactor')
    have hbound := Table.find_insert hinsert r.approvalRequestId
    rw [if_pos hid.symm] at hbound
    refine ⟨⟨_, hbound, ?_⟩, result, ?_⟩
    · simp [Reservation.sameAs, hrequest, haction]
    · rw [hmoved.requests, if_pos hrequest]

/-- A bound use stays bound. -/
theorem Bound.exec (h : Bound db r) (step : Step) : Bound (step.exec host db).2 r := by
  obtain ⟨⟨existing, hexisting, hsame⟩, row, hrow⟩ := h
  refine ⟨⟨existing, exec_idempotency hexisting step, hsame⟩, ?_⟩
  rcases exec_of_found hrow step with ⟨hfind, -⟩ | ⟨row', _, -, -, hfind, -⟩
  · exact ⟨row, hfind⟩
  · exact ⟨row', hfind⟩

/-! ## Repeated and conflicting uses -/

theorem getOrThrow_run {id : Text} {row : Request} (h : db.requests.find id = some row) :
    (getOrThrow id).run ⟨db, none⟩ = (.ok row, ⟨db, none⟩) := by
  unfold getOrThrow get
  rw [Program.run_bind_of_ok (Program.run_query _ _ _), h]
  rfl

theorem isIdempotentReplay_run {existing : Idempotency}
    (h : db.idempotency.find r.approvalRequestId = some existing)
    (hsame : r.sameAs existing = true) :
    (isIdempotentReplay r).run ⟨db, none⟩ = (.ok true, ⟨db, none⟩) := by
  unfold isIdempotentReplay selectIdempotency
  rw [Program.run_bind_of_ok (Program.run_query _ _ _), h]
  simp only [hsame, if_true]
  rfl

/-- A bound use returns the current record and changes nothing. -/
theorem exec_replay (hbound : Bound db r) (hr : step.call.reservation host = some r)
    (hfault : step.fault = none) (htime : (toISOString step.now).isSome = true) :
    ∃ row, db.requests.find r.requestId = some row ∧
      step.exec host db = (.ok (.request row), db) := by
  obtain ⟨⟨existing, hexisting, hsame⟩, row, hrow⟩ := hbound
  obtain ⟨nowIso, hiso⟩ := Option.isSome_iff_exists.mp htime
  refine ⟨row, hrow, ?_⟩
  cases hcall : step.call with
  | createRequest input => simp [Call.reservation, hcall] at hr
  | expirePending nowMs => simp [Call.reservation, hcall] at hr
  | approve input =>
    rw [hcall] at hr
    obtain ⟨actor, hactor, rfl⟩ := Option.map_eq_some_iff.mp hr
    have hnow : isoOrThrow (input.nowMs.getD step.env.dateNow) = .ok nowIso := by
      have hiso' : toISOString (input.nowMs.getD step.env.dateNow) = some nowIso := by
        simpa [Step.now, hcall, TransitionInput.now] using hiso
      rw [isoOrThrow, hiso']
      rfl
    have hnorm : normalizeOrThrow host input.actorId = .ok actor := by
      simp [normalizeOrThrow, hactor]
    have hbody : (approveBody input (input.nowMs.getD step.env.dateNow) nowIso actor
        (step.env.randomUUID 0)).run ⟨db, none⟩ = (.ok row, ⟨db, none⟩) := by
      unfold approveBody
      rw [Program.run_bind_of_ok (isIdempotentReplay_run hexisting hsame), if_pos rfl]
      exact getOrThrow_run hrow
    obtain ⟨result, s, hrun, hexec⟩ := exec_eq host step (by rw [hcall]; rfl) db
    rw [hfault, approve, hnow, hnorm] at hrun
    obtain ⟨rfl, rfl⟩ := Prod.mk.inj
      ((Program.run_transaction_of_ok hbody ApprovalError.sqlite).symm.trans hrun)
    exact hexec
  | cancel input =>
    rw [hcall] at hr
    obtain ⟨actor, hactor, rfl⟩ := Option.map_eq_some_iff.mp hr
    have hnow : isoOrThrow (input.nowMs.getD step.env.dateNow) = .ok nowIso := by
      have hiso' : toISOString (input.nowMs.getD step.env.dateNow) = some nowIso := by
        simpa [Step.now, hcall, TransitionInput.now] using hiso
      rw [isoOrThrow, hiso']
      rfl
    have hnorm : normalizeOrThrow host input.actorId = .ok actor := by
      simp [normalizeOrThrow, hactor]
    have hbody : (cancelBody input nowIso actor (step.env.randomUUID 0)).run ⟨db, none⟩ =
        (.ok row, ⟨db, none⟩) := by
      unfold cancelBody
      rw [Program.run_bind_of_ok (isIdempotentReplay_run hexisting hsame), if_pos rfl]
      exact getOrThrow_run hrow
    obtain ⟨result, s, hrun, hexec⟩ := exec_eq host step (by rw [hcall]; rfl) db
    rw [hfault, cancel, hnow, hnorm] at hrun
    obtain ⟨rfl, rfl⟩ := Prod.mk.inj
      ((Program.run_transaction_of_ok hbody ApprovalError.sqlite).symm.trans hrun)
    exact hexec

/-- A bound use changes nothing, whichever statement fails. -/
theorem exec_bound_unchanged (hbound : Bound db r) (hr : step.call.reservation host = some r) :
    (step.exec host db).2 = db := by
  cases hresult : (step.exec host db).1 with
  | error e =>
    refine exec_error ?_ hresult
    cases hcall : step.call <;> simp_all [Call.reservation, Call.isTransition]
  | ok reply =>
    obtain ⟨action, input, result, hid, -, -, -, hreturned⟩ :=
      returned_of_exec hr ⟨reply, hresult⟩
    obtain ⟨⟨existing, hexisting, -⟩, -⟩ := hbound
    cases hreturned with
    | replay _ _ _ _ hdb => exact hdb
    | moved _ hinsert =>
      have hfree := (Table.insert_eq_some hinsert).1
      rw [hid] at hexisting
      rw [hexisting] at hfree
      cases hfree

/-- A use of an identifier that is bound to another use throws. -/
theorem exec_conflict {existing : Idempotency} (hr : step.call.reservation host = some r)
    (hexisting : db.idempotency.find r.approvalRequestId = some existing)
    (hother : r.sameAs existing = false) : ∃ e, (step.exec host db).1 = .error e := by
  cases hresult : (step.exec host db).1 with
  | error e => exact ⟨e, rfl⟩
  | ok reply =>
    obtain ⟨action, input, result, hid, hrequest, haction, hactor, hreturned⟩ :=
      returned_of_exec hr ⟨reply, hresult⟩
    rw [hid] at hexisting
    cases hreturned with
    | replay hactor' hfound hsame =>
      obtain rfl := Option.some.inj (hactor.symm.trans hactor')
      obtain rfl := Option.some.inj (hexisting.symm.trans hfound)
      rw [Reservation.sameAs, hrequest, haction] at hother
      rw [Reservation.sameAs] at hsame
      rw [hsame] at hother
      cases hother
    | moved _ hinsert =>
      have hfree := (Table.insert_eq_some hinsert).1
      rw [hexisting] at hfree
      cases hfree

/-! ## Runs -/

/-- A bound use stays bound through any later steps. -/
theorem bound_after (h : Bound (stateAfter host steps) r) (later : List Step) :
    Bound (stateAfter host (steps ++ later)) r := by
  induction later using List.reverseRecOn with
  | nil => simpa using h
  | append_singleton later step ih =>
    rw [← List.append_assoc, stateAfter_concat]
    exact ih.exec step

/-- The row of an identifier stays the same through any later steps. -/
theorem binding_after {key : Text} {row : Idempotency}
    (h : (stateAfter host steps).idempotency.find key = some row) (later : List Step) :
    (stateAfter host (steps ++ later)).idempotency.find key = some row := by
  induction later using List.reverseRecOn with
  | nil => simpa using h
  | append_singleton later step ih =>
    rw [← List.append_assoc, stateAfter_concat]
    exact exec_idempotency ih step

/-- **Idempotency and atomicity.** A use that returned normally can be repeated at any
later time and in any later state: the tables stay as they are, and unless a statement
fails it returns the current record. A bound identifier is bound to one use for ever, and
presenting it with another one throws. An `approve` or `cancel` that throws, whether by a
check or by a failing statement, leaves the tables as they were. -/
theorem dual_approval_idempotent_and_atomic (host : Host) (steps : List Step) :
    (∀ (r : Reservation) (step again : Step) (later : List Step),
      step.call.reservation host = some r → step.Returns host (stateAfter host steps) →
      again.call.reservation host = some r →
      (again.exec host (stateAfter host (steps ++ step :: later))).2 =
          stateAfter host (steps ++ step :: later) ∧
        (again.fault = none → (toISOString again.now).isSome = true →
          ∃ row, (stateAfter host (steps ++ step :: later)).requests.find r.requestId = some row ∧
            (again.exec host (stateAfter host (steps ++ step :: later))).1 = .ok (.request row))) ∧
    (∀ a ∈ (stateAfter host steps).idempotency.rows,
      ∀ b ∈ (stateAfter host steps).idempotency.rows,
        a.approvalRequestId = b.approvalRequestId → a = b) ∧
    (∀ key row later, (stateAfter host steps).idempotency.find key = some row →
      (stateAfter host (steps ++ later)).idempotency.find key = some row) ∧
    (∀ (r : Reservation) (step : Step) (existing : Idempotency),
      step.call.reservation host = some r →
      (stateAfter host steps).idempotency.find r.approvalRequestId = some existing →
      r.sameAs existing = false →
      ∃ e, (step.exec host (stateAfter host steps)).1 = .error e) ∧
    (∀ (step : Step) (e : ApprovalError), step.call.isTransition = true →
      (step.exec host (stateAfter host steps)).1 = .error e →
      (step.exec host (stateAfter host steps)).2 = stateAfter host steps) := by
  refine ⟨?_, ?_, ?_, ?_, ?_⟩
  · intro r step again later hr hreturns hagain
    have hbound := bound_of_returns hr hreturns
    rw [← stateAfter_concat] at hbound
    have hlater := bound_after hbound later
    rw [List.append_assoc, List.singleton_append] at hlater
    refine ⟨exec_bound_unchanged hlater hagain, fun hfault htime => ?_⟩
    obtain ⟨row, hrow, hexec⟩ := exec_replay hlater hagain hfault htime
    exact ⟨row, hrow, by rw [hexec]⟩
  · intro a ha b hb hkey
    exact (stateAfter host steps).idempotency.eq_of_key_eq ha hb hkey
  · intro key row later h
    exact binding_after h later
  · intro r step existing hr hexisting hother
    exact exec_conflict hr hexisting hother
  · intro step e htransition herror
    exact exec_error htransition herror

end MemphisOS.DualApproval
