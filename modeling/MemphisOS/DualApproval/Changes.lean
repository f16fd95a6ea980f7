import MemphisOS.DualApproval.Effects

/-!
# The change a step makes

Each step leaves a request and its events alone, creates the request, or moves it out of
the pending state; identifiers once reserved stay reserved. The invariants of the
repository are read off these cases.
-/

namespace MemphisOS.DualApproval

open Ecma Sql

/-- The clock value a transition uses. -/
def TransitionInput.now (input : TransitionInput) (env : Env) : JsNumber :=
  input.nowMs.getD env.dateNow

/-- The ways a step moves a pending row, with the event it records. -/
inductive Moves (host : Host) (db : Db) (step : Step) (row : Request) : Request → Event → Prop
  | approved {input : TransitionInput} {nowIso approver : Text} :
      step.call = .approve input →
      row.requestId = input.requestId →
      db.idempotency.find input.approvalRequestId = none →
      toISOString (input.now step.env) = some nowIso →
      normalizeIdentity host input.actorId = some approver →
      row.expiresAtMs.lt (input.now step.env) = false →
      row.initiatorId ≠ approver →
      row.hasVersion input.expectedStateVersion = true →
      Moves host db step row (row.approve approver input.signature nowIso)
        ⟨step.env.randomUUID 0, row.requestId, some .pending, .approved, approver,
          input.signature, nowIso⟩
  | expiredLate {input : TransitionInput} {nowIso approver : Text} :
      step.call = .approve input →
      row.requestId = input.requestId →
      db.idempotency.find input.approvalRequestId = none →
      toISOString (input.now step.env) = some nowIso →
      normalizeIdentity host input.actorId = some approver →
      row.expiresAtMs.lt (input.now step.env) = true →
      Moves host db step row (row.expire nowIso)
        ⟨step.env.randomUUID 0, row.requestId, some .pending, .expired, approver,
          input.signature, nowIso⟩
  | canceled {input : TransitionInput} {nowIso actor : Text} :
      step.call = .cancel input →
      row.requestId = input.requestId →
      db.idempotency.find input.approvalRequestId = none →
      toISOString (input.now step.env) = some nowIso →
      normalizeIdentity host input.actorId = some actor →
      row.hasVersion input.expectedStateVersion = true →
      Moves host db step row (row.cancel input.signature nowIso)
        ⟨step.env.randomUUID 0, row.requestId, some .pending, .canceled, actor,
          input.signature, nowIso⟩
  | expired {nowMs : Option JsNumber} {nowIso : Text} {n : ℕ} :
      step.call = .expirePending nowMs →
      toISOString (nowMs.getD step.env.dateNow) = some nowIso →
      row.expiresAtMs.lt (nowMs.getD step.env.dateNow) = true →
      Moves host db step row (row.expire nowIso)
        ⟨step.env.randomUUID n, row.requestId, some .pending, .expired, "system".toList, none,
          nowIso⟩

/-- The request and the events a step may leave under an id. -/
inductive Change (host : Host) (db : Db) (step : Step) (id : Text) :
    Option Request → List Event → Prop
  | same : Change host db step id (db.requests.find id) (db.eventsOf id)
  | created {input : CreateRequestInput} {nowIso initiator : Text} :
      step.call = .createRequest input →
      step.env.randomUUID 0 = id →
      db.requests.find id = none →
      toISOString (input.nowMs.getD step.env.dateNow) = some nowIso →
      normalizeIdentity host input.initiatorId = some initiator →
      (newRequest input id initiator nowIso
        (expiry (input.nowMs.getD step.env.dateNow) input.ttlMs)).expiresAtMs ≠ .nan →
      Change host db step id
        (some (newRequest input id initiator nowIso
          (expiry (input.nowMs.getD step.env.dateNow) input.ttlMs)))
        (db.eventsOf id ++ [⟨step.env.randomUUID 1, id, none, .pending, initiator,
          input.signature, nowIso⟩])
  | createdWithoutEvent {input : CreateRequestInput} {nowIso initiator : Text} :
      step.call = .createRequest input →
      step.env.randomUUID 0 = id →
      db.requests.find id = none →
      toISOString (input.nowMs.getD step.env.dateNow) = some nowIso →
      normalizeIdentity host input.initiatorId = some initiator →
      (newRequest input id initiator nowIso
        (expiry (input.nowMs.getD step.env.dateNow) input.ttlMs)).expiresAtMs ≠ .nan →
      step.fault ≠ some 0 →
      -- the second insert was chosen to fail, or its key is taken
      step.fault = some 1 ∨ (db.events.find (step.env.randomUUID 1)).isSome →
      Change host db step id
        (some (newRequest input id initiator nowIso
          (expiry (input.nowMs.getD step.env.dateNow) input.ttlMs)))
        (db.eventsOf id)
  | moved {row row' : Request} {event : Event} :
      db.requests.find id = some row →
      row.state = .pending →
      Moves host db step row row' event →
      Change host db step id (some row') (db.eventsOf id ++ [event])

variable {db db' : Db} {row row' : Request} {event : Event} {id : Text} {host : Host}
  {step : Step} {env : Env}

/-! ## Creating -/

theorem isoOrThrow_eq_ok {nowMs : JsNumber} {nowIso : Text} (h : isoOrThrow nowMs = .ok nowIso) :
    toISOString nowMs = some nowIso := by
  unfold isoOrThrow at h
  cases hiso : toISOString nowMs with
  | none => simp [hiso] at h
  | some iso => simpa [hiso] using h

theorem normalizeOrThrow_eq_ok {input normalized : Text}
    (h : normalizeOrThrow host input = .ok normalized) :
    normalizeIdentity host input = some normalized := by
  unfold normalizeOrThrow at h
  cases hnorm : normalizeIdentity host input with
  | none => simp [hnorm] at h
  | some n => simpa [hnorm] using h

/-- Whatever statement fails, creating a request inserts nothing, the request alone, or
the request and its event. -/
theorem createRequest_db {input : CreateRequestInput} {result : Except ApprovalError Request}
    {fault : Option ℕ} {s : Session Db}
    (h : (createRequest host env input).run ⟨db, fault⟩ = (result, s)) :
    s.db = db ∨ ∃ nowIso initiator requests,
      toISOString (input.nowMs.getD env.dateNow) = some nowIso ∧
      normalizeIdentity host input.initiatorId = some initiator ∧
      (newRequest input (env.randomUUID 0) initiator nowIso
        (expiry (input.nowMs.getD env.dateNow) input.ttlMs)).expiresAtMs ≠ .nan ∧
      db.requests.insert (newRequest input (env.randomUUID 0) initiator nowIso
        (expiry (input.nowMs.getD env.dateNow) input.ttlMs)) = some requests ∧
      ((s.db = { db with requests } ∧ fault ≠ some 0 ∧
          (fault = some 1 ∨ (db.events.find (env.randomUUID 1)).isSome)) ∨
        ∃ events, db.events.insert ⟨env.randomUUID 1, env.randomUUID 0, none, .pending, initiator,
          input.signature, nowIso⟩ = some events ∧ s.db = { db with requests, events }) := by
  unfold createRequest at h
  dsimp only at h
  cases hiso : isoOrThrow (input.nowMs.getD env.dateNow) with
  | error e =>
    rw [hiso, Program.run_bind_of_error (Program.run_ofExcept_error _ _)] at h
    exact .inl ((Prod.mk.inj h).2 ▸ rfl)
  | ok nowIso =>
    rw [hiso, Program.run_bind_of_ok (Program.run_ofExcept_ok _ _)] at h
    cases hnorm : normalizeOrThrow host input.initiatorId with
    | error e =>
      rw [hnorm, Program.run_bind_of_error (Program.run_ofExcept_error _ _)] at h
      exact .inl ((Prod.mk.inj h).2 ▸ rfl)
    | ok initiator =>
      rw [hnorm, Program.run_bind_of_ok (Program.run_ofExcept_ok _ _)] at h
      rcases hinsert : (insertRequest (newRequest input (env.randomUUID 0) initiator nowIso
        (expiry (input.nowMs.getD env.dateNow) input.ttlMs))).run ⟨db, fault⟩ with ⟨inserted, s₁⟩
      cases inserted with
      | error e =>
        rw [Program.run_bind_of_error hinsert] at h
        obtain ⟨-, rfl⟩ := Prod.mk.inj h
        exact .inl (Program.run_statement_error hinsert).1
      | ok u =>
        rw [Program.run_bind_of_ok hinsert] at h
        obtain ⟨hchecked, requests, htable, hdb⟩ :=
          insertRequest_yields (Program.Yields.of_run hinsert)
        have hfault := (Program.run_statement_ok hinsert).2
        refine .inr ⟨nowIso, initiator, requests, isoOrThrow_eq_ok hiso,
          normalizeOrThrow_eq_ok hnorm, hchecked, htable, ?_⟩
        rcases hinsertEvent : (insertEvent ⟨env.randomUUID 1, env.randomUUID 0, none, .pending,
          initiator, input.signature, nowIso⟩).run s₁ with ⟨recorded, s₂⟩
        cases recorded with
        | error e =>
          rw [Program.run_bind_of_error hinsertEvent] at h
          obtain ⟨-, rfl⟩ := Prod.mk.inj h
          obtain ⟨hsame, hwhy⟩ := Program.run_statement_error hinsertEvent
          refine .inl ⟨hsame.trans hdb, hfault.1, ?_⟩
          rcases hwhy with hzero | heffect
          · left
            rw [hfault.2] at hzero
            obtain ⟨n, hn, hn0⟩ := Option.map_eq_some_iff.mp hzero
            have hne : n ≠ 0 := by
              rintro rfl
              exact hfault.1 hn
            rw [show fault = some n from hn, show n = 1 by omega]
          · right
            rw [hdb] at heffect
            have hrequest : (requests.find (env.randomUUID 0)).isSome = true := by
              rw [Table.find_insert htable, newRequest, if_pos rfl]
              rfl
            rw [if_pos hrequest, Option.map_eq_none_iff, Table.insert_eq_none] at heffect
            obtain ⟨taken, htaken⟩ := heffect
            simp [show db.events.find (env.randomUUID 1) = some taken from htaken]
        | ok u =>
          rw [Program.run_bind_of_ok hinsertEvent] at h
          obtain ⟨events, htable', hdb'⟩ :=
            insertEvent_yields (Program.Yields.of_run hinsertEvent)
          rw [hdb] at htable' hdb'
          exact .inr ⟨events, htable', (getOrThrow_db h).trans hdb'⟩

/-- The change creating a request makes. -/
theorem createRequest_change {input : CreateRequestInput} (hcall : step.call = .createRequest input)
    {result : Except ApprovalError Request} {s : Session Db}
    (h : (createRequest host step.env input).run ⟨db, step.fault⟩ = (result, s)) (id : Text) :
    Change host db step id (s.db.requests.find id) (s.db.eventsOf id) := by
  rcases createRequest_db h with hdb | ⟨nowIso, initiator, requests, hiso, hnorm, hnan, htable, hdb⟩
  · rw [hdb]
    exact .same
  · have hfind := Table.find_insert htable
    have hnone := (Table.insert_eq_some htable).1
    by_cases hid : step.env.randomUUID 0 = id
    · subst hid
      have hrow := hfind (step.env.randomUUID 0)
      rw [newRequest, if_pos rfl] at hrow
      rcases hdb with ⟨hdb, hfirst, hwhy⟩ | ⟨events, hevents, hdb⟩
      · rw [hdb, show requests.find (step.env.randomUUID 0) = _ from hrow]
        exact .createdWithoutEvent hcall rfl hnone hiso hnorm hnan hfirst hwhy
      · have heventsOf := eventsOf_append db s.db
          (by rw [hdb]; exact (Table.insert_eq_some hevents).2) (step.env.randomUUID 0)
        rw [if_pos rfl] at heventsOf
        rw [heventsOf, hdb, show requests.find (step.env.randomUUID 0) = _ from hrow]
        exact .created hcall rfl hnone hiso hnorm hnan
    · have hrow := hfind id
      rw [newRequest, if_neg hid] at hrow
      rcases hdb with ⟨hdb, -⟩ | ⟨events, hevents, hdb⟩
      · rw [hdb, show requests.find id = _ from hrow]
        exact .same
      · have heventsOf := eventsOf_append db s.db
          (by rw [hdb]; exact (Table.insert_eq_some hevents).2) id
        rw [if_neg hid] at heventsOf
        rw [heventsOf, hdb, show requests.find id = _ from hrow]
        exact .same

/-- Creating a request does not touch the reserved identifiers. -/
theorem createRequest_idempotency {input : CreateRequestInput}
    {result : Except ApprovalError Request} {fault : Option ℕ} {s : Session Db}
    (h : (createRequest host env input).run ⟨db, fault⟩ = (result, s)) :
    s.db.idempotency = db.idempotency := by
  rcases createRequest_db h with hdb | ⟨_, _, _, -, -, -, -, ⟨hdb, -⟩ | ⟨_, -, hdb⟩⟩ <;> rw [hdb]

/-! ## Approving and cancelling -/

/-- What a normal return of `approve` or `cancel` means: the identifier was bound to this
use already and nothing changed, or it was free and the request moved. -/
inductive Returned (host : Host) (db : Db) (step : Step) (action : TransitionAction)
    (input : TransitionInput) (result : Request) (db' : Db) : Prop
  | replay {actor : Text} {existing : Idempotency} :
      normalizeIdentity host input.actorId = some actor →
      db.idempotency.find input.approvalRequestId = some existing →
      Reservation.sameAs ⟨input.approvalRequestId, input.requestId, action, actor⟩ existing = true →
      db.requests.find input.requestId = some result →
      db' = db →
      Returned host db step action input result db'
  | moved {actor nowIso : Text} {row : Request} {event : Event} :
      normalizeIdentity host input.actorId = some actor →
      db.idempotency.insert ⟨input.approvalRequestId, input.requestId, action, actor, nowIso⟩ =
        some db'.idempotency →
      Moved db db' input.requestId row result event →
      Moves host db step row result event →
      Returned host db step action input result db'

theorem approve_returned {input : TransitionInput} {result : Request}
    (hcall : step.call = .approve input)
    (h : (approve host step.env input).Yields db result db') :
    Returned host db step .approve input result db' := by
  obtain ⟨nowIso, hiso, h⟩ := h.bind_ofExcept
  obtain ⟨approver, hnorm, h⟩ := h.bind_ofExcept
  have hnow := isoOrThrow_eq_ok hiso
  have hactor := normalizeOrThrow_eq_ok hnorm
  obtain ⟨replay, mid, hreplay, h⟩ := h.transaction.bind
  obtain ⟨hmid, hbound, hfree⟩ := isIdempotentReplay_yields hreplay
  rw [hmid] at h
  cases replay with
  | true =>
    obtain ⟨existing, hexisting, hsame⟩ := hbound rfl
    obtain ⟨hfind, hdb⟩ := getOrThrow_yields h
    exact .replay hactor hexisting hsame hfind hdb
  | false =>
    simp only [Bool.false_eq_true, if_false] at h
    obtain ⟨current, mid', hcurrent, h⟩ := h.bind
    obtain ⟨hfind, hmid'⟩ := getOrThrow_yields hcurrent
    rw [hmid'] at h
    split at h
    · exact h.throw.elim
    · split at h
      · next hexpired =>
        obtain ⟨row, hmoved, rfl, hidempotency⟩ := reserveAndMove_yields (hfree rfl) rfl h
        obtain rfl : current = row := Option.some.inj (hfind.symm.trans hmoved.found)
        have hmoves := Moves.expiredLate hcall (Table.key_of_find hfind) (hfree rfl) hnow hactor
          hexpired
        rw [Table.key_of_find hfind] at hmoves
        exact .moved hactor hidempotency hmoved hmoves
      · next hexpired =>
        split at h
        · exact h.throw.elim
        · next hdistinct =>
          split at h
          · exact h.throw.elim
          · next hversion =>
            obtain ⟨row, hmoved, rfl, hidempotency⟩ := reserveAndMove_yields (hfree rfl) rfl h
            obtain rfl : current = row := Option.some.inj (hfind.symm.trans hmoved.found)
            have hmoves := Moves.approved hcall (Table.key_of_find hfind) (hfree rfl) hnow hactor
              (Bool.not_eq_true _ ▸ hexpired) hdistinct (not_not.mp hversion)
            rw [Table.key_of_find hfind] at hmoves
            exact .moved hactor hidempotency hmoved hmoves

theorem cancel_returned {input : TransitionInput} {result : Request}
    (hcall : step.call = .cancel input)
    (h : (cancel host step.env input).Yields db result db') :
    Returned host db step .cancel input result db' := by
  obtain ⟨nowIso, hiso, h⟩ := h.bind_ofExcept
  obtain ⟨actor, hnorm, h⟩ := h.bind_ofExcept
  have hnow := isoOrThrow_eq_ok hiso
  have hactor := normalizeOrThrow_eq_ok hnorm
  obtain ⟨replay, mid, hreplay, h⟩ := h.transaction.bind
  obtain ⟨hmid, hbound, hfree⟩ := isIdempotentReplay_yields hreplay
  rw [hmid] at h
  cases replay with
  | true =>
    obtain ⟨existing, hexisting, hsame⟩ := hbound rfl
    obtain ⟨hfind, hdb⟩ := getOrThrow_yields h
    exact .replay hactor hexisting hsame hfind hdb
  | false =>
    simp only [Bool.false_eq_true, if_false] at h
    obtain ⟨current, mid', hcurrent, h⟩ := h.bind
    obtain ⟨hfind, hmid'⟩ := getOrThrow_yields hcurrent
    rw [hmid'] at h
    split at h
    · exact h.throw.elim
    · split at h
      · exact h.throw.elim
      · next hversion =>
        obtain ⟨row, hmoved, rfl, hidempotency⟩ := reserveAndMove_yields (hfree rfl) rfl h
        obtain rfl : current = row := Option.some.inj (hfind.symm.trans hmoved.found)
        have hmoves := Moves.canceled hcall (Table.key_of_find hfind) (hfree rfl) hnow hactor
          (not_not.mp hversion)
        rw [Table.key_of_find hfind] at hmoves
        exact .moved hactor hidempotency hmoved hmoves

/-- The change behind a normal return. -/
theorem Returned.change {action : TransitionAction} {input : TransitionInput} {result : Request}
    (h : Returned host db step action input result db') (id : Text) :
    Change host db step id (db'.requests.find id) (db'.eventsOf id) := by
  cases h with
  | replay _ _ _ _ hdb =>
    subst hdb
    exact .same
  | moved _ _ hmoved hmoves =>
    rw [hmoved.requests, eventsOf_append _ _ hmoved.events, hmoved.event_id]
    by_cases hid : id = input.requestId
    · subst hid
      rw [if_pos rfl, if_pos rfl]
      exact .moved hmoved.found hmoved.pending hmoves
    · rw [if_neg hid, if_neg (Ne.symm hid)]
      exact .same

/-! ## Expiring -/

/-- The loop of `expirePending` moves each listed request at most once. -/
theorem expireRows_change {nowIso : Text} {randomUUID : ℕ → Text} {ids : List Text}
    {updated total : ℕ} (h : (expireRows nowIso randomUUID ids updated).Yields db total db')
    (id : Text) : (db'.requests.find id = db.requests.find id ∧ db'.eventsOf id = db.eventsOf id) ∨
      ∃ row n, id ∈ ids ∧ db.requests.find id = some row ∧ row.state = .pending ∧
        db'.requests.find id = some (row.expire nowIso) ∧
        db'.eventsOf id = db.eventsOf id ++ [⟨randomUUID n, id, some .pending, .expired,
          "system".toList, none, nowIso⟩] := by
  induction ids generalizing updated db with
  | nil =>
    obtain ⟨-, rfl⟩ := h.pure
    exact .inl ⟨rfl, rfl⟩
  | cons requestId rest ih =>
    have hselected : ∀ row : Request, (row.requestId = requestId && row.state = .pending) = true →
        row.requestId = requestId ∧ row.state = .pending := by
      intro row hrow
      simpa using hrow
    obtain ⟨changed, mid, hupdate, h⟩ := h.bind
    obtain ⟨rfl, rfl⟩ := updateRequests_yields hupdate
    split at h
    · next hnone =>
      have hunchanged := Table.find_update_of_changes_ne_one (fun r hr => (hselected r hr).1) hnone
        (Request.expire nowIso) (fun _ => rfl)
      rcases ih h with ⟨hrequests, hevents⟩ | ⟨row, n, hid, hfind, hrest⟩
      · exact .inl ⟨hrequests.trans (hunchanged id), hevents⟩
      · exact .inr ⟨row, n, by simp [hid], (hunchanged id).symm.trans hfind, hrest⟩
    · next hchanged =>
      obtain ⟨u, mid, hinsertEvent, h⟩ := h.bind
      obtain ⟨events, hevents, rfl⟩ := insertEvent_yields hinsertEvent
      obtain ⟨row, -, hmoved⟩ := moved_of_update (Request.expire nowIso) (fun _ => rfl) hselected
        (not_not.mp hchanged) hevents rfl
      by_cases hid : id = requestId
      · subst hid
        have hfound := hmoved.requests id
        rw [if_pos rfl] at hfound
        rcases ih h with ⟨hrequests, heventsOf⟩ | ⟨row', n, -, hfind, hpending, -⟩
        · refine .inr ⟨row, updated, by simp, hmoved.found, hmoved.pending,
            hrequests.trans hfound, ?_⟩
          rw [heventsOf, eventsOf_append _ _ hmoved.events, if_pos rfl]
        · -- The row has left the pending state and cannot be moved again.
          obtain rfl := Option.some.inj (hfound.symm.trans hfind)
          cases hpending
      · have hfound := hmoved.requests id
        have heventsOf := eventsOf_append _ _ hmoved.events id
        rw [if_neg hid] at hfound
        rw [if_neg (Ne.symm hid)] at heventsOf
        rcases ih h with ⟨hrequests, heventsOf'⟩ | ⟨row', n, hmem, hfind, hpending, hrest, hevent⟩
        · exact .inl ⟨hrequests.trans hfound, heventsOf'.trans heventsOf⟩
        · exact .inr ⟨row', n, by simp [hmem], hfound.symm.trans hfind, hpending, hrest,
            hevent.trans (by rw [heventsOf])⟩

/-- The loop of `expirePending` does not touch the reserved identifiers. -/
theorem expireRows_idempotency {nowIso : Text} {randomUUID : ℕ → Text} {ids : List Text}
    {updated total : ℕ} (h : (expireRows nowIso randomUUID ids updated).Yields db total db') :
    db'.idempotency = db.idempotency := by
  induction ids generalizing updated db with
  | nil =>
    obtain ⟨-, rfl⟩ := h.pure
    rfl
  | cons requestId rest ih =>
    obtain ⟨changed, mid, hupdate, h⟩ := h.bind
    obtain ⟨rfl, rfl⟩ := updateRequests_yields hupdate
    split at h
    · have hrest := ih h
      exact hrest
    · obtain ⟨u, mid, hinsertEvent, h⟩ := h.bind
      obtain ⟨events, hevents, rfl⟩ := insertEvent_yields hinsertEvent
      have hrest := ih h
      exact hrest

/-- What a normal return of `expirePending` did. -/
theorem expirePending_yields (host : Host) {nowMs : Option JsNumber} {total : ℕ}
    (hcall : step.call = .expirePending nowMs)
    (h : (expirePending step.env nowMs).Yields db total db') :
    db'.idempotency = db.idempotency ∧
      ∀ id, Change host db step id (db'.requests.find id) (db'.eventsOf id) := by
  obtain ⟨nowIso, hiso, h⟩ := h.bind_ofExcept
  obtain ⟨rows, mid, hselect, h⟩ := h.bind
  obtain ⟨hrows, hmid⟩ := hselect.query
  rw [hmid] at h
  have hloop := h.transaction
  refine ⟨expireRows_idempotency hloop, fun id => ?_⟩
  rcases expireRows_change hloop id with ⟨hrequests, hevents⟩ |
    ⟨row, n, hmem, hfind, hpending, hrequests, hevents⟩
  · rw [hrequests, hevents]
    exact .same
  · rw [hrequests, hevents]
    obtain ⟨selected, hselected, hid⟩ := List.mem_map.mp hmem
    rw [hrows, List.mem_filter, Bool.and_eq_true] at hselected
    have hsame : db.requests.find id = some selected := Table.find_eq_some.mpr ⟨hselected.1, hid⟩
    obtain rfl := Option.some.inj (hfind.symm.trans hsame)
    have hmoves : Moves host db step row (row.expire nowIso) _ :=
      .expired (n := n) hcall (isoOrThrow_eq_ok hiso) hselected.2.2
    rw [Table.key_of_find hfind] at hmoves
    exact .moved hfind hpending hmoves

/-! ## All calls -/

theorem approve_error {input : TransitionInput} {e : ApprovalError} {s t : Session Db}
    (h : (approve host env input).run s = (.error e, t)) : t.db = s.db := by
  rcases Program.run_bind_ofExcept_error h with hdb | ⟨nowIso, -, h⟩
  · exact hdb
  · rcases Program.run_bind_ofExcept_error h with hdb | ⟨approver, -, h⟩
    · exact hdb
    · exact Program.run_transaction_error h

theorem cancel_error {input : TransitionInput} {e : ApprovalError} {s t : Session Db}
    (h : (cancel host env input).run s = (.error e, t)) : t.db = s.db := by
  rcases Program.run_bind_ofExcept_error h with hdb | ⟨nowIso, -, h⟩
  · exact hdb
  · rcases Program.run_bind_ofExcept_error h with hdb | ⟨actor, -, h⟩
    · exact hdb
    · exact Program.run_transaction_error h

theorem expirePending_error {nowMs : Option JsNumber} {e : ApprovalError} {s t : Session Db}
    (h : (expirePending env nowMs).run s = (.error e, t)) : t.db = s.db := by
  rcases Program.run_bind_ofExcept_error h with hdb | ⟨nowIso, -, h⟩
  · exact hdb
  · rcases Program.run_bind_eq_error.mp h with hselect | ⟨rows, mid, hselect, hloop⟩
    · exact Program.run_query_error hselect
    · obtain ⟨-, hmid⟩ := (Program.Yields.of_run hselect).query
      exact (Program.run_transaction_error hloop).trans hmid

/-- The result of a step is the result of its operation. -/
theorem exec_eq (host : Host) (step : Step) {α : Type} {program : Repo α} {reply : α → Reply}
    (h : step.call.program host step.env = (do return reply (← program))) (db : Db) :
    ∃ result s, program.run ⟨db, step.fault⟩ = (result, s) ∧
      step.exec host db = (result.map reply, s.db) := by
  rcases hrun : program.run ⟨db, step.fault⟩ with ⟨result, s⟩
  refine ⟨result, s, rfl, ?_⟩
  unfold Step.exec
  rw [h]
  cases result with
  | ok a =>
    rw [Program.run_bind_of_ok hrun]
    rfl
  | error e =>
    rw [Program.run_bind_of_error hrun]
    rfl

/-- **One step.** Every request and its events change in one of the listed ways. -/
theorem exec_change (host : Host) (db : Db) (step : Step) (id : Text) :
    Change host db step id ((step.exec host db).2.requests.find id)
      ((step.exec host db).2.eventsOf id) := by
  cases hcall : step.call with
  | createRequest input =>
    obtain ⟨result, s, hrun, hexec⟩ := exec_eq host step (by rw [hcall]; rfl) db
    rw [hexec]
    exact createRequest_change hcall hrun id
  | approve input =>
    obtain ⟨result, s, hrun, hexec⟩ := exec_eq host step (by rw [hcall]; rfl) db
    rw [hexec]
    cases result with
    | error e =>
      rw [show s.db = db from approve_error hrun]
      exact .same
    | ok row => exact (approve_returned hcall (Program.Yields.of_run hrun)).change id
  | cancel input =>
    obtain ⟨result, s, hrun, hexec⟩ := exec_eq host step (by rw [hcall]; rfl) db
    rw [hexec]
    cases result with
    | error e =>
      rw [show s.db = db from cancel_error hrun]
      exact .same
    | ok row => exact (cancel_returned hcall (Program.Yields.of_run hrun)).change id
  | expirePending nowMs =>
    obtain ⟨result, s, hrun, hexec⟩ := exec_eq host step (by rw [hcall]; rfl) db
    rw [hexec]
    cases result with
    | error e =>
      rw [show s.db = db from expirePending_error hrun]
      exact .same
    | ok n => exact (expirePending_yields host hcall (Program.Yields.of_run hrun)).2 id

end MemphisOS.DualApproval
