import MemphisOS.DualApproval.Repository

/-!
# What the repository's calls do

For every call, and whichever statement fails in it, the change it makes to one request
and its events, and to the reserved identifiers.
-/

namespace MemphisOS.DualApproval

open Ecma Sql

variable {db db' : Db} {row : Request} {event : Event} {id : Text} {host : Host} {env : Env}

/-- The events of a request in the order they were inserted. -/
def Db.eventsOf (db : Db) (id : Text) : List Event :=
  db.events.rows.filter fun event => event.requestId = id

/-! ## Statements -/

theorem insertRequest_yields {u : Unit} (h : (insertRequest row).Yields db u db') :
    row.expiresAtMs ≠ .nan ∧ ∃ requests, db.requests.insert row = some requests ∧
      db' = { db with requests } := by
  have heffect := h.statement
  split at heffect
  · next hchecked =>
    obtain ⟨requests, hinsert, heq⟩ := Option.map_eq_some_iff.mp heffect
    exact ⟨hchecked.1, requests, hinsert, (Prod.mk.inj heq).2.symm⟩
  · cases heffect

theorem updateRequests_yields {selected : Request → Bool} {set : Request → Request}
    {hset : ∀ r, (set r).requestId = r.requestId} {n : ℕ}
    (h : (updateRequests selected set hset).Yields db n db') :
    n = db.requests.changes selected ∧
      db' = { db with requests := db.requests.update selected set hset } := by
  have heffect := h.statement
  dsimp only at heffect
  split at heffect
  · obtain ⟨rfl, rfl⟩ := Prod.mk.inj (Option.some.inj heffect)
    exact ⟨rfl, rfl⟩
  · cases heffect

theorem insertEvent_yields {u : Unit} (h : (insertEvent event).Yields db u db') :
    ∃ events, db.events.insert event = some events ∧ db' = { db with events } := by
  have heffect := h.statement
  split at heffect
  · obtain ⟨events, hinsert, heq⟩ := Option.map_eq_some_iff.mp heffect
    exact ⟨events, hinsert, (Prod.mk.inj heq).2.symm⟩
  · cases heffect

theorem getOrThrow_yields (h : (getOrThrow id).Yields db row db') :
    db.requests.find id = some row ∧ db' = db := by
  obtain ⟨found, mid, hget, h⟩ := h.bind
  obtain ⟨rfl, rfl⟩ := hget.query
  cases hfind : mid.requests.find id with
  | none =>
    rw [hfind] at h
    exact h.throw.elim
  | some r =>
    rw [hfind] at h
    obtain ⟨rfl, rfl⟩ := h.pure
    exact ⟨rfl, rfl⟩

/-- Reading a request leaves the database alone, also when it throws. -/
theorem getOrThrow_db {s t : Session Db} {result : Except ApprovalError Request}
    (h : (getOrThrow id).run s = (result, t)) : t.db = s.db := by
  cases result with
  | ok row => exact (getOrThrow_yields (Program.Yields.of_run h)).2
  | error e =>
    rcases Program.run_bind_eq_error.mp h with hget | ⟨found, mid, hget, hrest⟩
    · exact Program.run_query_error hget
    · obtain ⟨-, hmid⟩ := (Program.Yields.of_run hget).query
      cases found with
      | none =>
        obtain ⟨-, rfl⟩ := Prod.mk.inj hrest
        exact hmid
      | some row => cases (Prod.mk.inj hrest).1

/-- A use of an identifier is a replay exactly when the identifier is bound to it. -/
theorem isIdempotentReplay_yields {r : Reservation} {replay : Bool}
    (h : (isIdempotentReplay r).Yields db replay db') : db' = db ∧
      (replay = true → ∃ existing, db.idempotency.find r.approvalRequestId = some existing ∧
        r.sameAs existing = true) ∧
      (replay = false → db.idempotency.find r.approvalRequestId = none) := by
  obtain ⟨found, mid, hselect, h⟩ := h.bind
  obtain ⟨rfl, rfl⟩ := hselect.query
  cases hfind : mid.idempotency.find r.approvalRequestId with
  | none =>
    rw [hfind] at h
    obtain ⟨rfl, rfl⟩ := h.pure
    simp
  | some existing =>
    rw [hfind] at h
    by_cases hsame : r.sameAs existing = true
    · simp only [hsame, if_true] at h
      obtain ⟨rfl, rfl⟩ := h.pure
      simp [hsame]
    · simp only [hsame, Bool.false_eq_true, if_false] at h
      exact h.throw.elim

/-- A free identifier gets bound. -/
theorem reserveIdempotency_yields {r : Reservation} {createdAt : Text} {reserved : Bool}
    (hfree : db.idempotency.find r.approvalRequestId = none)
    (h : (reserveIdempotency r createdAt).Yields db reserved db') :
    reserved = true ∧ ∃ idempotency, db.idempotency.insert
      ⟨r.approvalRequestId, r.requestId, r.action, r.actorId, createdAt⟩ = some idempotency ∧
      db' = { db with idempotency } := by
  obtain ⟨inserted, mid, hinsert, h⟩ := h.bind
  have heffect := hinsert.statement
  cases htable : db.idempotency.insert
      ⟨r.approvalRequestId, r.requestId, r.action, r.actorId, createdAt⟩ with
  | none =>
    obtain ⟨existing, hexisting⟩ := Table.insert_eq_none.mp htable
    rw [hfree] at hexisting
    cases hexisting
  | some idempotency =>
    rw [htable] at heffect
    obtain ⟨rfl, rfl⟩ := Prod.mk.inj (Option.some.inj heffect)
    simp only [if_true] at h
    obtain ⟨rfl, rfl⟩ := h.pure
    exact ⟨rfl, idempotency, rfl, rfl⟩

/-! ## One move -/

/-- One pending request is replaced and one event is recorded. -/
structure Moved (db db' : Db) (id : Text) (row row' : Request) (event : Event) : Prop where
  found : db.requests.find id = some row
  pending : row.state = .pending
  requests : ∀ k, db'.requests.find k = if k = id then some row' else db.requests.find k
  events : db'.events.rows = db.events.rows ++ [event]
  event_id : event.requestId = id

/-- The events of a request after one more event. -/
theorem eventsOf_append (db db' : Db) (h : db'.events.rows = db.events.rows ++ [event])
    (k : Text) :
    db'.eventsOf k = if event.requestId = k then db.eventsOf k ++ [event] else db.eventsOf k := by
  by_cases hk : event.requestId = k <;> simp [Db.eventsOf, h, List.filter_append, hk]

/-- An update that selects pending rows of one id and changes one of them moves it. -/
theorem moved_of_update {selected : Request → Bool} (set : Request → Request)
    (hset : ∀ r, (set r).requestId = r.requestId) {events : Table Event.eventId}
    (hselected : ∀ r, selected r = true → r.requestId = id ∧ r.state = .pending)
    (hchanged : db.requests.changes selected = 1) (hevents : db.events.insert event = some events)
    (hevent : event.requestId = id) :
    ∃ row, selected row = true ∧
      Moved db { db with requests := db.requests.update selected set hset, events } id row
        (set row) event := by
  rw [Table.changes_of_key fun r hr => (hselected r hr).1] at hchanged
  split at hchanged
  · next h =>
    obtain ⟨row, hfind, hrow⟩ := h
    refine ⟨row, hrow, hfind, (hselected row hrow).2, fun k => ?_,
      (Table.insert_eq_some hevents).2, hevent⟩
    rw [Table.find_update]
    split
    · next hk => rw [hk, hfind, Option.map_some, if_pos hrow]
    · next hk =>
      cases hother : db.requests.find k with
      | none => rfl
      | some r =>
        have hne : selected r ≠ true := by
          intro hr
          exact hk ((Table.key_of_find hother).symm.trans (hselected r hr).1)
        rw [Option.map_some, if_neg hne]
  · cases hchanged

/-- What reserving and moving does when the identifier is free. -/
theorem reserveAndMove_yields {r : Reservation} {nowIso : Text} {version : JsNumber}
    {set : Request → Request} {hset : ∀ r, (set r).requestId = r.requestId} {row' : Request}
    (hfree : db.idempotency.find r.approvalRequestId = none) (hevent : event.requestId = r.requestId)
    (h : (reserveAndMove r nowIso version set hset event).Yields db row' db') :
    ∃ row, Moved db db' r.requestId row (set row) event ∧ row' = set row ∧
      db.idempotency.insert ⟨r.approvalRequestId, r.requestId, r.action, r.actorId, nowIso⟩ =
        some db'.idempotency := by
  obtain ⟨reserved, mid, hreserve, h⟩ := h.bind
  obtain ⟨rfl, idempotency, hinsert, rfl⟩ := reserveIdempotency_yields hfree hreserve
  simp only [if_true] at h
  obtain ⟨changed, mid, hupdate, h⟩ := h.bind
  obtain ⟨rfl, rfl⟩ := updateRequests_yields hupdate
  split at h
  · exact h.throw.elim
  · next hchanged =>
    obtain ⟨u, mid, hinsertEvent, h⟩ := h.bind
    obtain ⟨events, hevents, rfl⟩ := insertEvent_yields hinsertEvent
    obtain ⟨hfind, rfl⟩ := getOrThrow_yields h
    have hselected : ∀ row : Request, (row.requestId = r.requestId && row.state = .pending &&
        row.hasVersion version) = true → row.requestId = r.requestId ∧ row.state = .pending := by
      intro row hrow
      simp only [Bool.and_eq_true, decide_eq_true_eq] at hrow
      exact hrow.1
    obtain ⟨row, hrow, hmoved⟩ :=
      moved_of_update set hset hselected (not_not.mp hchanged) hevents hevent
    refine ⟨row, ?_, ?_, hinsert⟩
    · exact ⟨hmoved.found, hmoved.pending, hmoved.requests, hmoved.events, hmoved.event_id⟩
    · have hrequests := hmoved.requests r.requestId
      rw [if_pos rfl] at hrequests
      exact Option.some.inj (hfind.symm.trans hrequests)

end MemphisOS.DualApproval
