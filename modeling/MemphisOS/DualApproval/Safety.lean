import MemphisOS.DualApproval.Changes

/-!
# Safety of dual approval

Over every sequence of calls, an approved request was approved once, in time and by
somebody else than its initiator, and a request that has left the pending state stays as
it is.
-/

namespace MemphisOS.DualApproval

open Ecma Sql

variable {host : Host} {db : Db} {step : Step} {id : Text} {row row' : Request} {event : Event}
  {steps : List Step}

/-! ## Moves and changes -/

/-- A move leaves the pending state and counts the version up. -/
theorem Moves.leaves (h : Moves host db step row row' event) :
    row'.state ≠ .pending ∧ row'.stateVersion = row.stateVersion + 1 := by
  cases h <;> exact ⟨by simp [Request.approve, Request.expire, Request.cancel], rfl⟩

/-- A move keeps who asked, when, and until when. -/
theorem Moves.keeps (h : Moves host db step row row' event) :
    row'.requestId = row.requestId ∧ row'.initiatorId = row.initiatorId ∧
      row'.expiresAtMs = row.expiresAtMs ∧ row'.createdAt = row.createdAt := by
  cases h <;> exact ⟨rfl, rfl, rfl, rfl⟩

/-- The event of a move records it. -/
theorem Moves.records (h : Moves host db step row row' event) :
    event.requestId = row.requestId ∧ event.fromState = some .pending ∧
      event.toState = row'.state ∧ event.createdAt = row'.updatedAt := by
  cases h <;> exact ⟨rfl, rfl, rfl, rfl⟩

/-- A stored request stays as it is or is moved out of the pending state. -/
theorem exec_of_found (hfind : db.requests.find id = some row) (step : Step) :
    ((step.exec host db).2.requests.find id = some row ∧
      (step.exec host db).2.eventsOf id = db.eventsOf id) ∨
    ∃ row' event, row.state = .pending ∧ Moves host db step row row' event ∧
      (step.exec host db).2.requests.find id = some row' ∧
      (step.exec host db).2.eventsOf id = db.eventsOf id ++ [event] := by
  have hchange := exec_change host db step id
  generalize (step.exec host db).2.requests.find id = found,
    (step.exec host db).2.eventsOf id = events at hchange ⊢
  cases hchange with
  | same => exact .inl ⟨hfind, rfl⟩
  | created _ _ hnone => rw [hfind] at hnone; cases hnone
  | createdWithoutEvent _ _ hnone => rw [hfind] at hnone; cases hnone
  | moved hfound hpending hmoves =>
    obtain rfl := Option.some.inj (hfind.symm.trans hfound)
    exact .inr ⟨_, _, hpending, hmoves, rfl, rfl⟩

/-- A step that creates a request with the given row. -/
def Step.Creates (host : Host) (step : Step) (row : Request) : Prop :=
  ∃ input nowIso initiator, step.call = .createRequest input ∧
    step.env.randomUUID 0 = row.requestId ∧
    toISOString (input.nowMs.getD step.env.dateNow) = some nowIso ∧
    normalizeIdentity host input.initiatorId = some initiator ∧
    row = newRequest input row.requestId initiator nowIso
      (expiry (input.nowMs.getD step.env.dateNow) input.ttlMs) ∧
    row.expiresAtMs ≠ .nan

/-- A request that appears was created by the step. -/
theorem exec_of_not_found (hfind : db.requests.find id = none)
    (hafter : (step.exec host db).2.requests.find id = some row) : step.Creates host row := by
  have hchange := exec_change host db step id
  generalize (step.exec host db).2.requests.find id = found,
    (step.exec host db).2.eventsOf id = events at hchange hafter
  cases hchange with
  | same => rw [hfind] at hafter; cases hafter
  | created hcall hid _ hiso hnorm hnan =>
    obtain rfl := Option.some.inj hafter
    exact ⟨_, _, _, hcall, hid, hiso, hnorm, rfl, hnan⟩
  | createdWithoutEvent hcall hid _ hiso hnorm hnan =>
    obtain rfl := Option.some.inj hafter
    exact ⟨_, _, _, hcall, hid, hiso, hnorm, rfl, hnan⟩
  | moved hfound => rw [hfind] at hfound; cases hfound

/-! ## Runs -/

theorem stateAfter_concat (host : Host) (steps : List Step) (step : Step) :
    stateAfter host (steps ++ [step]) = (step.exec host (stateAfter host steps)).2 := by
  simp [stateAfter]

/-- **Terminal states.** A request that is no longer pending never changes again. -/
theorem terminal_stable (hrow : (stateAfter host steps).requests.find id = some row)
    (hterminal : row.state ≠ .pending) (later : List Step) :
    (stateAfter host (steps ++ later)).requests.find id = some row := by
  induction later using List.reverseRecOn with
  | nil => simpa using hrow
  | append_singleton later step ih =>
    rw [← List.append_assoc, stateAfter_concat]
    rcases exec_of_found ih step with ⟨hsame, -⟩ | ⟨_, _, hpending, -⟩
    · exact hsame
    · exact absurd hpending hterminal

/-- Every stored request was created by one of the steps, with the same initiator and the
same expiry. -/
theorem created_of_stored (hrow : (stateAfter host steps).requests.find id = some row) :
    ∃ (i : ℕ) (step : Step) (first : Request), steps[i]? = some step ∧ step.Creates host first ∧ first.requestId = id ∧
      first.initiatorId = row.initiatorId ∧ first.expiresAtMs = row.expiresAtMs := by
  induction steps using List.reverseRecOn generalizing row with
  | nil => simp [stateAfter, Db.empty] at hrow
  | append_singleton steps step ih =>
    rw [stateAfter_concat] at hrow
    have hid := Table.key_of_find hrow
    cases hfind : (stateAfter host steps).requests.find id with
    | none =>
      refine ⟨steps.length, step, row, by simp, exec_of_not_found hfind hrow, hid, rfl, rfl⟩
    | some before =>
      obtain ⟨i, creator, first, hi, hcreates, hfirst, hinitiator, hexpires⟩ := ih hfind
      have hi' : (steps ++ [step])[i]? = some creator := by
        rw [List.getElem?_append_left (List.getElem?_eq_some_iff.mp hi).1, hi]
      refine ⟨i, creator, first, hi', hcreates, hfirst, ?_⟩
      rcases exec_of_found hfind step with ⟨hsame, -⟩ | ⟨row', event, -, hmoves, hafter, -⟩
      · obtain rfl := Option.some.inj (hrow.symm.trans hsame)
        exact ⟨hinitiator, hexpires⟩
      · obtain rfl := Option.some.inj (hrow.symm.trans hafter)
        obtain ⟨-, hkeeps, hkeeps', -⟩ := hmoves.keeps
        exact ⟨hinitiator.trans hkeeps.symm, hexpires.trans hkeeps'.symm⟩

/-- **Versions.** A pending request has version 0 and every other one version 1. -/
theorem version_of_stored (hrow : (stateAfter host steps).requests.find id = some row) :
    row.stateVersion = if row.state = .pending then 0 else 1 := by
  induction steps using List.reverseRecOn generalizing row with
  | nil => simp [stateAfter, Db.empty] at hrow
  | append_singleton steps step ih =>
    rw [stateAfter_concat] at hrow
    cases hfind : (stateAfter host steps).requests.find id with
    | none =>
      obtain ⟨_, _, _, -, -, -, -, hnew, -⟩ := exec_of_not_found hfind hrow
      rw [hnew]
      rfl
    | some before =>
      have hbefore := ih hfind
      rcases exec_of_found hfind step with ⟨hsame, -⟩ | ⟨row', event, hpending, hmoves, hafter, -⟩
      · obtain rfl := Option.some.inj (hrow.symm.trans hsame)
        exact hbefore
      · obtain rfl := Option.some.inj (hrow.symm.trans hafter)
        rw [if_pos hpending] at hbefore
        rw [if_neg hmoves.leaves.1, hmoves.leaves.2, hbefore]

/-- The state of a request, if it is stored. -/
def Db.stateOf (db : Db) (id : Text) : Option State := (db.requests.find id).map Request.state

/-- Step `i` of a sequence puts the request into the approved state. -/
def ApprovedAt (host : Host) (steps : List Step) (id : Text) (i : ℕ) : Prop :=
  i < steps.length ∧ (stateAfter host (steps.take i)).stateOf id ≠ some .approved ∧
    (stateAfter host (steps.take (i + 1))).stateOf id = some .approved

/-- Step `i` is an approval of the pending request, not after its expiry, by an actor
whose normalised identity is not the normalised identity of the actor who created it. -/
def ProperApproval (host : Host) (steps : List Step) (row : Request) (i : ℕ) : Prop :=
  ∃ step input approver j creator first, steps[i]? = some step ∧ step.call = .approve input ∧
    (stateAfter host (steps.take i)).stateOf row.requestId = some .pending ∧
    (input.now step.env).le row.expiresAtMs = true ∧
    normalizeIdentity host input.actorId = some approver ∧ row.approverId = some approver ∧
    j < i ∧ steps[j]? = some creator ∧ creator.Creates host first ∧
    first.requestId = row.requestId ∧ first.expiresAtMs = row.expiresAtMs ∧
    first.initiatorId = row.initiatorId ∧ approver ≠ first.initiatorId

/-- A time with an ISO text is a number. -/
theorem ne_nan_of_toISOString {t : JsNumber} {iso : Text} (h : toISOString t = some iso) :
    t ≠ .nan := by
  rintro rfl
  cases h

/-- Earlier steps are judged alike in a longer sequence. -/
theorem approvedAt_concat_of_lt {i : ℕ} (hi : i < steps.length) (step : Step) :
    ApprovedAt host (steps ++ [step]) id i ↔ ApprovedAt host steps id i := by
  unfold ApprovedAt
  rw [List.take_append_of_le_length (by omega), List.take_append_of_le_length (by omega)]
  simp only [List.length_append, List.length_singleton]
  constructor
  · exact fun h => ⟨hi, h.2⟩
  · exact fun h => ⟨by omega, h.2⟩

theorem approvedAt_concat_length (step : Step) :
    ApprovedAt host (steps ++ [step]) id steps.length ↔
      (stateAfter host steps).stateOf id ≠ some .approved ∧
        (stateAfter host (steps ++ [step])).stateOf id = some .approved := by
  unfold ApprovedAt
  rw [List.take_append_of_le_length (Nat.le_refl _), List.take_length, List.take_of_length_le
    (by simp)]
  simp

/-- A request approved at some step is approved ever after. -/
theorem approved_of_approvedAt {i : ℕ} (h : ApprovedAt host steps id i) :
    (stateAfter host steps).stateOf id = some .approved := by
  obtain ⟨-, -, hafter⟩ := h
  obtain ⟨row, hrow, hstate⟩ := Option.map_eq_some_iff.mp hafter
  have hstable := terminal_stable hrow (by simp [hstate]) (steps.drop (i + 1))
  rw [List.take_append_drop] at hstable
  rw [Db.stateOf, hstable, Option.map_some, hstate]

/-- A proper approval stays one in a longer sequence. -/
theorem ProperApproval.concat {i : ℕ} (h : ProperApproval host steps row i) (step : Step) :
    ProperApproval host (steps ++ [step]) row i := by
  obtain ⟨approval, input, approver, j, creator, first, hi, hcall, hpending, htime, hnorm, happrover,
    hj, hcreator, hrest⟩ := h
  have hilt := (List.getElem?_eq_some_iff.mp hi).1
  have hjlt := (List.getElem?_eq_some_iff.mp hcreator).1
  refine ⟨approval, input, approver, j, creator, first, ?_, hcall, ?_, htime, hnorm, happrover,
    hj, ?_, hrest⟩
  · rw [List.getElem?_append_left hilt, hi]
  · rwa [List.take_append_of_le_length (by omega)]
  · rw [List.getElem?_append_left hjlt, hcreator]

/-- A move into the approved state is a proper approval. -/
theorem properApproval_of_moves (hrow : (stateAfter host steps).requests.find id = some row)
    (hpending : row.state = .pending) (hmoves : Moves host db step row row' event)
    (happroved : row'.state = .approved) :
    ProperApproval host (steps ++ [step]) row' steps.length := by
  obtain ⟨j, creator, first, hj, hcreates, hfirst, hinitiator, hexpires⟩ := created_of_stored hrow
  have hjlt := (List.getElem?_eq_some_iff.mp hj).1
  have hnan : row.expiresAtMs ≠ .nan := by
    obtain ⟨_, _, _, -, -, -, -, -, hnan⟩ := hcreates
    rwa [hexpires] at hnan
  have hid := Table.key_of_find hrow
  cases hmoves with
  | approved hcall _ _ hiso hnorm hexpiry hdistinct =>
    refine ⟨step, _, _, j, creator, first, by simp, hcall, ?_, ?_, hnorm, rfl, hjlt, ?_, hcreates,
      hfirst.trans hid.symm, hexpires, hinitiator, ?_⟩
    · rw [List.take_append_of_le_length (Nat.le_refl _), List.take_length, Db.stateOf]
      simp [Request.approve, hid, hrow, hpending]
    · simp [JsNumber.le, Request.approve, hexpiry, hnan, ne_nan_of_toISOString hiso]
    · rw [List.getElem?_append_left hjlt, hj]
    · rw [hinitiator]
      exact Ne.symm hdistinct
  | expiredLate => cases happroved
  | canceled => cases happroved
  | expired => cases happroved

/-- An approved request was approved at exactly one step, and properly. -/
theorem approvedAt_unique (hrow : (stateAfter host steps).requests.find id = some row)
    (happroved : row.state = .approved) :
    ∃ i, (∀ j, ApprovedAt host steps id j ↔ j = i) ∧ ProperApproval host steps row i := by
  induction steps using List.reverseRecOn generalizing row with
  | nil => simp [stateAfter, Db.empty] at hrow
  | append_singleton steps step ih =>
    have hstate : (stateAfter host (steps ++ [step])).stateOf id = some .approved := by
      rw [Db.stateOf, hrow, Option.map_some, happroved]
    rw [stateAfter_concat] at hrow
    cases hfind : (stateAfter host steps).requests.find id with
    | none =>
      obtain ⟨_, _, _, -, -, -, -, hnew, -⟩ := exec_of_not_found hfind hrow
      rw [hnew] at happroved
      cases happroved
    | some before =>
      rcases exec_of_found hfind step with ⟨hsame, -⟩ | ⟨row', event, hpending, hmoves, hafter, -⟩
      · obtain rfl := Option.some.inj (hrow.symm.trans hsame)
        obtain ⟨i, hunique, hproper⟩ := ih hfind happroved
        refine ⟨i, fun j => ?_, hproper.concat step⟩
        rcases Nat.lt_trichotomy j steps.length with hj | rfl | hj
        · rw [approvedAt_concat_of_lt hj, hunique]
        · -- The request was approved before the last step already.
          rw [approvedAt_concat_length]
          have hbefore := approved_of_approvedAt ((hunique i).mpr rfl)
          have hi := ((hunique i).mpr rfl).1
          constructor
          · exact fun h => absurd hbefore h.1
          · exact fun h => absurd h (by omega)
        · constructor
          · exact fun h => absurd h.1 (by simp; omega)
          · have hi := ((hunique i).mpr rfl).1
            exact fun h => absurd h (by omega)
      · obtain rfl := Option.some.inj (hrow.symm.trans hafter)
        refine ⟨steps.length, fun j => ?_, properApproval_of_moves hfind hpending hmoves happroved⟩
        have hbefore : (stateAfter host steps).stateOf id ≠ some .approved := by
          simp [Db.stateOf, hfind, hpending]
        rcases Nat.lt_trichotomy j steps.length with hj | rfl | hj
        · rw [approvedAt_concat_of_lt hj]
          constructor
          · exact fun h => absurd (approved_of_approvedAt h) hbefore
          · exact fun h => absurd h (by omega)
        · rw [approvedAt_concat_length]
          simp [hbefore, hstate]
        · constructor
          · exact fun h => absurd h.1 (by simp; omega)
          · exact fun h => absurd h (by omega)

/-- **Safety.** In every reachable database, an approved request was approved at exactly
one step and properly, a request out of the pending state never changes again, and the
version is 0 exactly for pending requests and 1 exactly for the others. -/
theorem dual_approval_safe (host : Host) (steps : List Step) (id : Text) (row : Request)
    (hrow : (stateAfter host steps).requests.find id = some row) :
    (row.state = .approved →
      ∃ i, (∀ j, ApprovedAt host steps id j ↔ j = i) ∧ ProperApproval host steps row i) ∧
    (row.state ≠ .pending →
      ∀ later, (stateAfter host (steps ++ later)).requests.find id = some row) ∧
    (row.stateVersion = 0 ↔ row.state = .pending) ∧
    (row.stateVersion = 1 ↔ row.state ≠ .pending) := by
  have hversion := version_of_stored hrow
  refine ⟨approvedAt_unique hrow, terminal_stable hrow, ?_, ?_⟩
  · rw [hversion]
    split <;> simp [*]
  · rw [hversion]
    split <;> simp [*]

/-! ## A run -/

/-- A host whose lower case is that of ASCII; the run uses UUIDs, which are not hashed. -/
def sampleHost : Host where
  toLowerCase t := t.map Char.toLower
  sha256 _ := []

/-- A UUID that differs from the others in its last digit. -/
def sampleUuid (digit : Char) : Text := "00000000-0000-4000-8000-00000000000".toList ++ [digit]

/-- The clock at `nowMs`, and identifiers from a list. -/
def sampleEnv (nowMs : ℕ) (ids : List Char) : Env where
  dateNow := .ofNat nowMs
  randomUUID n := sampleUuid (ids.getD n '0')

def sampleCreate (nowMs : ℕ) : Step where
  call := .createRequest ⟨.freeze, sampleUuid 'A', none, none, none, none⟩
  env := sampleEnv nowMs ['1', '2']
  fault := none

def sampleApprove (nowMs : ℕ) : Step where
  call := .approve ⟨sampleUuid '4', sampleUuid '1', sampleUuid 'B', .ofNat 0, none, none⟩
  env := sampleEnv nowMs ['3']
  fault := none

/-- The row of the sample request after its approval. -/
def sampleApproved : Request where
  requestId := sampleUuid '1'
  action := .freeze
  state := .approved
  initiatorId := sampleUuid 'a'
  approverId := some (sampleUuid 'b')
  reason := none
  signature := none
  expiresAtMs := .ofNat 301000
  stateVersion := 1
  createdAt := "1970-01-01T00:00:01.000Z".toList
  updatedAt := "1970-01-01T00:00:01.500Z".toList

/-- The theorem at a request that is created and then approved by another actor. -/
theorem dual_approval_safe_sample : ∃ i,
    (∀ j, ApprovedAt sampleHost [sampleCreate 1000, sampleApprove 1500] (sampleUuid '1') j ↔ j = i) ∧
      ProperApproval sampleHost [sampleCreate 1000, sampleApprove 1500] sampleApproved i :=
  (dual_approval_safe sampleHost [sampleCreate 1000, sampleApprove 1500] (sampleUuid '1')
    sampleApproved (by decide +kernel)).1 rfl

end MemphisOS.DualApproval
