import MemphisOS.DualApproval.Routes
import MemphisOS.Systems.Transition

/-!
# Single use of signed messages

How often a signed message may change a stored request, over every run of the routes with
signatures required. The messages of approvals and cancellations name the request they move
and work once; that of a request names nothing the database remembers.
-/

namespace MemphisOS.DualApproval

open Ecma Sql

variable {platform : Platform} {db : Db} {step : HttpStep} {steps : List HttpStep}
  {message id id' : Text} {row : Request} {i j : ℕ}

/-! ## Payloads -/

theorem canonicalize_transition (data : TransitionData) :
    canonicalize (.obj data.payload) =
      .obj [(js "approvalRequestId", .str data.approvalRequestId),
        (js "expectedStateVersion", .num data.expectedStateVersion),
        (js "requestId", .str data.requestId)] := by
  rw [TransitionData.payload, canonicalize_obj]
  rfl

/-- The payload of a transition determines the request. -/
theorem requestId_of_payload {data data' : TransitionData}
    (h : jsonImage (canonicalize (.obj data.payload)) =
      jsonImage (canonicalize (.obj data'.payload))) : data.requestId = data'.requestId := by
  rw [canonicalize_transition, canonicalize_transition, jsonImage_obj, jsonImage_obj] at h
  simp only [List.map_cons, List.map_nil, Json.obj.injEq, List.cons.injEq, Prod.mk.injEq, true_and,
    and_true] at h
  simpa [jsonImage, Json.fold] using h.2.2

/-- Transitions signed with one message are for the same request. -/
theorem Parsed.requestId_of_message {rawEnv rawEnv' : ProcessEnv} {data data' : TransitionData}
    {parsed parsed' : Parsed} (hparsed : parsed.verification.payload = data.payload)
    (hparsed' : parsed'.verification.payload = data'.payload)
    (h : Signed platform parsed.verification rawEnv message)
    (h' : Signed platform parsed'.verification rawEnv' message) :
    data.requestId = data'.requestId := by
  obtain ⟨_, _, _, _, _, -, hmessage, -⟩ := h
  obtain ⟨_, _, _, _, _, -, hmessage', -⟩ := h'
  have himage := (buildAdminSignatureMessage_inj.mp (hmessage.symm.trans hmessage')).2.2
  rw [hparsed, hparsed'] at himage
  exact requestId_of_payload himage

/-- A message is for one action. -/
theorem Parsed.action_of_message {rawEnv rawEnv' : ProcessEnv} {parsed parsed' : Parsed}
    (h : Signed platform parsed.verification rawEnv message)
    (h' : Signed platform parsed'.verification rawEnv' message) :
    parsed.verification.action = parsed'.verification.action := by
  obtain ⟨_, _, _, _, _, -, hmessage, -⟩ := h
  obtain ⟨_, _, _, _, _, -, hmessage', -⟩ := h'
  exact (buildAdminSignatureMessage_inj.mp (hmessage.symm.trans hmessage')).1

/-- The action a handler verifies is the one of its route. -/
theorem parseBody_action {body : Plain} {route : AdminActionType} {parsed : Parsed}
    (h : parseBody platform body route = .ok parsed) : parsed.verification.action = route := by
  cases route <;> simp only [parseBody] at h
  · cases hschema : dualApprovalRequestSchema body with
    | error e => rw [hschema] at h; cases h
    | ok data => rw [hschema] at h; cases h; rfl
  · cases hschema : dualApprovalApproveSchema platform body with
    | error e => rw [hschema] at h; cases h
    | ok data => rw [hschema] at h; cases h; rfl
  · cases hschema : dualApprovalCancelSchema platform body with
    | error e => rw [hschema] at h; cases h
    | ok data => rw [hschema] at h; cases h; rfl

/-! ## One request -/

/-- A move is made by a transition of the request, or by the expiry of all. -/
theorem Moves.input {host : Host} {step : Step} {row' : Request} {event : Event}
    (h : Moves host db step row row' event) :
    (∃ input, (step.call = .approve input ∨ step.call = .cancel input) ∧
      row.requestId = input.requestId) ∨ ∃ nowMs, step.call = .expirePending nowMs := by
  cases h with
  | approved hcall hid => exact .inl ⟨_, .inl hcall, hid⟩
  | expiredLate hcall hid => exact .inl ⟨_, .inl hcall, hid⟩
  | canceled hcall hid => exact .inl ⟨_, .inr hcall, hid⟩
  | expired hcall => exact .inr ⟨_, hcall⟩

/-- The ways a request to a route changes a stored request. -/
inductive RouteChange (platform : Platform) (db after : Db) (step : HttpStep) (id : Text) : Prop
  | created {data : RequestData} :
      parseBody platform step.body step.route = .ok (.request data) →
      id = step.env.randomUUID 0 →
      RouteChange platform db after step id
  | moved {parsed : Parsed} {data : TransitionData} {row row' : Request} :
      parseBody platform step.body step.route = .ok parsed →
      parsed.verification.payload = data.payload →
      parsed.verification.action ≠ .request →
      id = wellFormed data.requestId →
      db.requests.find id = some row →
      row.state = .pending →
      after.requests.find id = some row' →
      row'.state ≠ .pending →
      RouteChange platform db after step id

/-- A route changes requests in these ways only, and only after verification. -/
theorem HttpStep.exec_change
    (h : (step.exec platform db).2.requests.find id ≠ db.requests.find id) :
    RouteChange platform db (step.exec platform db).2 step id ∧
    ∃ parsed result, parseBody platform step.body step.route = .ok parsed ∧
      verifyAdminActionSignature platform parsed.verification step.rawEnv = .ok result := by
  rcases HttpStep.exec_db platform db step with hsame | ⟨parsed, result, fault, hparse, hverify, hcall⟩
  · exact absurd (by rw [hsame]) h
  · refine ⟨?_, parsed, result, hparse, hverify⟩
    rw [hcall] at h ⊢
    have hchange := DualApproval.exec_change platform.toHost db ⟨parsed.call, step.env, fault⟩ id
    generalize hfound : (Step.exec platform.toHost db ⟨parsed.call, step.env, fault⟩).2.requests.find id
      = found, (Step.exec platform.toHost db ⟨parsed.call, step.env, fault⟩).2.eventsOf id = events
      at hchange h
    cases hchange with
    | same => exact absurd rfl h
    | created hinput hid =>
      cases parsed with
      | request data => exact .created hparse hid.symm
      | approve data => cases hinput
      | cancel data => cases hinput
    | createdWithoutEvent hinput hid =>
      cases parsed with
      | request data => exact .created hparse hid.symm
      | approve data => cases hinput
      | cancel data => cases hinput
    | moved hrow hpending hmoves =>
      have hkey := Table.key_of_find hrow
      rcases hmoves.input with ⟨input, hinput, hid⟩ | ⟨nowMs, hinput⟩
      · cases parsed with
        | request data => rcases hinput with hinput | hinput <;> cases hinput
        | approve data =>
          obtain hinput | hinput := hinput <;> cases hinput
          exact .moved hparse rfl (by simp [Parsed.verification]) (hkey.symm.trans hid) hrow hpending
            hfound hmoves.leaves.1
        | cancel data =>
          obtain hinput | hinput := hinput <;> cases hinput
          exact .moved hparse rfl (by simp [Parsed.verification]) (hkey.symm.trans hid) hrow hpending
            hfound hmoves.leaves.1
      · cases parsed <;> cases hinput

/-- A request out of the pending state stays as it is. -/
theorem HttpStep.terminal (hrow : db.requests.find id = some row) (hterminal : row.state ≠ .pending)
    (step : HttpStep) : (step.exec platform db).2.requests.find id = some row := by
  rcases HttpStep.exec_db platform db step with hsame | ⟨parsed, result, fault, -, -, hcall⟩
  · rwa [hsame]
  · rw [hcall]
    rcases exec_of_found hrow ⟨parsed.call, step.env, fault⟩ with ⟨hsame, -⟩ | ⟨_, _, hpending, -⟩
    · exact hsame
    · exact absurd hpending hterminal

/-! ## Runs -/

theorem stateAfterHttp_concat (steps : List HttpStep) (step : HttpStep) :
    stateAfterHttp platform (steps ++ [step]) =
      (step.exec platform (stateAfterHttp platform steps)).2 := by
  simp [stateAfterHttp]

theorem stateAfterHttp_take (h : steps[i]? = some step) :
    stateAfterHttp platform (steps.take (i + 1)) =
      (step.exec platform (stateAfterHttp platform (steps.take i))).2 := by
  rw [List.take_add_one, h]
  exact stateAfterHttp_concat _ _

/-- A request that has left the pending state stays as it is over further requests. -/
theorem terminal_stable_http (hij : i ≤ j)
    (hrow : (stateAfterHttp platform (steps.take i)).requests.find id = some row)
    (hterminal : row.state ≠ .pending) :
    (stateAfterHttp platform (steps.take j)).requests.find id = some row := by
  induction j, hij using Nat.le_induction with
  | base => exact hrow
  | succ j _ ih =>
    cases hstep : steps[j]? with
    | none =>
      rw [List.take_add_one, hstep]
      simpa using ih
    | some step =>
      rw [stateAfterHttp_take hstep]
      exact HttpStep.terminal ih hterminal step

/-- Request `i` of a sequence goes to the route with a signature of the message, and the
stored request `id` appears or changes by it. -/
def ChangesAt (platform : Platform) (steps : List HttpStep) (route : AdminActionType)
    (message : Text) (i : ℕ) (id : Text) : Prop :=
  ∃ step parsed, steps[i]? = some step ∧ step.route = route ∧
    parseBody platform step.body route = .ok parsed ∧
    Signed platform parsed.verification step.rawEnv message ∧
    (stateAfterHttp platform (steps.take (i + 1))).requests.find id ≠
      (stateAfterHttp platform (steps.take i)).requests.find id

/-- Every signed message changes at most one request at most once. -/
def SingleUse (platform : Platform) (steps : List HttpStep) : Prop :=
  ∀ message route route' i j id id', ChangesAt platform steps route message i id →
    ChangesAt platform steps route' message j id' → i = j ∧ id = id'

/-- Sequences of requests with signatures required. -/
def httpRuns (platform : Platform) : TransitionSystem (List HttpStep) HttpStep where
  init steps := steps = []
  step steps step steps' :=
    signatureRequired platform step.rawEnv = true ∧ steps' = steps ++ [step]

/-- The request is not one to create a request with a message that has created one. -/
def Unused (platform : Platform) (steps : List HttpStep) (step : HttpStep) : Prop :=
  step.route = .request →
    ∀ parsed message, parseBody platform step.body .request = .ok parsed →
      Signed platform parsed.verification step.rawEnv message →
      ∀ i id, ¬ChangesAt platform steps .request message i id

/-- A sequence is part of a longer one. -/
theorem changesAt_concat_of_lt (hi : i < steps.length) {route : AdminActionType} :
    ChangesAt platform (steps ++ [step]) route message i id ↔
      ChangesAt platform steps route message i id := by
  unfold ChangesAt
  rw [List.getElem?_append_left hi, List.take_append_of_le_length (by omega),
    List.take_append_of_le_length (by omega)]

theorem ChangesAt.lt {route : AdminActionType} (h : ChangesAt platform steps route message i id) :
    i < steps.length := by
  obtain ⟨step, _, hstep, -⟩ := h
  exact (List.getElem?_eq_some_iff.mp hstep).1

/-- What a change at a place of a sequence is. -/
theorem ChangesAt.routeChange {route : AdminActionType}
    (h : ChangesAt platform steps route message i id) :
    ∃ step parsed, steps[i]? = some step ∧ step.route = route ∧
      parseBody platform step.body step.route = .ok parsed ∧
      Signed platform parsed.verification step.rawEnv message ∧
      RouteChange platform (stateAfterHttp platform (steps.take i))
        (stateAfterHttp platform (steps.take (i + 1))) step id := by
  obtain ⟨step, parsed, hstep, rfl, hparse, hsigned, hchange⟩ := h
  rw [stateAfterHttp_take hstep] at hchange ⊢
  exact ⟨step, parsed, hstep, rfl, hparse, hsigned, (HttpStep.exec_change hchange).1⟩

/-- One request changes at most one stored request. -/
theorem ChangesAt.id_eq {route route' : AdminActionType}
    (h : ChangesAt platform steps route message i id)
    (h' : ChangesAt platform steps route' message i id') : id = id' := by
  obtain ⟨step, parsed, hstep, rfl, hparse, hsigned, hchange⟩ := h.routeChange
  obtain ⟨step', parsed', hstep', rfl, hparse', hsigned', hchange'⟩ := h'.routeChange
  obtain rfl := Option.some.inj (hstep.symm.trans hstep')
  cases hchange with
  | created hdata hid =>
    cases hchange' with
    | created hdata' hid' => rw [hid, hid']
    | moved hdata' hpayload' haction' =>
      obtain rfl := Except.ok.inj (hdata.symm.trans hdata')
      exact absurd rfl haction'
  | moved hdata hpayload haction hid =>
    cases hchange' with
    | created hdata' hid' =>
      obtain rfl := Except.ok.inj (hdata.symm.trans hdata')
      exact absurd rfl haction
    | moved hdata' hpayload' haction' hid' =>
      obtain rfl := Except.ok.inj (hdata.symm.trans hparse)
      obtain rfl := Except.ok.inj (hdata'.symm.trans hparse)
      rw [hid, hid', Parsed.requestId_of_message hpayload hpayload' hsigned hsigned]

/-- **Transitions.** Signed messages of approvals and cancellations change one request
once. -/
theorem ChangesAt.eq_of_transition {route route' : AdminActionType} (hroute : route ≠ .request)
    (h : ChangesAt platform steps route message i id)
    (h' : ChangesAt platform steps route' message j id') : i = j ∧ id = id' := by
  -- The request is out of the pending state after the first of the two changes.
  have hlater : ∀ {i j id id'} {route route' : AdminActionType}, route ≠ .request →
      ChangesAt platform steps route message i id →
      ChangesAt platform steps route' message j id' → ¬i < j := by
    intro i j id id' route route' hroute h h' hlt
    obtain ⟨step, parsed, hstep, rfl, hparse, hsigned, hchange⟩ := h.routeChange
    obtain ⟨step', parsed', hstep', rfl, hparse', hsigned', hchange'⟩ := h'.routeChange
    have haction := Parsed.action_of_message hsigned hsigned'
    cases hchange with
    | created hdata => exact hroute (parseBody_action hdata).symm
    | moved hdata hpayload _ hid _ _ hafter hterminal =>
      obtain rfl := Except.ok.inj (hdata.symm.trans hparse)
      cases hchange' with
      | created hdata' =>
        obtain rfl := Except.ok.inj (hdata'.symm.trans hparse')
        rw [parseBody_action hparse] at haction
        exact hroute haction
      | moved hdata' hpayload' _ hid' hrow' hpending' =>
        obtain rfl := Except.ok.inj (hdata'.symm.trans hparse')
        have hsame := Parsed.requestId_of_message hpayload hpayload' hsigned hsigned'
        have hstable := terminal_stable_http (show i + 1 ≤ j from hlt) hafter hterminal
        rw [hid, hsame, ← hid', hrow'] at hstable
        exact hterminal (Option.some.inj hstable ▸ hpending')
  have hroute' : route' ≠ .request := by
    obtain ⟨_, parsed, -, rfl, hparse, hsigned, -⟩ := h.routeChange
    obtain ⟨_, parsed', -, rfl, hparse', hsigned', -⟩ := h'.routeChange
    rwa [← parseBody_action hparse', ← Parsed.action_of_message hsigned hsigned',
      parseBody_action hparse]
  rcases Nat.lt_trichotomy i j with hlt | rfl | hlt
  · exact absurd hlt (hlater hroute h h')
  · exact ⟨rfl, h.id_eq h'⟩
  · exact absurd hlt (hlater hroute' h' h)

/-- A further request that is not to create with a used message keeps messages single
use. -/
theorem SingleUse.concat (h : SingleUse platform steps) (hunused : Unused platform steps step) :
    SingleUse platform (steps ++ [step]) := by
  intro message route route' i j id id' hi hj
  by_cases hroute : route = .request
  · subst hroute
    by_cases hroute' : route' = .request
    · subst hroute'
      -- Neither change can come after the other.
      have hnew : ∀ {i j id id'},
          ChangesAt platform (steps ++ [step]) .request message i id →
          ChangesAt platform (steps ++ [step]) .request message j id' →
          i < steps.length → j < steps.length := by
        intro i j id id' hi hj hlt
        by_contra hnot
        have hlast : j = steps.length := by
          have := hj.lt
          simp at this
          omega
        subst hlast
        obtain ⟨step', parsed, hstep, hroute, hparse, hsigned, -⟩ := hj
        obtain rfl : step = step' := by simpa using hstep
        exact hunused hroute parsed message hparse hsigned i id
          ((changesAt_concat_of_lt hlt).mp hi)
      by_cases hlt : i < steps.length
      · have hlt' := hnew hi hj hlt
        exact h message _ _ i j id id' ((changesAt_concat_of_lt hlt).mp hi)
          ((changesAt_concat_of_lt hlt').mp hj)
      · by_cases hlt' : j < steps.length
        · exact absurd (hnew hj hi hlt') hlt
        · have hi' := hi.lt
          have hj' := hj.lt
          simp only [List.length_append, List.length_singleton] at hi' hj'
          obtain rfl : i = j := by omega
          exact ⟨rfl, hi.id_eq hj⟩
    · obtain ⟨rfl, rfl⟩ := ChangesAt.eq_of_transition hroute' hj hi
      exact ⟨rfl, rfl⟩
  · exact ChangesAt.eq_of_transition hroute hi hj

/-- A change by a request of a run is by a signed message. -/
theorem changesAt_of_change (hsteps : (httpRuns platform).Reachable steps)
    (hstep : steps[i]? = some step)
    (h : (step.exec platform (stateAfterHttp platform (steps.take i))).2.requests.find id ≠
      (stateAfterHttp platform (steps.take i)).requests.find id) :
    ∃ message, ChangesAt platform steps step.route message i id := by
  have hrequired : ∀ step ∈ steps, signatureRequired platform step.rawEnv = true := by
    apply hsteps.invariant (I := fun steps => ∀ step ∈ steps, signatureRequired platform step.rawEnv = true)
    · rintro steps rfl
      simp
    · rintro steps step _ ih ⟨hrequired, rfl⟩ step' hstep'
      rcases List.mem_append.mp hstep' with hstep' | hstep'
      · exact ih step' hstep'
      · rwa [List.mem_singleton.mp hstep']
  obtain ⟨-, parsed, result, hparse, hverify⟩ := HttpStep.exec_change h
  obtain ⟨message, hsigned⟩ :=
    signed_of_required (hrequired step (List.mem_of_getElem? hstep)) hverify
  refine ⟨message, step, parsed, hstep, rfl, hparse, hsigned, ?_⟩
  rwa [stateAfterHttp_take hstep]

/-- A request that changes nothing keeps messages single use. -/
theorem SingleUse.concat_of_same (h : SingleUse platform steps)
    (hsame : ∀ id, (step.exec platform (stateAfterHttp platform steps)).2.requests.find id =
      (stateAfterHttp platform steps).requests.find id) :
    SingleUse platform (steps ++ [step]) := by
  have hlt : ∀ {route message i id}, ChangesAt platform (steps ++ [step]) route message i id →
      ChangesAt platform steps route message i id := by
    intro route message i id hi
    by_cases hlt : i < steps.length
    · exact (changesAt_concat_of_lt hlt).mp hi
    · have hle := hi.lt
      simp only [List.length_append, List.length_singleton] at hle
      obtain rfl : i = steps.length := by omega
      obtain ⟨_, _, -, -, -, -, hchange⟩ := hi
      rw [stateAfterHttp_take (show (steps ++ [step])[steps.length]? = some step by simp), List.take_left] at hchange
      exact absurd (hsame id) hchange
  exact fun message route route' i j id id' hi hj =>
    h message route route' i j id id' (hlt hi) (hlt hj)

/-- **Single use.** In every run with signatures required, each change of a stored request
is by a signed message, and one for a transition changes one request once. While no request
is created with a message that has created one, every message changes at most one request
once; and a further step keeps that up exactly when it is no such creation or changes
nothing. -/
theorem admin_signatures_single_use (platform : Platform) :
    (∀ steps, (httpRuns platform).Reachable steps →
      (∀ i step id, steps[i]? = some step →
        (step.exec platform (stateAfterHttp platform (steps.take i))).2.requests.find id ≠
          (stateAfterHttp platform (steps.take i)).requests.find id →
        ∃ message, ChangesAt platform steps step.route message i id) ∧
      ∀ message route route' i j id id', route ≠ .request →
        ChangesAt platform steps route message i id →
        ChangesAt platform steps route' message j id' → i = j ∧ id = id') ∧
    ∀ steps, ((httpRuns platform).restrict (Unused platform)).Reachable steps →
      SingleUse platform steps ∧
      ∀ step, signatureRequired platform step.rawEnv = true →
        (SingleUse platform (steps ++ [step]) ↔ Unused platform steps step ∨
          ∀ id, (step.exec platform (stateAfterHttp platform steps)).2.requests.find id =
            (stateAfterHttp platform steps).requests.find id) := by
  refine ⟨fun steps hsteps => ⟨fun i step id hstep h => changesAt_of_change hsteps hstep h,
    fun message route route' i j id id' hroute hi hj => hi.eq_of_transition hroute hj⟩, ?_⟩
  intro steps hsteps
  have hsingle : SingleUse platform steps := by
    apply hsteps.invariant
    · rintro steps rfl message route route' i j id id' hi
      exact absurd hi.lt (by simp)
    · rintro steps step _ ih ⟨hunused, -, rfl⟩
      exact ih.concat hunused
  refine ⟨hsingle, fun step hrequired => ⟨fun hnext => ?_, fun h => ?_⟩⟩
  · by_contra hnot
    simp only [not_or, Unused, not_forall, not_not] at hnot
    obtain ⟨⟨hroute, parsed, message, hparse, hsigned, i, id, hearlier⟩, id', hchange⟩ := hnot
    have hnow : ChangesAt platform (steps ++ [step]) .request message steps.length id' := by
      refine ⟨step, parsed, by simp, hroute, hparse, hsigned, ?_⟩
      rwa [stateAfterHttp_take (show (steps ++ [step])[steps.length]? = some step by simp), List.take_left]
    have hlt := hearlier.lt
    have hsame := (hnext message _ _ i steps.length id id'
      ((changesAt_concat_of_lt hlt).mpr hearlier) hnow).1
    omega
  · rcases h with hunused | hsame
    · exact hsingle.concat hunused
    · exact hsingle.concat_of_same hsame

/-! ## A replayed message -/

/-- The key of the sample initiator. -/
def samplePem : Text :=
  "-----BEGIN PUBLIC KEY-----\nMCowBQYDK2VwAyEA11qYAYKxCrfVS/7TyWQHOg7hcvPapiMlrwIaaPcHURo=\n-----END PUBLIC KEY-----".toList

/-- The message the sample initiator has signed. -/
def sampleMessage : Text :=
  buildAdminSignatureMessage .request (ofText (sampleUuid 'a'))
    (.obj [(js "action", .str (js "freeze")), (js "ttlMs", .num (.ofNat 300000)),
      (js "reason", .null)])

/-- The signature of the message under the key. -/
def sampleSignature : Text :=
  ("4fc979244c360e0cf937f4575d64f7f500e49ed5b5c94b67d878abaf6d87ead9" ++
    "1e04e2d9bd58b23dbf84f66c717b89e7ebb734ffb27b34034163f849deb6b00c").toList

/-- A platform that knows the sample key and signature. -/
def samplePlatform : Platform where
  toHost := sampleHost
  PublicKey := Text
  createPublicKey := .ok
  verify key message signature :=
    .ok (key = samplePem && message = sampleMessage && signature = decodeHex sampleSignature)
  decodeBase64 _ := []
  parseMessage _ := []
  isZodUuid s := isUuid (wellFormed s)

/-- An environment that requires signatures and registers the sample key. -/
def sampleProcessEnv : ProcessEnv := fun name =>
  if name = "MEMPHIS_ADMIN_SIGNATURE_REQUIRED" then some "true".toList
  else if name = "MEMPHIS_ADMIN_PUBLIC_KEYS_JSON" then
    some (jsonText [] (.obj [(ofText (sampleUuid 'a'), .str (ofText samplePem))]))
  else none

/-- The body of the captured request. -/
def sampleBody : Plain :=
  .obj [(js "action", .str (js "freeze")), (js "initiatorId", .str (ofText (sampleUuid 'a'))),
    (js "signature", .str (ofText sampleSignature))]

/-- The captured request, handled at a time with fresh identifiers. -/
def sampleReplay (nowMs : ℕ) (ids : List Char) : HttpStep where
  route := .request
  body := sampleBody
  rawEnv := sampleProcessEnv
  env := sampleEnv nowMs ids
  fault := none

/-- What the schema reads from the captured body. -/
def sampleParsed : Parsed :=
  .request ⟨.freeze, ofText (sampleUuid 'a'), none, none, some (ofText sampleSignature)⟩

theorem sampleBody_parsed : parseBody samplePlatform sampleBody .request = .ok sampleParsed := by
  decide +kernel

theorem sampleBody_verified :
    verifyAdminActionSignature samplePlatform sampleParsed.verification sampleProcessEnv =
      .ok ⟨sampleUuid 'a', true, true⟩ := by
  decide +kernel

/-- The captured request is handled whenever it is presented. -/
theorem sampleReplay_exec (db : Db) (nowMs : ℕ) (ids : List Char) :
    ((sampleReplay nowMs ids).exec samplePlatform db).2 =
      ((sampleParsed.handle samplePlatform.toHost (sampleReplay nowMs ids).env).run
        ⟨db, (sampleReplay nowMs ids).fault⟩).2.db := by
  have hparse : parseBody samplePlatform (sampleReplay nowMs ids).body
      (sampleReplay nowMs ids).route = .ok sampleParsed := sampleBody_parsed
  have hverify : verifyAdminActionSignature samplePlatform sampleParsed.verification
      (sampleReplay nowMs ids).rawEnv = .ok ⟨sampleUuid 'a', true, true⟩ := sampleBody_verified
  exact HttpStep.exec_of_verified hparse hverify

/-- The same signed request, presented twice, creates two requests. -/
theorem replayed_request_creates_twice :
    signatureRequired samplePlatform sampleProcessEnv = true ∧
      ¬SingleUse samplePlatform [sampleReplay 1000 ['1', '2'], sampleReplay 2000 ['3', '4']] := by
  have hrequired : signatureRequired samplePlatform sampleProcessEnv = true := by decide +kernel
  refine ⟨hrequired, fun h => ?_⟩
  obtain ⟨message, hsigned⟩ := signed_of_required hrequired sampleBody_verified
  have hsame := h message .request .request 0 1 (sampleUuid '1') (sampleUuid '3')
    ⟨_, sampleParsed, rfl, rfl, sampleBody_parsed, hsigned, by
      simp only [stateAfterHttp, List.take_succ_cons, List.take_zero, List.foldl_cons,
        List.foldl_nil, sampleReplay_exec]
      decide +kernel⟩
    ⟨_, sampleParsed, rfl, rfl, sampleBody_parsed, hsigned, by
      simp only [stateAfterHttp, List.take_succ_cons, List.take_zero, List.foldl_cons,
        List.foldl_nil, sampleReplay_exec]
      decide +kernel⟩
  exact absurd hsame.1 (by decide)

end MemphisOS.DualApproval
