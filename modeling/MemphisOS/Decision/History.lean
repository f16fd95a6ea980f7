import MemphisOS.Decision.Lifecycle
import MemphisOS.Ecma.Documents
import MemphisOS.Ecma.Maps
import MemphisOS.Systems.Transition

/-!
# The history of a decision

The transitions in the audit log of a decision form a path when every record the command is given
has the status the last transition has led to. The command does not look at the log.
-/

namespace MemphisOS.Decision

open Ecma

/-! ## Paths -/

/-- The sources and targets of the transitions of a decision. -/
def transitionsOf (id : JsString) (events : List Plain) : List (Option Plain × Option Plain) :=
  events.filterMap fun event =>
    match event with
    | .obj members =>
      match members.lookup (js "action"), members.lookup (js "decisionId") with
      | some (.str action), some (.str decisionId) =>
        if action = js "transition" ∧ decisionId = id then
          some (members.lookup (js "from"), members.lookup (js "to"))
        else none
      | _, _ => none
    | _ => none

/-- An edge of the graph of allowed transitions. -/
def IsTransition (e : Option Plain × Option Plain) : Prop :=
  ∃ s t allowed, e = (some (.str s), some (.str t)) ∧ ALLOWED.lookup s = some allowed ∧ t ∈ allowed

/-- A status that nothing follows. -/
def IsFinal (status : Option Plain) : Prop :=
  status = some (.str (js "superseded")) ∨ status = some (.str (js "rejected"))

/-- The transitions are a path in the graph of allowed transitions. -/
structure IsPath (transitions : List (Option Plain × Option Plain)) : Prop where
  allowed : ∀ e ∈ transitions, IsTransition e
  connected : transitions.IsChain fun e e' => e'.1 = e.2
  final : transitions.IsChain fun e _ => ¬IsFinal e.2

/-- The log after some invocations. -/
def logAfter (log : Text) (invocations : List Invocation) : Text :=
  invocations.foldl (fun log invocation => (handleDecisionTransition log invocation).2) log

/-- The invocations, each with the log before it. -/
def steps (log : Text) (invocations : List Invocation) : List (Text × Invocation) :=
  TransitionSystem.trace (fun log invocation => (handleDecisionTransition log invocation).2) log
    invocations

/-- The log can be read, and the transitions of every decision in it are a path. -/
def Lawful (log : Text) : Prop :=
  ∃ events, readDecisionAudit log = some events ∧ ∀ id, IsPath (transitionsOf id events)

/-- If the invocation gets as far as the log, its record has a text as its status, the one the last
transition of the decision has led to. -/
def Continues (step : Text × Invocation) : Prop :=
  ∀ next event, step.2.event = .ok (next, event) → ∀ id, event.lookup (js "decisionId") =
    some (.str id) → ∃ status, event.lookup (js "from") = some (.str status) ∧
      ∀ events, readDecisionAudit step.1 = some events →
        ∀ last ∈ (transitionsOf id events).getLast?, last.2 = some (.str status)

variable {transitions : List (Option Plain × Option Plain)} {e : Option Plain × Option Plain}
  {id : JsString}

theorem isPath_nil : IsPath [] := ⟨by simp, .nil, .nil⟩

/-- Nothing leads on from a final status. -/
theorem IsTransition.not_final (h : IsTransition e) : ¬IsFinal e.1 := by
  obtain ⟨s, t, allowed, rfl, hallowed, ht⟩ := h
  rintro (hs | hs)
  · obtain rfl := Json.str.inj (Option.some.inj hs)
    obtain rfl : ([] : List JsString) = allowed := Option.some.inj hallowed
    cases ht
  · obtain rfl := Json.str.inj (Option.some.inj hs)
    obtain rfl : ([] : List JsString) = allowed := Option.some.inj hallowed
    cases ht

/-- A path goes on with a transition from where it has led to. -/
theorem isPath_concat (transitions : List (Option Plain × Option Plain))
    (e : Option Plain × Option Plain) :
    IsPath (transitions ++ [e]) ↔
      IsPath transitions ∧ IsTransition e ∧ ∀ last ∈ transitions.getLast?, e.1 = last.2 := by
  constructor
  · intro h
    obtain ⟨hconnected, -, hlast⟩ := List.isChain_append.mp h.connected
    exact ⟨⟨fun e he => h.allowed e (List.mem_append_left _ he), hconnected,
      (List.isChain_append.mp h.final).1⟩,
      h.allowed e (List.mem_append_right _ List.mem_cons_self), fun last hmem =>
        hlast last hmem e rfl⟩
  · rintro ⟨h, he, hlast⟩
    refine ⟨?_, ?_, ?_⟩
    · intro e' he'
      rcases List.mem_append.mp he' with he' | he'
      · exact h.allowed e' he'
      · rw [List.mem_singleton.mp he']
        exact he
    · refine h.connected.append (.singleton e) fun last hmem e' he' => ?_
      obtain rfl := Option.some.inj he'
      exact hlast last hmem
    · refine h.final.append (.singleton e) fun last hmem e' he' hfinal => ?_
      obtain rfl := Option.some.inj he'
      rw [← hlast last hmem] at hfinal
      exact he.not_final hfinal

/-! ## Events -/

/-- A transition that is allowed: the status, as a text, has the target among its own. -/
theorem transitionDecision_ok {record next : Plain} {toStatus nowIso : JsString}
    (h : transitionDecision record toStatus nowIso = .ok next) :
    ∃ status key allowed, property record (js "status") = some (some status) ∧
      toText status = some key ∧ ALLOWED.lookup key = some allowed ∧ toStatus ∈ allowed := by
  unfold transitionDecision at h
  split at h
  · cases h
  · next status hstatus =>
    split at h
    · cases h
    · next key hkey =>
      split at h
      · cases h
      · split at h
        · next hmem =>
          cases hallowed : ALLOWED.lookup key with
          | none =>
            rw [hallowed] at hmem
            cases hmem
          | some allowed =>
            rw [hallowed] at hmem
            cases status with
            | none =>
              obtain rfl := Option.some.inj hkey
              cases hallowed
            | some status => exact ⟨status, key, allowed, hstatus, hkey, hallowed, hmem⟩
        · cases h

/-- What an invocation that gets as far as the log stores. -/
theorem event_cases {invocation : Invocation} {next : Plain} {event : List (JsString × Plain)}
    (h : invocation.event = .ok (next, event)) :
    ∃ eventId ts decisionId status key allowed toStatus correlationId,
      event = auditEvent eventId ts decisionId (some status) toStatus correlationId ∧
      toText status = some key ∧ ALLOWED.lookup key = some allowed ∧ toStatus ∈ allowed := by
  unfold Invocation.event at h
  split at h
  · next input toStatus hinput hto =>
    split at h
    · cases h
    · split at h
      · cases h
      · next record hrecord =>
        split at h
        · cases h
        · next next' hnext =>
          dsimp only at h
          split at h
          · cases h
          · next idText hid =>
            obtain ⟨-, rfl⟩ := Prod.mk.inj (Except.ok.inj h)
            obtain ⟨status, key, allowed, hstatus, hkey, hallowed, hmem⟩ :=
              transitionDecision_ok hnext
            rw [hstatus]
            exact ⟨_, _, _, status, key, allowed, toStatus, _, rfl, hkey, hallowed, hmem⟩
  · cases h

/-- A value as a log has it. -/
def stored (v : Plain) : Plain := own (jsonImage v)

theorem stored_eq_str {v : Plain} {s : JsString} : stored v = .str s ↔ v = .str s := by
  constructor
  · intro h
    cases v with
    | str t => exact h
    | num n => cases n <;> cases h
    | arr vs =>
      rw [stored, jsonImage_arr, own_arr] at h
      cases h
    | obj ms =>
      rw [stored, jsonImage_obj, own_obj] at h
      cases h
    | _ => cases h
  · rintro rfl
    rfl

variable {eventId ts toStatus correlationId : JsString} {decisionId : Option Plain} {status : Plain}

/-- The members of an event stay in their order. -/
theorem stored_auditEvent :
    stored (.obj (auditEvent eventId ts decisionId (some status) toStatus correlationId)) =
      .obj ((auditEvent eventId ts decisionId (some status) toStatus correlationId).map fun m =>
        (m.1, stored m.2)) := by
  have horder : InOwnOrder (((auditEvent eventId ts decisionId (some status) toStatus
      correlationId).map fun m => (m.1, jsonImage m.2)).map Prod.fst) := by
    cases decisionId with
    | none =>
      exact show InOwnOrder [js "eventId", js "ts", js "action", js "from", js "to", js "actor",
        js "correlationId"] from ⟨by decide, by decide⟩
    | some id =>
      exact show InOwnOrder [js "eventId", js "ts", js "decisionId", js "action", js "from",
        js "to", js "actor", js "correlationId"] from ⟨by decide, by decide⟩
  rw [stored, jsonImage_obj, own_obj_of_inOwnOrder horder, List.map_map]
  rfl

theorem lookup_action : (auditEvent eventId ts decisionId (some status) toStatus
    correlationId).lookup (js "action") = some (.str (js "transition")) := by
  cases decisionId <;> rfl

theorem lookup_decisionId : (auditEvent eventId ts decisionId (some status) toStatus
    correlationId).lookup (js "decisionId") = decisionId := by
  cases decisionId <;> rfl

theorem lookup_from : (auditEvent eventId ts decisionId (some status) toStatus
    correlationId).lookup (js "from") = some status := by
  cases decisionId <;> rfl

theorem lookup_to : (auditEvent eventId ts decisionId (some status) toStatus
    correlationId).lookup (js "to") = some (.str toStatus) := by
  cases decisionId <;> rfl

/-- An event with the id of the decision is a transition of it. -/
theorem transitionsOf_stored (h : decisionId = some (.str id)) :
    transitionsOf id [stored (.obj (auditEvent eventId ts decisionId (some status) toStatus
      correlationId))] = [(some (stored status), some (.str toStatus))] := by
  have haction : stored (.str (js "transition")) = .str (js "transition") := rfl
  have hid : stored (.str id) = .str id := rfl
  have hto : stored (.str toStatus) = .str toStatus := rfl
  rw [stored_auditEvent, transitionsOf, List.filterMap_cons, List.filterMap_nil]
  dsimp only
  rw [lookup_map, lookup_map, lookup_map, lookup_map, lookup_action, lookup_decisionId, lookup_from,
    lookup_to, h, Option.map_some, Option.map_some, Option.map_some, Option.map_some, haction, hid,
    hto]
  dsimp only
  rw [if_pos ⟨rfl, rfl⟩]

/-- Other events are not. -/
theorem transitionsOf_stored_of_ne (h : decisionId ≠ some (.str id)) :
    transitionsOf id [stored (.obj (auditEvent eventId ts decisionId (some status) toStatus
      correlationId))] = [] := by
  rw [stored_auditEvent, transitionsOf, List.filterMap_cons, List.filterMap_nil]
  dsimp only
  rw [lookup_map, lookup_map, lookup_map, lookup_map, lookup_action, lookup_decisionId]
  have haction : stored (.str (js "transition")) = .str (js "transition") := rfl
  rw [Option.map_some, haction]
  cases hid : decisionId with
  | none => rfl
  | some v =>
    rw [Option.map_some]
    cases hv : stored v with
    | str d =>
      have hne : d ≠ id := by
        rintro rfl
        exact h (by rw [hid, stored_eq_str.mp hv])
      dsimp only
      rw [if_neg fun hboth => hne hboth.2]
    | _ => rfl

theorem transitionsOf_append (id : JsString) (events events' : List Plain) :
    transitionsOf id (events ++ events') = transitionsOf id events ++ transitionsOf id events' :=
  List.filterMap_append

/-! ## Logs -/

/-- The log consists of the lines of objects, which read as the events. -/
def Holds (log : Text) (events : List Plain) : Prop :=
  ∃ vs : List (List (JsString × Plain)), (∀ ms ∈ vs, JsonNumbers (.obj ms)) ∧
    log = vs.flatMap (fun ms => jsonLine (.obj ms)) ∧ events = vs.map fun ms => own (.obj ms)

variable {log : Text} {events : List Plain}

theorem holds_nil : Holds [] [] := ⟨[], by simp, rfl, rfl⟩

theorem Holds.read (h : Holds log events) : readDecisionAudit log = some events := by
  obtain ⟨vs, hnumbers, rfl, rfl⟩ := h
  exact readJsonLines_flatMap hnumbers

theorem Holds.append (h : Holds log events) (event : List (JsString × Plain)) :
    Holds (appendDecisionAudit log event) (events ++ [stored (.obj event)]) := by
  obtain ⟨vs, hnumbers, rfl, rfl⟩ := h
  have himage : jsonImage (.obj event) = .obj (event.map fun m => (m.1, jsonImage m.2)) :=
    jsonImage_obj event
  refine ⟨vs ++ [event.map fun m => (m.1, jsonImage m.2)], ?_, ?_, ?_⟩
  · intro ms hms
    rcases List.mem_append.mp hms with hms | hms
    · exact hnumbers ms hms
    · rw [List.mem_singleton.mp hms, ← himage]
      exact jsonNumbers_jsonImage _
  · rw [appendDecisionAudit, himage, List.flatMap_append, List.flatMap_singleton]
  · rw [List.map_append, List.map_singleton, stored, himage]

/-- What an invocation does to a log. -/
theorem handleDecisionTransition_snd (h : Holds log events) (invocation : Invocation) :
    (handleDecisionTransition log invocation).2 =
      match invocation.event with
      | .error _ => log
      | .ok (_, event) => appendDecisionAudit log event := by
  unfold handleDecisionTransition
  rcases invocation.event with e | ⟨next, event⟩
  · rfl
  · dsimp only
    rw [(h.append event).read]

/-- An invocation leaves the paths of the log in order exactly when it continues one. -/
theorem Holds.step (h : Holds log events) (invocation : Invocation) :
    ∃ events', Holds (handleDecisionTransition log invocation).2 events' ∧
      ((∀ id, IsPath (transitionsOf id events')) ↔
        (∀ id, IsPath (transitionsOf id events)) ∧ Continues (log, invocation)) := by
  rw [handleDecisionTransition_snd h]
  cases hevent : invocation.event with
  | error e =>
    refine ⟨events, h, ?_⟩
    have hcontinues : Continues (log, invocation) := by
      intro next event hok
      rw [hevent] at hok
      cases hok
    simp [hcontinues]
  | ok result =>
    obtain ⟨next, event⟩ := result
    refine ⟨_, h.append event, ?_⟩
    obtain ⟨eventId, ts, decisionId, status, key, allowed, toStatus, correlationId, rfl, hkey,
      hallowed, hmem⟩ := event_cases hevent
    have htransition : IsTransition (some (stored status), some (.str toStatus)) ↔
        ∃ s, status = .str s := by
      constructor
      · rintro ⟨s, t, _, hpair, -⟩
        exact ⟨s, stored_eq_str.mp (Option.some.inj (Prod.mk.inj hpair).1)⟩
      · rintro ⟨s, rfl⟩
        obtain rfl := Option.some.inj hkey
        exact ⟨s, toStatus, allowed, rfl, hallowed, hmem⟩
    have hcontinues : Continues (log, invocation) ↔ ∀ id, decisionId = some (.str id) →
        ∃ s, status = .str s ∧
          ∀ last ∈ (transitionsOf id events).getLast?, last.2 = some (.str s) := by
      constructor
      · intro hcontinues id hid
        obtain ⟨s, hs, hlast⟩ := hcontinues next _ hevent id (lookup_decisionId.trans hid)
        exact ⟨s, Option.some.inj (lookup_from.symm.trans hs), hlast events h.read⟩
      · intro hcontinues next' event hok id hid
        obtain ⟨-, rfl⟩ := Prod.mk.inj (Except.ok.inj (hevent.symm.trans hok))
        obtain ⟨s, hs, hlast⟩ := hcontinues id (lookup_decisionId.symm.trans hid)
        refine ⟨s, lookup_from.trans (congrArg some hs), fun events' hread => ?_⟩
        obtain rfl := Option.some.inj (h.read.symm.trans hread)
        exact hlast
    have hpath : ∀ id, IsPath (transitionsOf id (events ++ [stored (.obj (auditEvent eventId ts
        decisionId (some status) toStatus correlationId))])) ↔ IsPath (transitionsOf id events) ∧
          (decisionId = some (.str id) → ∃ s, status = .str s ∧
            ∀ last ∈ (transitionsOf id events).getLast?, last.2 = some (.str s)) := by
      intro id
      rw [transitionsOf_append]
      by_cases hid : decisionId = some (.str id)
      · rw [transitionsOf_stored hid, isPath_concat, htransition]
        refine and_congr_right fun _ => ⟨?_, ?_⟩
        · rintro ⟨⟨s, rfl⟩, hlast⟩ -
          exact ⟨s, rfl, fun last hmem => (hlast last hmem).symm⟩
        · intro hfollows
          obtain ⟨s, rfl, hlast⟩ := hfollows hid
          exact ⟨⟨s, rfl⟩, fun last hmem => (hlast last hmem).symm⟩
      · rw [transitionsOf_stored_of_ne hid, List.append_nil]
        exact ⟨fun hpath => ⟨hpath, fun heq => absurd heq hid⟩, fun hpath => hpath.1⟩
    rw [hcontinues]
    constructor
    · exact fun hall => ⟨fun id => ((hpath id).mp (hall id)).1, fun id => ((hpath id).mp (hall id)).2⟩
    · rintro ⟨hpaths, hfollows⟩ id
      exact (hpath id).mpr ⟨hpaths id, hfollows id⟩

/-- **The history of a decision.** The transitions of every decision in the log are a path exactly
when every invocation continues the path of its decision. -/
theorem history_lawful_iff (invocations : List Invocation) :
    Lawful (logAfter [] invocations) ↔ ∀ step ∈ steps [] invocations, Continues step := by
  have hrun : ∀ (invocations : List Invocation) (log : Text) (events : List Plain),
      Holds log events → ∃ events', Holds (logAfter log invocations) events' ∧
        ((∀ id, IsPath (transitionsOf id events')) ↔ (∀ id, IsPath (transitionsOf id events)) ∧
          ∀ step ∈ steps log invocations, Continues step) := by
    intro invocations
    induction invocations with
    | nil => exact fun log events h => ⟨events, h, by simp [steps, TransitionSystem.trace]⟩
    | cons invocation invocations ih =>
      intro log events h
      obtain ⟨events', h', hstep⟩ := h.step invocation
      obtain ⟨events'', h'', hrest⟩ := ih _ events' h'
      refine ⟨events'', h'', ?_⟩
      have htrace : steps log (invocation :: invocations) = (log, invocation) ::
          steps (handleDecisionTransition log invocation).2 invocations := rfl
      rw [hrest, hstep, htrace, List.forall_mem_cons, and_assoc]
  obtain ⟨events, h, hiff⟩ := hrun invocations [] [] holds_nil
  have hnil : ∀ id, IsPath (transitionsOf id []) := fun id => isPath_nil
  constructor
  · rintro ⟨events', hread, hpaths⟩
    obtain rfl := Option.some.inj (h.read.symm.trans hread)
    exact (hiff.mp hpaths).2
  · exact fun hcontinues => ⟨events, h.read, hiff.mpr ⟨hnil, hcontinues⟩⟩

/-! ## Two copies of a record -/

/-- A decision that is proposed. -/
def sampleRecord : Plain :=
  .obj [(js "id", .str (js "d")), (js "status", .str (js "proposed"))]

/-- A transition of the decision as it was proposed. -/
def sampleInvocation (toStatus : String) : Invocation where
  input := some (ofText (jsonText [] sampleRecord))
  toStatus := some (js toStatus)
  randomUUID := "e".toList
  dateNow := 0
  updatedAt := "t".toList
  ts := "t".toList

/-- The event of the transition. -/
def sampleEvent (toStatus : String) : List (JsString × Plain) :=
  auditEvent (js "e") (js "t") (some (.str (js "d"))) (some (.str (js "proposed"))) (js toStatus)
    (js "d:0")

theorem parseString_sampleRecord :
    parseString (ofText (jsonText [] sampleRecord)) = some sampleRecord := by
  have hordered : OwnOrdered sampleRecord := by
    rw [sampleRecord, ownOrdered_obj]
    refine ⟨⟨by decide, by decide⟩, fun m hm => ?_⟩
    rcases List.mem_pair.mp hm with rfl | rfl
    · trivial
    · trivial
  rw [parseString, documentText_ofText, Option.bind_some,
    parseJson_jsonText (by simp [Json.Blank]) hordered]
  rfl

theorem sampleInvocation_event : ∀ toStatus ∈ ["accepted", "rejected"], ∃ next,
    (sampleInvocation toStatus).event = .ok (next, sampleEvent toStatus) := by
  have hne : ofText (jsonText [] sampleRecord) ≠ [] := by
    intro hnil
    have hparse := parseString_sampleRecord
    rw [hnil] at hparse
    cases hparse
  intro toStatus hmem
  unfold Invocation.event sampleInvocation
  dsimp only
  rcases List.mem_pair.mp hmem with rfl | rfl
  · rw [if_neg (by simp [hne]), parseString_sampleRecord]
    exact ⟨_, rfl⟩
  · rw [if_neg (by simp [hne]), parseString_sampleRecord]
    exact ⟨_, rfl⟩

/-- A decision is accepted, and an older copy of it rejected. -/
theorem fork_not_lawful :
    ¬Lawful (logAfter [] [sampleInvocation "accepted", sampleInvocation "rejected"]) := by
  rintro ⟨events, hread, hpaths⟩
  obtain ⟨next, haccepted⟩ := sampleInvocation_event "accepted" (by decide)
  obtain ⟨next', hrejected⟩ := sampleInvocation_event "rejected" (by decide)
  have hfirst := handleDecisionTransition_snd holds_nil (sampleInvocation "accepted")
  rw [haccepted] at hfirst
  have hholds := holds_nil.append (sampleEvent "accepted")
  have hsecond := handleDecisionTransition_snd hholds (sampleInvocation "rejected")
  rw [hrejected] at hsecond
  have hlog : logAfter [] [sampleInvocation "accepted", sampleInvocation "rejected"] =
      appendDecisionAudit (appendDecisionAudit [] (sampleEvent "accepted"))
        (sampleEvent "rejected") := by
    rw [logAfter, List.foldl_cons, hfirst, List.foldl_cons, hsecond]
    rfl
  rw [hlog, (hholds.append (sampleEvent "rejected")).read] at hread
  obtain rfl := Option.some.inj hread
  have hconnected := (hpaths (js "d")).connected
  rw [transitionsOf_append, transitionsOf_append, sampleEvent, sampleEvent,
    transitionsOf_stored rfl, transitionsOf_stored rfl] at hconnected
  have hsame := List.isChain_cons_cons.mp hconnected
  exact absurd (js_inj.mp (Json.str.inj (Option.some.inj hsame.1))) (by decide)

end MemphisOS.Decision
