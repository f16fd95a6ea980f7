import MemphisOS.Cognitive.ModelD
import MemphisOS.Systems.Transition

/-!
# The life of a proposal

A proposal is voted on, closed and executed. Closing does not look at the status, so that a
proposal that has been executed can be closed, and executed, again.
-/

namespace MemphisOS.Cognitive

open Ecma

/-! ## Runs -/

inductive Call where
  | propose (env : Env) (title description proposerId : JsString) (type : ProposalType)
  | vote (env : Env) (proposalId agentId : JsString) (choice : Choice) (reason : Option JsString)
  | closeVoting (proposalId : JsString)
  | execute (env : Env) (proposalId executorId : JsString)

variable (config : ModelDConfig) (hmac : Hmac)

/-- The coordinator after a call, whether it returns or throws. -/
def ModelD.next (m : ModelD) : Call → ModelD
  | .propose env title description proposerId type =>
    (m.propose config env title description proposerId type).2
  | .vote env proposalId agentId choice reason =>
    (m.vote config hmac env proposalId agentId choice reason).2
  | .closeVoting proposalId => (m.closeVoting config proposalId).2
  | .execute env proposalId executorId => (m.execute env proposalId executorId).2

/-- The steps of a new coordinator over some calls. -/
def steps (calls : List Call) : List (ModelD × Call) :=
  TransitionSystem.trace (ModelD.next config hmac) .empty calls

/-- The call returns from executing the proposal at a place. -/
def Executes (place : ℕ) (step : ModelD × Call) : Bool :=
  match step.2 with
  | .execute env proposalId executorId =>
    (step.1.execute env proposalId executorId).1.isOk &&
      (step.1.get proposalId).any fun found => found.1 = place
  | _ => false

/-- The call closes a proposal that has been executed. -/
def ReopensExecuted (step : ModelD × Call) : Bool :=
  match step.2 with
  | .closeVoting proposalId =>
    (step.1.get proposalId).any fun found => found.2.status = .executed
  | _ => false

/-! ## What a call may do -/

/-- The moves of a status. -/
inductive Moves : ProposalStatus → ProposalStatus → Prop
  | approve : Moves .voting .approved
  | reject : Moves .voting .rejected
  | execute : Moves .approved .executed

/-- The call is a vote of the agent, and the clock does not read past the deadline. -/
def CastsInTime (call : Call) (agentId : JsString) (proposal : Proposal) : Prop :=
  match call with
  | .vote env _ voter _ _ => voter = agentId ∧ passed (env.clock 0) proposal.votingDeadline = false
  | _ => False

/-- What a call may do to a proposal. -/
structure Proposal.Follows (p : Proposal) (call : Call) (p' : Proposal) : Prop where
  status : p'.status = p.status ∨ Moves p.status p'.status
  verdict : p.status ≠ .voting →
    p'.result.map DecisionResult.toVerdict = p.result.map DecisionResult.toVerdict
  votes : p'.votes = p.votes ∨ ∃ vote, p'.votes = p.votes ++ [vote] ∧ p.status = .voting ∧
    CastsInTime call vote.agentId p

/-- A registered agent has at most one vote, and nobody else has one. -/
structure Proposal.OneVoteEach (p : Proposal) : Prop where
  different : (p.votes.map Vote.agentId).Nodup
  registered : ∀ vote ∈ p.votes, (config.registered.lookup vote.agentId).isSome

/-- The steps of a run treat every proposal as they should. -/
structure Lawful (run : List (ModelD × Call)) : Prop where
  /-- Proposals follow the moves and keep their verdict, and a vote is cast in time. -/
  follows : ∀ step ∈ run, ∀ (place : ℕ) (p : Proposal), step.1.objects[place]? = some p →
    ∃ p', (step.1.next config hmac step.2).objects[place]? = some p' ∧ p.Follows step.2 p'
  /-- A new proposal is open and has no votes. -/
  opened : ∀ step ∈ run, ∀ (place : ℕ) (p' : Proposal), step.1.objects[place]? = none →
    (step.1.next config hmac step.2).objects[place]? = some p' →
      p'.status = .voting ∧ p'.votes = []
  /-- A proposal is executed at most once. -/
  once : ∀ place : ℕ, run.countP (Executes place) ≤ 1
  /-- Every agent votes at most once. -/
  each : ∀ step ∈ run, ∀ p ∈ (step.1.next config hmac step.2).objects, p.OneVoteEach config

/-! ## Single calls -/

variable {config hmac}
variable {m m' : ModelD} {call : Call} {place i : ℕ} {p p' : Proposal} {id : JsString} {env : Env}

/-- A found proposal is the object at its place. -/
theorem ModelD.get_eq_some (h : m.get id = some (i, p)) : m.objects[i]? = some p := by
  obtain ⟨j, -, hobject⟩ := Option.bind_eq_some_iff.mp h
  obtain ⟨q, hq, heq⟩ := Option.map_eq_some_iff.mp hobject
  obtain ⟨rfl, rfl⟩ := Prod.mk.inj heq
  exact hq

theorem ModelD.objects_put (m : ModelD) (i : ℕ) (p : Proposal) (place : ℕ) :
    (m.put i p).objects[place]? =
      if i = place then (m.objects[place]?).map fun _ => p else m.objects[place]? := by
  rw [put, List.getElem?_set]
  split
  · next heq =>
    subst heq
    split
    · next hlt => rw [List.getElem?_eq_getElem hlt, Option.map_some]
    · next hge => rw [List.getElem?_eq_none (Nat.le_of_not_lt hge), Option.map_none]
  · rfl

/-- What closing does to a proposal. -/
def Proposal.close (config : ModelDConfig) (p : Proposal) : Proposal :=
  { p with
    result := some { config.verdict p.votes with executedBy := none, executedAt := none }
    status := if (config.verdict p.votes).approved then .approved else .rejected }

/-- What a call may do to a proposal it finds. -/
inductive Changes (config : ModelDConfig) (call : Call) : Proposal → Proposal → Prop
  | cast {p : Proposal} {vote : Vote} : p.status = .voting →
      (config.registered.lookup vote.agentId).isSome → vote.agentId ∉ p.votes.map Vote.agentId →
      CastsInTime call vote.agentId p → Changes config call p { p with votes := p.votes ++ [vote] }
  | castAndClose {p : Proposal} {vote : Vote} : p.status = .voting →
      (config.registered.lookup vote.agentId).isSome → vote.agentId ∉ p.votes.map Vote.agentId →
      CastsInTime call vote.agentId p →
        Changes config call p (Proposal.close config { p with votes := p.votes ++ [vote] })
  | close {p : Proposal} {id : JsString} : call = .closeVoting id →
      Changes config call p (p.close config)
  | execute {p : Proposal} {env : Env} {id executorId : JsString} {executedBy : Option JsString}
      {executedAt : Option ℕ} : call = .execute env id executorId → p.status = .approved →
      Changes config call p
        { p with
          result := p.result.map fun result => { result with executedBy, executedAt }
          status := .executed }

/-- What a call may do to a coordinator. -/
inductive Effect (config : ModelDConfig) (m : ModelD) (call : Call) : ModelD → Prop
  | nothing : Effect config m call m
  | opens {p : Proposal} {proposals : List (JsString × ℕ)} : p.status = .voting → p.votes = [] →
      Effect config m call ⟨proposals, m.objects ++ [p]⟩
  | changes {i : ℕ} {p p' : Proposal} : m.objects[i]? = some p → Changes config call p p' →
      (∀ proposalId, call = .closeVoting proposalId → m.get proposalId = some (i, p)) →
      (∀ env proposalId executorId, call = .execute env proposalId executorId →
        m.get proposalId = some (i, p)) → Effect config m call (m.put i p')

theorem ModelD.get_put (h : m.get id = some (i, p)) (p' : Proposal) :
    (m.put i p').get id = some (i, p') := by
  obtain ⟨j, hj, hobject⟩ := Option.bind_eq_some_iff.mp h
  obtain ⟨q, hq, heq⟩ := Option.map_eq_some_iff.mp hobject
  obtain ⟨rfl, rfl⟩ := Prod.mk.inj heq
  have hput : (m.put j p').objects[j]? = some p' := by rw [objects_put, if_pos rfl, hq]; rfl
  have hlookup : (m.put j p').proposals.lookup id = some j := hj
  rw [get, hlookup, Option.bind_some, hput]
  rfl

theorem ModelD.put_put (m : ModelD) (i : ℕ) (p p' : Proposal) :
    (m.put i p).put i p' = m.put i p' := by
  rw [put, put, put, List.set_set]

theorem ModelD.closeVoting_eq (h : m.get id = some (i, p)) :
    ∃ result, m.closeVoting config id = (.ok result, m.put i (p.close config)) := by
  unfold closeVoting
  rw [h]
  exact ⟨_, rfl⟩

theorem ModelD.effect_vote (config : ModelDConfig) (hmac : Hmac) (m : ModelD) (env : Env)
    (id agentId : JsString) (choice : Choice) (reason : Option JsString) :
    Effect config m (.vote env id agentId choice reason)
      (m.vote config hmac env id agentId choice reason).2 := by
  unfold vote
  split
  · exact .nothing
  · next i p hget =>
    split
    · exact .nothing
    · next hvoting =>
      have hvoting : p.status = .voting := not_not.mp hvoting
      split
      · exact .nothing
      · next agent hagent =>
        split
        · exact .nothing
        · next hnew =>
          split
          · exact .nothing
          · next hintime =>
            have hregistered : (config.registered.lookup agentId).isSome := by rw [hagent]; rfl
            have hnot : agentId ∉ p.votes.map Vote.agentId := by
              intro hmem
              obtain ⟨vote, hvote, hid⟩ := List.mem_map.mp hmem
              exact hnew (List.any_eq_true.mpr ⟨vote, hvote, decide_eq_true hid⟩)
            have hcasts : CastsInTime (.vote env id agentId choice reason) agentId p :=
              ⟨rfl, eq_false_of_ne_true hintime⟩
            have hclose : ∀ proposalId, Call.vote env id agentId choice reason =
                .closeVoting proposalId → m.get proposalId = some (i, p) := by
              rintro _ ⟨⟩
            have hexecute : ∀ env' proposalId executorId, Call.vote env id agentId choice reason =
                .execute env' proposalId executorId → m.get proposalId = some (i, p) := by
              rintro _ _ _ ⟨⟩
            dsimp only
            split
            · obtain ⟨result, hclosed⟩ := @ModelD.closeVoting_eq config _ _ _ _
                (ModelD.get_put hget { p with votes := p.votes ++ [⟨agentId, choice, agent.weight,
                  reason, env.clock 1, signVote hmac (env.clock 2) agentId choice id⟩] })
              rw [hclosed, ModelD.put_put]
              exact .changes (ModelD.get_eq_some hget)
                (.castAndClose hvoting hregistered hnot hcasts) hclose hexecute
            · exact .changes (ModelD.get_eq_some hget) (.cast hvoting hregistered hnot hcasts) hclose
                hexecute

/-- Every call has one of the effects. -/
theorem ModelD.effect_next (config : ModelDConfig) (hmac : Hmac) (m : ModelD) (call : Call) :
    Effect config m call (m.next config hmac call) := by
  cases call with
  | propose env title description proposerId type => exact .opens rfl rfl
  | vote env id agentId choice reason =>
    exact ModelD.effect_vote config hmac m env id agentId choice reason
  | closeVoting id =>
    rw [next, closeVoting]
    split
    · exact .nothing
    · next i p hget =>
      refine .changes (ModelD.get_eq_some hget) (.close rfl) ?_ ?_
      · rintro _ ⟨⟩
        exact hget
      · rintro _ _ _ ⟨⟩
  | execute env id executorId =>
    rw [next, execute]
    split
    · exact .nothing
    · next i p hget =>
      split
      · exact .nothing
      · next happroved =>
        refine .changes (ModelD.get_eq_some hget) (.execute rfl (not_not.mp happroved)) ?_ ?_
        · rintro _ ⟨⟩
        · rintro _ _ _ ⟨⟩
          exact hget

/-! ## Invariants -/

/-- A closed proposal has the verdict of its votes, and a status that agrees with it. -/
structure Proposal.Settled (config : ModelDConfig) (p : Proposal) : Prop where
  opened : p.status ≠ .pending
  verdict : p.status ≠ .voting →
    p.result.map DecisionResult.toVerdict = some (config.verdict p.votes)
  approved : p.status = .approved ∨ p.status = .executed →
    (config.verdict p.votes).approved = true
  rejected : p.status = .rejected → (config.verdict p.votes).approved = false

theorem Proposal.settled_close (config : ModelDConfig) (p : Proposal) :
    (p.close config).Settled config := by
  by_cases happroved : (config.verdict p.votes).approved = true
  · have hstatus : (p.close config).status = .approved := if_pos happroved
    refine ⟨?_, fun _ => rfl, fun _ => happroved, fun h => ?_⟩
    · rw [hstatus]
      decide
    · exact absurd (hstatus.symm.trans h) (by decide)
  · have hstatus : (p.close config).status = .rejected := if_neg happroved
    refine ⟨?_, fun _ => rfl, fun h => ?_, fun _ => eq_false_of_ne_true happroved⟩
    · rw [hstatus]
      decide
    · rcases h with h | h <;> exact absurd (hstatus.symm.trans h) (by decide)

theorem Changes.settled (h : Changes config call p p') (hp : p.Settled config) :
    p'.Settled config := by
  cases h with
  | cast hvoting =>
    refine ⟨hp.opened, fun hnot => absurd hvoting hnot, fun h => ?_, fun h => ?_⟩
    · rcases h with h | h <;> exact absurd (hvoting.symm.trans h) (by decide)
    · exact absurd (hvoting.symm.trans h) (by decide)
  | castAndClose => exact Proposal.settled_close config _
  | close => exact Proposal.settled_close config p
  | execute _ happroved =>
    refine ⟨nofun, fun _ => ?_, fun _ => hp.approved (.inl happroved), nofun⟩
    rw [← hp.verdict (by rw [happroved]; decide), Option.map_map]
    rfl

theorem Changes.oneVoteEach (h : Changes config call p p') (hp : p.OneVoteEach config) :
    p'.OneVoteEach config := by
  have hcast : ∀ {vote : Vote}, (config.registered.lookup vote.agentId).isSome →
      vote.agentId ∉ p.votes.map Vote.agentId →
        ((p.votes ++ [vote]).map Vote.agentId).Nodup ∧
          ∀ v ∈ p.votes ++ [vote], (config.registered.lookup v.agentId).isSome := by
    intro vote hregistered hnot
    refine ⟨?_, ?_⟩
    · rw [List.map_append]
      exact List.nodup_append.mpr ⟨hp.different, List.nodup_singleton _, fun a ha b hb heq =>
        hnot (by rwa [heq, List.mem_singleton.mp hb] at ha)⟩
    · intro v hv
      rcases List.mem_append.mp hv with hv | hv
      · exact hp.registered v hv
      · rw [List.mem_singleton.mp hv]
        exact hregistered
  cases h with
  | cast _ hregistered hnot =>
    obtain ⟨hdifferent, hall⟩ := hcast hregistered hnot
    exact ⟨hdifferent, hall⟩
  | castAndClose _ hregistered hnot =>
    obtain ⟨hdifferent, hall⟩ := hcast hregistered hnot
    exact ⟨hdifferent, hall⟩
  | close => exact ⟨hp.different, hp.registered⟩
  | execute => exact ⟨hp.different, hp.registered⟩

/-- What holds of every proposal. -/
def ModelD.Settled (config : ModelDConfig) (m : ModelD) : Prop :=
  ∀ p ∈ m.objects, p.Settled config ∧ p.OneVoteEach config

theorem Effect.settled (h : Effect config m call m') (hm : m.Settled config) :
    m'.Settled config := by
  cases h with
  | nothing => exact hm
  | @opens p proposals hvoting hvotes =>
    intro q hq
    rcases List.mem_append.mp hq with hq | hq
    · exact hm q hq
    · obtain rfl := List.mem_singleton.mp hq
      refine ⟨⟨by rw [hvoting]; decide, fun hnot => absurd hvoting hnot, fun h => ?_, fun h => ?_⟩,
        by simp [hvotes], by simp [hvotes]⟩
      · rcases h with h | h <;> exact absurd (hvoting.symm.trans h) (by decide)
      · exact absurd (hvoting.symm.trans h) (by decide)
  | changes hobject hchanges =>
    intro q hq
    obtain ⟨hp, heach⟩ := hm _ (List.mem_of_getElem? hobject)
    rcases List.mem_or_eq_of_mem_set hq with hq | rfl
    · exact hm q hq
    · exact ⟨hchanges.settled hp, hchanges.oneVoteEach heach⟩

/-- A change follows the rules, unless it closes an executed proposal. -/
theorem Changes.follows (h : Changes config call p p') (hp : p.Settled config)
    (hnot : ∀ id, call = .closeVoting id → p.status ≠ .executed) : p.Follows call p' := by
  cases h with
  | @cast vote hvoting _ _ hcasts =>
    exact ⟨.inl rfl, fun _ => rfl, .inr ⟨vote, rfl, hvoting, hcasts⟩⟩
  | @castAndClose vote hvoting _ _ hcasts =>
    refine ⟨.inr ?_, fun hclosed => absurd hvoting hclosed, .inr ⟨vote, rfl, hvoting, hcasts⟩⟩
    rw [hvoting, Proposal.close]
    dsimp only
    split
    · exact .approve
    · exact .reject
  | @close id hcall =>
    refine ⟨?_, fun hclosed => (hp.verdict hclosed).symm, .inl rfl⟩
    rw [Proposal.close]
    cases hstatus : p.status with
    | pending => exact absurd hstatus hp.opened
    | voting =>
      dsimp only
      split
      · exact .inr .approve
      · exact .inr .reject
    | approved => exact .inl (if_pos (hp.approved (.inl hstatus)))
    | rejected => exact .inl (if_neg (by rw [hp.rejected hstatus]; exact Bool.false_ne_true))
    | executed => exact absurd hstatus (hnot id hcall)
  | execute _ happroved =>
    refine ⟨.inr ?_, fun _ => ?_, .inl rfl⟩
    · rw [happroved]
      exact .execute
    · rw [Option.map_map]
      rfl

/-! ## Steps -/

/-- A call treats every proposal as it should, unless it closes an executed one. -/
theorem Effect.follows (h : Effect config m call m') (hm : m.Settled config)
    (hkeeps : ReopensExecuted (m, call) = false) (hp : m.objects[place]? = some p) :
    ∃ p', m'.objects[place]? = some p' ∧ p.Follows call p' := by
  have hsame : p.Follows call p := ⟨.inl rfl, fun _ => rfl, .inl rfl⟩
  cases h with
  | nothing => exact ⟨p, hp, hsame⟩
  | opens hvoting hvotes =>
    refine ⟨p, ?_, hsame⟩
    rw [List.getElem?_append_left (List.getElem?_eq_some_iff.mp hp).1]
    exact hp
  | @changes i q q' hobject hchanges hclose =>
    rw [ModelD.objects_put]
    by_cases hplace : i = place
    · subst hplace
      obtain rfl := Option.some.inj (hobject.symm.trans hp)
      refine ⟨q', by rw [if_pos rfl, hobject]; rfl,
        hchanges.follows (hm _ (List.mem_of_getElem? hobject)).1 fun id hcall hexecuted => ?_⟩
      rw [ReopensExecuted, hcall] at hkeeps
      dsimp only at hkeeps
      rw [hclose id hcall, Option.any_some, decide_eq_false_iff_not] at hkeeps
      exact hkeeps hexecuted
    · exact ⟨p, by rw [if_neg hplace]; exact hp, hsame⟩

theorem Effect.opened (h : Effect config m call m') (hnone : m.objects[place]? = none)
    (hp' : m'.objects[place]? = some p') : p'.status = .voting ∧ p'.votes = [] := by
  cases h with
  | nothing =>
    rw [hnone] at hp'
    cases hp'
  | @opens p proposals hvoting hvotes =>
    dsimp only at hp'
    rw [List.getElem?_append_right (List.getElem?_eq_none_iff.mp hnone)] at hp'
    obtain rfl := List.mem_singleton.mp (List.mem_of_getElem? hp')
    exact ⟨hvoting, hvotes⟩
  | changes hobject =>
    rw [ModelD.objects_put, hnone] at hp'
    split at hp' <;> cases hp'

/-- An execution finds its proposal approved and leaves it executed. -/
theorem status_of_executes (h : Executes place (m, call) = true) :
    (∃ p, m.objects[place]? = some p ∧ p.status = .approved) ∧
      ∃ p', (m.next config hmac call).objects[place]? = some p' ∧ p'.status = .executed := by
  cases call with
  | execute env id executorId =>
    rw [Executes, Bool.and_eq_true, ModelD.execute] at h
    rw [ModelD.next, ModelD.execute]
    obtain ⟨hok, hplace⟩ := h
    rcases hget : m.get id with _ | ⟨i, p⟩
    · rw [hget] at hplace
      cases hplace
    · rw [hget] at hok hplace
      rw [Option.any_some, decide_eq_true_eq] at hplace
      dsimp only at hplace hok ⊢
      subst hplace
      by_cases happroved : p.status = .approved
      · have hobject := ModelD.get_eq_some hget
        refine ⟨⟨p, hobject, happroved⟩, ?_⟩
        rw [if_neg (not_not.mpr happroved), ModelD.objects_put, if_pos rfl, hobject]
        exact ⟨_, rfl, rfl⟩
      · rw [if_pos happroved] at hok
        cases hok
  | _ => cases h

/-- The proposal at a place has been executed. -/
def ModelD.Executed (m : ModelD) (place : ℕ) : Prop :=
  ∃ p, m.objects[place]? = some p ∧ p.status = .executed

/-- Nothing is executed after an execution, and nothing twice. -/
theorem countP_executes_le {calls : List Call} (hm : m.Settled config)
    (hkeeps : ∀ step ∈ TransitionSystem.trace (ModelD.next config hmac) m calls,
      ReopensExecuted step = false) (place : ℕ) :
    (TransitionSystem.trace (ModelD.next config hmac) m calls).countP (Executes place) ≤ 1 ∧
      (m.Executed place →
        (TransitionSystem.trace (ModelD.next config hmac) m calls).countP (Executes place) = 0) := by
  induction calls generalizing m with
  | nil => exact ⟨Nat.zero_le 1, fun _ => rfl⟩
  | cons call calls ih =>
    have heffect := ModelD.effect_next config hmac m call
    have hkeepsCall := hkeeps (m, call) List.mem_cons_self
    obtain ⟨hle, hzero⟩ := ih (heffect.settled hm) fun step hstep =>
      hkeeps step (List.mem_cons_of_mem _ hstep)
    rw [TransitionSystem.trace, List.countP_cons]
    by_cases hexecutes : Executes place (m, call) = true
    · rw [if_pos hexecutes]
      obtain ⟨⟨p, hp, happroved⟩, hexecuted⟩ :=
        @status_of_executes config hmac _ _ _ hexecutes
      rw [hzero hexecuted]
      refine ⟨Nat.le_refl 1, ?_⟩
      rintro ⟨q, hq, hstatus⟩
      obtain rfl := Option.some.inj (hp.symm.trans hq)
      rw [happroved] at hstatus
      cases hstatus
    · rw [if_neg hexecutes]
      refine ⟨hle, ?_⟩
      rintro ⟨p, hp, hstatus⟩
      obtain ⟨p', hp', hfollows⟩ := heffect.follows hm hkeepsCall hp
      refine hzero ⟨p', hp', ?_⟩
      rcases hfollows.status with hsame | hmoves
      · exact hsame.trans hstatus
      · rw [hstatus] at hmoves
        cases hmoves

/-- **Collective decisions.** A run treats its proposals as it should exactly when no call closes
a proposal that has been executed. -/
theorem lawful_iff (config : ModelDConfig) (hmac : Hmac) (calls : List Call) :
    Lawful config hmac (steps config hmac calls) ↔
      ∀ step ∈ steps config hmac calls, ReopensExecuted step = false := by
  have hempty : ModelD.empty.Settled config := fun p hp => by cases hp
  have hsettled : ∀ step ∈ steps config hmac calls, step.1.Settled config :=
    TransitionSystem.trace_invariant hempty fun step _ hstep =>
      (ModelD.effect_next config hmac step.1 step.2).settled hstep
  constructor
  · rintro hlawful ⟨m, call⟩ hstep
    by_contra hreopens
    rw [Bool.not_eq_false] at hreopens
    cases call with
    | closeVoting id =>
      rw [ReopensExecuted, Option.any_eq_true] at hreopens
      obtain ⟨⟨i, p⟩, hget, hexecuted⟩ := hreopens
      have hexecuted : p.status = .executed := of_decide_eq_true hexecuted
      have hobject := ModelD.get_eq_some hget
      obtain ⟨p', hp', hfollows⟩ := hlawful.follows _ hstep i p hobject
      obtain ⟨result, hclosed⟩ := @ModelD.closeVoting_eq config _ _ _ _ hget
      dsimp only at hp'
      rw [ModelD.next, hclosed, ModelD.objects_put, if_pos rfl, hobject] at hp'
      obtain rfl := Option.some.inj hp'
      have hstatus := hfollows.status
      rw [hexecuted, Proposal.close] at hstatus
      dsimp only at hstatus
      -- A closed proposal is approved or rejected, and no move leads there from executed.
      split at hstatus <;> rcases hstatus with hsame | hmoves <;> contradiction
    | _ => cases hreopens
  · intro hkeeps
    refine ⟨?_, ?_, fun place => (countP_executes_le hempty hkeeps place).1, ?_⟩
    · rintro ⟨m, call⟩ hstep place p hp
      exact (ModelD.effect_next config hmac m call).follows (hsettled _ hstep) (hkeeps _ hstep) hp
    · rintro ⟨m, call⟩ hstep place p' hnone hp'
      exact (ModelD.effect_next config hmac m call).opened hnone hp'
    · rintro ⟨m, call⟩ hstep p hp
      exact ((ModelD.effect_next config hmac m call).settled (hsettled _ hstep) p hp).2

/-! ## A decision that is executed twice -/

/-- One agent, and a second for voting. -/
def sampleConfig : ModelDConfig where
  consensusThreshold := .ofNat 1
  votingTimeout := .ofNat 1000
  agents := [⟨js "watra", .ofNat 1⟩]

def sampleEnv : Env := ⟨fun _ => 0, "00000000".toList⟩

def sampleHmac : Hmac := fun text => text

def sampleId : JsString := js "proposal-0-00000000"

/-- The agent approves its own proposal and executes it, before and after closing it again. -/
def sampleCalls : List Call :=
  [.propose sampleEnv (js "t") (js "d") (js "watra") .tactical,
    .vote sampleEnv sampleId (js "watra") .approve none,
    .execute sampleEnv sampleId (js "watra"),
    .closeVoting sampleId,
    .execute sampleEnv sampleId (js "watra")]

theorem sampleCalls_executes :
    (steps sampleConfig sampleHmac sampleCalls).countP (Executes 0) = 2 := by
  decide +kernel

/-- The decision is executed twice. -/
theorem executed_twice : ¬Lawful sampleConfig sampleHmac (steps sampleConfig sampleHmac sampleCalls) := by
  intro hlawful
  have honce := hlawful.once 0
  rw [sampleCalls_executes] at honce
  omega

end MemphisOS.Cognitive
