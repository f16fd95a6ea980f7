import MemphisOS.Cognitive.Voting
import MemphisOS.Systems.WeightedVotes
import Mathlib.Algebra.BigOperators.Group.List.Basic
import Mathlib.Algebra.Order.BigOperators.Group.List

/-!
# Closing a vote early

A vote is closed early when more than half of the agents agree. The verdict looks at the weights,
and the agents that have not voted may outweigh those that have. Weights are read as rational
numbers here, and sums and quotients are exact.
-/

namespace MemphisOS.Cognitive

open Ecma WeightedVotes

/-! ## Verdicts in exact arithmetic -/

/-- A finite number. -/
def exactly (n : JsNumber) : ℚ := n.toRat?.getD 0

def totalWeight (votes : List Vote) : ℚ := (votes.map fun vote => exactly vote.weight).sum

def weightedApprove (votes : List Vote) : ℚ := totalWeight (votes.filter (·.choice = .approve))

def weightedTotal (votes : List Vote) : ℚ := totalWeight (votes.filter (·.choice ≠ .abstain))

/-- What `closeVoting` decides: its status is approved or rejected. -/
def exactlyApproved (config : ModelDConfig) (votes : List Vote) : Bool :=
  let weightedScore :=
    if 0 < weightedTotal votes then weightedApprove votes / weightedTotal votes else 0
  exactly config.consensusThreshold ≤ weightedScore && 1 / 2 ≤ weightedScore

/-- Weights are finite and not negative, and the threshold is in the unit interval. -/
structure ModelDConfig.InRange (config : ModelDConfig) : Prop where
  weights : ∀ entry ∈ config.registered,
    entry.2.weight.isFinite = true ∧ 0 ≤ exactly entry.2.weight
  threshold : config.consensusThreshold.isFinite = true ∧
    0 ≤ exactly config.consensusThreshold ∧ exactly config.consensusThreshold ≤ 1

/-- The agents that have not voted. -/
def missing (config : ModelDConfig) (votes : List Vote) : List (JsString × AgentConfig) :=
  config.registered.filter fun entry => !votes.any (·.agentId = entry.1)

def missingWeight (config : ModelDConfig) (votes : List Vote) : ℚ :=
  ((missing config votes).map fun entry => exactly entry.2.weight).sum

/-- A registered agent votes with its weight. -/
def Weighed (config : ModelDConfig) (vote : Vote) : Prop :=
  ∃ agent, config.registered.lookup vote.agentId = some agent ∧ vote.weight = agent.weight

/-- Votes of all agents that have not voted, in any order. -/
structure Completes (config : ModelDConfig) (votes rest : List Vote) : Prop where
  agents : (rest.map Vote.agentId).Perm ((missing config votes).map Prod.fst)
  weighed : ∀ vote ∈ rest, Weighed config vote

variable {config : ModelDConfig} {votes rest : List Vote}

theorem totalWeight_append (votes rest : List Vote) :
    totalWeight (votes ++ rest) = totalWeight votes + totalWeight rest := by
  rw [totalWeight, List.map_append, List.sum_append]
  rfl

theorem toRat?_of_isFinite {n : JsNumber} (h : n.isFinite = true) : n.toRat? = some (exactly n) := by
  cases n with
  | nan => cases h
  | infinity => cases h
  | negZero => rfl
  | finite => rfl

theorem toRat?_half : half.toRat? = some (1 / 2) := by
  have hround : roundToDouble (1 / 2) = some (1 / 2) := by
    have hbound : |((1 : ℤ) : ℚ) * 2 ^ (-1 : ℤ)| < 2 ^ 1024 := by
      have hhalf : |((1 : ℤ) : ℚ) * 2 ^ (-1 : ℤ)| < 1 := by norm_num
      exact hhalf.trans_le (one_le_pow₀ (by norm_num))
    have hgrid := roundToDouble_of_grid (m := 1) (e := -1) (by norm_num) (by norm_num) hbound
    norm_num at hgrid ⊢
    exact hgrid
  have hone := @JsNumber.toRat?_ofNat 1 (by norm_num)
  have htwo := @JsNumber.toRat?_ofNat 2 (by norm_num)
  rw [Nat.cast_one] at hone
  rw [Nat.cast_two] at htwo
  exact JsNumber.toRat?_div hone htwo (by norm_num) hround

/-- Rounding leaves the sums over the votes and their quotient alone. -/
structure Unrounded (votes : List Vote) : Prop where
  approve : (summarizeVotes votes).weightedApprove.toRat? = some (weightedApprove votes)
  total : (summarizeVotes votes).weightedTotal.toRat? = some (weightedTotal votes)
  score : roundToDouble (weightedApprove votes / weightedTotal votes) =
    some (weightedApprove votes / weightedTotal votes)

/-- The verdict of `closeVoting` is the exact one as long as nothing is rounded. -/
theorem approved_verdict (hthreshold : config.consensusThreshold.isFinite = true)
    (h : Unrounded votes) : (config.verdict votes).approved = exactlyApproved config votes := by
  have hzero := @JsNumber.toRat?_ofNat 0 (by norm_num)
  rw [Nat.cast_zero] at hzero
  have hlimit := toRat?_of_isFinite hthreshold
  unfold ModelDConfig.verdict exactlyApproved
  dsimp only
  rw [JsNumber.lt_of_toRat? hzero h.total]
  by_cases hpos : 0 < weightedTotal votes
  · have hscore := JsNumber.toRat?_div h.approve h.total hpos.ne' h.score
    rw [if_pos (decide_eq_true hpos), if_pos hpos, JsNumber.le_of_toRat? hlimit hscore,
      JsNumber.le_of_toRat? toRat?_half hscore]
  · rw [if_neg (by rw [decide_eq_true_eq]; exact hpos), if_neg hpos,
      JsNumber.le_of_toRat? hlimit hzero, JsNumber.le_of_toRat? toRat?_half hzero]

theorem totalWeight_nonneg (h : ∀ vote ∈ votes, 0 ≤ exactly vote.weight) : 0 ≤ totalWeight votes :=
  List.sum_nonneg (List.forall_mem_map.mpr h)

theorem nodup_registered (config : ModelDConfig) : (config.registered.map Prod.fst).Nodup := by
  rw [ModelDConfig.registered, ← @List.foldl_map _ _ _ (fun agent : AgentConfig => (agent.id, agent))
    (fun agents entry => setMember entry.1 entry.2 agents)]
  exact defineMembers_nodup _

theorem Weighed.nonneg {vote : Vote} (hconfig : config.InRange) (h : Weighed config vote) :
    0 ≤ exactly vote.weight := by
  obtain ⟨agent, hagent, hweight⟩ := h
  rw [hweight]
  exact (hconfig.weights _ (mem_of_lookup_eq_some hagent)).2

/-- Completing votes carry the weight that is missing. -/
theorem Completes.totalWeight (h : Completes config votes rest) :
    totalWeight rest = missingWeight config votes := by
  let weightOf : JsString → ℚ := fun id =>
    ((config.registered.lookup id).map fun agent => exactly agent.weight).getD 0
  have hrest : (rest.map fun vote => exactly vote.weight) = (rest.map Vote.agentId).map weightOf := by
    rw [List.map_map]
    refine List.map_congr_left fun vote hvote => ?_
    obtain ⟨agent, hagent, hweight⟩ := h.weighed vote hvote
    simp only [Function.comp_apply, weightOf, hagent, Option.map_some, Option.getD_some, hweight]
  have hmissing : ((missing config votes).map fun entry => exactly entry.2.weight) =
      ((missing config votes).map Prod.fst).map weightOf := by
    rw [List.map_map]
    refine List.map_congr_left fun entry hentry => ?_
    have hagent := lookup_of_mem (nodup_registered config) (List.mem_of_mem_filter hentry)
    simp only [Function.comp_apply, weightOf, hagent, Option.map_some, Option.getD_some]
  rw [Cognitive.totalWeight, missingWeight, hrest, hmissing]
  exact (h.agents.map weightOf).sum_eq

/-- The vote that is stored. -/
def castVote (hmac : Hmac) (env : Env) (id : JsString) (choice : Choice) (reason : Option JsString)
    (agentId : JsString) (agent : AgentConfig) : Vote :=
  { agentId, choice
    weight := agent.weight
    reason
    timestamp := env.clock 1
    signature := signVote hmac (env.clock 2) agentId choice id }

/-- The call finds an open proposal that the agent may vote on. -/
structure Accepts (config : ModelDConfig) (m : ModelD) (env : Env) (id agentId : JsString) (i : ℕ)
    (p : Proposal) (agent : AgentConfig) : Prop where
  found : m.get id = some (i, p)
  voting : p.status = .voting
  registered : config.registered.lookup agentId = some agent
  new : ∀ vote ∈ p.votes, vote.agentId ≠ agentId
  inTime : passed (env.clock 0) p.votingDeadline = false

variable {hmac : Hmac} {m : ModelD} {env : Env} {id agentId : JsString} {choice : Choice}
  {reason : Option JsString} {i : ℕ} {p : Proposal} {agent : AgentConfig}

/-- The proposal with the vote. -/
def Proposal.withVote (p : Proposal) (vote : Vote) : Proposal := { p with votes := p.votes ++ [vote] }

/-- An accepted vote is stored, and closes the proposal when `shouldCloseVoting` says so. -/
theorem vote_of_accepts (h : Accepts config m env id agentId i p agent) :
    (m.vote config hmac env id agentId choice reason).2 =
      m.put i (if shouldCloseVoting config (env.clock 3)
          (p.withVote (castVote hmac env id choice reason agentId agent)) then
        (p.withVote (castVote hmac env id choice reason agentId agent)).close config
      else p.withVote (castVote hmac env id choice reason agentId agent)) := by
  have hnew : ¬ (p.votes.any fun vote => vote.agentId = agentId) = true := by
    rw [List.any_eq_true]
    rintro ⟨vote, hvote, heq⟩
    exact h.new vote hvote (of_decide_eq_true heq)
  unfold ModelD.vote
  rw [h.found]
  dsimp only
  rw [if_neg (not_not.mpr h.voting), h.registered]
  dsimp only
  rw [if_neg hnew, if_neg (by rw [h.inTime]; exact Bool.false_ne_true)]
  change (if shouldCloseVoting config (env.clock 3)
    (p.withVote (castVote hmac env id choice reason agentId agent)) = true then _ else _ :
      Except JsString Vote × ModelD).2 = _
  split
  · obtain ⟨result, hclosed⟩ := @ModelD.closeVoting_eq config _ _ _ _
      (ModelD.get_put h.found (p.withVote (castVote hmac env id choice reason agentId agent)))
    unfold Proposal.withVote castVote at hclosed ⊢
    rw [hclosed, ModelD.put_put]
  · rfl

/-- A vote that is not accepted changes nothing. -/
theorem vote_of_not_accepts (h : ∀ i p agent, ¬ Accepts config m env id agentId i p agent) :
    (m.vote config hmac env id agentId choice reason).2 = m := by
  unfold ModelD.vote
  split
  · rfl
  · next i p hget =>
    split
    · rfl
    · next hvoting =>
      split
      · rfl
      · next agent hagent =>
        split
        · rfl
        · next hnew =>
          split
          · rfl
          · next hintime =>
            refine absurd ⟨hget, not_not.mp hvoting, hagent, fun vote hvote heq => hnew ?_,
              eq_false_of_ne_true hintime⟩ (h i p agent)
            exact List.any_eq_true.mpr ⟨vote, hvote, decide_eq_true heq⟩

/-- Every vote has been cast by a registered agent with its weight. -/
def ModelD.Weighed (config : ModelDConfig) (m : ModelD) : Prop :=
  ∀ p ∈ m.objects, ∀ vote ∈ p.votes, Cognitive.Weighed config vote

theorem ModelD.Weighed.put {p' : Proposal} (hm : m.Weighed config)
    (hp' : ∀ vote ∈ p'.votes, Cognitive.Weighed config vote) : (m.put i p').Weighed config := by
  intro q hq
  rcases List.mem_or_eq_of_mem_set hq with hq | rfl
  · exact hm q hq
  · exact hp'

/-- Every call keeps the votes weighed. -/
theorem ModelD.Weighed.next (hm : m.Weighed config) (call : Call) :
    (m.next config hmac call).Weighed config := by
  have hfound : ∀ {id : JsString} {i : ℕ} {p : Proposal}, m.get id = some (i, p) →
      ∀ vote ∈ p.votes, Cognitive.Weighed config vote := fun hget =>
    hm _ (List.mem_of_getElem? (ModelD.get_eq_some hget))
  cases call with
  | propose env title description proposerId type =>
    intro q hq
    rcases List.mem_append.mp hq with hq | hq
    · exact hm q hq
    · rw [List.mem_singleton.mp hq]
      exact List.forall_mem_nil _
  | vote env id agentId choice reason =>
    by_cases haccepts : ∃ i p agent, Accepts config m env id agentId i p agent
    · obtain ⟨i, p, agent, haccepts⟩ := haccepts
      rw [ModelD.next, vote_of_accepts haccepts]
      have hcast : ∀ vote ∈ (p.withVote (castVote hmac env id choice reason agentId agent)).votes,
          Cognitive.Weighed config vote := by
        refine List.forall_mem_append.mpr ⟨hfound haccepts.found, ?_⟩
        exact List.forall_mem_singleton.mpr ⟨agent, haccepts.registered, rfl⟩
      split
      · exact hm.put hcast
      · exact hm.put hcast
    · have hnot : ∀ i p agent, ¬ Accepts config m env id agentId i p agent := fun i p agent h =>
        haccepts ⟨i, p, agent, h⟩
      rw [ModelD.next, vote_of_not_accepts hnot]
      exact hm
  | closeVoting id =>
    rw [ModelD.next, ModelD.closeVoting]
    split
    · exact hm
    · next i p hget =>
      have hvotes := hfound hget
      exact hm.put hvotes
  | execute env id executorId =>
    rw [ModelD.next, ModelD.execute]
    split
    · exact hm
    · next i p hget =>
      split
      · exact hm
      · have hvotes := hfound hget
        exact hm.put hvotes

end MemphisOS.Cognitive
