import MemphisOS.Ecma.Date
import MemphisOS.Ecma.Maps
import MemphisOS.Ecma.NumberOrder

/-!
# Collective coordination

Agents vote on proposals. A proposal is an object that the map of the coordinator and its callers
share; here objects are the places of a list, and the map leads from ids to places.
-/

namespace MemphisOS.Cognitive

open Ecma

structure AgentConfig where
  id : JsString
  weight : JsNumber

structure ModelDConfig where
  consensusThreshold : JsNumber
  votingTimeout : JsNumber
  agents : List AgentConfig

inductive ProposalType where
  | strategic
  | tactical
  | operational

inductive ProposalStatus where
  | pending
  | voting
  | approved
  | rejected
  | executed
  deriving DecidableEq

def ProposalStatus.text : ProposalStatus → String
  | pending => "pending"
  | voting => "voting"
  | approved => "approved"
  | rejected => "rejected"
  | executed => "executed"

inductive Choice where
  | approve
  | reject
  | abstain
  deriving DecidableEq

def Choice.text : Choice → String
  | approve => "approve"
  | reject => "reject"
  | abstain => "abstain"

structure Vote where
  agentId : JsString
  choice : Choice
  weight : JsNumber
  reason : Option JsString
  timestamp : ℕ
  signature : JsString

/-- What voting has led to. -/
structure Verdict where
  approved : Bool
  totalVotes : ℕ
  approveVotes : ℕ
  rejectVotes : ℕ
  abstainVotes : ℕ
  weightedScore : JsNumber
  consensusReached : Bool
  deriving DecidableEq

structure DecisionResult extends Verdict where
  executedBy : Option JsString
  executedAt : Option ℕ

structure Proposal where
  id : JsString
  title : JsString
  description : JsString
  proposer : JsString
  type : ProposalType
  status : ProposalStatus
  createdAt : ℕ
  /-- Its time value; an invalid date has none. -/
  votingDeadline : Option ℤ
  votes : List Vote
  result : Option DecisionResult

/-- The coordinator: its map of proposals and the objects. -/
structure ModelD where
  proposals : List (JsString × ℕ)
  objects : List Proposal

/-- The readings of the clock in a call, in milliseconds, and its random bytes in hexadecimal. -/
structure Env where
  clock : ℕ → ℕ
  randomHex : Text

/-- The map the constructor fills. -/
def ModelDConfig.registered (config : ModelDConfig) : List (JsString × AgentConfig) :=
  config.agents.foldl (fun agents agent => setMember agent.id agent agents) []

/-- A coordinator without proposals. -/
def ModelD.empty : ModelD := ⟨[], []⟩

/-- The object `this.proposals.get(id)`, with its place. -/
def ModelD.get (m : ModelD) (id : JsString) : Option (ℕ × Proposal) :=
  (m.proposals.lookup id).bind fun i => (m.objects[i]?).map fun proposal => (i, proposal)

/-- Assign to an object. -/
def ModelD.put (m : ModelD) (i : ℕ) (proposal : Proposal) : ModelD :=
  { m with objects := m.objects.set i proposal }

/-- `new Date(now) > deadline`. -/
def passed (now : ℕ) (deadline : Option ℤ) : Bool := deadline.any fun t => t < (now : ℤ)

def notFound (proposalId : JsString) : JsString :=
  js "Proposal " ++ proposalId ++ js " not found"

def ModelD.propose (config : ModelDConfig) (m : ModelD) (env : Env)
    (title description proposerId : JsString) (type : ProposalType) : Proposal × ModelD :=
  let proposal : Proposal :=
    { id := js "proposal-" ++ ofText (digits (env.clock 0)) ++ js "-" ++ ofText env.randomHex
      type, title, description
      proposer := proposerId
      status := .voting
      createdAt := env.clock 1
      votingDeadline := timeClip ((JsNumber.ofNat (env.clock 2)).add config.votingTimeout)
      votes := []
      result := none }
  (proposal, ⟨setMember proposal.id m.objects.length m.proposals, m.objects ++ [proposal]⟩)

/-- The counts and sums of the votes. -/
structure VoteSummary where
  totalVotes : ℕ
  approveVotes : ℕ
  rejectVotes : ℕ
  abstainVotes : ℕ
  weightedApprove : JsNumber
  weightedTotal : JsNumber

def summarizeVotes (votes : List Vote) : VoteSummary :=
  votes.foldl (fun sum vote =>
    match vote.choice with
    | .approve => { sum with
        approveVotes := sum.approveVotes + 1
        weightedApprove := sum.weightedApprove.add vote.weight
        weightedTotal := sum.weightedTotal.add vote.weight }
    | .reject => { sum with
        rejectVotes := sum.rejectVotes + 1
        weightedTotal := sum.weightedTotal.add vote.weight }
    | .abstain => { sum with abstainVotes := sum.abstainVotes + 1 })
    ⟨votes.length, 0, 0, 0, .ofNat 0, .ofNat 0⟩

/-- The number one half. -/
def half : JsNumber := (JsNumber.ofNat 1).div (.ofNat 2)

/-- The verdict `closeVoting` computes from the votes. -/
def ModelDConfig.verdict (config : ModelDConfig) (votes : List Vote) : Verdict :=
  let sum := summarizeVotes votes
  let weightedScore :=
    if (JsNumber.ofNat 0).lt sum.weightedTotal then sum.weightedApprove.div sum.weightedTotal
    else .ofNat 0
  let consensusReached := config.consensusThreshold.le weightedScore
  let approved := consensusReached && half.le weightedScore
  ⟨approved, sum.totalVotes, sum.approveVotes, sum.rejectVotes, sum.abstainVotes, weightedScore,
    consensusReached⟩

def ModelD.closeVoting (config : ModelDConfig) (m : ModelD) (proposalId : JsString) :
    Except JsString DecisionResult × ModelD :=
  match m.get proposalId with
  | none => (.error (notFound proposalId), m)
  | some (i, proposal) =>
    let result : DecisionResult :=
      { config.verdict proposal.votes with executedBy := none, executedAt := none }
    (.ok result, m.put i { proposal with
      result := some result
      status := if result.approved then .approved else .rejected })

/-- The votes of a choice. -/
def countChoice (choice : Choice) (votes : List Vote) : ℕ := votes.countP (·.choice = choice)

def shouldCloseVoting (config : ModelDConfig) (now : ℕ) (proposal : Proposal) : Bool :=
  let totalAgents := config.registered.length
  totalAgents ≤ proposal.votes.length || passed now proposal.votingDeadline ||
    totalAgents < 2 * countChoice .approve proposal.votes ||
    totalAgents < 2 * countChoice .reject proposal.votes

/-- The signature of a vote: an HMAC of the text under the private key. -/
abbrev Hmac := JsString → JsString

def signVote (hmac : Hmac) (now : ℕ) (agentId : JsString) (choice : Choice)
    (proposalId : JsString) : JsString :=
  hmac (agentId ++ js ":" ++ js choice.text ++ js ":" ++ proposalId ++ js ":" ++
    ofText (digits now))

def ModelD.vote (config : ModelDConfig) (hmac : Hmac) (m : ModelD) (env : Env)
    (proposalId agentId : JsString) (choice : Choice) (reason : Option JsString) :
    Except JsString Vote × ModelD :=
  match m.get proposalId with
  | none => (.error (notFound proposalId), m)
  | some (i, proposal) =>
    if proposal.status ≠ .voting then
      (.error (js "Proposal is not in voting state: " ++ js proposal.status.text), m)
    else
      match config.registered.lookup agentId with
      | none => (.error (js "Agent " ++ agentId ++ js " not registered"), m)
      | some agent =>
        if proposal.votes.any (·.agentId = agentId) then
          (.error (js "Agent " ++ agentId ++ js " already voted on this proposal"), m)
        else if passed (env.clock 0) proposal.votingDeadline then
          (.error (js "Voting deadline has passed"), m)
        else
          let vote : Vote :=
            { agentId, choice
              weight := agent.weight
              reason
              timestamp := env.clock 1
              signature := signVote hmac (env.clock 2) agentId choice proposalId }
          let proposal := { proposal with votes := proposal.votes ++ [vote] }
          let m := m.put i proposal
          if shouldCloseVoting config (env.clock 3) proposal then
            match m.closeVoting config proposalId with
            | (.ok _, m) => (.ok vote, m)
            | (.error e, m) => (.error e, m)
          else (.ok vote, m)

def ModelD.execute (m : ModelD) (env : Env) (proposalId executorId : JsString) :
    Except JsString Unit × ModelD :=
  match m.get proposalId with
  | none => (.error (notFound proposalId), m)
  | some (i, proposal) =>
    if proposal.status ≠ .approved then
      (.error (js "Proposal must be approved before execution"), m)
    else
      let result := proposal.result.map fun result =>
        { result with executedBy := some executorId, executedAt := some (env.clock 0) }
      (.ok (), m.put i { proposal with result, status := .executed })

end MemphisOS.Cognitive
