import MemphisOS.Ecma.Documents
import MemphisOS.Ecma.StringMethods
import MemphisOS.Sequences.Parts
import MemphisOS.Sync.Resolver
import MemphisOS.Systems.Transition

/-!
# The registry of agents

The agents a chain is synchronised with are kept in a JSON file. Commands read it, wait for answers
of the agents, and write single agents back. Commands may run at the same time: what an agent is
written back with then stems from before the wait.
-/

namespace MemphisOS.Sync

open Ecma

/-! ## Agents -/

inductive AgentStatus where
  | online
  | offline
  | unknown
  deriving DecidableEq

def AgentStatus.text : AgentStatus → JsString
  | .online => js "online"
  | .offline => js "offline"
  | .unknown => js "unknown"

/-- An agent, with its members in the order of its document. -/
structure SyncAgent where
  did : JsString
  endpoint : JsString
  name : JsString
  capabilities : List JsString
  status : AgentStatus
  lastSeen : JsString

namespace SyncAgent

def members (agent : SyncAgent) : List (JsString × Plain) :=
  [(js "did", .str agent.did), (js "endpoint", .str agent.endpoint), (js "name", .str agent.name),
    (js "capabilities", .arr (agent.capabilities.map .str)), (js "status", .str agent.status.text),
    (js "lastSeen", .str agent.lastSeen)]

def text? : Plain → Option JsString
  | .str s => some s
  | _ => none

/-- The agent a document is. Nothing checks that a document is one. -/
def ofPlain : Plain → Option SyncAgent
  | .obj members =>
    match members.lookup (js "did"), members.lookup (js "endpoint"), members.lookup (js "name"),
      members.lookup (js "capabilities"), members.lookup (js "status"),
      members.lookup (js "lastSeen") with
    | some (.str did), some (.str endpoint), some (.str name), some (.arr capabilities),
      some (.str status), some (.str lastSeen) => do
      let capabilities ← capabilities.mapM text?
      let status ← [AgentStatus.online, .offline, .unknown].find? fun s => s.text = status
      return ⟨did, endpoint, name, capabilities, status, lastSeen⟩
    | _, _, _, _, _, _ => none
  | _ => none

end SyncAgent

/-! ## The registry -/

/-- `read`, without the time of the last change. -/
def readAgents (file : Option Text) : Option (List SyncAgent) :=
  match file with
  | none => some []
  | some text =>
    match parseJson text with
    | none => none
    | some .null => none
    | some (.arr agents) => agents.mapM SyncAgent.ofPlain
    | some (.obj members) =>
      match members.lookup (js "agents") with
      | some (.arr agents) => agents.mapM SyncAgent.ofPlain
      | none => some []
      | some .null => some []
      | some _ => none
    | some _ => some []

/-- `write`. -/
def writeAgents (agents : List SyncAgent) (updatedAt : JsString) : Text :=
  jsonText [' ', ' '] (.obj [(js "agents", .arr (agents.map fun agent => .obj agent.members)),
    (js "updatedAt", .str updatedAt)])

/-- The agent takes the place of the first one with its identifier, or goes to the end. -/
def upsertAgent (next : SyncAgent) : List SyncAgent → List SyncAgent
  | [] => [next]
  | item :: agents =>
    if item.did = next.did then next :: agents else item :: upsertAgent next agents

/-- `upsert` of an agent with its `lastSeen`. -/
def upsert (file : Option Text) (agent : SyncAgent) (updatedAt : JsString) : Option Text :=
  (readAgents file).map fun agents => writeAgents (upsertAgent agent agents) updatedAt

def upsertAll (file : Option Text) : List (SyncAgent × JsString) → Option (Option Text)
  | [] => some file
  | (agent, updatedAt) :: agents =>
    (upsert file agent updatedAt).bind fun text => upsertAll (some text) agents

/-- The identifier and the endpoint of an entry of `MEMPHIS_SYNC_PEERS`. -/
def readPeer (entry : JsString) : Option (JsString × JsString) :=
  match entry.splitOn 0x40 with
  | didRaw :: endpointRaw :: _ =>
    let did := JsString.trim didRaw
    let endpoint := JsString.trim endpointRaw
    if did = [] ∨ endpoint = [] ∨ (js "did:").isPrefixOf did = false then none
    else some (did, endpoint)
  | _ => none

def discoverFromEnv (peers : Option JsString) : List (JsString × JsString) :=
  match peers.map JsString.trim with
  | none => []
  | some [] => []
  | some peers =>
    (((peers.splitOn 0x2C).map JsString.trim).filter fun entry => entry ≠ []).filterMap readPeer

def discoveredAgent (peer : JsString × JsString) (lastSeen : JsString) : SyncAgent where
  did := peer.1
  endpoint := peer.2
  name := peer.1.removeFirst (js "did:")
  capabilities := [js "sync.push", js "sync.pull", js "chain.diff"]
  status := .unknown
  lastSeen := lastSeen

/-- The agents that `discover` upserts, each with the two times of its upsert. -/
def discovered (peers : Option JsString) (times : ℕ → JsString × JsString) :
    List (SyncAgent × JsString) :=
  (discoverFromEnv peers).zipIdx.map fun peer =>
    (discoveredAgent peer.1 (times peer.2).1, (times peer.2).2)

/-! ## Commands -/

/-- Where a command is. -/
inductive SyncProcess where
  | idle
  /-- `push`, with the agents that have not been sent to, and its result so far. -/
  | pushing (chain : JsString) (blocks : List Block) (agents : List SyncAgent) (pushedTo : ℕ)
      (failures : List (JsString × JsString))
  /-- `pull`, which waits for the answer of an agent. -/
  | pulling (agent : SyncAgent) (chain : JsString) (strategy : ConflictResolutionStrategy)

structure SyncState where
  registry : Option Text
  /-- The blocks in the files of the chains. -/
  chains : JsString → List Block
  process : ℕ → SyncProcess

inductive SyncLabel where
  | discover (peers : Option JsString) (times : ℕ → JsString × JsString)
  | push (process : ℕ) (chain : JsString)
  /-- The next agent answers, or the request fails with a message. -/
  | pushed (process : ℕ) (outcome : Except JsString Unit) (updatedAt : JsString)
  | pull (process : ℕ) (did chain : JsString) (strategy : ConflictResolutionStrategy)
  /-- The agent answers with its blocks, if it has any. -/
  | pulled (process : ℕ) (blocks : Option (List Block)) (updatedAt : JsString)
  /-- A command returns or fails. -/
  | done (process : ℕ)

namespace SyncState

variable (host : SyncHost) (self : SyncState)

def setProcess (n : ℕ) (process : SyncProcess) : SyncState :=
  { self with process := Function.update self.process n process }

def setRegistry (text : Text) : SyncState := { self with registry := some text }

def writeChain (chain : JsString) (blocks : List Block) : SyncState :=
  { self with chains := Function.update self.chains chain blocks }

/-- A step of a command, where it can take it. -/
def next : SyncLabel → Option SyncState
  | .discover peers times =>
    (upsertAll self.registry (discovered peers times)).map fun file =>
      { self with registry := file }
  | .push n chain =>
    match self.process n with
    | .idle => (readAgents self.registry).map fun agents =>
        self.setProcess n (.pushing chain (self.chains chain) agents 0 [])
    | _ => none
  | .pushed n outcome updatedAt =>
    match self.process n with
    | .pushing chain blocks (agent :: agents) pushedTo failures =>
      match outcome with
      | .ok () => (upsert self.registry { agent with status := .online } updatedAt).map fun text =>
          (self.setRegistry text).setProcess n
            (.pushing chain blocks agents (pushedTo + 1) failures)
      | .error error =>
        (upsert self.registry { agent with status := .offline } updatedAt).map fun text =>
          (self.setRegistry text).setProcess n
            (.pushing chain blocks agents pushedTo (failures ++ [(agent.did, error)]))
    | _ => none
  | .pull n did chain strategy =>
    match self.process n with
    | .idle => (readAgents self.registry).map fun agents =>
        match agents.find? fun agent => agent.did = did with
        | none => self
        | some agent => self.setProcess n (.pulling agent chain strategy)
    | _ => none
  | .pulled n blocks updatedAt =>
    match self.process n with
    | .pulling agent chain strategy =>
      let merged := resolveChainConflicts host strategy (self.chains chain) (blocks.getD [])
      (upsert self.registry { agent with status := .online } updatedAt).map fun text =>
        ((self.writeChain chain merged).setRegistry text).setProcess n .idle
    | _ => none
  | .done n => some (self.setProcess n .idle)

end SyncState

/-- The agents found by a command, as they are found. -/
def SyncLabel.found : SyncLabel → List SyncAgent
  | .discover peers times => (discovered peers times).map Prod.fst
  | _ => []

/-- The agents a command holds a copy of. -/
def SyncProcess.agents : SyncProcess → List SyncAgent
  | .idle => []
  | .pushing _ _ agents _ _ => agents
  | .pulling agent _ _ => [agent]

variable {host : SyncHost} {agents found todo : List SyncAgent} {agent item : SyncAgent}
  {file : Option Text} {updatedAt : JsString} {s t : SyncState} {labels : List SyncLabel}
  {label : SyncLabel} {n : ℕ}

/-! ## Chains -/

/-- The step is not the arrival of an answer with blocks of the chain. -/
def Elsewhere (chain : JsString) (s : SyncState) : SyncLabel → Prop
  | .pulled n _ _ => ∀ agent strategy, s.process n ≠ .pulling agent chain strategy
  | _ => True

/-- Only an answer changes a chain. -/
theorem chains_next {chain : JsString} (h : s.next host label = some t)
    (helsewhere : Elsewhere chain s label) : t.chains chain = s.chains chain := by
  cases label with
  | discover peers times =>
    obtain ⟨file, -, rfl⟩ := Option.map_eq_some_iff.mp h
    rfl
  | push n name =>
    rw [SyncState.next] at h
    split at h
    · obtain ⟨agents, -, rfl⟩ := Option.map_eq_some_iff.mp h
      rfl
    · cases h
  | pushed n outcome updatedAt =>
    rw [SyncState.next] at h
    split at h
    · split at h
      · obtain ⟨text, -, rfl⟩ := Option.map_eq_some_iff.mp h
        rfl
      · obtain ⟨text, -, rfl⟩ := Option.map_eq_some_iff.mp h
        rfl
    · cases h
  | pull n did name strategy =>
    rw [SyncState.next] at h
    split at h
    · obtain ⟨agents, -, rfl⟩ := Option.map_eq_some_iff.mp h
      split
      · rfl
      · rfl
    · cases h
  | pulled n blocks updatedAt =>
    rw [SyncState.next] at h
    split at h
    · next agent name strategy hprocess =>
      obtain ⟨text, -, rfl⟩ := Option.map_eq_some_iff.mp h
      refine Function.update_of_ne (fun heq => ?_) _ _
      exact helsewhere agent strategy (heq ▸ hprocess)
    · cases h
  | done n =>
    obtain rfl := Option.some.inj h
    rfl

/-- An answer is merged with the blocks that the chain has when it arrives. -/
theorem chains_pulled {chain : JsString} {strategy : ConflictResolutionStrategy}
    {blocks : Option (List Block)} (hprocess : s.process n = .pulling agent chain strategy)
    (h : s.next host (.pulled n blocks updatedAt) = some t) :
    t.chains chain =
      resolveChainConflicts host strategy (s.chains chain) (blocks.getD []) := by
  rw [SyncState.next, hprocess] at h
  obtain ⟨text, -, rfl⟩ := Option.map_eq_some_iff.mp h
  exact Function.update_self _ _ _

/-! ## Reading back -/

theorem isDocument_agent (agent : SyncAgent) : IsDocument (.obj agent.members) := by
  refine @isDocument_of_names ["did", "endpoint", "name", "capabilities", "status", "lastSeen"] _
    rfl (by decide) (by decide) fun m hm => ?_
  simp only [SyncAgent.members, List.mem_cons, List.not_mem_nil, or_false] at hm
  rcases hm with rfl | rfl | rfl | rfl | rfl | rfl
  · exact isDocument_str _
  · exact isDocument_str _
  · exact isDocument_str _
  · refine isDocument_arr.mpr fun v hv => ?_
    obtain ⟨s, -, rfl⟩ := List.mem_map.mp hv
    exact isDocument_str s
  · exact isDocument_str _
  · exact isDocument_str _

theorem ofPlain_agent (agent : SyncAgent) :
    SyncAgent.ofPlain (.obj agent.members) = some agent := by
  have hstatus : [AgentStatus.online, .offline, .unknown].find?
      (fun s => s.text = agent.status.text) = some agent.status := by
    cases agent.status with
    | online => rfl
    | offline => rfl
    | unknown => rfl
  have hcapabilities : (agent.capabilities.map Json.str).mapM SyncAgent.text? =
      some agent.capabilities := by
    have h := mapM_eq_some_map (e := Json.str) (f := SyncAgent.text?) (g := id)
      (l := agent.capabilities) fun _ _ => rfl
    rw [h, List.map_id]
  have hdid : agent.members.lookup (js "did") = some (.str agent.did) := rfl
  have hendpoint : agent.members.lookup (js "endpoint") = some (.str agent.endpoint) := rfl
  have hname : agent.members.lookup (js "name") = some (.str agent.name) := rfl
  have hcap : agent.members.lookup (js "capabilities") =
      some (.arr (agent.capabilities.map .str)) := rfl
  have hstat : agent.members.lookup (js "status") = some (.str agent.status.text) := rfl
  have hseen : agent.members.lookup (js "lastSeen") = some (.str agent.lastSeen) := rfl
  simp only [SyncAgent.ofPlain, hdid, hendpoint, hname, hcap, hstat, hseen, hstatus, hcapabilities]
  rfl

/-- What a file of the registry holds, if there is one. -/
inductive HoldsAgents : Option Text → List SyncAgent → Prop
  | missing : HoldsAgents none []
  | written (agents : List SyncAgent) (updatedAt : JsString) :
      HoldsAgents (some (writeAgents agents updatedAt)) agents

/-- The agents written last are read. -/
theorem HoldsAgents.read (h : HoldsAgents file agents) : readAgents file = some agents := by
  cases h with
  | missing => rfl
  | written agents updatedAt =>
    have hdocument : IsDocument (.obj [(js "agents", .arr (agents.map fun agent =>
        .obj agent.members)), (js "updatedAt", .str updatedAt)]) := by
      refine @isDocument_of_names ["agents", "updatedAt"] _ rfl (by decide) (by decide)
        fun m hm => ?_
      simp only [List.mem_cons, List.not_mem_nil, or_false] at hm
      rcases hm with rfl | rfl
      · refine isDocument_arr.mpr fun v hv => ?_
        obtain ⟨agent, -, rfl⟩ := List.mem_map.mp hv
        exact isDocument_agent agent
      · exact isDocument_str _
    have hread := mapM_eq_some_map (e := fun agent : SyncAgent => (.obj agent.members : Plain))
      (f := SyncAgent.ofPlain) (g := id) (l := agents) fun agent _ => ofPlain_agent agent
    rw [readAgents, writeAgents, hdocument.parseJson (by simp [Json.Blank, Json.isSpace])]
    change (agents.map fun agent => (.obj agent.members : Plain)).mapM SyncAgent.ofPlain =
      some agents
    rw [hread, List.map_id]

theorem HoldsAgents.upsert (h : HoldsAgents file agents) (agent : SyncAgent)
    (updatedAt : JsString) :
    Sync.upsert file agent updatedAt = some (writeAgents (upsertAgent agent agents) updatedAt) := by
  rw [Sync.upsert, h.read]
  rfl

theorem HoldsAgents.upsertAll (h : HoldsAgents file agents) (news : List (SyncAgent × JsString)) :
    ∃ file', Sync.upsertAll file news = some file' ∧
      HoldsAgents file' ((news.map Prod.fst).foldl (fun agents new => upsertAgent new agents)
        agents) := by
  induction news generalizing file agents with
  | nil => exact ⟨file, rfl, h⟩
  | cons new news ih =>
    obtain ⟨agent, updatedAt⟩ := new
    obtain ⟨file', hfile, hholds⟩ := ih (.written (upsertAgent agent agents) updatedAt)
    refine ⟨file', ?_, hholds⟩
    rw [Sync.upsertAll, h.upsert, Option.bind_some, hfile]

/-! ## Registered agents -/

/-- Apart from its status an agent is as it was found once. -/
def Stems (found : List SyncAgent) (agent : SyncAgent) : Prop :=
  ∃ original ∈ found, agent = { original with status := agent.status }

/-- Every agent that was found is registered once, in the order in which they were found first. -/
structure Registered (found agents : List SyncAgent) : Prop where
  dids : agents.map SyncAgent.did = Sequences.firsts id [] (found.map SyncAgent.did)
  stems : ∀ agent ∈ agents, Stems found agent

theorem Stems.append (h : Stems found agent) (more : List SyncAgent) :
    Stems (found ++ more) agent := by
  obtain ⟨original, horiginal, heq⟩ := h
  exact ⟨original, List.mem_append_left _ horiginal, heq⟩

theorem Stems.mark (h : Stems found agent) (status : AgentStatus) :
    Stems found { agent with status := status } := by
  obtain ⟨original, horiginal, heq⟩ := h
  exact ⟨original, horiginal, by rw [heq]⟩

theorem Stems.did_mem (h : Stems found agent) : agent.did ∈ found.map SyncAgent.did := by
  obtain ⟨original, horiginal, heq⟩ := h
  have hdid : agent.did = original.did := by rw [heq]
  exact hdid ▸ List.mem_map_of_mem horiginal

theorem mem_of_mem_upsertAgent (h : item ∈ upsertAgent agent agents) :
    item = agent ∨ item ∈ agents := by
  induction agents with
  | nil => exact .inl (List.mem_singleton.mp h)
  | cons first agents ih =>
    rw [upsertAgent] at h
    split at h
    · rcases List.mem_cons.mp h with heq | hmem
      · exact .inl heq
      · exact .inr (List.mem_cons_of_mem _ hmem)
    · rcases List.mem_cons.mp h with heq | hmem
      · exact .inr (heq ▸ List.mem_cons_self)
      · exact (ih hmem).imp_right (List.mem_cons_of_mem _)

theorem dids_upsertAgent (agent : SyncAgent) (agents : List SyncAgent) :
    (upsertAgent agent agents).map SyncAgent.did =
      if agent.did ∈ agents.map SyncAgent.did then agents.map SyncAgent.did
      else agents.map SyncAgent.did ++ [agent.did] := by
  induction agents with
  | nil => rfl
  | cons first agents ih =>
    rw [upsertAgent]
    by_cases hdid : first.did = agent.did
    · rw [if_pos hdid, List.map_cons, List.map_cons, hdid, if_pos List.mem_cons_self]
    · rw [if_neg hdid, List.map_cons, List.map_cons, ih]
      by_cases hmem : agent.did ∈ agents.map SyncAgent.did
      · rw [if_pos hmem, if_pos (List.mem_cons_of_mem _ hmem)]
      · rw [if_neg hmem, if_neg, List.cons_append]
        intro hin
        rcases List.mem_cons.mp hin with heq | hin
        · exact hdid heq.symm
        · exact hmem hin

theorem Registered.stems_upsert (h : Registered found agents) (hagent : Stems found agent) :
    ∀ item ∈ upsertAgent agent agents, Stems found item := by
  intro item hitem
  rcases mem_of_mem_upsertAgent hitem with rfl | hmem
  · exact hagent
  · exact h.stems item hmem

/-- An agent that was found before takes the place of its entry. -/
theorem Registered.again (h : Registered found agents) (hagent : Stems found agent) :
    Registered found (upsertAgent agent agents) where
  dids := by
    rw [dids_upsertAgent, h.dids, if_pos]
    exact Sequences.mem_firsts_id.mpr hagent.did_mem
  stems := h.stems_upsert hagent

theorem Registered.find (h : Registered found agents) (agent : SyncAgent) :
    Registered (found ++ [agent]) (upsertAgent agent agents) where
  dids := by
    rw [dids_upsertAgent, h.dids, List.map_append, List.map_singleton, Sequences.firsts_concat]
    simp only [id_eq, List.map_id, List.nil_append, Sequences.mem_firsts_id]
  stems := by
    intro item hitem
    rcases mem_of_mem_upsertAgent hitem with rfl | hmem
    · exact ⟨item, List.mem_append_right _ (List.mem_singleton_self item), rfl⟩
    · exact (h.stems item hmem).append [agent]

theorem Registered.findAll (h : Registered found agents) (news : List SyncAgent) :
    Registered (found ++ news) (news.foldl (fun agents new => upsertAgent new agents) agents) := by
  induction news generalizing found agents with
  | nil => exact (List.append_nil found).symm ▸ h
  | cons new news ih =>
    have hnext := ih (h.find new)
    rwa [List.append_assoc] at hnext

/-! ## Runs -/

structure RegistryInv (found : List SyncAgent) (s : SyncState) : Prop where
  agents : ∃ agents, HoldsAgents s.registry agents ∧ Registered found agents
  copies : ∀ n, ∀ agent ∈ (s.process n).agents, Stems found agent

theorem RegistryInv.setProcess (h : RegistryInv found s) (n : ℕ) (process : SyncProcess)
    (hprocess : ∀ agent ∈ process.agents, Stems found agent) :
    RegistryInv found (s.setProcess n process) where
  agents := h.agents
  copies := by
    intro k agent hagent
    rw [SyncState.setProcess] at hagent
    dsimp only at hagent
    by_cases hk : k = n
    · rw [hk, Function.update_self] at hagent
      exact hprocess agent hagent
    · rw [Function.update_of_ne hk] at hagent
      exact h.copies k agent hagent

/-- Writing back a copy of an agent, with another status. -/
theorem RegistryInv.upsert (h : RegistryInv found s) (hagent : Stems found agent)
    (updatedAt : JsString) :
    ∃ text, Sync.upsert s.registry agent updatedAt = some text ∧
      RegistryInv found (s.setRegistry text) := by
  obtain ⟨agents, hholds, hregistered⟩ := h.agents
  exact ⟨_, hholds.upsert agent updatedAt, ⟨_, .written _ updatedAt, hregistered.again hagent⟩,
    h.copies⟩

theorem RegistryInv.next (h : RegistryInv found s) (hnext : s.next host label = some t) :
    RegistryInv (found ++ label.found) t := by
  cases label with
  | discover peers times =>
    obtain ⟨agents, hholds, hregistered⟩ := h.agents
    obtain ⟨file, hfile, hholds'⟩ := hholds.upsertAll (discovered peers times)
    rw [SyncState.next, hfile] at hnext
    obtain rfl := Option.some.inj hnext
    exact ⟨⟨_, hholds', hregistered.findAll _⟩, fun n agent hagent =>
      (h.copies n agent hagent).append _⟩
  | push n chain =>
    change RegistryInv (found ++ []) t
    rw [List.append_nil]
    obtain ⟨agents, hholds, hregistered⟩ := h.agents
    rw [SyncState.next, hholds.read] at hnext
    split at hnext
    · obtain rfl := Option.some.inj hnext
      exact h.setProcess n (.pushing _ _ agents 0 []) hregistered.stems
    · cases hnext
  | pushed n outcome updatedAt =>
    change RegistryInv (found ++ []) t
    rw [List.append_nil]
    rw [SyncState.next] at hnext
    split at hnext
    · next chain blocks agent agents pushedTo failures hprocess =>
      have hcopies := h.copies n
      rw [hprocess] at hcopies
      have hagent := hcopies agent List.mem_cons_self
      have hagents : ∀ agent ∈ agents, Stems found agent := fun agent hmem =>
        hcopies agent (List.mem_cons_of_mem _ hmem)
      split at hnext
      · obtain ⟨text, htext, hinv⟩ := h.upsert (hagent.mark .online) updatedAt
        rw [htext] at hnext
        obtain rfl := Option.some.inj hnext
        exact hinv.setProcess n (.pushing _ _ agents _ _) hagents
      · obtain ⟨text, htext, hinv⟩ := h.upsert (hagent.mark .offline) updatedAt
        rw [htext] at hnext
        obtain rfl := Option.some.inj hnext
        exact hinv.setProcess n (.pushing _ _ agents _ _) hagents
    · cases hnext
  | pull n did chain strategy =>
    change RegistryInv (found ++ []) t
    rw [List.append_nil]
    obtain ⟨agents, hholds, hregistered⟩ := h.agents
    rw [SyncState.next, hholds.read] at hnext
    split at hnext
    · rw [Option.map_some] at hnext
      obtain rfl := Option.some.inj hnext
      split
      · exact h
      · next agent hfind =>
        refine h.setProcess n (.pulling agent chain strategy) fun item hitem => ?_
        rw [List.mem_singleton.mp hitem]
        exact hregistered.stems agent (List.mem_of_find?_eq_some hfind)
    · cases hnext
  | pulled n blocks updatedAt =>
    change RegistryInv (found ++ []) t
    rw [List.append_nil]
    rw [SyncState.next] at hnext
    split at hnext
    · next agent chain strategy hprocess =>
      have hcopies := h.copies n
      rw [hprocess] at hcopies
      obtain ⟨text, htext, hinv⟩ := h.upsert
        ((hcopies agent (List.mem_singleton_self agent)).mark .online) updatedAt
      rw [htext] at hnext
      obtain rfl := Option.some.inj hnext
      have hwritten : RegistryInv found ((s.writeChain chain (resolveChainConflicts host strategy
          (s.chains chain) (blocks.getD []))).setRegistry text) := ⟨hinv.agents, hinv.copies⟩
      exact hwritten.setProcess n .idle (List.forall_mem_nil _)
    · cases hnext
  | done n =>
    change RegistryInv (found ++ []) t
    rw [List.append_nil]
    obtain rfl := Option.some.inj hnext
    exact h.setProcess n .idle (List.forall_mem_nil _)

/-- An agent after a request. -/
def SyncAgent.mark (agent : SyncAgent) (outcome : Except JsString Unit) : SyncAgent :=
  { agent with status := if outcome.isOk then .online else .offline }

end MemphisOS.Sync
