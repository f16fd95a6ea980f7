import MemphisOS.Chat.Requests
import MemphisOS.Ecma.Documents
import MemphisOS.TaskQueue.Restart

/-!
# Redispatched chat requests

The parser of queued payloads against the schema that let them in. The two agree on every field;
only an input that is white space is let in and not taken back.
-/

namespace MemphisOS.Chat

open Ecma TaskQueue

variable {request : GenerateInput} {body : Plain}

/-! ## Sameness -/

/-- The same values are set, where the sign of zero does not count. -/
structure SameOptions (a b : GenerateOptions) : Prop where
  temperature : a.temperature.map JsNumber.dropZeroSign = b.temperature.map JsNumber.dropZeroSign
  maxTokens : a.maxTokens.map JsNumber.dropZeroSign = b.maxTokens.map JsNumber.dropZeroSign
  timeoutMs : a.timeoutMs.map JsNumber.dropZeroSign = b.timeoutMs.map JsNumber.dropZeroSign

/-- The same request. No provider stands for `auto`, no strategy for `default` and no options for
options without values, as the orchestration reads them. -/
structure SameRequest (a b : GenerateInput) : Prop where
  input : a.input = b.input
  provider : a.provider.getD .auto = b.provider.getD .auto
  model : a.model = b.model
  sessionId : a.sessionId = b.sessionId
  strategy : a.strategy.getD .default = b.strategy.getD .default
  options : SameOptions (a.options.getD ⟨none, none, none⟩) (b.options.getD ⟨none, none, none⟩)

/-! ## What the schema lets in -/

/-- The numbers of the options are finite, and two of them are whole. -/
structure GenerateOptions.Valid (options : GenerateOptions) : Prop where
  temperature : ∀ n ∈ options.temperature, n.isFinite = true
  maxTokens : ∀ n ∈ options.maxTokens,
    n.isFinite = true ∧ n.dropZeroSign = n ∧ n.trunc = n
  timeoutMs : ∀ n ∈ options.timeoutMs,
    n.isFinite = true ∧ n.dropZeroSign = n ∧ n.trunc = n

/-- A field that is read is one its schema has read. -/
theorem exists_of_optionalField {α : Type} {members : List (JsString × Plain)} {key : String}
    {read : Plain → Option α} {a : α} (h : optionalField members key read = some (some a)) :
    ∃ v, read v = some a := by
  rw [optionalField] at h
  cases hlookup : members.lookup (js key) with
  | none =>
    rw [hlookup] at h
    cases h
  | some v =>
    rw [hlookup] at h
    obtain ⟨b, hb, hsome⟩ := Option.map_eq_some_iff.mp (show (read v).map some = some (some a) from h)
    exact ⟨v, hb.trans hsome⟩

/-- Whole numbers from 1 on are kept by JSON and by truncation. -/
theorem whole_of_readInt {low high : ℕ} (hlow : 1 ≤ low) {v : Plain} {n : JsNumber}
    (h : readInt low (some high) v = some n) :
    n.isFinite = true ∧ n.dropZeroSign = n ∧ n.trunc = n := by
  cases v with
  | num m =>
    cases m with
    | finite q hq =>
      simp only [readInt] at h
      split at h
      · next hrange =>
        obtain rfl := Option.some.inj h
        simp only [Bool.and_eq_true, decide_eq_true_eq] at hrange
        obtain ⟨⟨⟨hden, -⟩, hle⟩, -⟩ := hrange
        have hnonneg : ¬q < 0 := by
          have hone : ((1 : ℕ) : ℚ) ≤ low := Nat.cast_le.mpr hlow
          push_cast at hone
          linarith
        have hfloor : ((⌊q⌋ : ℤ) : ℚ) = q := by
          have hcast : ((q.num : ℤ) : ℚ) = q := Rat.den_eq_one_iff q |>.mp hden
          rw [← hcast, Int.floor_intCast]
        refine ⟨rfl, rfl, ?_⟩
        rw [JsNumber.trunc, if_neg hnonneg, hfloor]
        exact JsNumber.ofRat_of_representable hq
      · cases h
    | negZero =>
      simp only [readInt] at h
      split at h
      · next hrange =>
        simp only [Bool.and_eq_true, decide_eq_true_eq] at hrange
        have hone : ((1 : ℕ) : ℚ) ≤ low := Nat.cast_le.mpr hlow
        push_cast at hone
        linarith [hrange.1.2]
      · cases h
    | nan => cases h
    | infinity negative => cases h
  | _ => cases h

theorem isFinite_of_readNumberIn {low high : ℕ} {v : Plain} {n : JsNumber} (hlow : low < 2 ^ 53)
    (hhigh : high < 2 ^ 53) (h : readNumberIn low high v = some n) : n.isFinite = true := by
  cases v with
  | num m =>
    rw [readNumberIn] at h
    split at h
    · next hrange =>
      obtain rfl := Option.some.inj h
      rw [JsNumber.ofNat_eq hlow, JsNumber.ofNat_eq hhigh, Bool.and_eq_true] at hrange
      cases m with
      | nan => cases hrange.2
      | infinity negative =>
        cases negative with
        | false => cases hrange.2
        | true => cases hrange.1
      | _ => rfl
    · cases h
  | _ => cases h

/-- The options of a request that is let in are valid. -/
theorem valid_of_readOptions {v : Plain} {options : GenerateOptions}
    (h : readOptions v = some options) : options.Valid := by
  cases v with
  | obj members =>
    obtain ⟨temperature, htemperature, h⟩ := Option.bind_eq_some_iff.mp h
    obtain ⟨maxTokens, hmaxTokens, h⟩ := Option.bind_eq_some_iff.mp h
    obtain ⟨timeoutMs, htimeoutMs, h⟩ := Option.bind_eq_some_iff.mp h
    obtain rfl := Option.some.inj h
    constructor
    · rintro n hn
      obtain rfl : temperature = some n := hn
      obtain ⟨w, hw⟩ := exists_of_optionalField htemperature
      exact isFinite_of_readNumberIn (by norm_num) (by norm_num) hw
    · rintro n hn
      obtain rfl : maxTokens = some n := hn
      obtain ⟨w, hw⟩ := exists_of_optionalField hmaxTokens
      exact whole_of_readInt (by norm_num) hw
    · rintro n hn
      obtain rfl : timeoutMs = some n := hn
      obtain ⟨w, hw⟩ := exists_of_optionalField htimeoutMs
      exact whole_of_readInt (by norm_num) hw
  | _ => cases h

theorem valid_of_chatGenerateSchema (h : chatGenerateSchema body = some request)
    {options : GenerateOptions} (hoptions : request.options = some options) : options.Valid := by
  cases body with
  | obj members =>
    obtain ⟨_, -, h⟩ := Option.bind_eq_some_iff.mp h
    obtain ⟨_, -, h⟩ := Option.bind_eq_some_iff.mp h
    obtain ⟨_, -, h⟩ := Option.bind_eq_some_iff.mp h
    obtain ⟨_, -, h⟩ := Option.bind_eq_some_iff.mp h
    obtain ⟨_, -, h⟩ := Option.bind_eq_some_iff.mp h
    obtain ⟨read, hread, h⟩ := Option.bind_eq_some_iff.mp h
    obtain rfl := Option.some.inj h
    obtain rfl : read = some options := hoptions
    obtain ⟨v, hv⟩ := exists_of_optionalField hread
    exact valid_of_readOptions hv
  | _ => cases h

/-! ## What the parser reads -/

/-- The value of a queued payload. -/
def queuedPayload (request : GenerateInput) : JsValue := ofPlain (jsonImage (.obj request.payload))

/-- The value of queued options. -/
def queuedOptions (options : GenerateOptions) : JsValue := ofPlain (jsonImage (.obj options.members))

theorem ofPlain_image_num {n : JsNumber} (h : n.isFinite = true) :
    ofPlain (jsonImage (.num n)) = .num (.number n.dropZeroSign) := by
  cases n with
  | nan => cases h
  | infinity negative => cases h
  | _ => rfl

/-- The members of queued options. -/
theorem queuedOptions_eq {options : GenerateOptions} (h : options.Valid) :
    queuedOptions options = .obj ([(js "temperature", options.temperature),
      (js "maxTokens", options.maxTokens), (js "timeoutMs", options.timeoutMs)].filterMap
        fun m => m.2.map fun n => (m.1, .num (.number n.dropZeroSign))) := by
  have hfinite : ∀ m ∈ [(js "temperature", options.temperature),
      (js "maxTokens", options.maxTokens), (js "timeoutMs", options.timeoutMs)],
      ∀ n ∈ m.2, n.isFinite = true := by
    intro m hm n hn
    simp only [List.mem_cons, List.not_mem_nil, or_false] at hm
    rcases hm with rfl | rfl | rfl
    · exact h.temperature n hn
    · exact (h.maxTokens n hn).1
    · exact (h.timeoutMs n hn).1
  rw [queuedOptions, jsonImage_obj, ofPlain_obj, List.map_map, GenerateOptions.members,
    List.map_filterMap]
  refine congrArg Json.obj (List.filterMap_congr fun m hm => ?_)
  cases hn : m.2 with
  | none => rfl
  | some n => exact congrArg (fun v => some (m.1, v)) (ofPlain_image_num (hfinite m hm n hn))

/-- The options as the parser reads them. -/
theorem parseGenerateOptions_queued {options : GenerateOptions} (h : options.Valid) :
    SameOptions ((parseGenerateOptions (some (queuedOptions options))).getD ⟨none, none, none⟩)
      options := by
  have htrunc : ∀ o : Option JsNumber, (∀ n ∈ o, n.isFinite = true ∧ n.dropZeroSign = n ∧
      n.trunc = n) → (o.map JsNumber.dropZeroSign).map JsNumber.trunc = o := by
    intro o ho
    cases o with
    | none => rfl
    | some n =>
      obtain ⟨-, hzero, htrunc⟩ := ho n rfl
      rw [Option.map_some, hzero, Option.map_some, htrunc]
  obtain ⟨htemperature, hmaxTokens, htimeoutMs⟩ := h
  obtain ⟨temperature, maxTokens, timeoutMs⟩ := options
  have hread : ∀ members : List (JsString × JsValue), members = [(js "temperature", temperature),
      (js "maxTokens", maxTokens), (js "timeoutMs", timeoutMs)].filterMap
        (fun m => m.2.map fun n => (m.1, .num (.number n.dropZeroSign))) →
      numberOf (members.lookup (js "temperature")) = temperature.map JsNumber.dropZeroSign ∧
      numberOf (members.lookup (js "maxTokens")) = maxTokens.map JsNumber.dropZeroSign ∧
      numberOf (members.lookup (js "timeoutMs")) = timeoutMs.map JsNumber.dropZeroSign := by
    rintro _ rfl
    cases temperature <;> cases maxTokens <;> cases timeoutMs <;> exact ⟨rfl, rfl, rfl⟩
  obtain ⟨h1, h2, h3⟩ := hread _ rfl
  rw [queuedOptions_eq ⟨htemperature, hmaxTokens, htimeoutMs⟩, parseGenerateOptions]
  dsimp only
  rw [h1, h2, h3, htrunc maxTokens hmaxTokens, htrunc timeoutMs htimeoutMs]
  have hsign : (temperature.map JsNumber.dropZeroSign).map JsNumber.dropZeroSign =
      temperature.map JsNumber.dropZeroSign := by
    rw [Option.map_map]
    exact congrArg (fun f => temperature.map f) (funext JsNumber.dropZeroSign_dropZeroSign)
  split
  · next hnone =>
    obtain ⟨htemp, rfl, rfl⟩ := GenerateOptions.mk.inj hnone
    exact ⟨htemp.symm, rfl, rfl⟩
  · exact ⟨hsign, rfl, rfl⟩

theorem parseProvider_text (provider : Provider) :
    parseProvider (some (.str (js provider.text))) = some (some provider) := by
  cases provider <;> rfl

theorem parseStrategy_text (strategy : Strategy) :
    parseStrategy (some (.str (js strategy.text))) = some strategy := by
  cases strategy <;> rfl

/-- The members of a queued payload. -/
theorem queuedPayload_eq (request : GenerateInput) : queuedPayload request =
    .obj [(js "input", .str request.input),
      (js "provider", .str (js (request.provider.getD .auto).text)),
      (js "model", request.model.elim .null .str),
      (js "sessionId", request.sessionId.elim .null .str),
      (js "options", request.options.elim .null queuedOptions),
      (js "strategy", .str (js (request.strategy.getD .default).text))] := by
  obtain ⟨input, provider, model, sessionId, options, strategy⟩ := request
  rw [queuedPayload, jsonImage_obj, ofPlain_obj]
  cases model <;> cases sessionId <;> cases options <;> rfl

theorem stringOf_elim (s : Option JsString) : stringOf (some (s.elim .null .str)) = s := by
  cases s <;> rfl

/-- **The parser against the schema.** A queued request is read as the same request, unless its
input is all white space, which is not read at all. -/
theorem parseQueuedChatPayload_queued (h : chatGenerateSchema body = some request) :
    if request.input.trim = [] then parseQueuedChatPayload (some (queuedPayload request)) = none
    else ∃ parsed, parseQueuedChatPayload (some (queuedPayload request)) = some parsed ∧
      SameRequest parsed request := by
  have hoptions : SameOptions ((parseGenerateOptions
      (some (request.options.elim .null queuedOptions))).getD ⟨none, none, none⟩)
      (request.options.getD ⟨none, none, none⟩) := by
    cases hset : request.options with
    | none => exact ⟨rfl, rfl, rfl⟩
    | some options => exact parseGenerateOptions_queued (valid_of_chatGenerateSchema h hset)
  have hparse : parseQueuedChatPayload (some (queuedPayload request)) =
      if request.input.trim = [] then none
      else some ⟨request.input, some (request.provider.getD .auto), request.model,
        request.sessionId, parseGenerateOptions (some (request.options.elim .null queuedOptions)),
        some (request.strategy.getD .default)⟩ := by
    rw [queuedPayload_eq]
    have hread : ∀ provider strategy : JsString, parseProvider (some (.str provider)) =
        some (some (request.provider.getD .auto)) → parseStrategy (some (.str strategy)) =
        some (request.strategy.getD .default) →
        parseQueuedChatPayload (some (.obj [(js "input", .str request.input),
          (js "provider", .str provider), (js "model", request.model.elim .null .str),
          (js "sessionId", request.sessionId.elim .null .str),
          (js "options", request.options.elim .null queuedOptions),
          (js "strategy", .str strategy)])) =
        if request.input.trim = [] then none
        else some ⟨request.input, some (request.provider.getD .auto),
          stringOf (some (request.model.elim .null .str)),
          stringOf (some (request.sessionId.elim .null .str)),
          parseGenerateOptions (some (request.options.elim .null queuedOptions)),
          some (request.strategy.getD .default)⟩ := by
      intro provider strategy hprovider hstrategy
      change (if request.input.trim = [] then none else
        (parseProvider (some (.str provider))).bind fun provider =>
          (parseStrategy (some (.str strategy))).bind fun strategy => some (⟨request.input,
            provider, stringOf (some (request.model.elim .null .str)),
            stringOf (some (request.sessionId.elim .null .str)),
            parseGenerateOptions (some (request.options.elim .null queuedOptions)),
            some strategy⟩ : GenerateInput)) = _
      rw [hprovider, hstrategy]
      rfl
    rw [hread _ _ (parseProvider_text _) (parseStrategy_text _), stringOf_elim, stringOf_elim]
  rw [hparse]
  split
  · rfl
  · exact ⟨_, rfl, rfl, rfl, rfl, rfl, rfl, hoptions⟩

/-! ## Recovery -/

variable {sha256 : Text → Text} {requestId : JsString}

/-- Leaving out what is not set keeps the order of the keys. -/
theorem keys_filterMap_sublist {α β : Type} (f : α → β) (ms : List (JsString × Option α)) :
    ((ms.filterMap fun m => m.2.map fun a => (m.1, f a)).map Prod.fst).Sublist
      (ms.map Prod.fst) := by
  induction ms with
  | nil => exact .slnil
  | cons m ms ih =>
    obtain ⟨key, a⟩ := m
    cases a with
    | none => exact ih.cons key
    | some a => exact ih.cons_cons key

theorem ownOrdered_members (options : GenerateOptions) : OwnOrdered (.obj options.members) := by
  refine @ownOrdered_of_names ["temperature", "maxTokens", "timeoutMs"] _
    (keys_filterMap_sublist _ _) (by decide) (by decide) ?_
  intro m hm
  obtain ⟨⟨key, n⟩, -, hn⟩ := List.mem_filterMap.mp hm
  obtain ⟨n, -, rfl⟩ := Option.map_eq_some_iff.mp hn
  trivial

theorem ownOrdered_elim (s : Option JsString) : OwnOrdered (s.elim .null .str) := by
  cases s <;> trivial

theorem ownOrdered_payload (request : GenerateInput) : OwnOrdered (.obj request.payload) := by
  refine @ownOrdered_of_names ["input", "provider", "model", "sessionId", "options", "strategy"] _
    (.refl _) (by decide) (by decide) ?_
  have hoptions : OwnOrdered (request.options.elim .null fun options => .obj options.members) := by
    cases request.options with
    | none => trivial
    | some options => exact ownOrdered_members options
  simp only [GenerateInput.payload, List.forall_mem_cons, List.not_mem_nil, false_imp_iff,
    implies_true, and_true]
  exact ⟨trivial, trivial, ownOrdered_elim _, ownOrdered_elim _, hoptions, trivial⟩

theorem ownOrdered_metadata (request : GenerateInput) :
    OwnOrdered (.obj (request.metadata sha256)) := by
  refine @ownOrdered_of_names ["provider", "strategy", "sessionId", "inputDigest", "inputBytes"] _
    (.refl _) (by decide) (by decide) ?_
  simp only [GenerateInput.metadata, List.forall_mem_cons, List.not_mem_nil, false_imp_iff,
    implies_true, and_true]
  exact ⟨trivial, trivial, ownOrdered_elim _, trivial, trivial⟩

/-- The objects of a task are in order. -/
theorem ownOrdered_task (request : GenerateInput) :
    OwnOrdered (.obj (request.taskMembers sha256 requestId)) := by
  refine @ownOrdered_of_names ["type", "requestId", "metadata", "payload"] _
    (.refl _) (by decide) (by decide) ?_
  simp only [GenerateInput.taskMembers, List.forall_mem_cons, List.not_mem_nil, false_imp_iff,
    implies_true, and_true]
  exact ⟨trivial, trivial, ownOrdered_metadata request, ownOrdered_payload request⟩

/-- The task as the log has it. -/
theorem toJson_task (request : GenerateInput) : toJson (request.task sha256 requestId).value =
    some (some (jsonImage (.obj (request.taskMembers sha256 requestId)))) := by
  have hvalue : (request.task sha256 requestId).value =
      ofPlain (.obj (request.taskMembers sha256 requestId)) := (ofPlain_obj _).symm
  rw [hvalue, toJson_ofPlain]

/-- A recovered task is dispatched again as what the parser reads of its payload. -/
theorem redispatched_recovered (taskId enqueuedAt : JsString) (request : GenerateInput) :
    redispatched ⟨taskId, enqueuedAt,
        ofPlain (own (jsonImage (.obj (request.taskMembers sha256 requestId))))⟩ =
      parseQueuedChatPayload (some (queuedPayload request)) := by
  rw [own_eq_self (ownOrdered_task request).jsonImage, jsonImage_obj, ofPlain_obj]
  rfl

/-- Every restart on the files has the task. -/
def Recovered (queue : Queue) (taskId : JsString) (task : PendingTask) : Prop :=
  ∀ options, ∃ restarted, TaskQueueService.new options queue.disk = .ok restarted ∧
    restarted.service.pending.lookup taskId = some task

variable {options : TaskQueueServiceOptions} {disk : Disk} {queue queue' : Queue} {env : Env}
  {ticket : Text × Text}

/-- The log of a running queue holds whole records. -/
theorem exists_holds (h : (queueRuns options disk).Reachable queue) :
    ∃ payloads, queue.disk.Holds payloads := by
  refine h.invariant (I := fun queue => ∃ payloads, queue.disk.Holds payloads) ?_ ?_
  · intro queue hnew
    obtain ⟨payloads, hinStep⟩ := inStep_new hnew
    exact ⟨payloads, hinStep.holds⟩
  · rintro queue call queue' ⟨payloads, hholds⟩ hreturns
    rcases Call.returns_eq_some hreturns with ⟨-, rfl⟩ | ⟨io, payload, record, -, -, hwrite, -⟩
    · exact ⟨payloads, hholds⟩
    · exact ⟨_, enqueuePayload_holds hholds hwrite⟩

/-- A task that is enqueued is recovered as JSON has it. -/
theorem recovered_of_enqueue (hqueue : (queueRuns options disk).Reachable queue)
    (henqueue : TaskQueueService.enqueue queue env (request.task sha256 requestId) =
      (.ok ticket, queue')) :
    Recovered queue' (ofText env.randomUUID) ⟨ofText env.randomUUID, ofText env.nowIso,
      ofPlain (own (jsonImage (.obj (request.taskMembers sha256 requestId))))⟩ := by
  obtain ⟨payloads, hholds⟩ := exists_holds hqueue
  have hreturns : (Call.enqueue env (request.task sha256 requestId)).returns queue =
      some queue' := by
    rw [Call.returns, henqueue]
  rcases Call.returns_eq_some hreturns with ⟨hwrites, -⟩ |
    ⟨io, payload, record, -, hpayload, hwrite, -⟩
  · exact absurd trivial hwrites
  · have hparse := parseEnvelope_enqueueEnvelope (toJson_task request) hpayload
    have htask : isTask (own (jsonImage (.obj (request.taskMembers sha256 requestId)))) = true := by
      rw [own_eq_self (ownOrdered_task request).jsonImage, jsonImage_obj]
      rfl
    rw [if_pos htask] at hparse
    intro options
    have hwritten := enqueuePayload_holds hholds hwrite
    generalize (if queue.service.options.wal.rotates queue.disk
      (Framing.encode crc32c (encodeUtf8 payload)).length then [] else payloads) = kept at hwritten
    have hinStep : Queue.InStep ⟨{ queue'.service with
        pending := replayFrom [] ((kept ++ [encodeUtf8 payload]).map decodeUtf8) }, queue'.disk⟩
        (kept ++ [encodeUtf8 payload]) := ⟨hwritten, rfl⟩
    obtain ⟨restarted, hnew, hpending⟩ := hinStep.recovers options
    refine ⟨restarted, hnew, ?_⟩
    rw [hpending]
    dsimp only
    rw [List.map_append, List.map_singleton, decodeUtf8_encodeUtf8, replayFrom_concat _ _ hparse]
    exact (lookup_setMember _ _ _ _).trans (if_pos rfl)

/-- **Queued chat requests survive.** A request that the schema lets in and the queue takes is
recovered and dispatched again as the same request, exactly when its input is not all white
space. -/
theorem redispatch_iff (hqueue : (queueRuns options disk).Reachable queue)
    (hrequest : chatGenerateSchema body = some request)
    (henqueue : TaskQueueService.enqueue queue env (request.task sha256 requestId) =
      (.ok ticket, queue')) :
    (∃ task parsed, Recovered queue' (ofText env.randomUUID) task ∧
      redispatched task = some parsed ∧ SameRequest parsed request) ↔
    request.input.trim ≠ [] := by
  have hrecovered := recovered_of_enqueue hqueue henqueue
  have hparse := parseQueuedChatPayload_queued hrequest
  constructor
  · rintro ⟨task, parsed, htask, hparsed, -⟩ hblank
    obtain ⟨restarted, hnew, hlookup⟩ := hrecovered options
    obtain ⟨restarted', hnew', hlookup'⟩ := htask options
    obtain rfl := Except.ok.inj (hnew.symm.trans hnew')
    obtain rfl := Option.some.inj (hlookup.symm.trans hlookup')
    rw [if_pos hblank] at hparse
    rw [redispatched_recovered, hparse] at hparsed
    cases hparsed
  · intro hinput
    rw [if_neg hinput] at hparse
    obtain ⟨parsed, hparsed, hsame⟩ := hparse
    exact ⟨_, parsed, hrecovered, (redispatched_recovered _ _ request).trans hparsed, hsame⟩

/-! ## An input of white space -/

/-- A request with an input alone. -/
def sampleRequest (input : String) : GenerateInput := ⟨js input, none, none, none, none, none⟩

theorem chatGenerateSchema_sample : ∀ input ∈ ["hi", " "],
    chatGenerateSchema (.obj [(js "input", .str (js input))]) = some (sampleRequest input) := by
  decide

/-- The queue of a new process. -/
def sampleQueue : Queue := ⟨⟨⟨none, none, false⟩, [], [], 0, 0⟩, ⟨some [], none, [], false⟩⟩

theorem sampleQueue_reachable :
    (queueRuns ⟨none, none, false⟩ ⟨none, none, [], false⟩).Reachable sampleQueue :=
  .of_init rfl

def sampleEnv : Env :=
  ⟨"00000000-0000-4000-8000-000000000001".toList, "1970-01-01T00:00:01.000Z".toList,
    ⟨1000, none⟩⟩

/-- The task of a request, with a digest that is empty. -/
def sampleTask (input : String) : QueueTaskInput := (sampleRequest input).task (fun _ => []) (js "r")

theorem enqueue_sample : ∀ input ∈ ["hi", " "],
    (TaskQueueService.enqueue sampleQueue sampleEnv (sampleTask input)).1.isOk = true := by
  decide +kernel

theorem exists_enqueue_sample {input : String} (h : input ∈ ["hi", " "]) : ∃ ticket queue,
    TaskQueueService.enqueue sampleQueue sampleEnv (sampleTask input) = (.ok ticket, queue) := by
  have hok := enqueue_sample input h
  rcases henqueue : TaskQueueService.enqueue sampleQueue sampleEnv (sampleTask input) with
    ⟨_ | ticket, queue⟩
  · rw [henqueue] at hok
    cases hok
  · exact ⟨ticket, queue, rfl⟩

theorem redispatch_iff_sample : ∃ ticket queue,
    TaskQueueService.enqueue sampleQueue sampleEnv (sampleTask "hi") = (.ok ticket, queue) ∧
      ∃ task parsed, Recovered queue (ofText sampleEnv.randomUUID) task ∧
        redispatched task = some parsed ∧ SameRequest parsed (sampleRequest "hi") := by
  obtain ⟨ticket, queue, henqueue⟩ := exists_enqueue_sample List.mem_cons_self
  exact ⟨ticket, queue, henqueue, (redispatch_iff sampleQueue_reachable
    (chatGenerateSchema_sample "hi" List.mem_cons_self) henqueue).mpr (by decide)⟩

/-- A request for white space is let in and enqueued, and fails after a restart. -/
theorem blank_request_not_redispatched :
    chatGenerateSchema (.obj [(js "input", .str (js " "))]) = some (sampleRequest " ") ∧
      ∃ ticket queue task,
        TaskQueueService.enqueue sampleQueue sampleEnv (sampleTask " ") = (.ok ticket, queue) ∧
        Recovered queue (ofText sampleEnv.randomUUID) task ∧ redispatched task = none := by
  have hmem : " " ∈ ["hi", " "] := by decide
  have hschema := chatGenerateSchema_sample " " hmem
  obtain ⟨ticket, queue, henqueue⟩ := exists_enqueue_sample hmem
  have hparse := parseQueuedChatPayload_queued hschema
  rw [if_pos (by decide)] at hparse
  exact ⟨hschema, ticket, queue, _, henqueue, recovered_of_enqueue sampleQueue_reachable henqueue,
    (redispatched_recovered _ _ _).trans hparse⟩

end MemphisOS.Chat
