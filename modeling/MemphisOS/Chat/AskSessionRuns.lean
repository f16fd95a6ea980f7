import MemphisOS.Chat.AskSession
import MemphisOS.Ecma.Documents
import MemphisOS.Ecma.JsonLines
import MemphisOS.Ecma.StringMethods
import MemphisOS.Files.Paths
import MemphisOS.Systems.Transition

/-!
# Runs of sessions

Sessions are kept in files of JSON lines. Any number of programs work on them at a time: each
appends the input of its user to a session, builds a prompt of what the file then holds, and appends
the answer. Other programs may append to the session or clear it in between.
-/

namespace MemphisOS.Chat

open Ecma Files.Paths

/-! ## The store -/

def AskSessionRole.text : AskSessionRole → JsString
  | .user => js "user"
  | .assistant => js "assistant"
  | .system => js "system"

/-- `role.toUpperCase()`. -/
def AskSessionRole.label : AskSessionRole → JsString
  | .user => js "USER"
  | .assistant => js "ASSISTANT"
  | .system => js "SYSTEM"

namespace AskSessionTurn

/-- The members of the document of a turn. -/
def members (turn : AskSessionTurn) : List (JsString × Plain) :=
  [(js "timestamp", .str turn.timestamp), (js "role", .str turn.role.text),
    (js "content", .str turn.content), (js "tokens", .num (JsNumber.ofNat turn.tokens))]

/-- The turn a document is. Nothing checks that a document is one. -/
def ofPlain (v : Plain) : Option AskSessionTurn :=
  match v with
  | .obj members =>
    match members.lookup (js "timestamp"), members.lookup (js "role"),
      members.lookup (js "content"), members.lookup (js "tokens") with
    | some (.str timestamp), some (.str role), some (.str content), some (.num tokens) =>
      match [AskSessionRole.user, .assistant, .system].find? fun r => r.text = role,
        tokens.toRat? with
      | some role, some q =>
        if q.den = 1 ∧ 0 ≤ q then some ⟨timestamp, role, content, q.num.toNat⟩ else none
      | _, _ => none
    | _, _, _, _ => none
  | _ => none

/-- The tokens are a count that a number holds exactly. -/
def Counted (turn : AskSessionTurn) : Prop := turn.tokens < 2 ^ 53

end AskSessionTurn

def estimateTokens (content : JsString) : ℕ := max 1 ((content.length + 3) / 4)

/-- The settings of the process environment. -/
structure SessionSettings where
  cwd : WorkingDirectory
  sessionsDir : Option JsString
  contextTurns : Option JsString
  contextWindowTokens : Option JsString

namespace SessionSettings

variable (env : SessionSettings)

def askSessionPath (name : JsString) : JsString :=
  resolve env.cwd [resolve env.cwd [env.sessionsDir.getD (js "data/sessions")], name ++ js ".jsonl"]

/-- A positive limit without its fraction, or the default. -/
def limit (default : ℕ) (raw : Option JsString) : ℤ :=
  match raw.map JsString.toNumber with
  | some (.finite q _) => if 0 < q then ⌊q⌋ else default
  | _ => default

def askSessionContextTurns : ℤ := limit 10 env.contextTurns

def askSessionContextWindowTokens : ℤ := limit 4000 env.contextWindowTokens

end SessionSettings

/-- `readAskSession`, with the text of the file if there is one. -/
def readAskSession (file : Option Text) : Option (List AskSessionTurn) :=
  match file with
  | none => some []
  | some text => (readJsonLines text).bind (·.mapM AskSessionTurn.ofPlain)

/-- `appendAskSessionTurn`. -/
def appendAskSessionTurn (turn : AskSessionTurn) (file : Option Text) : Option Text :=
  some (file.getD [] ++ jsonLine (.obj turn.members))

/-- `clearAskSession`. -/
def clearAskSession : Option Text := some []

/-! ## Prompts -/

/-- `askSessionStats`, without the numbers that are only printed. -/
structure AskSessionStats where
  contextTurns : ℕ
  contextTokenLimit : ℤ

def askSessionStats (env : SessionSettings) (turns : List AskSessionTurn) : AskSessionStats where
  contextTurns := (selectContextTurns turns env.askSessionContextTurns
    env.askSessionContextWindowTokens).length
  contextTokenLimit := env.askSessionContextWindowTokens

def buildAskSessionPrompt (contextTurns : List AskSessionTurn) (currentInput : JsString) :
    JsString :=
  if contextTurns = [] then currentInput
  else
    (js "\n").intercalate
      [js "Use the conversation context below when answering the latest user input.", [],
        (js "\n").intercalate
          (contextTurns.map fun turn => turn.role.label ++ js ": " ++ turn.content),
        [], js "USER: " ++ currentInput, js "ASSISTANT:"]

/-- The prompt of `runAskSessionTurn`: the turns are selected once more, with the number of those
selected before as the limit. -/
def sessionPrompt (env : SessionSettings) (turns : List AskSessionTurn) (input : JsString) :
    JsString :=
  let stats := askSessionStats env turns
  buildAskSessionPrompt (selectContextTurns turns stats.contextTurns stats.contextTokenLimit) input

/-! ## Programs -/

/-- Where a program is in `runAskSessionTurn`. -/
inductive SessionPhase where
  | idle
  /-- The user's turn is appended. -/
  | submitted (session input : JsString)
  /-- The prompt is sent. -/
  | asked (session prompt : JsString)

structure Sessions where
  /-- The texts of the files by their paths. -/
  files : JsString → Option Text
  phase : ℕ → SessionPhase

inductive SessionStep where
  /-- A program is given a line of its user. -/
  | submit (program : ℕ) (session rawInput timestamp : JsString)
  /-- It reads the session and sends the prompt. -/
  | ask (program : ℕ)
  /-- The provider answers, perhaps with a count of the tokens. -/
  | reply (program : ℕ) (session output : JsString) (outputTokens : Option ℕ)
      (timestamp : JsString)
  /-- The provider fails, or the program is stopped. -/
  | fail (program : ℕ)

def userTurn (rawInput timestamp : JsString) : AskSessionTurn :=
  ⟨timestamp, .user, rawInput, estimateTokens rawInput⟩

def assistantTurn (output : JsString) (outputTokens : Option ℕ) (timestamp : JsString) :
    AskSessionTurn :=
  ⟨timestamp, .assistant, output, outputTokens.getD (estimateTokens output)⟩

/-- The inputs that `handleAskSessionMetaCommand` answers without a change. -/
def queries : List JsString := [js "/exit", js "/context", js "/save"]

namespace Sessions

variable (env : SessionSettings) (self : Sessions)

def setFile (path : JsString) (file : Option Text) : Sessions :=
  { self with files := Function.update self.files path file }

def setPhase (program : ℕ) (phase : SessionPhase) : Sessions :=
  { self with phase := Function.update self.phase program phase }

/-- A step of a program, where it can take it. -/
def next : SessionStep → Option Sessions
  | .submit program session rawInput timestamp =>
    match self.phase program with
    | .idle =>
      let path := env.askSessionPath session
      if rawInput.trim = js "/clear" then some (self.setFile path clearAskSession)
      else if rawInput.trim ∈ queries then some self
      else
        some ((self.setFile path
          (appendAskSessionTurn (userTurn rawInput timestamp) (self.files path))).setPhase program
            (.submitted session rawInput))
    | _ => none
  | .ask program =>
    match self.phase program with
    | .submitted session input =>
      (readAskSession (self.files (env.askSessionPath session))).map fun turns =>
        self.setPhase program (.asked session (sessionPrompt env turns input))
    | _ => none
  | .reply program session output outputTokens timestamp =>
    match self.phase program with
    | .asked asking _ =>
      if asking = session then
        let path := env.askSessionPath session
        some ((self.setFile path (appendAskSessionTurn
          (assistantTurn output outputTokens timestamp) (self.files path))).setPhase program .idle)
      else none
    | _ => none
  | .fail program => some (self.setPhase program .idle)

end Sessions

/-- The texts have lengths, and the answers token counts, that numbers hold exactly. -/
def SessionStep.Counted : SessionStep → Prop
  | .submit _ _ rawInput _ => rawInput.length < 2 ^ 53
  | .reply _ _ output outputTokens _ => output.length < 2 ^ 53 ∧ ∀ n ∈ outputTokens, n < 2 ^ 53
  | _ => True

/-- Programs that start when there are no sessions. -/
def sessionSystem (env : SessionSettings) : TransitionSystem Sessions SessionStep where
  init s := s.files = (fun _ => none) ∧ s.phase = fun _ => .idle
  step s step t := step.Counted ∧ s.next env step = some t

/-! ## The log -/

/-- The turns of a file after a step. -/
def logStep (env : SessionSettings) (path : JsString) (turns : List AskSessionTurn) :
    SessionStep → List AskSessionTurn
  | .submit _ session rawInput timestamp =>
    if env.askSessionPath session = path then
      if rawInput.trim = js "/clear" then []
      else if rawInput.trim ∈ queries then turns
      else turns ++ [userTurn rawInput timestamp]
    else turns
  | .reply _ session output outputTokens timestamp =>
    if env.askSessionPath session = path then
      turns ++ [assistantTurn output outputTokens timestamp]
    else turns
  | _ => turns

/-- The turns appended to a file since it was last cleared. -/
def sessionLog (env : SessionSettings) (path : JsString) (steps : List SessionStep) :
    List AskSessionTurn :=
  steps.foldl (logStep env path) []

variable {env : SessionSettings} {turn last : AskSessionTurn} {turns rest : List AskSessionTurn}
  {file : Option Text} {path : JsString} {step : SessionStep} {steps : List SessionStep}
  {s t : Sessions} {maxTurns maxTokens : ℤ}

/-! ## Reading back -/

theorem isDocument_members (h : turn.Counted) : IsDocument (.obj turn.members) := by
  refine @isDocument_of_names ["timestamp", "role", "content", "tokens"] _ rfl (by decide)
    (by decide) fun m hm => ?_
  simp only [AskSessionTurn.members, List.mem_cons, List.not_mem_nil, or_false] at hm
  rcases hm with rfl | rfl | rfl | rfl
  · exact isDocument_str _
  · exact isDocument_str _
  · exact isDocument_str _
  · exact isDocument_ofNat h

/-- A turn is read from its document. -/
theorem ofPlain_members (h : turn.Counted) :
    AskSessionTurn.ofPlain (.obj turn.members) = some turn := by
  have hrole : [AskSessionRole.user, .assistant, .system].find? (fun r => r.text = turn.role.text) =
      some turn.role := by
    cases turn.role with
    | user => rfl
    | assistant => rfl
    | system => rfl
  have htimestamp : turn.members.lookup (js "timestamp") = some (.str turn.timestamp) := rfl
  have hrole' : turn.members.lookup (js "role") = some (.str turn.role.text) := rfl
  have hcontent : turn.members.lookup (js "content") = some (.str turn.content) := rfl
  have htokens : turn.members.lookup (js "tokens") = some (.num (JsNumber.ofNat turn.tokens)) := rfl
  have hnumber : (JsNumber.ofNat turn.tokens).toRat? = some (turn.tokens : ℚ) := by
    rw [JsNumber.ofNat_eq h]
    rfl
  simp only [AskSessionTurn.ofPlain, htimestamp, hrole', hcontent, htokens, hrole, hnumber]
  rw [if_pos ⟨Rat.den_natCast _, Nat.cast_nonneg _⟩, Rat.num_natCast, Int.toNat_natCast]

theorem mapM_ofPlain (h : ∀ turn ∈ turns, turn.Counted) :
    (turns.map fun turn => own (.obj turn.members)).mapM AskSessionTurn.ofPlain = some turns := by
  induction turns with
  | nil => rfl
  | cons turn turns ih =>
    have hturn := h turn List.mem_cons_self
    rw [List.map_cons, List.mapM_cons, own_eq_self (isDocument_members hturn).ordered,
      ofPlain_members hturn, ih fun turn hmem => h turn (List.mem_cons_of_mem _ hmem)]
    rfl

/-- What a file holds: the lines of some turns, whether it was created yet or not. -/
structure Holds (file : Option Text) (turns : List AskSessionTurn) : Prop where
  text : file.getD [] = turns.flatMap fun turn => jsonLine (.obj turn.members)
  counted : ∀ turn ∈ turns, turn.Counted

theorem Holds.nil : Holds none [] := ⟨rfl, List.forall_mem_nil _⟩

theorem Holds.clear : Holds clearAskSession [] := ⟨rfl, List.forall_mem_nil _⟩

theorem Holds.append (h : Holds file turns) (hturn : turn.Counted) :
    Holds (appendAskSessionTurn turn file) (turns ++ [turn]) where
  text := by
    rw [appendAskSessionTurn, Option.getD_some, h.text, List.flatMap_append, List.flatMap_singleton]
  counted := by
    intro turn' hmem
    rcases List.mem_append.mp hmem with hmem | hmem
    · exact h.counted turn' hmem
    · rw [List.mem_singleton.mp hmem]
      exact hturn

/-- The turns are read back. -/
theorem Holds.read (h : Holds file turns) : readAskSession file = some turns := by
  cases file with
  | none =>
    cases turns with
    | nil => rfl
    | cons turn turns =>
      -- the line of a turn is not empty
      have htext := congrArg List.length h.text
      rw [Option.getD_none, List.flatMap_cons, jsonLine, List.length_nil, List.length_append,
        List.length_append, List.length_singleton] at htext
      omega
  | some text =>
    have htext : text = (turns.map AskSessionTurn.members).flatMap fun ms => jsonLine (.obj ms) := by
      rw [List.flatMap_map]
      exact h.text
    have hdocuments : ∀ ms ∈ turns.map AskSessionTurn.members, IsDocument (.obj ms) := by
      intro ms hms
      obtain ⟨turn, hturn, rfl⟩ := List.mem_map.mp hms
      exact isDocument_members (h.counted turn hturn)
    rw [readAskSession, htext, readJsonLines_flatMap fun ms hms => (hdocuments ms hms).numbers,
      Option.bind_some, List.map_map]
    exact mapM_ofPlain h.counted

/-! ## The second selection -/

/-- The turns selected first are selected again under their own number. -/
theorem selectContextTurns_again (turns : List AskSessionTurn) (maxTurns maxTokens : ℤ) :
    selectContextTurns turns (selectContextTurns turns maxTurns maxTokens).length maxTokens =
      selectContextTurns turns maxTurns maxTokens := by
  rcases turns.eq_nil_or_concat' with rfl | ⟨init, last, rfl⟩
  · rw [selectContextTurns, List.drop_nil, selectContextTurns, List.drop_nil]
  · set turns := init ++ [last] with hturns
    set byTurns := turns.drop (turns.length - (max 1 maxTurns).toNat) with hbyTurns
    obtain ⟨older, holder⟩ : byTurns <:+ turns := List.drop_suffix _ _
    obtain ⟨rest, hrest⟩ : ∃ rest, byTurns.reverse = last :: rest := by
      have hlast : [last] <:+ byTurns :=
        (suffix_drop_iff ⟨init, rfl⟩).mpr (le_max_left 1 maxTurns)
      obtain ⟨front, hfront⟩ := hlast
      exact ⟨front.reverse, by rw [← hfront, List.reverse_append]; rfl⟩
    obtain ⟨front, back, rfl, hloop, hfits, -⟩ := @pickTurns_cons_spec rest maxTokens last
    have hselect : selectContextTurns turns maxTurns maxTokens = (last :: front).reverse := by
      rw [selectContextTurns, ← hbyTurns, hrest, hloop]
    -- the second selection starts with just the turns of the first one
    have hagain : (turns.drop (turns.length -
        (max 1 ((last :: front).reverse.length : ℤ)).toNat)).reverse = last :: front := by
      have hreverse : turns.reverse = last :: front ++ (back ++ older.reverse) := by
        rw [← holder, List.reverse_append, hrest, List.cons_append, List.cons_append,
          List.append_assoc]
      have hnumber : (max 1 ((last :: front).reverse.length : ℤ)).toNat = (last :: front).length := by
        rw [List.length_reverse, List.length_cons]
        omega
      have hle : (last :: front).length ≤ turns.length := by
        have hlength := congrArg List.length hreverse
        simp only [List.length_reverse, List.length_append] at hlength ⊢
        omega
      rw [hnumber, List.reverse_drop, hreverse, Nat.sub_sub_self hle]
      exact List.take_left
    obtain ⟨front', back', hfront, hloop', -, hstop⟩ := @pickTurns_cons_spec front maxTokens last
    rw [hselect, selectContextTurns, hagain, hloop']
    cases back' with
    | nil => rw [hfront, List.append_nil]
    | cons turn back' =>
      -- the turn that would be left out fits, as all of them do
      have hover := hstop turn rfl
      have hall := hfits (by rw [hfront]; simp)
      have hturn : totalTokens (turn :: back') = turn.tokens + totalTokens back' := rfl
      rw [hfront, ← List.cons_append, totalTokens_append, hturn] at hall
      omega

/-! ## Runs -/

theorem counted_userTurn {rawInput timestamp : JsString} (h : rawInput.length < 2 ^ 53) :
    (userTurn rawInput timestamp).Counted := by
  change max 1 ((rawInput.length + 3) / 4) < 2 ^ 53
  omega

theorem counted_assistantTurn {output timestamp : JsString} {outputTokens : Option ℕ}
    (h : output.length < 2 ^ 53 ∧ ∀ n ∈ outputTokens, n < 2 ^ 53) :
    (assistantTurn output outputTokens timestamp).Counted := by
  rw [AskSessionTurn.Counted, assistantTurn]
  cases outputTokens with
  | none =>
    change max 1 ((output.length + 3) / 4) < 2 ^ 53
    omega
  | some n => exact h.2 n rfl

/-- Every file holds its turns. -/
def Sessions.Log (env : SessionSettings) (steps : List SessionStep) (s : Sessions) : Prop :=
  ∀ path, Holds (s.files path) (sessionLog env path steps)

theorem sessionLog_concat (env : SessionSettings) (path : JsString) (steps : List SessionStep)
    (step : SessionStep) : sessionLog env path (steps ++ [step]) =
      logStep env path (sessionLog env path steps) step := by
  rw [sessionLog, List.foldl_append]
  rfl

/-- A change of one file leaves the others as they are. -/
theorem holds_setFile {written : JsString} {file' : Option Text} {turns' : List AskSessionTurn}
    (h : Holds (s.files path) turns) (hfile : written = path → Holds file' turns') :
    Holds ((s.setFile written file').files path) (if written = path then turns' else turns) := by
  change Holds (Function.update s.files written file' path) _
  by_cases hpath : written = path
  · rw [if_pos hpath, ← hpath, Function.update_self]
    exact hfile hpath
  · rw [if_neg hpath, Function.update_of_ne (Ne.symm hpath)]
    exact h

/-- What a step does to a file. -/
theorem Holds.next (h : Holds (s.files path) turns) (hcounted : step.Counted)
    (hnext : s.next env step = some t) : Holds (t.files path) (logStep env path turns step) := by
  cases step with
  | submit program session rawInput timestamp =>
    rw [Sessions.next] at hnext
    split at hnext
    · dsimp only at hnext
      split at hnext
      · next hclear =>
        obtain rfl := Option.some.inj hnext
        rw [logStep, if_pos hclear]
        exact holds_setFile h fun _ => .clear
      split at hnext
      · next hclear hquery =>
        obtain rfl := Option.some.inj hnext
        rw [logStep, if_neg hclear, if_pos hquery, ite_self]
        exact h
      · next hclear hquery =>
        obtain rfl := Option.some.inj hnext
        rw [logStep, if_neg hclear, if_neg hquery]
        exact holds_setFile h fun hpath => by
          rw [hpath]
          exact h.append (counted_userTurn hcounted)
    · cases hnext
  | ask program =>
    rw [Sessions.next] at hnext
    split at hnext
    · obtain ⟨turns', -, rfl⟩ := Option.map_eq_some_iff.mp hnext
      exact h
    · cases hnext
  | reply program session output outputTokens timestamp =>
    rw [Sessions.next] at hnext
    split at hnext
    · split at hnext
      · obtain rfl := Option.some.inj hnext
        rw [logStep]
        exact holds_setFile h fun hpath => by
          rw [hpath]
          exact h.append (counted_assistantTurn hcounted)
      · cases hnext
    · cases hnext
  | fail program =>
    obtain rfl := Option.some.inj hnext
    exact h

theorem log_of_run (hrun : (sessionSystem env).Run steps s) : s.Log env steps := by
  refine hrun.induct (P := Sessions.Log env) ?_ ?_
  · rintro s ⟨hfiles, -⟩ path
    rw [hfiles]
    exact .nil
  · rintro steps s step t - hlog ⟨hcounted, hnext⟩ path
    rw [sessionLog_concat]
    exact (hlog path).next hcounted hnext

/-- **Sessions.** Whatever any number of programs do, every session reads as the turns appended to
its file since it was last cleared, and a program whose input is appended can send its prompt: it is
built of the context of those turns. -/
theorem sessions_read_back (hrun : (sessionSystem env).Run steps s) :
    (∀ path, readAskSession (s.files path) = some (sessionLog env path steps)) ∧
      ∀ program session input, s.phase program = .submitted session input →
        s.next env (.ask program) = some (s.setPhase program (.asked session
          (buildAskSessionPrompt
            (selectContextTurns (sessionLog env (env.askSessionPath session) steps)
              env.askSessionContextTurns env.askSessionContextWindowTokens) input))) := by
  have hread : ∀ path, readAskSession (s.files path) = some (sessionLog env path steps) :=
    fun path => (log_of_run hrun path).read
  refine ⟨hread, fun program session input hphase => ?_⟩
  rw [Sessions.next, hphase]
  dsimp only
  rw [hread, Option.map_some, sessionPrompt]
  dsimp only [askSessionStats]
  rw [selectContextTurns_again]

theorem isAbsolute_root : isAbsolute (js "/") := by decide

/-- A program in the root directory, with the default settings. -/
def sampleSettings : SessionSettings := ⟨⟨js "/", isAbsolute_root⟩, none, none, none⟩

theorem sessions_read_back_submitted : ∃ s, Sessions.next sampleSettings
    ⟨fun _ => none, fun _ => .idle⟩ (.submit 0 (js "a") (js "hello") (js "now")) = some s ∧
      readAskSession (s.files (sampleSettings.askSessionPath (js "a"))) =
        some [userTurn (js "hello") (js "now")] := by
  have hclear : ¬(js "hello").trim = js "/clear" := by decide
  have hquery : (js "hello").trim ∉ queries := by decide
  have hnext : ∃ s, Sessions.next sampleSettings
      ⟨fun _ => none, fun _ => .idle⟩ (.submit 0 (js "a") (js "hello") (js "now")) = some s := by
    rw [Sessions.next]
    dsimp only
    rw [if_neg hclear, if_neg hquery]
    exact ⟨_, rfl⟩
  obtain ⟨s, hnext⟩ := hnext
  have hrun : (sessionSystem sampleSettings).Run
      ([] ++ [.submit 0 (js "a") (js "hello") (js "now")]) s :=
    .next (.start ⟨rfl, rfl⟩) ⟨show (js "hello").length < 2 ^ 53 by decide, hnext⟩
  refine ⟨s, hnext, ?_⟩
  rw [(sessions_read_back hrun).1, sessionLog_concat, logStep, if_pos rfl, if_neg hclear,
    if_neg hquery]
  rfl

end MemphisOS.Chat
