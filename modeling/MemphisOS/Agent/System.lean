import MemphisOS.Bridge.Envelope
import MemphisOS.Gateway.ExecPolicy

/-!
# Commands of the agent

The functions of the agent that start processes. Each of them asks first whether safe mode
is on.
-/

namespace MemphisOS.Agent

open Ecma Bridge

/-! ## Dangerous commands -/

/-- What remains of a string after each match at its start. -/
abbrev Matcher := JsString → List JsString

/-- The given text. -/
def lit (text : String) : Matcher := fun s =>
  if js text <+: s then [s.drop (js text).length] else []

/-- `[class]*`. -/
def zeroOrMore (p : UInt16 → Bool) : Matcher
  | [] => [[]]
  | u :: s => (u :: s) :: if p u then zeroOrMore p s else []

/-- `[class]+`. -/
def oneOrMore (p : UInt16 → Bool) : Matcher
  | [] => []
  | u :: s => if p u then zeroOrMore p s else []

/-- `(?![class])`. -/
def notBefore (p : UInt16 → Bool) : Matcher
  | [] => [[]]
  | u :: s => if p u then [] else [u :: s]

/-- `pattern.test(s)`, for a pattern of consecutive parts. -/
def test (parts : List Matcher) (s : JsString) : Bool :=
  s.tails.any fun rest => !(parts.foldl (fun rests part => rests.flatMap part) [rest]).isEmpty

/-- `\s`. -/
def isSpace (u : UInt16) : Bool := JsString.isSpaceUnit u

/-- `\w`. -/
def isWord (u : UInt16) : Bool :=
  (0x61 ≤ u.toNat && u.toNat ≤ 0x7A) || (0x41 ≤ u.toNat && u.toNat ≤ 0x5A) ||
    (0x30 ≤ u.toNat && u.toNat ≤ 0x39) || u.toNat = 0x5F

/-- `.`, all but line terminators. -/
def isDot (u : UInt16) : Bool := u.toNat ∉ [0xA, 0xD, 0x2028, 0x2029]

/-- `BLOCKED_PATTERNS`. -/
def blockedPatterns : List (List Matcher) :=
  [[lit "rm", oneOrMore isSpace, lit "-rf", oneOrMore isSpace, lit "/", notBefore isWord],
    [lit "mkfs"],
    [lit "dd", oneOrMore isSpace, lit "if=", zeroOrMore isDot, lit "of=/dev"],
    [lit ":()\x7b :|:& \x7d;:"],
    [lit ">", zeroOrMore isSpace, lit "/dev/sd"]]

def isBlockedCommand (command : JsString) : Bool :=
  blockedPatterns.any fun pattern => test pattern command

/-! ## Running commands -/

structure ExecResult where
  command : JsString
  exitCode : ℤ
  stdout : JsString
  stderr : JsString
  durationMs : ℕ

/-- A command handed to a shell, with the options that decide how it runs. -/
structure ShellCommand where
  command : JsString
  cwd : Plain
  timeout : Option Plain
  /-- The variables added to those of the process. -/
  env : List (JsString × JsString)

/-- What `execSync` throws. -/
structure ExecError where
  status : Option ℤ
  stdout : Option JsString
  stderr : Option JsString
  message : Option JsString

/-- The process the agent runs in. -/
structure ShellHost where
  /-- `process.cwd()`. -/
  cwd : JsString
  /-- The standard output of a command that ends with status 0. -/
  execSync : ShellCommand → Except ExecError JsString
  /-- How `sh -c` ends: its status if it has one, its output and errors. -/
  spawn : ShellCommand → Option ℤ × JsString × JsString
  durationMs : ShellCommand → ℕ
  pid : ShellCommand → ℕ

structure ExecOptions where
  cwd : Option Plain
  timeout : Option Plain
  env : List (JsString × JsString)

/-- What a call returns and the commands it handed to a shell. -/
structure Ran (α : Type) where
  result : α
  commands : List ShellCommand

/-- `inSafeMode()`. -/
def inSafeMode (rawEnv : Environment) : Bool :=
  ((rawEnv "MEMPHIS_SAFE_MODE").getD []).lowersTo "true"

def blockedExecResult (command : JsString) : ExecResult :=
  ⟨command, -1, [], js "BLOCKED: Command matches dangerous pattern", 0⟩

def safeModeExecResult (command : JsString) : ExecResult :=
  ⟨command, -1, [], js "FORBIDDEN_IN_SAFE_MODE: command execution is disabled", 0⟩

/-- `value || fallback`. -/
def orElse (value : Option Plain) (fallback : Plain) : Plain :=
  if truthy value then value.getD fallback else fallback

/-- A string that is not empty. -/
def nonEmpty (s : Option JsString) : Option JsString := s.filter (· ≠ [])

variable (rawEnv : Environment) (host : ShellHost)

def exec (command : JsString) (opts : ExecOptions) : Ran ExecResult :=
  if inSafeMode rawEnv then ⟨safeModeExecResult command, []⟩
  else if isBlockedCommand command then ⟨blockedExecResult command, []⟩
  else
    let shell : ShellCommand := ⟨command, orElse opts.cwd (.str host.cwd),
      some (orElse opts.timeout (.num (.ofNat 30000))), opts.env⟩
    match host.execSync shell with
    | .ok stdout => ⟨⟨command, 0, stdout, [], host.durationMs shell⟩, [shell]⟩
    | .error e =>
      ⟨⟨command, e.status.getD 1, e.stdout.getD [],
        ((nonEmpty e.stderr).or (nonEmpty e.message)).getD (js "Unknown error"),
        host.durationMs shell⟩, [shell]⟩

def execAsync (command : JsString) (cwd : Option JsString) : Ran ExecResult :=
  if inSafeMode rawEnv then ⟨safeModeExecResult command, []⟩
  else
    let shell : ShellCommand := ⟨command, .str ((nonEmpty cwd).getD host.cwd), none, []⟩
    let (code, stdout, stderr) := host.spawn shell
    ⟨⟨command, code.getD 1, stdout, stderr, host.durationMs shell⟩, [shell]⟩

structure RunningApp where
  pid : ℕ
  name : JsString
  command : JsString

def launchApp (name command : JsString) (cwd : Option JsString)
    (env : List (JsString × JsString)) : Ran (Except JsString RunningApp) :=
  if inSafeMode rawEnv then
    ⟨.error (js "FORBIDDEN_IN_SAFE_MODE: app launch is disabled"), []⟩
  else
    let shell : ShellCommand := ⟨command, .str ((nonEmpty cwd).getD host.cwd), none, env⟩
    ⟨.ok ⟨host.pid shell, name, command⟩, [shell]⟩

def pullOllamaModel (model : JsString) : Ran ExecResult :=
  if inSafeMode rawEnv then ⟨safeModeExecResult (js "ollama pull " ++ model), []⟩
  else execAsync rawEnv host (js "ollama pull " ++ model) none

/-- `ensureOllama()`, given whether it runs already. -/
def ensureOllama (running : Bool) : Ran (Option ExecResult) :=
  if inSafeMode rawEnv then ⟨some (safeModeExecResult (js "ollama serve")), []⟩
  else if running then ⟨none, []⟩
  else
    let ran := execAsync rawEnv host (js "ollama serve &") none
    ⟨some ran.result, ran.commands⟩

end MemphisOS.Agent
