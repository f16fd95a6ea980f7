import MemphisOS.Ecma.Maps
import MemphisOS.Ecma.StringMethods

/-!
# The command line

`parseCommand` splits the arguments into positionals and flags in one loop that looks one argument
ahead, and reads the fields of the result from the flags by name.
-/

namespace MemphisOS.Cli

open Ecma

/-- The value of a flag that was given. -/
inductive FlagValue where
  | present
  | text (s : JsString)
  deriving DecidableEq

/-- What the loop has collected. -/
structure Scan where
  positionals : List JsString
  flags : List (JsString × FlagValue)

def Scan.push (scan : Scan) (token : JsString) : Scan :=
  { scan with positionals := scan.positionals ++ [token] }

def Scan.set (scan : Scan) (token : JsString) (value : FlagValue) : Scan :=
  { scan with flags := setMember token value scan.flags }

/-- `token.startsWith('--')`. -/
def isFlag (token : JsString) : Bool := (js "--").isPrefixOf token

/-- The loop, from what it has collected so far. -/
def scanFrom (scan : Scan) : List JsString → Scan
  | [] => scan
  | [token] => if isFlag token then scan.set token .present else scan.push token
  | token :: next :: args =>
    if isFlag token then
      if next = [] ∨ isFlag next then scanFrom (scan.set token .present) (next :: args)
      else scanFrom (scan.set token (.text next)) args
    else scanFrom (scan.push token) (next :: args)

def scanArgs (args : List JsString) : Scan := scanFrom ⟨[], []⟩ args

/-- No flag has an empty text. -/
def Scan.NoEmptyText (scan : Scan) : Prop := ∀ name, scan.flags.lookup name ≠ some (.text [])

theorem Scan.NoEmptyText.set {scan : Scan} (h : scan.NoEmptyText) (token : JsString)
    {value : FlagValue} (hvalue : value ≠ .text []) : (scan.set token value).NoEmptyText := by
  intro name
  rw [Scan.set, lookup_setMember]
  split
  · exact fun heq => hvalue (Option.some.inj heq)
  · exact h name

/-- The loop takes an empty argument for a missing one. -/
theorem noEmptyText_scanFrom {scan : Scan} (h : scan.NoEmptyText) (args : List JsString) :
    (scanFrom scan args).NoEmptyText := by
  fun_induction scanFrom scan args with
  | case1 => exact h
  | case2 scan token hflag => exact h.set token (by intro hvalue; cases hvalue)
  | case3 => exact h
  | case4 scan token next args hflag hnext ih =>
    exact ih (h.set token (by intro hvalue; cases hvalue))
  | case5 scan token next args hflag hnext ih =>
    refine ih (h.set token fun hvalue => hnext (.inl (FlagValue.text.inj hvalue)))
  | case6 scan token next args hflag ih => exact ih h

/-! ## Fields -/

/-- The fields that are read by `hasBooleanFlag`. -/
inductive BooleanField where
  | json | tui | write | save | confirmWrite | tuned | interactive | nonInteractive | force | fix
  | deep | apply | dryRun | yes | schema | verbose | vision | functions | reset | list | clean
  | safeMode | strictMode
  deriving DecidableEq

/-- The fields that are read by `readFlagValue`. -/
inductive TextField where
  | input | session | provider | model | file | out | key | value | passphrase | recoveryQuestion
  | recoveryAnswer | id | query | «to» | transport | strategy | profile | systemPrompt | taskType
  | priority | size | chain | cid | recipient | blocks | offerId | repoPath | agent | restore | tag
  | format | faultInject | state | action | limits
  deriving DecidableEq

/-- The fields that are read by `readNumberFlag`. -/
inductive NumberField where
  | latest | port | durationMs | topK | maxTokens | contextWindow | temperature | minContext | days
  | keep | intervalMs
  deriving DecidableEq

def BooleanField.flag : BooleanField → String
  | json => "--json"
  | tui => "--tui"
  | write => "--write"
  | save => "--save"
  | confirmWrite => "--confirm-write"
  | tuned => "--tuned"
  | interactive => "--interactive"
  | nonInteractive => "--non-interactive"
  | force => "--force"
  | fix => "--fix"
  | deep => "--deep"
  | apply => "--apply"
  | dryRun => "--dry-run"
  | yes => "--yes"
  | schema => "--schema"
  | verbose => "--verbose"
  | vision => "--vision"
  | functions => "--functions"
  | reset => "--reset"
  | list => "--list"
  | clean => "--clean"
  | safeMode => "--safe-mode"
  | strictMode => "--strict-mode"

def TextField.flag : TextField → String
  | input => "--input"
  | session => "--session"
  | provider => "--provider"
  | model => "--model"
  | file => "--file"
  | out => "--out"
  | key => "--key"
  | value => "--value"
  | passphrase => "--passphrase"
  | recoveryQuestion => "--recovery-question"
  | recoveryAnswer => "--recovery-answer"
  | id => "--id"
  | query => "--query"
  | «to» => "--to"
  | transport => "--transport"
  | strategy => "--strategy"
  | profile => "--profile"
  | systemPrompt => "--system-prompt"
  | taskType => "--task-type"
  | priority => "--priority"
  | size => "--size"
  | chain => "--chain"
  | cid => "--cid"
  | recipient => "--recipient"
  | blocks => "--blocks"
  | offerId => "--offer-id"
  | repoPath => "--repo-path"
  | agent => "--agent"
  | restore => "--restore"
  | tag => "--tag"
  | format => "--format"
  | faultInject => "--fault-inject"
  | state => "--state"
  | action => "--action"
  | limits => "--limits"

def NumberField.flag : NumberField → String
  | latest => "--latest"
  | port => "--port"
  | durationMs => "--duration-ms"
  | topK => "--top-k"
  | maxTokens => "--max-tokens"
  | contextWindow => "--context-window"
  | temperature => "--temperature"
  | minContext => "--min-context"
  | days => "--days"
  | keep => "--keep"
  | intervalMs => "--interval"

/-- What is parsed of a command line. -/
@[ext] structure CliArgs where
  command : Option JsString
  subcommand : Option JsString
  target : Option JsString
  booleans : BooleanField → Bool
  texts : TextField → Option JsString
  numbers : NumberField → Option JsNumber

section

variable (flags : List (JsString × FlagValue)) (name : String)

def readFlagValue : Option JsString :=
  match flags.lookup (js name) with
  | some (.text s) => some s
  | _ => none

def hasBooleanFlag : Bool := flags.lookup (js name) = some .present

/-- An empty value counts as missing. -/
def readNumberFlag : Option JsNumber :=
  match readFlagValue flags name with
  | none => none
  | some [] => none
  | some value => some value.toNumber

end

/-- `argv` starts with the runtime and the script. -/
def parseCommand (argv : List JsString) : CliArgs :=
  let scan := scanArgs (argv.drop 2)
  { command := scan.positionals[0]?
    subcommand := scan.positionals[1]?
    target := scan.positionals[2]?
    booleans := fun field => hasBooleanFlag scan.flags field.flag
    texts := fun field => readFlagValue scan.flags field.flag
    numbers := fun field => readNumberFlag scan.flags field.flag }

/-! ## The choice of the backup command -/

/-- The subcommands `handleBackupCommand` knows. -/
def backupSubcommands : List JsString :=
  [js "create", js "list", js "verify", js "restore", js "clean"]

/-- The subcommand `handleBackupCommand` runs; the first argument is `String.toLowerCase`. -/
def backupSubcommand (toLowerCase : JsString → JsString) (args : CliArgs) : JsString :=
  let explicitSubcommand := (args.subcommand.map toLowerCase).getD []
  if explicitSubcommand ∈ backupSubcommands then explicitSubcommand
  else if args.booleans .list then js "list"
  else if args.booleans .clean then js "clean"
  else if (args.texts .restore).getD [] ≠ [] then js "restore"
  else if explicitSubcommand ≠ [] then explicitSubcommand
  else js "create"

end MemphisOS.Cli
