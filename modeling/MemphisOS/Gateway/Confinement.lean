import MemphisOS.Gateway.ExecPolicy
import MemphisOS.Shell.Commands

/-!
# What the execution policy confines

A command that the policy accepts is handed to a shell. The policy looks at its first token only,
and the shell reads more: further lines, jobs, quotes and paths.
-/

namespace MemphisOS.Gateways

open Ecma

/-- What the shell may start that runs a command. -/
def MayStart (command : JsString) (program : Shell.Program) : Prop :=
  Shell.MayStart (wellFormed command) program

/-- Only programs of the list are started, found by their names. -/
def Confined (policy : GatewayExecPolicy) (command : JsString) : Prop :=
  ∀ program, MayStart command program →
    ∃ entry ∈ policy.allowlist, program = .onPath (wellFormed entry)

section Names

variable {name : Text} {c : Char}

end Names

/-! ## What the policy reads -/

section Policy

variable {name : Text} {command back : JsString} {policy : GatewayExecPolicy}

end Policy

section Samples

variable {commands : List Shell.Command} {words : List Shell.Word} {word : Shell.Word} {name : Text}

end Samples

end MemphisOS.Gateways
