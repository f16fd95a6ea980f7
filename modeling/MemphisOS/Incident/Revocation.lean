import MemphisOS.Incident.Rotation
import MemphisOS.Incident.Verifier
import MemphisOS.TrustRoot.History

/-!
# Revocation

A trust root manifest may list revoked keys. No path that accepts something on the strength of a
root or a key looks at the list: each accepts what it accepts without the list.
-/

namespace MemphisOS.Incident

open Ecma Bridge TrustRoot

variable {p : Process} {chainEvent : Except JsString Unit} {value : Plain}

/-! ## Manifests without the list -/

/-- The strings of the list of revoked keys. -/
def revokedKeys (manifest : Plain) : List JsString :=
  match property manifest "revokedKeys" with
  | some (.arr items) => items.filterMap fun item =>
      match item with
      | .str s => some s
      | _ => none
  | _ => []

namespace Process

/-- The verdict has no errors. -/
def Accepts (p : Process) (chainEvent : Except JsString Unit) : Prop :=
  ∃ output, p.verify chainEvent = .ok (.output output) ∧ output.errors = []

end Process

end MemphisOS.Incident
