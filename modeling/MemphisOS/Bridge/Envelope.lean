import MemphisOS.Chain.Blocks
import MemphisOS.Core.Napi

/-!
# Answers of the native bridge

What the adapter makes of the JSON text a bridge function returns.
-/

namespace MemphisOS.Bridge

open Ecma MemphisCore

/-- What the adapter uses of the platform. -/
structure BridgeHost extends Chain.ChainHost where
  /-- `String(value)`. -/
  stringOf : Plain → JsString
  /-- `value + 1` for a value that is no number. -/
  plusOneOf : Plain → Plain

/-- Whether a value counts as true; `undefined` does not. -/
def truthy : Option Plain → Bool
  | none => false
  | some .null => false
  | some (.bool b) => b
  | some (.num n) => n ≠ .nan ∧ n.dropZeroSign ≠ .ofNat 0
  | some (.str s) => s ≠ []
  | some _ => true

/-- An own property of an object; other values have none of the names asked for. -/
def property (value : Plain) (name : String) : Option Plain :=
  match value with
  | .obj ms => ms.lookup (js name)
  | _ => none

/-- A property that is a string. -/
def stringProperty (value : Plain) (name : String) : Option JsString :=
  match property value name with
  | some (.str s) => some s
  | _ => none

/-- A property that is left out when it is undefined. -/
def optionalMember (name : String) (value : Option Plain) : List (JsString × Plain) :=
  value.toList.map (js name, ·)

theorem keys_optionalMember (name : String) (value : Option Plain) :
    ((optionalMember name value).map Prod.fst).Sublist [js name] := by
  cases value with
  | none => exact List.nil_sublist _
  | some v => exact .refl _

variable (host : BridgeHost)

/-- `out.error ?? 'bridge returned error'`. -/
def errorText (out : Plain) : JsString :=
  match property out "error" with
  | none => js "bridge returned error"
  | some .null => js "bridge returned error"
  | some error => host.stringOf error

/-- The data of an answer, or the message of the error that is thrown. -/
def parseEnvelope (raw : Text) (fnName : String) : Except JsString Plain :=
  match parseJson raw with
  | none => .error (js fnName ++ js ": invalid JSON response (SyntaxError: " ++
      ofText (host.parseMessage raw) ++ js ")")
  | some .null => .error (js "Cannot read properties of null (reading 'ok')")
  | some out =>
    if truthy (property out "ok") then
      match property out "data" with
      | some data => .ok data
      | none => .error (js fnName ++ js ": bridge returned empty data")
    else .error (js fnName ++ js ": " ++ errorText host out)

variable {host}

theorem parseJson_respond (succeeded : Bool) (data error : Json ℕ) :
    parseJson (respond succeeded data error) = some (.obj [(js "ok", .bool succeeded),
      (js "data", own (data.mapNumbers .ofNat)), (js "error", own (error.mapNumbers .ofNat))]) := by
  rw [respond, Serde.parseJson_digits (by simp [Json.Blank]), Json.mapNumbers_obj,
    own_obj_of_inOwnOrder]
  · rfl
  · exact show InOwnOrder [js "ok", js "data", js "error"] from ⟨by decide, by decide⟩

/-- The data of a successful answer, as an ECMAScript value. -/
theorem parseEnvelope_ok (data : Json ℕ) (fnName : String) :
    parseEnvelope host (ok data) fnName = .ok (own (data.mapNumbers .ofNat)) := by
  rw [parseEnvelope, MemphisCore.ok, parseJson_respond]
  rfl

/-- The error of a failed answer is thrown. -/
theorem parseEnvelope_err (message : Text) (fnName : String) :
    parseEnvelope host (err message) fnName =
      .error (js fnName ++ js ": " ++ host.stringOf (.str (ofText message))) := by
  rw [parseEnvelope, err, parseJson_respond]
  rfl

/-- A host whose locale compares code units. -/
def sampleHost : BridgeHost where
  toLowerCase := id
  sha256 := id
  localeLe a b := a ≤ b
  parseMessage _ := "Unexpected end of JSON input".toList
  stringOf
    | .str s => s
    | _ => js "[object Object]"
  plusOneOf
    | .str s => .str (s ++ js "1")
    | _ => .num .nan

end MemphisOS.Bridge
