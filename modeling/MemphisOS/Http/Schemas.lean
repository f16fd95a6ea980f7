import MemphisOS.Ecma.Numerals
import MemphisOS.Ecma.Value

/-!
# Request schemas

The checks of the schema library that the bodies of requests are read with. A schema gives what
it has read, or nothing.
-/

namespace MemphisOS

open Ecma

/-- `z.string().min(low).max(high)`. -/
def readString (low high : ℕ) : Plain → Option JsString
  | .str s => if low ≤ s.length ∧ s.length ≤ high then some s else none
  | _ => none

/-- `z.number().int()` between bounds; an integer is a safe one. -/
def readInt (low : ℕ) (high : Option ℕ) : Plain → Option JsNumber
  | .num n =>
    let inRange (q : ℚ) : Bool := q.den = 1 && |q| < 2 ^ 53 && low ≤ q && high.all (q ≤ ·)
    match n with
    | .finite q _ => if inRange q then some n else none
    | .negZero => if inRange 0 then some n else none
    | _ => none
  | _ => none

/-- `z.number()` between bounds. -/
def readNumberIn (low high : ℕ) : Plain → Option JsNumber
  | .num n => if (JsNumber.ofNat low).le n && n.le (.ofNat high) then some n else none
  | _ => none

/-- `z.enum(values)`. -/
def readEnum {α : Type} (values : List α) (text : α → String) : Plain → Option α
  | .str s => values.find? fun a => js (text a) = s
  | _ => none

/-- A field of a body that is an object. -/
def requiredField {α : Type} (body : List (JsString × Plain)) (key : String)
    (read : Plain → Option α) : Option α :=
  (body.lookup (js key)).bind read

/-- An optional field of a body that is an object. -/
def optionalField {α : Type} (body : List (JsString × Plain)) (key : String)
    (read : Plain → Option α) : Option (Option α) :=
  (body.lookup (js key)).elim (some none) fun v => (read v).map some

end MemphisOS
