import MemphisOS.Ecma.StringMethods
import MemphisOS.Ecma.Documents
import MemphisOS.Sequences.Patterns

/-!
# The redactor

What the exporter takes out of strings and documents: texts that look like credentials, and all
that stands under a key that names one.
-/

namespace MemphisOS.Incident

open Ecma Sequences

/-! ## Units -/

def isLetterOrDigit (u : UInt16) : Bool :=
  (48 ≤ u && u ≤ 57) || (65 ≤ u && u ≤ 90) || (97 ≤ u && u ≤ 122)

/-- A unit of `\w`, which `\b` looks at. -/
def isWordUnit (u : UInt16) : Bool := isLetterOrDigit u || u = 95

/-- A unit of `[A-Za-z0-9\-._~+/]`. -/
def isTokenUnit (u : UInt16) : Bool :=
  isLetterOrDigit u || [45, 46, 95, 126, 43, 47].contains u

/-! ## Strings -/

def REDACTED : JsString := js "[REDACTED]"

/-- A literal text. -/
def literal (s : String) : List (Piece UInt16) :=
  (js s).map fun c => { accepts := fun u => u = c, least := 1 }

/-- A literal text in small letters, in whatever case it is written. -/
def literalIgnoringCase (s : String) : List (Piece UInt16) :=
  (js s).map fun c => { accepts := fun u => JsString.lowerUnit u = c, least := 1 }

/-- The patterns, which all lie between two `\b`. -/
def REDACTABLE_VALUE_PATTERNS : List (List (Piece UInt16)) :=
  [literal "sk-" ++ [{ accepts := isLetterOrDigit, least := 10, many := true }],
    literal "gh" ++ [{ accepts := (js "pousr").contains, least := 1 }] ++ literal "_" ++
      [{ accepts := isLetterOrDigit, least := 20, many := true }],
    literalIgnoringCase "bearer" ++
      [{ accepts := JsString.isSpaceUnit, least := 1, many := true },
        { accepts := isTokenUnit, least := 1, many := true },
        { accepts := (· = 61), least := 0, many := true }]]

def maybeRedactString (input : JsString) : JsString :=
  replaceEach isWordUnit REDACTABLE_VALUE_PATTERNS REDACTED input

/-- No pattern matches in the string. -/
def SecretFree (s : JsString) : Prop := ∀ p ∈ REDACTABLE_VALUE_PATTERNS, ¬ Occurs isWordUnit p s

instance (s : JsString) : Decidable (SecretFree s) :=
  decidable_of_iff (REDACTABLE_VALUE_PATTERNS.all fun p => !decide (Occurs isWordUnit p s)) (by
    simp [SecretFree])

/-- The marker is apart from what the patterns match. -/
theorem apart_redacted : ∀ p ∈ REDACTABLE_VALUE_PATTERNS, Apart p REDACTED := by
  have hcheck : REDACTABLE_VALUE_PATTERNS.all (fun p => isApart p REDACTED) = true := by decide
  exact fun p hp => apart_of_isApart (List.all_eq_true.mp hcheck p hp)

/-- **Redacted strings.** No pattern matches in what is left of a string. -/
theorem secretFree_maybeRedactString (input : JsString) : SecretFree (maybeRedactString input) :=
  not_occurs_replaceEach apart_redacted input

/-! ## Documents -/

/-- The key patterns, which ignore the case, with `[-_]?` written out. -/
def REDACTABLE_KEY_PATTERNS : List (List String) :=
  [["token"], ["secret"], ["password"], ["passphrase"], ["authorization"],
    ["apikey", "api-key", "api_key"], ["privatekey", "private-key", "private_key"], ["cookie"],
    ["pepper"]]

def shouldRedactKey (key : JsString) : Bool :=
  REDACTABLE_KEY_PATTERNS.any fun pattern => pattern.any fun word =>
    (key.map JsString.lowerUnit).tails.any (js word).isPrefixOf

/-- A member of an object, whose value is redacted already. An own `__proto__` is no own property
of the object that is assembled. -/
def redactMembers (members : List (JsString × Plain)) : List (JsString × Plain) :=
  (members.filter fun member => member.1 ≠ js "__proto__").map fun member =>
    (member.1, if shouldRedactKey member.1 then .str REDACTED else member.2)

/-- `redactJson(value)` without a key. -/
def redactValue : Plain → Plain :=
  Json.fold .null .bool .num (fun s => .str (maybeRedactString s)) .arr
    fun members => .obj (redactMembers members)

/-- `redactJson(value, keyHint)`. -/
def redactJson (value : Plain) (keyHint : Option JsString := none) : Plain :=
  if keyHint.any shouldRedactKey then .str REDACTED else redactValue value

theorem redactJson_arr (values : List Plain) :
    redactJson (.arr values) = .arr (values.map fun value => redactJson value) :=
  Json.fold_arr values

/-- The members are redacted under their keys. -/
theorem redactJson_obj (members : List (JsString × Plain)) :
    redactJson (.obj members) =
      .obj ((members.filter fun member => member.1 ≠ js "__proto__").map fun member =>
        (member.1, redactJson member.2 (some member.1))) := by
  rw [redactJson, if_neg (by simp), redactValue, Json.fold_obj, redactMembers, List.filter_map,
    List.map_map]
  rfl

/-- Nothing in the document matches a pattern, and what stands under a key that names a credential
is the marker. -/
inductive Clean : Plain → Prop
  | null : Clean .null
  | bool (b : Bool) : Clean (.bool b)
  | num (n : JsNumber) : Clean (.num n)
  | str {s : JsString} : SecretFree s → Clean (.str s)
  | arr {values : List Plain} : (∀ value ∈ values, Clean value) → Clean (.arr values)
  | obj {members : List (JsString × Plain)} :
      (∀ member ∈ members, SecretFree member.1) →
      (∀ member ∈ members, shouldRedactKey member.1 = true → member.2 = .str REDACTED) →
      (∀ member ∈ members, Clean member.2) → Clean (.obj members)

theorem clean_str {s : JsString} : Clean (.str s) ↔ SecretFree s :=
  ⟨fun h => by cases h with | str h => exact h, .str⟩

theorem clean_arr {values : List Plain} : Clean (.arr values) ↔ ∀ value ∈ values, Clean value :=
  ⟨fun h => by cases h with | arr h => exact h, .arr⟩

theorem clean_obj {members : List (JsString × Plain)} : Clean (.obj members) ↔
    ∀ member ∈ members, SecretFree member.1 ∧
      (shouldRedactKey member.1 = true → member.2 = .str REDACTED) ∧ Clean member.2 := by
  constructor
  · intro h member hmember
    cases h with
    | obj hkeys hsensitive hvalues =>
      exact ⟨hkeys member hmember, hsensitive member hmember, hvalues member hmember⟩
  · intro h
    exact .obj (fun member hmember => (h member hmember).1)
      (fun member hmember => (h member hmember).2.1) fun member hmember => (h member hmember).2.2

/-- No pattern matches in a key, but in a key `__proto__` or below a key that names a
credential. -/
def KeysFree : Plain → Prop :=
  Json.fold True (fun _ => True) (fun _ => True) (fun _ => True) (fun values => ∀ p ∈ values, p)
    fun members => ∀ member ∈ members, member.1 ≠ js "__proto__" →
      SecretFree member.1 ∧ (shouldRedactKey member.1 = true ∨ member.2)

theorem keysFree_arr {values : List Plain} :
    KeysFree (.arr values) ↔ ∀ value ∈ values, KeysFree value := by
  simp only [KeysFree, Json.fold_arr, List.mem_map, forall_exists_index, and_imp,
    forall_apply_eq_imp_iff₂]

theorem keysFree_obj {members : List (JsString × Plain)} :
    KeysFree (.obj members) ↔ ∀ member ∈ members, member.1 ≠ js "__proto__" →
      SecretFree member.1 ∧ (shouldRedactKey member.1 = true ∨ KeysFree member.2) := by
  simp only [KeysFree, Json.fold_obj, List.mem_map, forall_exists_index, and_imp,
    forall_apply_eq_imp_iff₂]

theorem secretFree_redacted : SecretFree REDACTED := by
  have hcheck : REDACTABLE_VALUE_PATTERNS.all (fun p => !occursFrom isWordUnit p none REDACTED) =
      true := by decide
  intro p hp hoccurs
  have hnone := List.all_eq_true.mp hcheck p hp
  rw [occurs_iff.mpr hoccurs] at hnone
  cases hnone

/-- **Redacted documents.** A redacted document is clean exactly when its keys are. -/
theorem clean_redactJson (value : Plain) : Clean (redactJson value) ↔ KeysFree value := by
  induction value using Json.induct with
  | null => exact ⟨fun _ => trivial, fun _ => .null⟩
  | bool b => exact ⟨fun _ => trivial, fun _ => .bool b⟩
  | num n => exact ⟨fun _ => trivial, fun _ => .num n⟩
  | str s => exact ⟨fun _ => trivial, fun _ => .str (secretFree_maybeRedactString s)⟩
  | arr values ih =>
    rw [redactJson_arr, clean_arr, keysFree_arr, List.forall_mem_map]
    exact forall₂_congr ih
  | obj members ih =>
    rw [redactJson_obj, clean_obj, keysFree_obj, List.forall_mem_map]
    simp only [List.mem_filter, decide_eq_true_eq, and_imp]
    refine forall₂_congr fun member hmember => imp_congr_right fun _ => and_congr_right fun _ => ?_
    cases hsensitive : shouldRedactKey member.1 with
    | true =>
      have hmarker : redactJson member.2 (some member.1) = .str REDACTED := if_pos hsensitive
      rw [hmarker]
      simp [clean_str, secretFree_redacted]
    | false =>
      have hvalue : redactJson member.2 (some member.1) = redactJson member.2 := by
        rw [redactJson, redactJson, if_neg (by simp [hsensitive]), if_neg (by simp)]
      rw [hvalue, ih member hmember]
      simp

end MemphisOS.Incident
