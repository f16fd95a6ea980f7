import MemphisOS.Ecma.Value

/-!
# Typed documents

How `serde_json` reads JSON texts into Rust values. Numbers are kept as they are written until
a type is asked for; what an ECMAScript program writes is read here, and the other way round.
-/

namespace Serde

open Ecma

/-- A document whose numbers are kept as they are written. -/
abbrev Document := Json Text

/-- A decoder of values of a type. -/
abbrev Decoder (α : Type) := Document → Option α

def readToken (t : Text) : Option Text := if (readLiteral t).isSome then some t else none

def parse (t : Text) : Option Document := Json.parse readToken t

variable {α : Type}

/-! ## Scalars -/

/-- A string without lone surrogates is the encoding of a text. -/
def decodeString (s : JsString) : Option Text :=
  if ofText (wellFormed s) = s then some (wellFormed s) else none

def string : Decoder Text
  | .str s => decodeString s
  | _ => none

def boolean : Decoder Bool
  | .bool b => some b
  | _ => none

/-- An unsigned integer of the given width: neither a sign, a fraction nor an exponent. -/
def unsigned (bits : ℕ) : Decoder ℕ
  | .num token =>
    if token.all Char.isDigit ∧ digitsValue token < 2 ^ bits then some (digitsValue token) else none
  | _ => none

def u8 (v : Document) : Option UInt8 := (unsigned 8 v).map UInt8.ofNat

def u32 (v : Document) : Option UInt32 := (unsigned 32 v).map UInt32.ofNat

def u64 (v : Document) : Option UInt64 := (unsigned 64 v).map UInt64.ofNat

/-! ## Options and sequences -/

def option (decode : Decoder α) : Decoder (Option α)
  | .null => some none
  | v => (decode v).map some

def sequence (decode : Decoder α) : Decoder (List α)
  | .arr vs => vs.mapM decode
  | _ => none

/-! ## Structures and enumerations -/

/-- The values of the named fields of a structure. Other keys of an object are ignored. Of an
array the values are taken in order, and only the last `defaulted` ones may be missing. -/
def fields (names : List String) (defaulted : ℕ) : Decoder (List (Option Document))
  | .obj ms =>
    if (∀ m ∈ ms, (decodeString m.1).isSome) ∧
        ∀ name ∈ names, (ms.filter fun m => m.1 = js name).length ≤ 1 then
      some (names.map fun name => ms.lookup (js name))
    else none
  | .arr vs =>
    if names.length ≤ vs.length + defaulted ∧ vs.length ≤ names.length then
      some (vs.map some ++ List.replicate (names.length - vs.length) none)
    else none
  | _ => none

/-- A field of an `Option` type may be missing. -/
def optionField (decode : Decoder α) : Option Document → Option (Option α)
  | none => some none
  | some v => option decode v

/-- A unit variant, by its name or as the only key of an object. -/
def variant (variants : List (String × α)) : Decoder α
  | .str s => (variants.map fun v => (js v.1, v.2)).lookup s
  | .obj [(s, .null)] => (variants.map fun v => (js v.1, v.2)).lookup s
  | _ => none

/-! ## Laws -/

@[simp] theorem decodeString_ofText (t : Text) : decodeString (ofText t) = some t := by
  rw [decodeString, wellFormed_ofText, if_pos rfl]

theorem decodeString_eq_some {s : JsString} {t : Text} : decodeString s = some t ↔ s = ofText t := by
  constructor
  · intro h
    rw [decodeString] at h
    split at h
    · next hs => rw [← Option.some.inj h, hs]
    · cases h
  · rintro rfl
    exact decodeString_ofText t

@[simp] theorem string_str (s : JsString) : string (.str s) = decodeString s := rfl

@[simp] theorem boolean_bool (b : Bool) : boolean (.bool b) = some b := rfl

theorem unsigned_digits {n bits : ℕ} (h : n < 2 ^ bits) :
    unsigned bits (.num (digits n)) = some n := by
  have hall : (digits n).all Char.isDigit = true := List.all_eq_true.mpr fun _ => digits_isDigit
  rw [unsigned, if_pos ⟨hall, by rwa [digitsValue_digits]⟩, digitsValue_digits]

@[simp] theorem u8_digits (n : UInt8) : u8 (.num (digits n.toNat)) = some n := by
  rw [u8, unsigned_digits n.toNat_lt, Option.map_some, UInt8.ofNat_toNat]

@[simp] theorem u32_digits (n : UInt32) : u32 (.num (digits n.toNat)) = some n := by
  rw [u32, unsigned_digits n.toNat_lt, Option.map_some, UInt32.ofNat_toNat]

@[simp] theorem u64_digits (n : UInt64) : u64 (.num (digits n.toNat)) = some n := by
  rw [u64, unsigned_digits n.toNat_lt, Option.map_some, UInt64.ofNat_toNat]

/-- An object with the fields of a structure, in their order, is read field by field. -/
theorem fields_obj {names : List String} {ms : List (JsString × Document)} (defaulted : ℕ)
    (hkeys : ms.map Prod.fst = names.map js) (hnodup : (names.map js).Nodup) :
    fields names defaulted (.obj ms) = some (ms.map fun m => some m.2) := by
  have hdecode : ∀ m ∈ ms, (decodeString m.1).isSome := by
    intro m hm
    obtain ⟨name, -, hname⟩ := List.mem_map.mp (hkeys ▸ List.mem_map_of_mem hm)
    rw [← hname, js, decodeString_ofText]
    rfl
  have honce : ∀ name ∈ names, (ms.filter fun m => m.1 = js name).length ≤ 1 := by
    intro name _
    have hcount := List.nodup_iff_count_le_one.mp (hkeys ▸ hnodup) (js name)
    rw [List.count_eq_countP, List.countP_map, List.countP_eq_length_filter] at hcount
    simpa [Function.comp_def, Bool.beq_eq_decide_eq] using hcount
  have hvalues : names.map (fun name => ms.lookup (js name)) = ms.map fun m => some m.2 := by
    have hcomp : names.map (fun name => ms.lookup (js name)) =
        (ms.map Prod.fst).map fun k => ms.lookup k := by
      rw [hkeys, List.map_map]
      rfl
    rw [hcomp, List.map_map]
    exact List.map_congr_left fun m hm => lookup_of_mem (hkeys ▸ hnodup) hm
  rw [fields, if_pos ⟨hdecode, honce⟩, hvalues]

/-! ## Texts of the other side -/

/-- The number a token denotes. -/
def tokenNumber (t : Text) : JsNumber := (readNumber t).getD .nan

/-- An ECMAScript program reads the tokens and then their numbers. -/
theorem readNumber_eq (t : Text) : readNumber t = (readToken t).map tokenNumber := by
  cases h : readLiteral t with
  | none => simp [readToken, readNumber, h]
  | some r => simp [readToken, tokenNumber, readNumber, h]

theorem parseJson_eq (t : Text) :
    parseJson t = (parse t).map fun v => own (v.mapNumbers tokenNumber) := by
  rw [parseJson, parse, funext readNumber_eq, Json.parse_map, Option.map_map]
  rfl

/-- A token of number characters is read back as it is. -/
theorem writesBack_token {t : Text} (hne : t ≠ []) (hchars : ∀ c ∈ t, isNumberChar c = true)
    (hread : (readLiteral t).isSome = true) : Json.WritesBack id readToken t :=
  ⟨hne, hchars, if_pos hread⟩

/-- **From ECMAScript.** What `JSON.stringify` writes is read with the texts of its numbers. -/
theorem parse_write {gap : Text} (hgap : Json.Blank gap) {v : Plain} (h : JsonNumbers v) :
    parse (v.write numberText gap []) = some (v.mapNumbers numberText) := by
  have htokens : (v.mapNumbers numberText).AllNumbers (Json.WritesBack id readToken) := by
    rw [Json.allNumbers_mapNumbers]
    refine Json.AllNumbers.imp ?_ (writesBack_of_jsonNumbers h)
    rintro n ⟨hne, hchars, hread⟩
    obtain ⟨r, hr, -⟩ := Option.map_eq_some_iff.mp hread
    exact writesBack_token hne hchars (Option.isSome_iff_exists.mpr ⟨r, hr⟩)
  have hwrite := Json.write_mapNumbers numberText id gap [] v
  rw [parse, ← Json.parse_write hgap htokens, hwrite]
  rfl

/-- The text of a plain value. -/
theorem parse_jsonText {gap : Text} (hgap : Json.Blank gap) (v : Plain) :
    parse (jsonText gap v) = some ((jsonImage v).mapNumbers numberText) :=
  parse_write hgap (jsonNumbers_jsonImage v)

theorem tokenNumber_digits (n : ℕ) : tokenNumber (digits n) = .ofNat n := by
  have hread : readLiteral (digits n) = some (false, (n : ℚ)) := readLiteral_integer false n
  rw [tokenNumber, readNumber, hread]
  rfl

/-- **To ECMAScript.** Unsigned integers that are written are read as the nearest numbers. -/
theorem parseJson_digits {gap : Text} (hgap : Json.Blank gap) (v : Json ℕ) :
    parseJson (v.write digits gap []) = some (own (v.mapNumbers JsNumber.ofNat)) := by
  have htokens : (v.mapNumbers digits).AllNumbers (Json.WritesBack id readToken) := by
    rw [Json.allNumbers_mapNumbers]
    refine Json.allNumbers_of_forall (fun n => ?_) v
    refine writesBack_token (digits_ne_nil n) (fun _ => isNumberChar_digits) ?_
    rw [show readLiteral (digits n) = some (false, (n : ℚ)) from readLiteral_integer false n]
    rfl
  have hparse : parse (v.write digits gap []) = some (v.mapNumbers digits) := by
    have hwrite := Json.write_mapNumbers digits id gap [] v
    rw [parse, ← Json.parse_write hgap htokens, hwrite]
    rfl
  rw [parseJson_eq, hparse, Option.map_some, Json.mapNumbers_mapNumbers,
    funext (fun n => tokenNumber_digits n)]

end Serde
