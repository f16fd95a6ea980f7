import MemphisOS.Ecma.Strings
import MemphisOS.Ecma.Numbers

/-!
# Decimal numerals

Reading JSON number literals, `Number.parseInt` and `Number.prototype.toString`.
The shortest-digits search keeps a candidate only when it reads back as the number,
so that writing and reading are inverse by construction; the exact decimal
expansion, which exists for every binary64 value, is the last resort.
-/

namespace Ecma

/-- The decimal digits of a natural number. -/
def digits (n : ℕ) : Text := Nat.toDigits 10 n

/-- The value of a run of decimal digits. -/
def digitsValue (ds : Text) : ℕ := Nat.ofDigitChars 10 ds 0

/-- The longest prefix of digits and what follows it. -/
def spanDigits (t : Text) : Text × Text := (t.takeWhile Char.isDigit, t.dropWhile Char.isDigit)

/-- Characters that occur in number literals. -/
def isNumberChar (c : Char) : Bool :=
  c.isDigit || c == '-' || c == '+' || c == '.' || c == 'e' || c == 'E'

theorem digits_isDigit {n : ℕ} {c : Char} (h : c ∈ digits n) : c.isDigit = true :=
  Nat.isDigit_of_mem_toDigits (by decide) (by decide) h

theorem digits_ne_nil (n : ℕ) : digits n ≠ [] := Nat.toDigits_ne_nil

@[simp] theorem digitsValue_digits (n : ℕ) : digitsValue (digits n) = n :=
  Nat.ofDigitChars_toDigits (by decide) (by decide)

/-- Writing in decimal is injective. -/
theorem digits_inj {m n : ℕ} : digits m = digits n ↔ m = n := by
  refine ⟨fun h => ?_, fun h => h ▸ rfl⟩
  rw [← digitsValue_digits m, h, digitsValue_digits]

/-- A text that does not go on with a digit. -/
def NoDigitHead (t : Text) : Prop := ∀ c ∈ t.head?, c.isDigit = false

/-- A run of digits followed by something else is split where it ends. -/
theorem spanDigits_append {ds t : Text} (hds : ∀ c ∈ ds, c.isDigit = true) (ht : NoDigitHead t) :
    spanDigits (ds ++ t) = (ds, t) := by
  have hstop : t.takeWhile Char.isDigit = [] ∧ t.dropWhile Char.isDigit = t := by
    cases t with
    | nil => exact ⟨rfl, rfl⟩
    | cons c t =>
      have hc : c.isDigit = false := ht c (by simp)
      simp [hc]
  rw [spanDigits, List.takeWhile_append_of_pos hds, List.dropWhile_append_of_pos hds,
    hstop.1, hstop.2, List.append_nil]

/-! ## Reading -/

/-- An optional sign. -/
def readSign : Text → Bool × Text
  | '-' :: t => (true, t)
  | t => (false, t)

/-- The integer digits of a literal: no leading zero unless it is the only digit. -/
def readInteger (t : Text) : Option (Text × Text) :=
  let (ds, rest) := spanDigits t
  if ds = [] ∨ (1 < ds.length ∧ ds.head? = some '0') then none else some (ds, rest)

/-- The optional fraction of a literal. -/
def readFraction : Text → Option (Text × Text)
  | '.' :: t =>
    let (ds, rest) := spanDigits t
    if ds = [] then none else some (ds, rest)
  | t => some ([], t)

/-- The sign of an exponent, which may also be a plus. -/
def readExponentSign : Text → Bool × Text
  | '+' :: t => (false, t)
  | t => readSign t

/-- The optional exponent of a literal. -/
def readExponent : Text → Option (ℤ × Text)
  | [] => some (0, [])
  | c :: t =>
    if c = 'e' ∨ c = 'E' then
      let (negative, t) := readExponentSign t
      let (ds, rest) := spanDigits t
      if ds = [] then none
      else some (if negative then -(digitsValue ds : ℤ) else digitsValue ds, rest)
    else some (0, c :: t)

/-- The sign and the exact value of the magnitude of a JSON number literal. -/
def readLiteral (t : Text) : Option (Bool × ℚ) := do
  let (negative, t) := readSign t
  let (int, t) ← readInteger t
  let (frac, t) ← readFraction t
  let (exp, t) ← readExponent t
  if t = [] then
    some (negative, digitsValue (int ++ frac) * (10 : ℚ) ^ (exp - frac.length))
  else none

/-- The number a JSON literal denotes. -/
def readNumber (t : Text) : Option JsNumber :=
  (readLiteral t).map fun (negative, q) => JsNumber.ofRat (if negative then -q else q) negative

/-- White space that `parseInt` and `trim` skip. -/
def isJsSpace (c : Char) : Bool :=
  c.toNat ∈ [0x9, 0xA, 0xB, 0xC, 0xD, 0x20, 0xA0, 0x1680, 0x2028, 0x2029, 0x202F, 0x205F,
    0x3000, 0xFEFF] || (0x2000 ≤ c.toNat && c.toNat ≤ 0x200A)

/-- `String.prototype.trim`. -/
def trim (t : Text) : Text := ((t.dropWhile isJsSpace).reverse.dropWhile isJsSpace).reverse

/-- `Number.parseInt(text, 10)`: the number the longest decimal prefix denotes. -/
def parseInt10 (t : Text) : JsNumber :=
  let (negative, t) := readExponentSign (t.dropWhile isJsSpace)
  let (ds, _) := spanDigits t
  if ds = [] then .nan
  else .ofRat (if negative then -(digitsValue ds : ℚ) else digitsValue ds) negative

/-! ## Writing -/

/-- The digits of a natural number, padded with zeros to a width. -/
def padStart (width n : ℕ) : Text := List.replicate (width - (digits n).length) '0' ++ digits n

/-- `Number.prototype.toString` on digits `ds` with the decimal point `n` places in. -/
def layoutDigits (ds : Text) (n : ℤ) : Text :=
  if ds.length ≤ n ∧ n ≤ 21 then ds ++ List.replicate (n - ds.length).toNat '0'
  else if 0 < n ∧ n ≤ 21 then ds.take n.toNat ++ '.' :: ds.drop n.toNat
  else if -6 < n ∧ n ≤ 0 then '0' :: '.' :: List.replicate (-n).toNat '0' ++ ds
  else
    let mantissa := if ds.length = 1 then ds else ds.take 1 ++ '.' :: ds.drop 1
    let sign := if 0 < n then '+' else '-'
    mantissa ++ 'e' :: sign :: digits (n - 1).natAbs

/-- The rendering of a positive value rounded to `k` significant digits. -/
def roundedText (q : ℚ) (k : ℕ) : Text :=
  let n := Int.log 10 q + 1
  let s := (roundHalfEven (q * 10 ^ ((k : ℤ) - n))).toNat
  let ds := digits s
  layoutDigits (ds.reverse.dropWhile (· = '0')).reverse (n + ds.length - k)

/-- Decimal places that hold every binary64 value exactly. -/
def expansionPlaces : ℕ := 1074

/-- The exact decimal expansion of the magnitude of a binary64 value. -/
def exactText (q : ℚ) : Text :=
  digits (|q| * 10 ^ expansionPlaces).num.natAbs ++ 'e' :: '-' :: digits expansionPlaces

/-- A literal made of number characters that denotes the given number. -/
def readsBack (x : JsNumber) (t : Text) : Bool :=
  t ≠ [] && t.all isNumberChar && readNumber t = some x

/-- `Number.prototype.toString()`. A safe integer is its own shortest rendering;
otherwise the fewest digits that read back as the number are taken. -/
def numberText : JsNumber → Text
  | .nan => "NaN".toList
  | .infinity negative => (if negative then ['-'] else []) ++ "Infinity".toList
  | .negZero => ['0']
  | .finite q h =>
    let sign : Text := if q < 0 then ['-'] else []
    if q.den = 1 ∧ q.num.natAbs < 2 ^ 53 then sign ++ digits q.num.natAbs
    else
      let shortest := (List.range 17).map fun k => sign ++ roundedText |q| (k + 1)
      (shortest.find? (readsBack (.finite q h))).getD (sign ++ exactText q)

end Ecma
