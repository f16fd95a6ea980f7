import Mathlib.Tactic.IntervalCases
import MemphisOS.Ecma.Numerals

/-!
# Writing and reading numbers

Every finite number reads back from its rendering. The shortest-digits candidates
need no argument, since only candidates that read back are kept; the two renderings
that are not searched for, safe integers and exact expansions, are read here.
-/

namespace Ecma

private theorem head_digits_ne_zero {n : ℕ} (hn : 0 < n) : (digits n).head? ≠ some '0' := by
  induction n using Nat.strong_induction_on with
  | _ n ih =>
    by_cases hlt : n < 10
    · rw [digits, Nat.toDigits_of_lt_base hlt]
      interval_cases n <;> decide
    · have hprev := ih (n / 10) (by omega) (by omega)
      rw [digits, Nat.toDigits_of_base_le (by decide) (by omega)]
      have hne : Nat.toDigits 10 (n / 10) ≠ [] := Nat.toDigits_ne_nil
      rw [List.head?_append_of_ne_nil _ hne]
      exact hprev

/-- The integer part of a literal ends with its digits. -/
theorem readInteger_digits {n : ℕ} {t : Text} (ht : NoDigitHead t) :
    readInteger (digits n ++ t) = some (digits n, t) := by
  have hzero : ¬(1 < (digits n).length ∧ (digits n).head? = some '0') := by
    rintro ⟨hlen, hhead⟩
    cases n with
    | zero => simp [digits] at hlen
    | succ n => exact head_digits_ne_zero n.succ_pos hhead
  simp only [readInteger, spanDigits_append (fun _ => digits_isDigit) ht]
  rw [if_neg (not_or.mpr ⟨digits_ne_nil n, hzero⟩)]

/-- A text that starts with a digit has no sign. -/
theorem readExponentSign_digit {c : Char} {t : Text} (hc : c.isDigit = true) :
    readSign (c :: t) = (false, c :: t) ∧ readExponentSign (c :: t) = (false, c :: t) := by
  have hminus : c ≠ '-' := by
    rintro rfl
    exact absurd hc (by decide)
  have hplus : c ≠ '+' := by
    rintro rfl
    exact absurd hc (by decide)
  have hsign : readSign (c :: t) = (false, c :: t) := by
    unfold readSign
    split
    · simp_all
    · rfl
  refine ⟨hsign, ?_⟩
  unfold readExponentSign
  split
  · simp_all
  · exact hsign

/-- A literal that starts with its digits has no sign. -/
theorem readSign_digits (n : ℕ) (t : Text) : readSign (digits n ++ t) = (false, digits n ++ t) := by
  cases hd : digits n with
  | nil => exact absurd hd (digits_ne_nil n)
  | cons c ds => exact (readExponentSign_digit (digits_isDigit (n := n) (by simp [hd]))).1

/-- The sign prefix of a rendering. -/
def signText (negative : Bool) : Text := if negative then ['-'] else []

theorem readSign_signText (negative : Bool) (n : ℕ) (t : Text) :
    readSign (signText negative ++ digits n ++ t) = (negative, digits n ++ t) := by
  cases negative with
  | false => simpa [signText] using readSign_digits n t
  | true => simp [signText, readSign]

/-- An integer literal denotes its digits. -/
theorem readLiteral_integer (negative : Bool) (n : ℕ) :
    readLiteral (signText negative ++ digits n) = some (negative, (n : ℚ)) := by
  have hsign := readSign_signText negative n []
  have hint := readInteger_digits (n := n) (t := []) (by simp [NoDigitHead])
  simp only [List.append_nil] at hsign hint
  simp [readLiteral, hsign, hint, readFraction, readExponent]

/-- A negative exponent is read off its digits. -/
theorem readExponent_negative (j : ℕ) :
    readExponent ('e' :: '-' :: digits j) = some (-(j : ℤ), []) := by
  have hspan := spanDigits_append (fun _ => digits_isDigit (n := j)) (t := [])
    (by simp [NoDigitHead])
  rw [List.append_nil] at hspan
  simp [readExponent, readExponentSign, readSign, hspan, digits_ne_nil]

/-- Digits with a negative exponent denote a decimal fraction. -/
theorem readLiteral_fraction (negative : Bool) (n j : ℕ) :
    readLiteral (signText negative ++ digits n ++ 'e' :: '-' :: digits j) =
      some (negative, (n : ℚ) * 10 ^ (-(j : ℤ))) := by
  have hint := readInteger_digits (n := n) (t := 'e' :: '-' :: digits j) (by simp [NoDigitHead])
  rw [readLiteral, readSign_signText]
  simp [hint, readFraction, readExponent_negative]

/-- The digits of an exact expansion hold the whole value. -/
theorem exact_natAbs {q : ℚ} (h : roundToDouble q = some q) :
    ((|q| * 10 ^ expansionPlaces).num.natAbs : ℚ) * 10 ^ (-(expansionPlaces : ℤ)) = |q| := by
  simp only [roundToDouble, Option.ite_none_right_eq_some, Option.some.injEq] at h
  obtain ⟨-, hq⟩ := h
  have hu : -(expansionPlaces : ℤ) ≤ ulpExponent q := le_max_left _ _
  generalize expansionPlaces = j at hu
  set u := ulpExponent q
  set k := roundHalfEven (q / 2 ^ u)
  have hpow : (2 : ℚ) ^ u * 10 ^ j = ((2 ^ (u + j).toNat * 5 ^ j : ℕ) : ℚ) := by
    have hten : (10 : ℚ) ^ j = 2 ^ (j : ℤ) * 5 ^ j := by
      rw [show (10 : ℚ) = 2 * 5 by norm_num, mul_pow, zpow_natCast]
    rw [hten, ← mul_assoc, ← zpow_add₀ (by norm_num)]
    push_cast
    rw [← zpow_natCast (2 : ℚ), Int.toNat_of_nonneg (by omega)]
  have hint : |q| * 10 ^ j = ((k.natAbs * (2 ^ (u + j).toNat * 5 ^ j) : ℕ) : ℚ) := by
    have habs : |q| = (k.natAbs : ℚ) * 2 ^ u := by
      rw [← hq, abs_mul, abs_of_pos (zpow_pos (by norm_num) _ : (0 : ℚ) < 2 ^ u), ← Int.cast_abs,
        Int.abs_eq_natAbs, Int.cast_natCast]
    rw [habs, mul_assoc, hpow, ← Nat.cast_mul]
  have hne : (10 : ℚ) ^ j ≠ 0 := pow_ne_zero _ (by norm_num)
  rw [hint, Rat.num_natCast, Int.natAbs_natCast, ← hint, zpow_neg, zpow_natCast,
    mul_assoc, mul_inv_cancel₀ hne, mul_one]

/-- The magnitude with its own sign is the value. -/
theorem signed_abs (q : ℚ) : (if decide (q < 0) = true then -|q| else |q|) = q := by
  by_cases hq : q < 0
  · simp [hq, abs_of_neg hq]
  · simp [hq, abs_of_nonneg (not_lt.mp hq)]

/-- Rounding a representable value with its own sign gives the number itself. -/
theorem JsNumber.ofRat_signed {q : ℚ} (h : roundToDouble q = some q) :
    JsNumber.ofRat q (decide (q < 0)) = .finite q h := by
  unfold JsNumber.ofRat
  split
  · next hnone => simp [h] at hnone
  · next r hsome =>
    obtain rfl : q = r := by simpa [h] using hsome
    rw [if_neg]
    rintro ⟨rfl, hneg⟩
    simp at hneg

private theorem isNumberChar_signText {negative : Bool} {c : Char} (h : c ∈ signText negative) :
    isNumberChar c = true := by
  cases negative with
  | false => simp [signText] at h
  | true =>
    obtain rfl : c = '-' := by simpa [signText] using h
    decide

/-- Digits are number characters. -/
theorem isNumberChar_digits {n : ℕ} {c : Char} (h : c ∈ digits n) : isNumberChar c = true := by
  simp [isNumberChar, digits_isDigit h]

/-- A signed run of digits followed by number characters reads back when its value is right. -/
theorem readsBack_of_literal {q : ℚ} (h : roundToDouble q = some q) {n : ℕ} {t : Text}
    (ht : t.all isNumberChar = true)
    (hread : readLiteral (signText (decide (q < 0)) ++ digits n ++ t) =
      some (decide (q < 0), |q|)) :
    readsBack (.finite q h) (signText (decide (q < 0)) ++ digits n ++ t) = true := by
  have hnumber : readNumber (signText (decide (q < 0)) ++ digits n ++ t) = some (.finite q h) := by
    rw [readNumber, hread, Option.map_some]
    simp only [signed_abs, JsNumber.ofRat_signed h]
  have hchars : (signText (decide (q < 0)) ++ digits n ++ t).all isNumberChar = true := by
    simp only [List.all_append, Bool.and_eq_true, ht, and_true, List.all_eq_true]
    exact ⟨fun _ => isNumberChar_signText, fun _ => isNumberChar_digits⟩
  simp only [readsBack, hnumber, hchars, decide_true, Bool.and_true]
  simp [digits_ne_nil]

/-- **Numbers read back.** The rendering of a finite number is a literal for it. -/
theorem readsBack_numberText {q : ℚ} (h : roundToDouble q = some q) :
    readsBack (.finite q h) (numberText (.finite q h)) = true := by
  have hsign : (if q < 0 then ['-'] else [] : Text) = signText (decide (q < 0)) := by
    by_cases hq : q < 0 <;> simp [signText, hq]
  simp only [numberText, hsign]
  split
  · next hsafe =>
    have hvalue : ((q.num.natAbs : ℕ) : ℚ) = |q| := by
      have hq : (q.num : ℚ) = q := Rat.den_eq_one_iff q |>.mp hsafe.1
      rw [← hq, Rat.num_intCast, ← Int.cast_abs, Int.abs_eq_natAbs, Int.cast_natCast]
    have hread := readLiteral_integer (decide (q < 0)) q.num.natAbs
    rw [hvalue] at hread
    simpa using readsBack_of_literal h (t := []) rfl (by simpa using hread)
  · next hlarge =>
    have hexact : readsBack (.finite q h)
        (signText (decide (q < 0)) ++ exactText q) = true := by
      have hread := readLiteral_fraction (decide (q < 0))
        (|q| * 10 ^ expansionPlaces).num.natAbs expansionPlaces
      rw [exact_natAbs h] at hread
      have hchars : ('e' :: '-' :: digits expansionPlaces).all isNumberChar = true := by
        simp only [List.all_cons, Bool.and_eq_true, List.all_eq_true]
        exact ⟨by decide, by decide, fun _ => isNumberChar_digits⟩
      simpa only [exactText, List.append_assoc] using readsBack_of_literal h hchars hread
    cases hfind : List.find? (readsBack (.finite q h))
        ((List.range 17).map fun k => signText (decide (q < 0)) ++ roundedText |q| (k + 1)) with
    | none => simpa using hexact
    | some t => simpa using List.find?_some hfind

/-- A counter below the precision limit is written with its own digits. -/
theorem numberText_ofNat {n : ℕ} (h : n < 2 ^ 53) : numberText (.ofNat n) = digits n := by
  rw [JsNumber.ofNat_eq h]
  have hneg : ¬(n : ℚ) < 0 := not_lt.mpr (Nat.cast_nonneg n)
  have hsafe : (n : ℚ).den = 1 ∧ (n : ℚ).num.natAbs < 2 ^ 53 := by simpa using h
  simp only [numberText, if_neg hneg, if_pos hsafe]
  simp

/-- `parseInt` reads a zero-padded counter. -/
theorem parseInt10_padded (k n : ℕ) :
    parseInt10 (List.replicate k '0' ++ digits n) = .ofNat n := by
  have hall : ∀ c ∈ List.replicate k '0' ++ digits n, c.isDigit = true := by
    intro c hc
    rcases List.mem_append.mp hc with hc | hc
    · rw [List.eq_of_mem_replicate hc]
      decide
    · exact digits_isDigit hc
  have hspan := spanDigits_append hall (t := []) (by simp [NoDigitHead])
  rw [List.append_nil] at hspan
  have hvalue : digitsValue (List.replicate k '0' ++ digits n) = n := by
    rw [digitsValue, Nat.ofDigitChars_append, Nat.ofDigitChars_replicate_zero, Nat.mul_zero]
    exact digitsValue_digits n
  cases hd : List.replicate k '0' ++ digits n with
  | nil => simp [digits_ne_nil] at hd
  | cons c ds =>
    rw [hd] at hall hspan hvalue
    have hc : c.isDigit = true := hall c (by simp)
    have hspace : isJsSpace c = false := by
      rw [Char.isDigit, Bool.and_eq_true, decide_eq_true_eq, decide_eq_true_eq] at hc
      have hlow : 48 ≤ c.toNat := hc.1
      have hhigh : c.toNat ≤ 57 := hc.2
      simp only [isJsSpace, List.mem_cons, List.not_mem_nil, or_false, Bool.or_eq_false_iff,
        decide_eq_false_iff_not, Bool.and_eq_false_iff]
      omega
    have hsign : readExponentSign (c :: ds) = (false, c :: ds) := (readExponentSign_digit hc).2
    have hdrop : (c :: ds).dropWhile isJsSpace = c :: ds := by simp [hspace]
    simp [parseInt10, hdrop, hsign, hspan, hvalue, JsNumber.ofNat]

end Ecma

/-!
## The texts of numbers

The text of a number has no colon, and tells numbers apart but for the sign of a zero.
-/

namespace Ecma

theorem numberText_finite {q : ℚ} (h : roundToDouble q = some q) :
    (∀ c ∈ numberText (.finite q h), isNumberChar c = true) ∧
      readNumber (numberText (.finite q h)) = some (.finite q h) := by
  have hreads := readsBack_numberText h
  simp only [readsBack, Bool.and_eq_true, decide_eq_true_eq] at hreads
  exact ⟨fun c hc => List.all_eq_true.mp hreads.1.2 c hc, hreads.2⟩

/-- The text of a number is that of the number without the sign of a zero. -/
theorem numberText_dropZeroSign (n : JsNumber) : numberText n.dropZeroSign = numberText n := by
  cases n with
  | negZero =>
    change numberText (.ofNat 0) = ['0']
    rw [numberText_ofNat (by norm_num)]
    rfl
  | _ => rfl

theorem colon_not_mem_numberText (n : JsNumber) : ':' ∉ numberText n := by
  cases n with
  | nan => decide
  | infinity negative => cases negative <;> decide
  | negZero => decide
  | finite q h =>
    intro hmem
    exact absurd ((numberText_finite h).1 ':' hmem) (by decide)

/-- What is no finite number is not written in number characters. -/
theorem exists_letter {n : JsNumber} (h : n = .nan ∨ ∃ negative, n = .infinity negative) :
    ∃ c ∈ numberText n, isNumberChar c = false := by
  rcases h with rfl | ⟨negative, rfl⟩
  · exact ⟨'N', by decide, by decide⟩
  · exact ⟨'I', by cases negative <;> decide, by decide⟩

/-- Numbers with one text are the same but for the sign of a zero. -/
theorem dropZeroSign_eq_of_numberText {a b : JsNumber} (h : numberText a = numberText b) :
    a.dropZeroSign = b.dropZeroSign := by
  have hmixed : ∀ {n : JsNumber} {q : ℚ} {hq : roundToDouble q = some q},
      (n = .nan ∨ ∃ negative, n = .infinity negative) →
      numberText n ≠ numberText (.finite q hq) := by
    intro n q hq hn heq
    obtain ⟨c, hc, hletter⟩ := exists_letter hn
    have hchar := (numberText_finite hq).1 c (heq ▸ hc)
    rw [hletter] at hchar
    cases hchar
  have hzero : (JsNumber.negZero).dropZeroSign = .ofNat 0 := rfl
  rw [← numberText_dropZeroSign a, ← numberText_dropZeroSign b] at h
  have hdropped : ∀ n : JsNumber, (n.dropZeroSign = .nan ∨ ∃ negative, n.dropZeroSign =
      .infinity negative) ∨ ∃ q hq, n.dropZeroSign = .finite q hq := by
    intro n
    cases n with
    | nan => exact Or.inl (Or.inl rfl)
    | infinity negative => exact Or.inl (Or.inr ⟨negative, rfl⟩)
    | negZero => exact Or.inr ⟨_, _, hzero.trans (JsNumber.ofNat_eq (by norm_num))⟩
    | finite q hq => exact Or.inr ⟨q, hq, rfl⟩
  rcases hdropped a with ha | ⟨p, hp, ha⟩ <;> rcases hdropped b with hb | ⟨q, hq, hb⟩
  · rcases ha with ha | ⟨x, ha⟩ <;> rcases hb with hb | ⟨y, hb⟩ <;> rw [ha, hb] at h ⊢
    · exact absurd h (by cases y <;> decide)
    · exact absurd h (by cases x <;> decide)
    · cases x <;> cases y <;> first | rfl | exact absurd h (by decide)
  · exact absurd (h.trans (congrArg numberText hb)) (hmixed ha)
  · exact absurd (h.symm.trans (congrArg numberText ha)) (hmixed hb)
  · rw [ha, hb] at h ⊢
    have hread := (numberText_finite hp).2
    rw [h, (numberText_finite hq).2] at hread
    exact (Option.some.inj hread).symm

/-- A unit of a text that is no surrogate stands for a character of the text. -/
theorem charOfUnit_mem {u : UInt16} {t : Text} (h : u ∈ ofText t)
    (hhi : isHighSurrogate u = false) (hlo : isLowSurrogate u = false) : charOfUnit u ∈ t := by
  obtain ⟨c, hc, hu⟩ := List.mem_flatMap.mp h
  obtain ⟨v, hunits, -, -, hchar⟩ | ⟨hi, lo, hunits, hhigh, hlow, -⟩ := unitsOfChar_cases c
  · rw [hunits, List.mem_singleton] at hu
    rw [hu, hchar]
    exact hc
  · rw [hunits] at hu
    rcases List.mem_pair.mp hu with rfl | rfl
    · rw [hhi] at hhigh
      cases hhigh
    · rw [hlo] at hlow
      cases hlow

theorem colon_not_mem_ofText_numberText (n : JsNumber) : 58 ∉ ofText (numberText n) :=
  fun h => colon_not_mem_numberText n (charOfUnit_mem h rfl rfl)

end Ecma
