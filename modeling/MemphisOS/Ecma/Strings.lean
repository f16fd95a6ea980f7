import Mathlib.Data.Nat.Notation
import Mathlib.Tactic.Common

/-!
# Strings of the host language

An ECMAScript string is a sequence of 16-bit code units and may hold lone
surrogates. Texts that have been decoded from bytes (files, hash inputs, JSON
documents) are sequences of Unicode scalar values. This file gives the two types
and the passage from the second to the first.
-/

namespace Ecma

/-- A decoded text: a sequence of Unicode scalar values. -/
abbrev Text := List Char

/-- An ECMAScript string: a sequence of UTF-16 code units. -/
abbrev JsString := List UInt16

instance : LawfulBEq JsString := inferInstance

/-- The UTF-16 code units of one scalar value. -/
def unitsOfChar (c : Char) : JsString :=
  if c.toNat < 0x10000 then [UInt16.ofNat c.toNat]
  else [UInt16.ofNat (0xD800 + (c.toNat - 0x10000) / 0x400),
    UInt16.ofNat (0xDC00 + (c.toNat - 0x10000) % 0x400)]

/-- The string whose code units encode a text. -/
def ofText (t : Text) : JsString := t.flatMap unitsOfChar

/-- A string literal of the source. -/
def js (s : String) : JsString := ofText s.toList

/-- A leading surrogate, which starts a pair. -/
def isHighSurrogate (u : UInt16) : Bool := 0xD800 ≤ u.toNat && u.toNat < 0xDC00

/-- A trailing surrogate, which ends a pair. -/
def isLowSurrogate (u : UInt16) : Bool := 0xDC00 ≤ u.toNat && u.toNat < 0xE000

/-- The scalar value a surrogate pair stands for. -/
def charOfPair (hi lo : UInt16) : Char :=
  Char.ofNat (0x10000 + (hi.toNat - 0xD800) * 0x400 + (lo.toNat - 0xDC00))

/-- The scalar value with a given code unit, for units that are no surrogates. -/
def charOfUnit (u : UInt16) : Char := Char.ofNat u.toNat

/-- The text a string is encoded as in UTF-8: lone surrogates are replaced by U+FFFD. -/
def wellFormed : JsString → Text
  | [] => []
  | u :: rest =>
    if isHighSurrogate u then
      match rest with
      | v :: rest' =>
        if isLowSurrogate v then charOfPair u v :: wellFormed rest'
        else Char.ofNat 0xFFFD :: wellFormed (v :: rest')
      | [] => [Char.ofNat 0xFFFD]
    else if isLowSurrogate u then Char.ofNat 0xFFFD :: wellFormed rest
    else charOfUnit u :: wellFormed rest

@[simp] theorem ofText_nil : ofText [] = [] := rfl

@[simp] theorem ofText_cons (c : Char) (t : Text) :
    ofText (c :: t) = unitsOfChar c ++ ofText t := rfl

@[simp] theorem ofText_append (s t : Text) : ofText (s ++ t) = ofText s ++ ofText t := by
  simp [ofText]

/-- A number below the surrogates or above them is the code of a scalar value. -/
theorem toNat_ofNat_char {n : ℕ} (h : n < 0xD800 ∨ (0xDFFF < n ∧ n < 0x110000)) :
    (Char.ofNat n).toNat = n := by
  have hvalid : n.isValidChar := h
  rw [Char.ofNat, dif_pos hvalid]
  rfl

/-- A unit outside the surrogate range is the only unit of its scalar value. -/
theorem unitsOfChar_charOfUnit {u : UInt16} (hhi : isHighSurrogate u = false)
    (hlo : isLowSurrogate u = false) : unitsOfChar (charOfUnit u) = [u] := by
  have hlt : u.toNat < 65536 := u.toNat_lt
  have hrange : u.toNat < 0xD800 ∨ (0xDFFF < u.toNat ∧ u.toNat < 0x110000) := by
    simp only [isHighSurrogate, isLowSurrogate, Bool.and_eq_false_iff, decide_eq_false_iff_not]
      at hhi hlo
    omega
  rw [unitsOfChar, charOfUnit, toNat_ofNat_char hrange, if_pos hlt, UInt16.ofNat_toNat]

/-- A surrogate pair is the encoding of the scalar value it stands for. -/
theorem unitsOfChar_charOfPair {hi lo : UInt16} (hhi : isHighSurrogate hi = true)
    (hlo : isLowSurrogate lo = true) : unitsOfChar (charOfPair hi lo) = [hi, lo] := by
  simp only [isHighSurrogate, isLowSurrogate, Bool.and_eq_true, decide_eq_true_eq] at hhi hlo
  have hcode : (charOfPair hi lo).toNat =
      0x10000 + (hi.toNat - 0xD800) * 0x400 + (lo.toNat - 0xDC00) :=
    toNat_ofNat_char (by omega)
  have hfirst : 0xD800 + ((charOfPair hi lo).toNat - 0x10000) / 0x400 = hi.toNat := by omega
  have hsecond : 0xDC00 + ((charOfPair hi lo).toNat - 0x10000) % 0x400 = lo.toNat := by omega
  rw [unitsOfChar, if_neg (by omega), hfirst, hsecond, UInt16.ofNat_toNat, UInt16.ofNat_toNat]

/-- The units of a scalar value determine it. -/
theorem unitsOfChar_ne_nil (c : Char) : unitsOfChar c ≠ [] := by
  unfold unitsOfChar
  split <;> simp

/-- A scalar value has one unit that is no surrogate, or a pair of surrogates. -/
theorem unitsOfChar_cases (c : Char) :
    (∃ u, unitsOfChar c = [u] ∧ isHighSurrogate u = false ∧ isLowSurrogate u = false ∧
      charOfUnit u = c) ∨
    ∃ hi lo, unitsOfChar c = [hi, lo] ∧ isHighSurrogate hi = true ∧ isLowSurrogate lo = true ∧
      charOfPair hi lo = c := by
  have hvalid : c.toNat < 0xD800 ∨ (0xDFFF < c.toNat ∧ c.toNat < 0x110000) := c.valid
  by_cases hsmall : c.toNat < 0x10000
  · have hunit : (UInt16.ofNat c.toNat).toNat = c.toNat := by
      rw [UInt16.toNat_ofNat']
      omega
    refine .inl ⟨UInt16.ofNat c.toNat, by rw [unitsOfChar, if_pos hsmall], ?_, ?_, ?_⟩
    · simp only [isHighSurrogate, hunit, Bool.and_eq_false_iff, decide_eq_false_iff_not]
      omega
    · simp only [isLowSurrogate, hunit, Bool.and_eq_false_iff, decide_eq_false_iff_not]
      omega
    · rw [charOfUnit, hunit, Char.ofNat_toNat]
  · have hfirst : (UInt16.ofNat (0xD800 + (c.toNat - 0x10000) / 0x400)).toNat =
        0xD800 + (c.toNat - 0x10000) / 0x400 := by
      rw [UInt16.toNat_ofNat']
      omega
    have hsecond : (UInt16.ofNat (0xDC00 + (c.toNat - 0x10000) % 0x400)).toNat =
        0xDC00 + (c.toNat - 0x10000) % 0x400 := by
      rw [UInt16.toNat_ofNat']
      omega
    refine .inr ⟨_, _, by rw [unitsOfChar, if_neg hsmall], ?_, ?_, ?_⟩
    · simp only [isHighSurrogate, hfirst, Bool.and_eq_true, decide_eq_true_eq]
      omega
    · simp only [isLowSurrogate, hsecond, Bool.and_eq_true, decide_eq_true_eq]
      omega
    · have hcode : 0x10000 + (0xD800 + (c.toNat - 0x10000) / 0x400 - 0xD800) * 0x400 +
          (0xDC00 + (c.toNat - 0x10000) % 0x400 - 0xDC00) = c.toNat := by
        omega
      rw [charOfPair, hfirst, hsecond, hcode, Char.ofNat_toNat]

/-- The units of one scalar value are decoded to it. -/
theorem wellFormed_unitsOfChar (c : Char) (rest : JsString) :
    wellFormed (unitsOfChar c ++ rest) = c :: wellFormed rest := by
  obtain ⟨u, hunits, hhi, hlo, hc⟩ | ⟨hi, lo, hunits, hhi, hlo, hc⟩ := unitsOfChar_cases c
  · rw [hunits, List.singleton_append, wellFormed.eq_def]
    simp only [hhi, hlo, Bool.false_eq_true, if_false, hc]
  · rw [hunits, List.cons_append, List.singleton_append, wellFormed.eq_def]
    simp only [hhi, hlo, if_true, hc]

theorem wellFormed_ofText_append (t : Text) (rest : JsString) :
    wellFormed (ofText t ++ rest) = t ++ wellFormed rest := by
  induction t with
  | nil => rfl
  | cons c t ih => rw [ofText_cons, List.append_assoc, wellFormed_unitsOfChar, ih, List.cons_append]

/-- A text is read back from its units. -/
theorem wellFormed_ofText (t : Text) : wellFormed (ofText t) = t := by
  have happend := wellFormed_ofText_append t []
  rwa [List.append_nil, wellFormed, List.append_nil] at happend

theorem ofText_injective : Function.Injective ofText :=
  Function.LeftInverse.injective wellFormed_ofText

end Ecma
