import MemphisOS.Ecma.Strings

/-!
# Base64

Bytes as text and back. Decoding knows both alphabets, stops at the padding and skips every
character that belongs to neither.
-/

namespace Ecma

def base64Alphabet : Text :=
  "ABCDEFGHIJKLMNOPQRSTUVWXYZabcdefghijklmnopqrstuvwxyz0123456789+/".toList

/-- The character of six bits. -/
def base64Char (n : ℕ) : Char := base64Alphabet.getD n 'A'

/-- The six bits of a character, in either alphabet. -/
def sextet (c : Char) : Option ℕ :=
  if c = '-' then some 62
  else if c = '_' then some 63
  else base64Alphabet.idxOf? c

/-- `buffer.toString('base64')`. -/
def toBase64 : List UInt8 → Text
  | [] => []
  | [a] => [base64Char (a.toNat / 4), base64Char (a.toNat % 4 * 16), '=', '=']
  | [a, b] => [base64Char (a.toNat / 4), base64Char (a.toNat % 4 * 16 + b.toNat / 16),
      base64Char (b.toNat % 16 * 4), '=']
  | a :: b :: c :: rest =>
    base64Char (a.toNat / 4) :: base64Char (a.toNat % 4 * 16 + b.toNat / 16) ::
      base64Char (b.toNat % 16 * 4 + c.toNat / 64) :: base64Char (c.toNat % 64) :: toBase64 rest

/-- The bytes of sextets; bits that fill no byte are dropped. -/
def packSextets : List ℕ → List UInt8
  | a :: b :: c :: d :: rest =>
    .ofNat (a * 4 + b / 16) :: .ofNat (b % 16 * 16 + c / 4) :: .ofNat (c % 4 * 64 + d) ::
      packSextets rest
  | [a, b, c] => [.ofNat (a * 4 + b / 16), .ofNat (b % 16 * 16 + c / 4)]
  | [a, b] => [.ofNat (a * 4 + b / 16)]
  | [_] => []
  | [] => []

/-- `Buffer.from(text, 'base64')`. -/
def fromBase64 (s : JsString) : List UInt8 :=
  packSextets (((wellFormed s).takeWhile (· ≠ '=')).filterMap sextet)

/-! ## Round trip -/

theorem base64Char_spec : ∀ n < 64, base64Char n ≠ '=' ∧ sextet (base64Char n) = some n := by
  decide +kernel

/-- One character is read as its six bits. -/
theorem readSextets_cons {n : ℕ} (h : n < 64) (t : Text) :
    ((base64Char n :: t).takeWhile (· ≠ '=')).filterMap sextet =
      n :: (t.takeWhile (· ≠ '=')).filterMap sextet := by
  obtain ⟨hpad, hsextet⟩ := base64Char_spec n h
  rw [List.takeWhile_cons_of_pos (by simpa using hpad), List.filterMap_cons_some hsextet]

theorem readSextets_pad (t : Text) :
    (('=' :: t).takeWhile (· ≠ '=')).filterMap sextet = [] := by
  rw [List.takeWhile_cons_of_neg (by simp)]
  rfl

theorem ofNat_eq_of_toNat {n : ℕ} {b : UInt8} (h : n = b.toNat) : UInt8.ofNat n = b := by
  rw [h, UInt8.ofNat_toNat]

/-- The bytes are read back. -/
theorem fromBase64_toBase64 (bytes : List UInt8) : fromBase64 (ofText (toBase64 bytes)) = bytes := by
  rw [fromBase64, wellFormed_ofText]
  induction bytes using toBase64.induct with
  | case1 => rfl
  | case2 a =>
    have ha := a.toNat_lt
    rw [toBase64, readSextets_cons (by omega), readSextets_cons (by omega), readSextets_pad,
      packSextets, ofNat_eq_of_toNat (b := a) (by omega)]
  | case3 a b =>
    have ha := a.toNat_lt
    have hb := b.toNat_lt
    rw [toBase64, readSextets_cons (by omega), readSextets_cons (by omega),
      readSextets_cons (by omega), readSextets_pad, packSextets,
      ofNat_eq_of_toNat (b := a) (by omega), ofNat_eq_of_toNat (b := b) (by omega)]
  | case4 a b c rest ih =>
    have ha := a.toNat_lt
    have hb := b.toNat_lt
    have hc := c.toNat_lt
    rw [toBase64, readSextets_cons (by omega), readSextets_cons (by omega),
      readSextets_cons (by omega), readSextets_cons (by omega), packSextets, ih,
      ofNat_eq_of_toNat (b := a) (by omega), ofNat_eq_of_toNat (b := b) (by omega),
      ofNat_eq_of_toNat (b := c) (by omega)]

theorem toBase64_ne_nil {bytes : List UInt8} (h : bytes ≠ []) : toBase64 bytes ≠ [] := by
  rcases bytes with _ | ⟨a, _ | ⟨b, _ | ⟨c, rest⟩⟩⟩
  · exact absurd rfl h
  all_goals simp [toBase64]

end Ecma
