import MemphisOS.Ecma.Strings

/-!
# UTF-8

Encoding a text and the decoder of the Encoding standard, which replaces every ill-formed
part by U+FFFD.
-/

namespace Ecma

/-! ## Encoding -/

/-- The bytes of one scalar value. -/
def encodeChar (c : Char) : List UInt8 :=
  let n := c.toNat
  if n < 0x80 then [.ofNat n]
  else if n < 0x800 then [.ofNat (0xC0 + n / 64), .ofNat (0x80 + n % 64)]
  else if n < 0x10000 then
    [.ofNat (0xE0 + n / 4096), .ofNat (0x80 + n / 64 % 64), .ofNat (0x80 + n % 64)]
  else [.ofNat (0xF0 + n / 262144), .ofNat (0x80 + n / 4096 % 64), .ofNat (0x80 + n / 64 % 64),
    .ofNat (0x80 + n % 64)]

def encodeUtf8 (t : Text) : List UInt8 := t.flatMap encodeChar

/-! ## Decoding -/

/-- U+FFFD. -/
def replacement : Char := Char.ofNat 0xFFFD

/-- Read the bytes a sequence still needs: the scalar value and how many bytes belong to
it. The next byte has bounds of its own, the later ones are between 0x80 and 0xBF. -/
def readTail : ℕ → ℕ → ℕ → ℕ → ℕ → List UInt8 → Char × ℕ
  | 0, _, _, value, taken, _ => (Char.ofNat value, taken)
  | _ + 1, _, _, _, taken, [] => (replacement, taken)
  | needed + 1, lower, upper, value, taken, b :: rest =>
    if lower ≤ b.toNat ∧ b.toNat ≤ upper then
      readTail needed 0x80 0xBF (64 * value + (b.toNat - 0x80)) (taken + 1) rest
    else (replacement, taken)

/-- Read a sequence by its first byte: the scalar value and how many of the other bytes
belong to it. -/
def readChar (first : UInt8) (rest : List UInt8) : Char × ℕ :=
  let n := first.toNat
  if n < 0x80 then (Char.ofNat n, 0)
  else if 0xC2 ≤ n ∧ n ≤ 0xDF then readTail 1 0x80 0xBF (n - 0xC0) 0 rest
  else if n = 0xE0 then readTail 2 0xA0 0xBF (n - 0xE0) 0 rest
  else if n = 0xED then readTail 2 0x80 0x9F (n - 0xE0) 0 rest
  else if 0xE1 ≤ n ∧ n ≤ 0xEF then readTail 2 0x80 0xBF (n - 0xE0) 0 rest
  else if n = 0xF0 then readTail 3 0x90 0xBF (n - 0xF0) 0 rest
  else if n = 0xF4 then readTail 3 0x80 0x8F (n - 0xF0) 0 rest
  else if 0xF1 ≤ n ∧ n ≤ 0xF3 then readTail 3 0x80 0xBF (n - 0xF0) 0 rest
  else (replacement, 0)

/-- `decodeUtf8` with a bound on the number of sequences. -/
def decodeBytes : ℕ → List UInt8 → Text
  | _, [] => []
  | 0, _ => []
  | fuel + 1, first :: rest =>
    let (c, taken) := readChar first rest
    c :: decodeBytes fuel (rest.drop taken)

def decodeUtf8 (bytes : List UInt8) : Text := decodeBytes bytes.length bytes

/-! ## Round trip -/

theorem readTail_cons {needed lower upper value taken : ℕ} {b : UInt8} {rest : List UInt8}
    (hlower : lower ≤ b.toNat) (hupper : b.toNat ≤ upper) :
    readTail (needed + 1) lower upper value taken (b :: rest) =
      readTail needed 0x80 0xBF (64 * value + (b.toNat - 0x80)) (taken + 1) rest := by
  rw [readTail, if_pos ⟨hlower, hupper⟩]

theorem toNat_ofNat_byte {n : ℕ} (h : n < 256) : (UInt8.ofNat n).toNat = n :=
  UInt8.toNat_ofNat_of_lt' h

/-- A continuation byte within bounds is read. -/
theorem readTail_byte {needed lower upper value taken m : ℕ} {rest : List UInt8}
    (hlower : lower ≤ 0x80 + m) (hupper : 0x80 + m ≤ upper) (hm : m < 64) :
    readTail (needed + 1) lower upper value taken (.ofNat (0x80 + m) :: rest) =
      readTail needed 0x80 0xBF (64 * value + m) (taken + 1) rest := by
  have hbyte : (UInt8.ofNat (0x80 + m)).toNat = 0x80 + m := toNat_ofNat_byte (by omega)
  rw [readTail_cons (by omega) (by omega), hbyte, Nat.add_sub_cancel_left]

/-- The decoder reads a scalar value back and nothing after it. -/
theorem readChar_encodeChar (c : Char) (rest : List UInt8) :
    ∃ first tail, encodeChar c = first :: tail ∧
      readChar first (tail ++ rest) = (c, tail.length) := by
  have hvalid : c.toNat < 0xD800 ∨ (0xDFFF < c.toNat ∧ c.toNat < 0x110000) := c.valid
  have hc : Char.ofNat c.toNat = c := Char.ofNat_toNat c
  unfold encodeChar
  generalize c.toNat = n at hvalid hc
  by_cases h1 : n < 0x80
  · refine ⟨_, _, if_pos h1, ?_⟩
    rw [readChar, toNat_ofNat_byte (by omega), if_pos h1, hc]
    rfl
  by_cases h2 : n < 0x800
  · refine ⟨_, _, by rw [if_neg h1, if_pos h2], ?_⟩
    rw [readChar, toNat_ofNat_byte (by omega), if_neg (by omega), if_pos (by omega),
      List.cons_append, readTail_byte (by omega) (by omega) (by omega), readTail,
      show 64 * (0xC0 + n / 64 - 0xC0) + n % 64 = n by omega, hc]
    rfl
  by_cases h3 : n < 0x10000
  · refine ⟨_, _, by rw [if_neg h1, if_neg h2, if_pos h3], ?_⟩
    have hread : ∀ {lower upper : ℕ}, lower ≤ 0x80 + n / 64 % 64 → 0x80 + n / 64 % 64 ≤ upper →
        readTail 2 lower upper (0xE0 + n / 4096 - 0xE0) 0
          ([UInt8.ofNat (0x80 + n / 64 % 64), UInt8.ofNat (0x80 + n % 64)] ++ rest) = (c, 2) := by
      intro lower upper hlower hupper
      rw [List.cons_append, readTail_byte hlower hupper (by omega), List.cons_append,
        readTail_byte (by omega) (by omega) (by omega), readTail,
        show 64 * (64 * (0xE0 + n / 4096 - 0xE0) + n / 64 % 64) + n % 64 = n by omega, hc]
    rw [readChar, toNat_ofNat_byte (by omega), if_neg (by omega), if_neg (by omega)]
    split
    · exact hread (by omega) (by omega)
    split
    · exact hread (by omega) (by omega)
    rw [if_pos (by omega)]
    exact hread (by omega) (by omega)
  · refine ⟨_, _, by rw [if_neg h1, if_neg h2, if_neg h3], ?_⟩
    have hread : ∀ {lower upper : ℕ}, lower ≤ 0x80 + n / 4096 % 64 → 0x80 + n / 4096 % 64 ≤ upper →
        readTail 3 lower upper (0xF0 + n / 262144 - 0xF0) 0
          ([UInt8.ofNat (0x80 + n / 4096 % 64), UInt8.ofNat (0x80 + n / 64 % 64),
            UInt8.ofNat (0x80 + n % 64)] ++ rest) = (c, 3) := by
      intro lower upper hlower hupper
      rw [List.cons_append, readTail_byte hlower hupper (by omega), List.cons_append,
        readTail_byte (by omega) (by omega) (by omega), List.cons_append,
        readTail_byte (by omega) (by omega) (by omega), readTail,
        show 64 * (64 * (64 * (0xF0 + n / 262144 - 0xF0) + n / 4096 % 64) + n / 64 % 64) + n % 64 = n
          by omega, hc]
    rw [readChar, toNat_ofNat_byte (by omega), if_neg (by omega), if_neg (by omega),
      if_neg (by omega), if_neg (by omega), if_neg (by omega)]
    split
    · exact hread (by omega) (by omega)
    split
    · exact hread (by omega) (by omega)
    rw [if_pos (by omega)]
    exact hread (by omega) (by omega)

@[simp] theorem encodeUtf8_cons (c : Char) (t : Text) :
    encodeUtf8 (c :: t) = encodeChar c ++ encodeUtf8 t := rfl

/-- **Round trip.** Decoding the encoding of a text gives the text. -/
theorem decodeUtf8_encodeUtf8 (t : Text) : decodeUtf8 (encodeUtf8 t) = t := by
  have hloop : ∀ fuel, (encodeUtf8 t).length ≤ fuel → decodeBytes fuel (encodeUtf8 t) = t := by
    induction t with
    | nil => intro fuel _; cases fuel <;> rfl
    | cons c t ih =>
      intro fuel hfuel
      obtain ⟨first, tail, hencode, hread⟩ := readChar_encodeChar c (encodeUtf8 t)
      rw [encodeUtf8_cons, hencode, List.cons_append] at hfuel ⊢
      cases fuel with
      | zero => simp at hfuel
      | succ fuel =>
        rw [decodeBytes, hread]
        dsimp only
        rw [List.drop_left, ih fuel (by simp at hfuel; omega)]
  exact hloop _ (Nat.le_refl _)

/-- Encoding is injective. -/
theorem encodeUtf8_inj {s t : Text} : encodeUtf8 s = encodeUtf8 t ↔ s = t := by
  refine ⟨fun h => ?_, fun h => h ▸ rfl⟩
  rw [← decodeUtf8_encodeUtf8 s, h, decodeUtf8_encodeUtf8]

end Ecma
