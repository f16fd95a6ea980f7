import MemphisOS.Ecma.Utf8
import MemphisOS.Sequences.Markers
import Mathlib.Tactic.Ring

/-!
# ASCII texts in files and strings

Between the bytes of a file and the units of a string an ASCII text stands for itself, whatever
is around it: reading a file and writing a string carry it over, also where the other bytes are
ill formed and the other units are lone surrogates.
-/

namespace Ecma

open Sequences

/-! ## Encoding -/

theorem encodeChar_of_ascii {c : Char} (hc : c.toNat < 0x80) :
    encodeChar c = [UInt8.ofNat c.toNat] := if_pos hc

theorem unitsOfChar_of_ascii {c : Char} (hc : c.toNat < 0x80) :
    unitsOfChar c = [UInt16.ofNat c.toNat] := if_pos (by omega)

theorem encodeChar_ne_nil (c : Char) : encodeChar c ≠ [] := by
  unfold encodeChar
  dsimp only
  split_ifs <;> exact List.cons_ne_nil _ _

/-- The bytes of a scalar value outside ASCII are outside ASCII. -/
theorem encodeChar_ge {c : Char} (hc : ¬ c.toNat < 0x80) {b : UInt8} (hb : b ∈ encodeChar c) :
    0x80 ≤ b.toNat := by
  have hvalid : c.toNat < 0xD800 ∨ (0xDFFF < c.toNat ∧ c.toNat < 0x110000) := c.valid
  unfold encodeChar at hb
  dsimp only at hb
  generalize c.toNat = n at hc hvalid hb
  rw [if_neg hc] at hb
  split_ifs at hb
  all_goals
    simp only [List.mem_cons, List.not_mem_nil, or_false] at hb
    rcases hb with rfl | rfl | rfl | rfl <;> rw [toNat_ofNat_byte (by omega)] <;> omega

/-- The units of a scalar value outside ASCII are outside ASCII. -/
theorem unitsOfChar_ge {c : Char} (hc : ¬ c.toNat < 0x80) {u : UInt16} (hu : u ∈ unitsOfChar c) :
    0x80 ≤ u.toNat := by
  obtain ⟨v, hunits, -, -, rfl⟩ | ⟨hi, lo, hunits, hhi, hlo, -⟩ := unitsOfChar_cases c
  · rw [hunits, List.mem_singleton] at hu
    subst hu
    by_contra hsmall
    exact hc (by rw [charOfUnit, toNat_ofNat_char (by omega)]; omega)
  · rw [hunits] at hu
    simp only [isHighSurrogate, isLowSurrogate, Bool.and_eq_true, decide_eq_true_eq] at hhi hlo
    rcases List.mem_pair.mp hu with rfl | rfl <;> omega

theorem encodeUtf8_eq_nil (t : Text) : encodeUtf8 t = [] ↔ t = [] := by
  cases t with
  | nil => exact iff_of_true rfl rfl
  | cons c t => simp [encodeChar_ne_nil c]

theorem ofText_eq_nil (t : Text) : ofText t = [] ↔ t = [] := by
  cases t with
  | nil => exact iff_of_true rfl rfl
  | cons c t => simp [unitsOfChar_ne_nil c]

/-- A number of ASCII is told by its byte. -/
theorem eq_of_ofNat_byte {m n : ℕ} (hm : m < 256) (hn : n < 256)
    (h : UInt8.ofNat m = UInt8.ofNat n) : m = n := by
  rw [← toNat_ofNat_byte hm, h, toNat_ofNat_byte hn]

theorem carries_encodeChar {c : Char} (hc : c.toNat < 0x80) :
    Carries encodeUtf8 [c] (encodeChar c) := by
  rw [encodeChar_of_ascii hc]
  refine .of_symbol (fun x y => ?_) fun x hx => ?_
  · rw [encodeUtf8, List.flatMap_append, List.flatMap_cons, encodeChar_of_ascii hc]
    rfl
  · obtain ⟨c', hmem, hbyte⟩ := List.mem_flatMap.mp hx
    by_cases hc' : c'.toNat < 0x80
    · rw [encodeChar_of_ascii hc', List.mem_singleton] at hbyte
      have hcode := eq_of_ofNat_byte (by omega) (by omega) hbyte
      rwa [← Char.toNat_inj.mp hcode.symm]
    · have hge := encodeChar_ge hc' hbyte
      rw [toNat_ofNat_byte (by omega)] at hge
      omega

theorem toNat_ofNat_unit {n : ℕ} (h : n < 65536) : (UInt16.ofNat n).toNat = n :=
  UInt16.toNat_ofNat_of_lt' h

theorem carries_unitsOfChar {c : Char} (hc : c.toNat < 0x80) :
    Carries ofText [c] (unitsOfChar c) := by
  rw [unitsOfChar_of_ascii hc]
  refine .of_symbol (fun x y => ?_) fun x hx => ?_
  · rw [ofText_append, ofText_cons, unitsOfChar_of_ascii hc]
    rfl
  · obtain ⟨c', hmem, hunit⟩ := List.mem_flatMap.mp hx
    by_cases hc' : c'.toNat < 0x80
    · rw [unitsOfChar_of_ascii hc', List.mem_singleton] at hunit
      have hcode := congrArg UInt16.toNat hunit
      rw [toNat_ofNat_unit (by omega), toNat_ofNat_unit (by omega)] at hcode
      rwa [← Char.toNat_inj.mp hcode.symm]
    · have hge := unitsOfChar_ge hc' hunit
      rw [toNat_ofNat_unit (by omega)] at hge
      omega

/-! ## Decoding bytes -/

/-- No more bytes are taken than there are. -/
theorem readTail_taken_le (needed lower upper value taken : ℕ) (rest : List UInt8) :
    (readTail needed lower upper value taken rest).2 ≤ taken + rest.length := by
  induction needed generalizing lower upper value taken rest with
  | zero => exact Nat.le_add_right _ _
  | succ needed ih =>
    cases rest with
    | nil => exact Nat.le_add_right _ _
    | cons b rest =>
      rw [readTail]
      split
      · have hle := ih 0x80 0xBF (64 * value + (b.toNat - 0x80)) (taken + 1) rest
        rw [List.length_cons]
        omega
      · exact Nat.le_add_right _ _

/-- A sequence ends in front of a byte of ASCII. -/
theorem readTail_append {needed lower upper value taken : ℕ} {rest : List UInt8} {b : UInt8}
    (hb : b.toNat < 0x80) (hlower : 0x80 ≤ lower) (after : List UInt8) :
    readTail needed lower upper value taken (rest ++ b :: after) =
      readTail needed lower upper value taken rest := by
  induction needed generalizing lower upper value taken rest with
  | zero => rfl
  | succ needed ih =>
    cases rest with
    | nil =>
      exact if_neg (by omega)
    | cons b' rest =>
      rw [List.cons_append, readTail, readTail, ih (Nat.le_refl _)]

/-- The value read after `value`, when all bytes needed were there. -/
theorem readTail_value (needed value taken : ℕ) (rest : List UInt8) :
    (readTail needed 0x80 0xBF value taken rest).1 = replacement ∨
    ∃ n, (readTail needed 0x80 0xBF value taken rest).1 = Char.ofNat n ∧
      value * 64 ^ needed ≤ n ∧ n < (value + 1) * 64 ^ needed := by
  induction needed generalizing value taken rest with
  | zero => exact .inr ⟨value, rfl, by omega, by omega⟩
  | succ needed ih =>
    cases rest with
    | nil => exact .inl rfl
    | cons b rest =>
      rw [readTail]
      split
      · next hb =>
        refine (ih (64 * value + (b.toNat - 0x80)) (taken + 1) rest).imp_right ?_
        rintro ⟨n, hn, hlow, hhigh⟩
        refine ⟨n, hn, ?_, ?_⟩
        · calc value * 64 ^ (needed + 1) = 64 * value * 64 ^ needed := by ring
            _ ≤ (64 * value + (b.toNat - 0x80)) * 64 ^ needed :=
              Nat.mul_le_mul_right _ (Nat.le_add_right _ _)
            _ ≤ n := hlow
        · calc n < (64 * value + (b.toNat - 0x80) + 1) * 64 ^ needed := hhigh
            _ ≤ 64 * (value + 1) * 64 ^ needed := Nat.mul_le_mul_right _ (by omega)
            _ = (value + 1) * 64 ^ (needed + 1) := by ring
      · exact .inl rfl

/-- The same when the first byte has bounds of its own. -/
theorem readTail_first_value {needed lower upper value taken : ℕ} {rest : List UInt8}
    (hlower : 0x80 ≤ lower) :
    (readTail (needed + 1) lower upper value taken rest).1 = replacement ∨
    ∃ n, (readTail (needed + 1) lower upper value taken rest).1 = Char.ofNat n ∧
      (64 * value + (lower - 0x80)) * 64 ^ needed ≤ n ∧
      n < (64 * value + (upper - 0x80) + 1) * 64 ^ needed := by
  cases rest with
  | nil => exact .inl rfl
  | cons b rest =>
    rw [readTail]
    split
    · next hb =>
      refine (readTail_value needed _ (taken + 1) rest).imp_right ?_
      rintro ⟨n, hn, hlow, hhigh⟩
      exact ⟨n, hn, (Nat.mul_le_mul_right _ (by omega)).trans hlow,
        hhigh.trans_le (Nat.mul_le_mul_right _ (by omega))⟩
    · exact .inl rfl

/-- A sequence that starts outside ASCII is no character of ASCII. -/
theorem readChar_ge {first : UInt8} (hfirst : ¬ first.toNat < 0x80) (rest : List UInt8) :
    0x80 ≤ (readChar first rest).1.toNat := by
  have hbyte : first.toNat < 256 := first.toNat_lt
  have hge : ∀ {needed lower upper value : ℕ}, 0x80 ≤ lower →
      (∀ n, (64 * value + (lower - 0x80)) * 64 ^ needed ≤ n →
        n < (64 * value + (upper - 0x80) + 1) * 64 ^ needed →
        0x80 ≤ n ∧ (n < 0xD800 ∨ (0xDFFF < n ∧ n < 0x110000))) →
      0x80 ≤ (readTail (needed + 1) lower upper value 0 rest).1.toNat := by
    intro needed lower upper value hlower hbounds
    rcases @readTail_first_value needed lower upper value 0 rest hlower with
      h | ⟨n, h, hlow, hhigh⟩
    · rw [h]
      decide
    · obtain ⟨hn, hvalid⟩ := hbounds n hlow hhigh
      rw [h, toNat_ofNat_char hvalid]
      exact hn
  unfold readChar
  dsimp only
  rw [if_neg hfirst]
  split_ifs
  · exact hge (Nat.le_refl _) fun n hlow hhigh => by omega
  · exact hge (by omega) fun n hlow hhigh => by omega
  · exact hge (by omega) fun n hlow hhigh => by omega
  · exact hge (by omega) fun n hlow hhigh => by omega
  · exact hge (by omega) fun n hlow hhigh => by omega
  · exact hge (by omega) fun n hlow hhigh => by omega
  · exact hge (by omega) fun n hlow hhigh => by omega
  · decide

theorem readChar_taken_le (first : UInt8) (rest : List UInt8) :
    (readChar first rest).2 ≤ rest.length := by
  have hle := fun needed lower upper value =>
    (readTail_taken_le needed lower upper value 0 rest).trans_eq (Nat.zero_add _)
  unfold readChar
  dsimp only
  split_ifs
  all_goals first | exact hle _ _ _ _ | exact Nat.zero_le _

theorem readChar_append (first : UInt8) (rest : List UInt8) {b : UInt8} (hb : b.toNat < 0x80)
    (after : List UInt8) : readChar first (rest ++ b :: after) = readChar first rest := by
  unfold readChar
  dsimp only
  split_ifs
  all_goals first | rfl | exact readTail_append hb (by omega) after

/-- More fuel than bytes changes nothing. -/
theorem decodeBytes_eq {fuel : ℕ} {bytes : List UInt8} (h : bytes.length ≤ fuel) :
    decodeBytes fuel bytes = decodeUtf8 bytes := by
  have hfuels : ∀ fuel fuel' (bytes : List UInt8), bytes.length ≤ fuel → bytes.length ≤ fuel' →
      decodeBytes fuel bytes = decodeBytes fuel' bytes := by
    intro fuel
    induction fuel with
    | zero =>
      intro fuel' bytes h _
      rw [List.length_eq_zero_iff.mp (Nat.le_zero.mp h)]
      cases fuel' <;> rfl
    | succ fuel ih =>
      intro fuel' bytes h h'
      cases bytes with
      | nil => cases fuel' <;> rfl
      | cons first rest =>
        cases fuel' with
        | zero => exact absurd h' (by simp)
        | succ fuel' =>
          rw [decodeBytes, decodeBytes]
          dsimp only
          rw [List.length_cons] at h h'
          rw [ih fuel' (rest.drop _) (by rw [List.length_drop]; omega)
            (by rw [List.length_drop]; omega)]
  exact hfuels _ _ bytes h (Nat.le_refl _)

theorem decodeUtf8_cons (first : UInt8) (rest : List UInt8) :
    decodeUtf8 (first :: rest) =
      (readChar first rest).1 :: decodeUtf8 (rest.drop (readChar first rest).2) := by
  rw [decodeUtf8, List.length_cons, decodeBytes]
  dsimp only
  rw [decodeBytes_eq (by rw [List.length_drop]; omega)]

theorem decodeUtf8_eq_nil (bytes : List UInt8) : decodeUtf8 bytes = [] ↔ bytes = [] := by
  cases bytes with
  | nil => exact iff_of_true rfl rfl
  | cons first rest => simp [decodeUtf8_cons]

/-- A byte of ASCII is read by itself. -/
theorem decodeUtf8_append (x : List UInt8) {b : UInt8} (hb : b.toNat < 0x80) (y : List UInt8) :
    decodeUtf8 (x ++ b :: y) = decodeUtf8 x ++ Char.ofNat b.toNat :: decodeUtf8 y := by
  induction hlength : x.length using Nat.strong_induction_on generalizing x with
  | _ n ih =>
    subst hlength
    cases x with
    | nil =>
      have hread : readChar b y = (Char.ofNat b.toNat, 0) := if_pos hb
      rw [List.nil_append, decodeUtf8_cons, hread]
      rfl
    | cons first rest =>
      have htaken := readChar_taken_le first rest
      rw [List.cons_append, decodeUtf8_cons, decodeUtf8_cons, readChar_append _ _ hb,
        List.drop_append_of_le_length htaken,
        ih _ (by rw [List.length_drop, List.length_cons]; omega) _ rfl, List.cons_append]

/-- A character of ASCII comes from its byte. -/
theorem mem_of_mem_decodeUtf8 {c : Char} (hc : c.toNat < 0x80) {bytes : List UInt8}
    (h : c ∈ decodeUtf8 bytes) : UInt8.ofNat c.toNat ∈ bytes := by
  induction hlength : bytes.length using Nat.strong_induction_on generalizing bytes with
  | _ n ih =>
    subst hlength
    cases bytes with
    | nil => exact absurd h List.not_mem_nil
    | cons first rest =>
      rw [decodeUtf8_cons, List.mem_cons] at h
      rcases h with h | h
      · by_cases hfirst : first.toNat < 0x80
        · have hread : readChar first rest = (Char.ofNat first.toNat, 0) := if_pos hfirst
          rw [h, hread, toNat_ofNat_char (by omega), UInt8.ofNat_toNat]
          exact List.mem_cons_self
        · have hge := readChar_ge hfirst rest
          rw [← h] at hge
          omega
      · have hin := ih _ (by rw [List.length_drop, List.length_cons]; omega) h rfl
        exact List.mem_cons_of_mem _ (List.mem_of_mem_drop hin)

theorem carries_decodeUtf8_singleton {c : Char} (hc : c.toNat < 0x80) :
    Carries decodeUtf8 (encodeChar c) [c] := by
  have hbyte : (UInt8.ofNat c.toNat).toNat = c.toNat := toNat_ofNat_byte (by omega)
  rw [encodeChar_of_ascii hc]
  refine .of_symbol (fun x y => ?_) fun x hx => mem_of_mem_decodeUtf8 hc hx
  rw [decodeUtf8_append x (by omega), hbyte, Char.ofNat_toNat]

/-! ## Cut encodings -/

/-- A scalar value that was encoded is read first. -/
theorem decodeUtf8_encodeChar_append (c : Char) (bytes : List UInt8) :
    decodeUtf8 (encodeChar c ++ bytes) = c :: decodeUtf8 bytes := by
  obtain ⟨first, tail, hencode, hread⟩ := readChar_encodeChar c bytes
  rw [hencode, List.cons_append, decodeUtf8_cons, hread, List.drop_left]

/-- Of an encoding that is cut the decoder gives the characters before the cut, and behind them
only what is outside ASCII. -/
theorem decodeUtf8_take_encodeUtf8 (t : Text) {n : ℕ} (h : n < (encodeUtf8 t).length) :
    ∃ kept cut junk, t = kept ++ cut ∧ cut ≠ [] ∧ (∀ c ∈ junk, ¬ c.toNat < 0x80) ∧
      decodeUtf8 ((encodeUtf8 t).take n) = kept ++ junk := by
  induction t generalizing n with
  | nil => exact absurd h (Nat.not_lt_zero n)
  | cons c t ih =>
    rw [encodeUtf8_cons, List.length_append] at h
    by_cases hn : n < (encodeChar c).length
    · refine ⟨[], c :: t, decodeUtf8 ((encodeUtf8 (c :: t)).take n), rfl, List.cons_ne_nil _ _, ?_,
        rfl⟩
      intro d hd hascii
      have hmem := mem_of_mem_decodeUtf8 hascii hd
      rw [encodeUtf8_cons, List.take_append_of_le_length hn.le] at hmem
      by_cases hc : c.toNat < 0x80
      · rw [encodeChar_of_ascii hc, List.length_singleton, Nat.lt_one_iff] at hn
        rw [hn, List.take_zero] at hmem
        exact List.not_mem_nil hmem
      · have hge := encodeChar_ge hc (List.mem_of_mem_take hmem)
        rw [toNat_ofNat_byte (by omega)] at hge
        omega
    · obtain ⟨kept, cut, junk, ht, hcut, hjunk, hdecode⟩ :=
        ih (show n - (encodeChar c).length < (encodeUtf8 t).length by omega)
      refine ⟨c :: kept, cut, junk, congrArg (c :: ·) ht, hcut, hjunk, ?_⟩
      rw [encodeUtf8_cons, List.take_append, List.take_of_length_le (by omega),
        decodeUtf8_encodeChar_append, hdecode]
      rfl

/-! ## Decoding units -/

/-- How a string is read by its first unit. -/
theorem wellFormed_pair {u v : UInt16} (hu : isHighSurrogate u = true)
    (hv : isLowSurrogate v = true) (s : JsString) :
    wellFormed (u :: v :: s) = charOfPair u v :: wellFormed s := by
  rw [wellFormed.eq_def]
  simp only [hu, hv, if_true]

theorem wellFormed_high {u v : UInt16} (hu : isHighSurrogate u = true)
    (hv : isLowSurrogate v = false) (s : JsString) :
    wellFormed (u :: v :: s) = replacement :: wellFormed (v :: s) := by
  rw [wellFormed.eq_def]
  simp only [hu, hv, if_true, Bool.false_eq_true, if_false]
  rfl

theorem wellFormed_high_nil {u : UInt16} (hu : isHighSurrogate u = true) :
    wellFormed [u] = [replacement] := by
  rw [wellFormed.eq_def]
  simp only [hu, if_true]
  rfl

theorem wellFormed_low {u : UInt16} (hhigh : isHighSurrogate u = false)
    (hlow : isLowSurrogate u = true) (s : JsString) :
    wellFormed (u :: s) = replacement :: wellFormed s := by
  rw [wellFormed.eq_def]
  simp only [hhigh, hlow, if_true, Bool.false_eq_true, if_false]
  rfl

theorem wellFormed_unit {u : UInt16} (hhigh : isHighSurrogate u = false)
    (hlow : isLowSurrogate u = false) (s : JsString) :
    wellFormed (u :: s) = charOfUnit u :: wellFormed s := by
  rw [wellFormed.eq_def]
  simp only [hhigh, hlow, Bool.false_eq_true, if_false]

/-- A string is empty, or a surrogate pair, a lone surrogate or another unit comes first. -/
theorem string_cases {motive : JsString → Prop} (nil : motive [])
    (pair : ∀ u v s, isHighSurrogate u = true → isLowSurrogate v = true → motive s →
      motive (u :: v :: s))
    (high : ∀ u v s, isHighSurrogate u = true → isLowSurrogate v = false → motive (v :: s) →
      motive (u :: v :: s))
    (last : ∀ u, isHighSurrogate u = true → motive [u])
    (low : ∀ u s, isHighSurrogate u = false → isLowSurrogate u = true → motive s →
      motive (u :: s))
    (unit : ∀ u s, isHighSurrogate u = false → isLowSurrogate u = false → motive s →
      motive (u :: s)) (s : JsString) : motive s := by
  induction s using wellFormed.induct with
  | case1 => exact nil
  | case2 u hu v s hv ih => exact pair u v s hu hv ih
  | case3 u hu v s hv ih => exact high u v s hu (Bool.not_eq_true _ ▸ hv) ih
  | case4 u hu => exact last u hu
  | case5 u s hu hlow ih => exact low u s (Bool.not_eq_true _ ▸ hu) hlow ih
  | case6 u s hu hlow ih => exact unit u s (Bool.not_eq_true _ ▸ hu) (Bool.not_eq_true _ ▸ hlow) ih

theorem wellFormed_eq_nil (s : JsString) : wellFormed s = [] ↔ s = [] := by
  refine ⟨fun h => ?_, fun h => h ▸ rfl⟩
  induction s using string_cases with
  | nil => rfl
  | pair u v s hu hv ih => exact absurd (wellFormed_pair hu hv s ▸ h) (List.cons_ne_nil _ _)
  | high u v s hu hv ih => exact absurd (wellFormed_high hu hv s ▸ h) (List.cons_ne_nil _ _)
  | last u hu => exact absurd (wellFormed_high_nil hu ▸ h) (List.cons_ne_nil _ _)
  | low u s hu hlow ih => exact absurd (wellFormed_low hu hlow s ▸ h) (List.cons_ne_nil _ _)
  | unit u s hu hlow ih => exact absurd (wellFormed_unit hu hlow s ▸ h) (List.cons_ne_nil _ _)

/-- A unit of ASCII is read by itself. -/
theorem wellFormed_append (x : JsString) {u : UInt16} (hu : u.toNat < 0x80) (y : JsString) :
    wellFormed (x ++ u :: y) = wellFormed x ++ charOfUnit u :: wellFormed y := by
  have hhigh : isHighSurrogate u = false := by
    rw [isHighSurrogate, decide_eq_false (by omega), Bool.false_and]
  have hlow : isLowSurrogate u = false := by
    rw [isLowSurrogate, decide_eq_false (by omega), Bool.false_and]
  induction x using string_cases with
  | nil => exact wellFormed_unit hhigh hlow y
  | pair v w s hv hw ih =>
    rw [List.cons_append, List.cons_append, wellFormed_pair hv hw, wellFormed_pair hv hw, ih,
      List.cons_append]
  | high v w s hv hw ih =>
    rw [List.cons_append] at ih
    rw [List.cons_append, List.cons_append, wellFormed_high hv hw, wellFormed_high hv hw, ih,
      List.cons_append]
  | last v hv =>
    rw [List.singleton_append, wellFormed_high hv hlow, wellFormed_high_nil hv,
      wellFormed_unit hhigh hlow]
    rfl
  | low v s hv hv' ih =>
    rw [List.cons_append, wellFormed_low hv hv', wellFormed_low hv hv', ih, List.cons_append]
  | unit v s hv hv' ih =>
    rw [List.cons_append, wellFormed_unit hv hv', wellFormed_unit hv hv', ih, List.cons_append]

/-- A character of ASCII comes from its unit. -/
theorem mem_of_mem_wellFormed {c : Char} (hc : c.toNat < 0x80) {s : JsString}
    (h : c ∈ wellFormed s) : UInt16.ofNat c.toNat ∈ s := by
  have hreplacement : c ≠ replacement := by
    rintro rfl
    exact absurd hc (Nat.not_lt.mpr (by decide))
  induction s using string_cases with
  | nil => exact absurd h List.not_mem_nil
  | pair u v s hu hv ih =>
    rw [wellFormed_pair hu hv, List.mem_cons] at h
    rcases h with h | h
    · have hunits := congrArg List.length (unitsOfChar_charOfPair hu hv)
      rw [← h, unitsOfChar_of_ascii hc] at hunits
      cases hunits
    · exact List.mem_cons_of_mem u (List.mem_cons_of_mem v (ih h))
  | high u v s hu hv ih =>
    rw [wellFormed_high hu hv, List.mem_cons] at h
    exact List.mem_cons_of_mem u (ih (h.resolve_left hreplacement))
  | last u hu =>
    rw [wellFormed_high_nil hu, List.mem_singleton] at h
    exact absurd h hreplacement
  | low u s hu hlow ih =>
    rw [wellFormed_low hu hlow, List.mem_cons] at h
    exact List.mem_cons_of_mem u (ih (h.resolve_left hreplacement))
  | unit u s hu hlow ih =>
    rw [wellFormed_unit hu hlow, List.mem_cons] at h
    rcases h with h | h
    · have hunits := unitsOfChar_charOfUnit hu hlow
      rw [← h, unitsOfChar_of_ascii hc, List.cons.injEq] at hunits
      rw [hunits.1]
      exact List.mem_cons_self
    · exact List.mem_cons_of_mem u (ih h)

theorem carries_wellFormed_singleton {c : Char} (hc : c.toNat < 0x80) :
    Carries wellFormed (unitsOfChar c) [c] := by
  have hunit : (UInt16.ofNat c.toNat).toNat = c.toNat := toNat_ofNat_unit (by omega)
  rw [unitsOfChar_of_ascii hc]
  refine .of_symbol (fun x y => ?_) fun x hx => mem_of_mem_wellFormed hc hx
  rw [wellFormed_append x (by omega), charOfUnit, hunit, Char.ofNat_toNat]

/-! ## Files and strings -/

/-- `readFileSync(path, 'utf8')` of these bytes. -/
def readText (bytes : List UInt8) : JsString := ofText (decodeUtf8 bytes)

/-- The bytes `writeFileSync(path, s, 'utf8')` leaves in the file. -/
def writeText (s : JsString) : List UInt8 := encodeUtf8 (wellFormed s)

/-- A text read from a file whose bytes are those of the text. -/
def IsUtf8 (bytes : List UInt8) : Prop := encodeUtf8 (decodeUtf8 bytes) = bytes

theorem readText_eq_nil (bytes : List UInt8) : readText bytes = [] ↔ bytes = [] :=
  (ofText_eq_nil _).trans (decodeUtf8_eq_nil bytes)

theorem writeText_eq_nil (s : JsString) : writeText s = [] ↔ s = [] :=
  (encodeUtf8_eq_nil _).trans (wellFormed_eq_nil s)

/-- What is written is read back with every lone surrogate replaced. -/
theorem readText_writeText (s : JsString) : readText (writeText s) = ofText (wellFormed s) := by
  rw [readText, writeText, decodeUtf8_encodeUtf8]

theorem writeText_readText (bytes : List UInt8) :
    writeText (readText bytes) = encodeUtf8 (decodeUtf8 bytes) := by
  rw [readText, writeText, wellFormed_ofText]

theorem readText_writeText_readText (bytes : List UInt8) :
    readText (writeText (readText bytes)) = readText bytes := by
  rw [readText_writeText, readText, wellFormed_ofText]

/-- A marker in ASCII. -/
structure IsAsciiMarker (t : Text) : Prop where
  marker : IsMarker t
  ascii : ∀ c ∈ t, c.toNat < 0x80

namespace IsAsciiMarker

variable {t : Text} (h : IsAsciiMarker t)

include h

/-- It is a marker in the bytes of a file. -/
theorem bytes : IsMarker (encodeUtf8 t) := by
  obtain ⟨⟨c, t, rfl, hc⟩, hascii⟩ := h
  have hchar := hascii c List.mem_cons_self
  have hcarries := carries_encodeChar hchar
  rw [encodeChar_of_ascii hchar] at hcarries
  refine ⟨UInt8.ofNat c.toNat, encodeUtf8 t, ?_, fun hin => ?_⟩
  · rw [encodeUtf8_cons, encodeChar_of_ascii hchar, List.singleton_append]
  · have hinfix := hcarries.occurs ((List.singleton_infix_iff _ _).mpr hin)
    exact hc ((List.singleton_infix_iff _ _).mp hinfix)

/-- It is a marker in the units of a string. -/
theorem units : IsMarker (ofText t) := by
  obtain ⟨⟨c, t, rfl, hc⟩, hascii⟩ := h
  have hchar := hascii c List.mem_cons_self
  have hcarries := carries_unitsOfChar hchar
  rw [unitsOfChar_of_ascii hchar] at hcarries
  refine ⟨UInt16.ofNat c.toNat, ofText t, ?_, fun hin => ?_⟩
  · rw [ofText_cons, unitsOfChar_of_ascii hchar, List.singleton_append]
  · have hinfix := hcarries.occurs ((List.singleton_infix_iff _ _).mpr hin)
    exact hc ((List.singleton_infix_iff _ _).mp hinfix)

/-- **A file is read around a marker.** -/
theorem readText : Carries readText (encodeUtf8 t) (ofText t) := by
  have hdecode : Carries decodeUtf8 (encodeUtf8 t) (t.flatMap fun c => [c]) :=
    .flatMap decodeUtf8_eq_nil h.marker.ne_nil fun c hc =>
      carries_decodeUtf8_singleton (h.ascii c hc)
  have hunits : Carries ofText (t.flatMap fun c => [c]) (ofText t) :=
    .flatMap ofText_eq_nil h.marker.ne_nil fun c hc => carries_unitsOfChar (h.ascii c hc)
  exact hdecode.comp hunits

/-- **A string is written around a marker.** -/
theorem writeText : Carries writeText (ofText t) (encodeUtf8 t) := by
  have hdecode : Carries wellFormed (ofText t) (t.flatMap fun c => [c]) :=
    .flatMap wellFormed_eq_nil h.marker.ne_nil fun c hc =>
      carries_wellFormed_singleton (h.ascii c hc)
  have hbytes : Carries encodeUtf8 (t.flatMap fun c => [c]) (encodeUtf8 t) :=
    .flatMap encodeUtf8_eq_nil h.marker.ne_nil fun c hc => carries_encodeChar (h.ascii c hc)
  exact hdecode.comp hbytes

end IsAsciiMarker

end Ecma
