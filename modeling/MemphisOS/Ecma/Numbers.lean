import Mathlib.Data.Int.Log
import Mathlib.Data.Rat.Floor
import Mathlib.Tactic.Linarith
import Mathlib.Tactic.FieldSimp
import Mathlib.Tactic.NormNum
import Mathlib.Tactic.Positivity

/-!
# Numbers of the host language

An ECMAScript number is a binary64 value. Finite values are kept as the rational
numbers that rounding to 53 significant bits leaves unchanged; negative zero, the
two infinities and NaN are separate values. Rounding is to nearest, ties to even.
-/

namespace Ecma

/-- The nearest integer, ties to even. -/
def roundHalfEven (q : ℚ) : ℤ :=
  if q - ⌊q⌋ < 1 / 2 then ⌊q⌋
  else if 1 / 2 < q - ⌊q⌋ then ⌊q⌋ + 1
  else if ⌊q⌋ % 2 = 0 then ⌊q⌋ else ⌊q⌋ + 1

/-- The exponent of the last bit a binary64 value of this magnitude keeps. -/
def ulpExponent (q : ℚ) : ℤ := max (-1074) (Int.log 2 |q| - 52)

/-- Round to binary64; `none` when the result overflows. -/
def roundToDouble (q : ℚ) : Option ℚ :=
  let r := roundHalfEven (q / 2 ^ ulpExponent q) * (2 : ℚ) ^ ulpExponent q
  if |r| < 2 ^ 1024 then some r else none

/-- Rounding leaves integers alone. -/
@[simp] theorem roundHalfEven_intCast (z : ℤ) : roundHalfEven z = z := by
  simp [roundHalfEven]

/-- Rounding moves a value by less than one integer in either direction. -/
theorem floor_le_roundHalfEven (q : ℚ) : ⌊q⌋ ≤ roundHalfEven q ∧ roundHalfEven q ≤ ⌊q⌋ + 1 := by
  unfold roundHalfEven
  split_ifs <;> omega

/-- Rounding does not leave an interval with integer end points. -/
theorem abs_roundHalfEven_le {q : ℚ} {N : ℤ} (h : |q| < N) : |roundHalfEven q| ≤ N := by
  obtain ⟨hlow, hhigh⟩ := abs_lt.mp h
  have hfloor : -N ≤ ⌊q⌋ := by
    rw [Int.le_floor]
    push_cast
    exact hlow.le
  have hceil : ⌊q⌋ < N := Int.floor_lt.mpr hhigh
  obtain ⟨hle, hge⟩ := floor_le_roundHalfEven q
  exact abs_le.mpr ⟨by omega, by omega⟩

private theorem two_zpow_pos (e : ℤ) : (0 : ℚ) < 2 ^ e := zpow_pos (by norm_num) e

/-- A multiple of a power of two with few bits has no smaller last bit. -/
theorem ulpExponent_le {m e : ℤ} (hm : |m| < 2 ^ 53) (hm0 : m ≠ 0) (he : -1074 ≤ e) :
    ulpExponent (m * (2 : ℚ) ^ e) ≤ e := by
  have hpos : (0 : ℚ) < |(m : ℚ) * 2 ^ e| := by
    have hm' : (m : ℚ) ≠ 0 := by exact_mod_cast hm0
    exact abs_pos.mpr (mul_ne_zero hm' (two_zpow_pos e).ne')
  have hlt : |(m : ℚ) * 2 ^ e| < ((2 : ℕ) : ℚ) ^ (53 + e) := by
    rw [abs_mul, abs_of_pos (two_zpow_pos e), Nat.cast_ofNat,
      zpow_add₀ (by norm_num)]
    have hm' : |(m : ℚ)| < 2 ^ (53 : ℤ) := by exact_mod_cast hm
    exact mul_lt_mul_of_pos_right hm' (two_zpow_pos e)
  have hlog := (Int.lt_zpow_iff_log_lt (by norm_num) hpos).mp hlt
  unfold ulpExponent
  omega

/-- **Representable values.** An integer of at most 53 bits times a power of two
in the exponent range is its own rounding. -/
theorem roundToDouble_of_grid {m e : ℤ} (hm : |m| < 2 ^ 53) (he : -1074 ≤ e)
    (hbound : |(m : ℚ) * 2 ^ e| < 2 ^ 1024) :
    roundToDouble (m * (2 : ℚ) ^ e) = some (m * (2 : ℚ) ^ e) := by
  by_cases hm0 : m = 0
  · subst m
    have hzero : roundHalfEven 0 = 0 := roundHalfEven_intCast 0
    simp [roundToDouble, hzero]
  · have hle := ulpExponent_le hm hm0 he
    set u := ulpExponent (m * (2 : ℚ) ^ e) with hu
    have hscaled : (m : ℚ) * 2 ^ e / 2 ^ u = ((m * 2 ^ (e - u).toNat : ℤ) : ℚ) := by
      have hsplit : (2 : ℚ) ^ e = 2 ^ (e - u).toNat * 2 ^ u := by
        rw [← zpow_natCast, Int.toNat_of_nonneg (by omega), ← zpow_add₀ (by norm_num),
          sub_add_cancel]
      rw [hsplit]
      push_cast
      field_simp
    have hround : roundHalfEven ((m : ℚ) * 2 ^ e / 2 ^ u) * (2 : ℚ) ^ u = m * 2 ^ e := by
      rw [hscaled, roundHalfEven_intCast, ← hscaled]
      field_simp
    simp only [roundToDouble, ← hu, hround, if_pos hbound]

/-- The scaled value that gets rounded has at most 53 bits before its point. -/
theorem abs_div_ulp_lt (q : ℚ) : |q / 2 ^ ulpExponent q| < ((2 ^ 53 : ℤ) : ℚ) := by
  have hlog := Int.lt_zpow_succ_log_self (b := 2) (by norm_num) |q|
  have hexp : Int.log 2 |q| + 1 ≤ ulpExponent q + 53 := by
    unfold ulpExponent
    omega
  have hpow : |q| < (2 : ℚ) ^ (ulpExponent q + 53) := by
    refine lt_of_lt_of_le (by simpa using hlog) ?_
    exact zpow_le_zpow_right₀ (by norm_num) hexp
  rw [abs_div, abs_of_pos (two_zpow_pos _), div_lt_iff₀ (two_zpow_pos _)]
  rw [zpow_add₀ (by norm_num)] at hpow
  calc |q| < 2 ^ ulpExponent q * 2 ^ (53 : ℤ) := hpow
    _ = ((2 ^ 53 : ℤ) : ℚ) * 2 ^ ulpExponent q := by push_cast; ring

/-- Rounding is idempotent: its results are representable. -/
theorem roundToDouble_idem {q r : ℚ} (h : roundToDouble q = some r) : roundToDouble r = some r := by
  have hk := abs_roundHalfEven_le (abs_div_ulp_lt q)
  have hu : -1074 ≤ ulpExponent q := le_max_left _ _
  simp only [roundToDouble, Option.ite_none_right_eq_some, Option.some.injEq] at h
  obtain ⟨hbound, rfl⟩ := h
  set k := roundHalfEven (q / 2 ^ ulpExponent q)
  rcases lt_or_eq_of_le hk with hlt | heq
  · exact roundToDouble_of_grid hlt hu hbound
  · -- The mantissa carried to `2 ^ 53`: the value is `2 ^ 52` one exponent higher.
    have hdouble : ∃ s : ℤ, |s| < 2 ^ 53 ∧ (k : ℚ) * 2 ^ ulpExponent q =
        s * 2 ^ (ulpExponent q + 1) := by
      rcases abs_eq (by norm_num) |>.mp heq with hpos | hneg
      · refine ⟨2 ^ 52, by norm_num, ?_⟩
        rw [hpos, zpow_add₀ (by norm_num)]
        push_cast
        ring
      · refine ⟨-2 ^ 52, by norm_num, ?_⟩
        rw [hneg, zpow_add₀ (by norm_num)]
        push_cast
        ring
    obtain ⟨s, hs, hvalue⟩ := hdouble
    rw [hvalue] at hbound ⊢
    exact roundToDouble_of_grid hs (by omega) hbound

/-- Natural numbers below `2 ^ 53` are representable. -/
theorem roundToDouble_natCast {n : ℕ} (h : n < 2 ^ 53) : roundToDouble (n : ℚ) = some (n : ℚ) := by
  have hgrid := roundToDouble_of_grid (m := (n : ℤ)) (e := 0)
    (by rw [abs_of_nonneg (by positivity)]; exact_mod_cast h) (by norm_num)
    (by
      simp only [Int.cast_natCast, zpow_zero, mul_one]
      rw [abs_of_nonneg (by positivity)]
      calc (n : ℚ) < 2 ^ 53 := by exact_mod_cast h
        _ < 2 ^ 1024 := pow_lt_pow_right₀ (by norm_num) (by norm_num))
  simpa using hgrid

/-- Rounding overflows from `2 ^ 1024` on. -/
theorem roundToDouble_eq_none {q : ℚ} (h : 2 ^ 1024 ≤ q) : roundToDouble q = none := by
  have hpos : 0 < q := lt_of_lt_of_le (by positivity) h
  have hlog : (1024 : ℤ) ≤ Int.log 2 |q| := by
    rw [abs_of_pos hpos, ← Int.zpow_le_iff_le_log (by norm_num) hpos]
    exact_mod_cast h
  have hulp : ulpExponent q = Int.log 2 |q| - 52 := by
    unfold ulpExponent
    omega
  have hpower : (0 : ℚ) < 2 ^ ulpExponent q := zpow_pos (by norm_num) _
  have hscaled : ((2 ^ 52 : ℤ) : ℚ) ≤ q / 2 ^ ulpExponent q := by
    rw [le_div_iff₀ hpower, hulp]
    have hself := Int.zpow_log_le_self (b := 2) (by norm_num) hpos
    rw [abs_of_pos hpos]
    calc ((2 ^ 52 : ℤ) : ℚ) * 2 ^ (Int.log 2 q - 52) = (2 : ℚ) ^ Int.log 2 q := by
          rw [show ((2 ^ 52 : ℤ) : ℚ) = (2 : ℚ) ^ (52 : ℤ) by norm_num, ← zpow_add₀ (by norm_num)]
          congr 1
          ring
      _ ≤ q := by exact_mod_cast hself
  have hround : (2 ^ 52 : ℤ) ≤ roundHalfEven (q / 2 ^ ulpExponent q) :=
    (Int.le_floor.mpr hscaled).trans (floor_le_roundHalfEven _).1
  have hlarge : (2 : ℚ) ^ 1024 ≤ roundHalfEven (q / 2 ^ ulpExponent q) * 2 ^ ulpExponent q := by
    calc (2 : ℚ) ^ 1024 = (2 : ℚ) ^ (52 : ℤ) * 2 ^ (972 : ℤ) := by
          rw [← zpow_add₀ (by norm_num)]
          norm_num
      _ ≤ (2 : ℚ) ^ (52 : ℤ) * 2 ^ ulpExponent q := by
          refine mul_le_mul_of_nonneg_left ?_ (by positivity)
          exact zpow_le_zpow_right₀ (by norm_num) (by omega)
      _ ≤ roundHalfEven (q / 2 ^ ulpExponent q) * 2 ^ ulpExponent q := by
          refine mul_le_mul_of_nonneg_right ?_ hpower.le
          exact_mod_cast hround
  rw [roundToDouble]
  exact if_neg (not_lt.mpr (hlarge.trans (le_abs_self _)))
/-- Rounding a natural number gives one. -/
theorem exists_nat_of_roundToDouble_natCast {n : ℕ} {r : ℚ} (h : roundToDouble (n : ℚ) = some r) :
    ∃ m : ℕ, r = m := by
  rcases Nat.lt_or_ge n (2 ^ 53) with hlt | hge
  · rw [roundToDouble_natCast hlt] at h
    exact ⟨n, (Option.some.inj h).symm⟩
  · have hulp : 0 ≤ ulpExponent (n : ℚ) := by
      have hlog : (53 : ℤ) ≤ Int.log 2 |(n : ℚ)| := by
        rw [Nat.abs_cast, ← Int.zpow_le_iff_le_log (by norm_num) (by positivity)]
        exact_mod_cast hge
      unfold ulpExponent
      omega
    simp only [roundToDouble, Option.ite_none_right_eq_some, Option.some.injEq] at h
    obtain ⟨-, rfl⟩ := h
    have hround : 0 ≤ roundHalfEven ((n : ℚ) / 2 ^ ulpExponent (n : ℚ)) :=
      (Int.floor_nonneg.mpr (div_nonneg n.cast_nonneg (two_zpow_pos _).le)).trans
        (floor_le_roundHalfEven _).1
    obtain ⟨k, hk⟩ := Int.eq_ofNat_of_zero_le hround
    refine ⟨k * 2 ^ (ulpExponent (n : ℚ)).toNat, ?_⟩
    rw [hk, Nat.cast_mul, Nat.cast_pow, Nat.cast_ofNat, ← zpow_natCast, Int.toNat_of_nonneg hulp,
      Int.cast_natCast]

/-- An ECMAScript number. -/
inductive JsNumber where
  | nan
  | infinity (negative : Bool)
  | negZero
  | finite (q : ℚ) (representable : roundToDouble q = some q)
  deriving DecidableEq

namespace JsNumber

/-- The number nearest to a rational value; `negative` is the sign a zero gets. -/
def ofRat (q : ℚ) (negative : Bool) : JsNumber :=
  match h : roundToDouble q with
  | none => infinity (q < 0)
  | some r => if r = 0 ∧ negative then negZero else finite r (roundToDouble_idem h)

/-- The number nearest to a natural number. -/
def ofNat (n : ℕ) : JsNumber := ofRat n false

/-- `Number.isFinite`. -/
def isFinite : JsNumber → Bool
  | finite .. | negZero => true
  | _ => false

/-- The rational value of a finite number. -/
def toRat? : JsNumber → Option ℚ
  | finite q _ => some q
  | negZero => some 0
  | _ => none

/-- Negative zero read as zero, every other number unchanged. -/
def dropZeroSign : JsNumber → JsNumber
  | negZero => ofNat 0
  | n => n

/-- The operator `===` on numbers. -/
def strictEq (a b : JsNumber) : Bool := a ≠ nan && a.dropZeroSign = b.dropZeroSign

/-- The operator `<` on numbers. -/
def lt : JsNumber → JsNumber → Bool
  | nan, _ => false
  | _, nan => false
  | infinity a, infinity b => a && !b
  | infinity a, _ => a
  | _, infinity b => !b
  | negZero, negZero => false
  | negZero, finite q _ => 0 < q
  | finite q _, negZero => q < 0
  | finite p _, finite q _ => p < q

/-- The operator `<=` on numbers. -/
def le (a b : JsNumber) : Bool := a ≠ nan && b ≠ nan && !lt b a

/-- `Math.max` of two numbers. -/
def max (a b : JsNumber) : JsNumber :=
  if a = nan ∨ b = nan then nan else if lt a b then b else a

/-- The operator `+` on numbers. -/
def add : JsNumber → JsNumber → JsNumber
  | nan, _ => nan
  | _, nan => nan
  | infinity a, infinity b => if a = b then infinity a else nan
  | infinity a, _ => infinity a
  | _, infinity b => infinity b
  | negZero, negZero => negZero
  | negZero, finite q h => finite q h
  | finite q h, negZero => finite q h
  | finite p _, finite q _ => ofRat (p + q) false

/-- `Math.trunc`. -/
def trunc : JsNumber → JsNumber
  | finite q _ => if q < 0 then ofRat ⌈q⌉ true else ofRat ⌊q⌋ false
  | n => n

/-- A representable value is the number nearest to itself. -/
theorem ofRat_of_representable {q : ℚ} (h : roundToDouble q = some q) :
    ofRat q false = finite q h := by
  unfold ofRat
  split
  · next hnone => simp [h] at hnone
  · next r hsome =>
    obtain rfl : q = r := by simpa [h] using hsome
    simp

/-- Natural numbers below `2 ^ 53` are numbers with their own value. -/
theorem ofNat_eq {n : ℕ} (h : n < 2 ^ 53) : ofNat n = finite n (roundToDouble_natCast h) :=
  ofRat_of_representable _

/-- Natural numbers have no fraction to drop. -/
@[simp] theorem trunc_ofNat (n : ℕ) : (ofNat n).trunc = ofNat n := by
  unfold ofNat ofRat
  split
  · rfl
  · next r hround =>
    obtain ⟨m, rfl⟩ := exists_nat_of_roundToDouble_natCast hround
    have hnonneg : ¬(m : ℚ) < 0 := not_lt.mpr m.cast_nonneg
    simp only [Bool.false_eq_true, and_false, if_false, trunc, if_neg hnonneg, Int.floor_natCast,
      Int.cast_natCast]
    exact ofRat_of_representable _

/-- Natural numbers are not negative. -/
theorem max_zero_ofNat (n : ℕ) : (ofNat 0).max (ofNat n) = ofNat n := by
  rw [ofNat_eq (by norm_num : 0 < 2 ^ 53)]
  unfold ofNat ofRat
  split
  · have hnonneg : ¬(n : ℚ) < 0 := not_lt.mpr n.cast_nonneg
    simp [JsNumber.max, lt, hnonneg]
  · next r hround =>
    obtain ⟨m, rfl⟩ := exists_nat_of_roundToDouble_natCast hround
    rcases Nat.eq_zero_or_pos m with rfl | hpos
    · simp [JsNumber.max, lt]
    · simp [JsNumber.max, lt, hpos]

/-- Below `2 ^ 53` different natural numbers are different numbers. -/
theorem ofNat_inj {m n : ℕ} (hm : m < 2 ^ 53) (hn : n < 2 ^ 53) : ofNat m = ofNat n ↔ m = n := by
  rw [ofNat_eq hm, ofNat_eq hn]
  simp

/-- Adding counters is exact below the precision limit. -/
theorem add_ofNat {m n : ℕ} (h : m + n < 2 ^ 53) : add (ofNat m) (ofNat n) = ofNat (m + n) := by
  rw [ofNat_eq (by omega : m < 2 ^ 53), ofNat_eq (by omega : n < 2 ^ 53)]
  simp [add, ofNat]

theorem add_one {n : ℕ} (h : n + 1 < 2 ^ 53) : add (ofNat n) (ofNat 1) = ofNat (n + 1) :=
  add_ofNat h

@[simp] theorem isFinite_ofNat {n : ℕ} (h : n < 2 ^ 53) : (ofNat n).isFinite = true := by
  rw [ofNat_eq h]
  rfl

@[simp] theorem dropZeroSign_dropZeroSign (n : JsNumber) :
    n.dropZeroSign.dropZeroSign = n.dropZeroSign := by
  cases n with
  | negZero =>
    simp only [dropZeroSign]
    rw [ofNat_eq (by norm_num)]
  | _ => rfl

/-- A natural number carries no negative zero. -/
theorem dropZeroSign_ofNat {n : ℕ} (h : n < 2 ^ 53) : (ofNat n).dropZeroSign = ofNat n := by
  rw [ofNat_eq h]
  rfl

/-- `===` against a counter is equality with it. -/
theorem strictEq_ofNat {a : JsNumber} {n : ℕ} (h : n < 2 ^ 53) :
    a.strictEq (ofNat n) = true ↔ a.dropZeroSign = ofNat n := by
  rw [strictEq, dropZeroSign_ofNat h, Bool.and_eq_true, decide_eq_true_eq, decide_eq_true_eq]
  constructor
  · exact And.right
  · intro heq
    refine ⟨?_, heq⟩
    rintro rfl
    rw [ofNat_eq h] at heq
    simp [dropZeroSign] at heq

end JsNumber

end Ecma
