import MemphisOS.Ecma.NumberOrder

/-!
# Slices of arrays

The positions that `slice` makes of numbers, and the batches of a loop that takes slices of a fixed
size.
-/

namespace Ecma

variable {α : Type}

/-- The first position of `slice(start)`. -/
def relativeStart (start : JsNumber) (length : ℕ) : ℕ :=
  match start with
  | .finite q _ => if q < 0 then (length + ⌈q⌉).toNat else min ⌊q⌋.toNat length
  | .infinity false => length
  | _ => 0

/-- `slice(start)`. -/
def sliceFrom (start : JsNumber) (l : List α) : List α :=
  l.drop (relativeStart start l.length)

/-- `slice(start, end)`. -/
def slice (start stop : JsNumber) (l : List α) : List α :=
  (l.take (relativeStart stop l.length)).drop (relativeStart start l.length)

/-- The slices of `for (let offset = …; offset < length; offset += size)`. -/
def slicesFrom (size : JsNumber) (l : List α) : ℕ → JsNumber → List (List α)
  | 0, _ => []
  | fuel + 1, offset =>
    if offset.lt (.ofNat l.length) then
      slice offset (offset.add size) l :: slicesFrom size l fuel (offset.add size)
    else []

/-- The slices of a loop that starts at zero. -/
def slices (size : JsNumber) (l : List α) : List (List α) :=
  slicesFrom size l l.length (.ofNat 0)

/-! ## Numbers that are at least a natural number -/

/-- Rounding does not go below a value on the grid of the result. -/
theorem le_roundHalfEven_mul {q : ℚ} {u K : ℤ} (hK : (K : ℚ) * 2 ^ u ≤ q) :
    (K : ℚ) * 2 ^ u ≤ roundHalfEven (q / 2 ^ u) * (2 : ℚ) ^ u := by
  have hpos : (0 : ℚ) < 2 ^ u := zpow_pos (by norm_num) u
  have hfloor : K ≤ ⌊q / 2 ^ u⌋ := Int.le_floor.mpr ((le_div_iff₀ hpos).mpr hK)
  have hround : K ≤ roundHalfEven (q / 2 ^ u) := hfloor.trans (floor_le_roundHalfEven _).1
  exact mul_le_mul_of_nonneg_right (by exact_mod_cast hround) hpos.le

/-- Rounding does not go below a natural number. -/
theorem natCast_le_of_roundToDouble {n : ℕ} (hn : n < 2 ^ 53) {q r : ℚ} (hq : (n : ℚ) ≤ q)
    (h : roundToDouble q = some r) : (n : ℚ) ≤ r := by
  simp only [roundToDouble, Option.ite_none_right_eq_some, Option.some.injEq] at h
  obtain ⟨-, rfl⟩ := h
  set u := ulpExponent q with hu
  rcases le_or_gt u 0 with hle | hlt
  · -- The last bit of the result is worth at most one.
    have hscaled : (((n : ℤ) * 2 ^ (-u).toNat : ℤ) : ℚ) * 2 ^ u = n := by
      have hpow : (2 : ℚ) ^ (-u).toNat * 2 ^ u = 1 := by
        rw [← zpow_natCast, Int.toNat_of_nonneg (by omega), ← zpow_add₀ (by norm_num),
          neg_add_cancel, zpow_zero]
      push_cast
      rw [mul_assoc, hpow, mul_one]
    exact hscaled.symm.trans_le (le_roundHalfEven_mul (hscaled.trans_le hq))
  · -- The value is beyond the precision limit.
    have hlog : Int.log 2 |q| = u + 52 := by
      rw [hu, ulpExponent] at hlt ⊢
      omega
    have hqpos : 0 < q := by
      refine lt_of_le_of_ne (n.cast_nonneg.trans hq) ?_
      rintro rfl
      rw [abs_zero, Int.log_zero_right] at hlog
      omega
    have hvalue : ((2 ^ 52 : ℤ) : ℚ) * 2 ^ u ≤ q := by
      have hself := Int.zpow_log_le_self (b := 2) (by norm_num) hqpos
      rw [abs_of_pos hqpos] at hlog
      rw [hlog, zpow_add₀ (by norm_num), mul_comm] at hself
      exact_mod_cast hself
    refine le_trans ?_ (le_roundHalfEven_mul hvalue)
    have htwo : (2 : ℚ) ≤ 2 ^ u := by
      calc (2 : ℚ) = 2 ^ (1 : ℤ) := (zpow_one 2).symm
        _ ≤ 2 ^ u := zpow_le_zpow_right₀ (by norm_num) hlt
    calc (n : ℚ) ≤ 2 ^ 53 := by exact_mod_cast hn.le
      _ = ((2 ^ 52 : ℤ) : ℚ) * 2 := by norm_num
      _ ≤ ((2 ^ 52 : ℤ) : ℚ) * 2 ^ u := mul_le_mul_of_nonneg_left htwo (by norm_num)

namespace JsNumber

def AtLeast (n : ℕ) : JsNumber → Prop
  | nan => False
  | infinity negative => negative = false
  | negZero => n = 0
  | finite q _ => (n : ℚ) ≤ q

theorem atLeast_ofRat {n : ℕ} (hn : n < 2 ^ 53) {q : ℚ} (hq : (n : ℚ) ≤ q) :
    AtLeast n (ofRat q false) := by
  unfold ofRat
  split
  · exact decide_eq_false (not_lt.mpr (n.cast_nonneg.trans hq))
  · next r hround =>
    rw [if_neg (by simp)]
    exact natCast_le_of_roundToDouble hn hq hround

theorem AtLeast.mono {m n : ℕ} {x : JsNumber} (h : AtLeast n x) (hmn : m ≤ n) : AtLeast m x := by
  cases x with
  | nan => exact h
  | infinity negative => exact h
  | negZero => exact Nat.le_zero.mp (hmn.trans (Nat.le_of_eq h))
  | finite q _ => exact le_trans (by exact_mod_cast hmn) h

/-- A step of at least one leads at least one further. -/
theorem AtLeast.add_one {n : ℕ} (hn : n + 1 < 2 ^ 53) {x size : JsNumber} (hx : AtLeast n x)
    (hsize : AtLeast 1 size) : AtLeast (n + 1) (x.add size) := by
  cases x with
  | nan => exact hx
  | infinity negative =>
    obtain rfl : negative = false := hx
    cases size with
    | nan => exact hsize
    | infinity negative =>
      obtain rfl : negative = false := hsize
      rfl
    | negZero => rfl
    | finite q _ => rfl
  | negZero =>
    obtain rfl : n = 0 := hx
    cases size with
    | nan => exact hsize
    | infinity negative => exact hsize
    | negZero => exact hsize
    | finite q _ => exact hsize
  | finite p _ =>
    cases size with
    | nan => exact hsize
    | infinity negative => exact hsize
    | negZero => cases hsize
    | finite q _ =>
      refine atLeast_ofRat hn ?_
      push_cast
      exact add_le_add hx (by exact_mod_cast hsize)

theorem AtLeast.relativeStart {n : ℕ} {x : JsNumber} (hx : AtLeast n x) (length : ℕ) :
    min n length ≤ Ecma.relativeStart x length := by
  cases x with
  | nan => exact hx.elim
  | infinity negative =>
    obtain rfl : negative = false := hx
    exact min_le_right n length
  | negZero =>
    obtain rfl : n = 0 := hx
    exact (min_le_left 0 length).trans (Nat.zero_le _)
  | finite q _ =>
    have hnonneg : ¬ q < 0 := not_lt.mpr (n.cast_nonneg.trans hx)
    have hfloor : n ≤ ⌊q⌋.toNat := by
      have hle : (n : ℤ) ≤ ⌊q⌋ := Int.le_floor.mpr (by exact_mod_cast hx)
      omega
    rw [Ecma.relativeStart, if_neg hnonneg]
    exact min_le_min_right length hfloor

/-- A number below a length is a position in front of the end. -/
theorem AtLeast.of_lt {x : JsNumber} {length : ℕ} (hlength : length < 2 ^ 53) (hx : AtLeast 0 x)
    (h : x.lt (.ofNat length) = true) :
    AtLeast (Ecma.relativeStart x length) x ∧ Ecma.relativeStart x length < length := by
  rw [ofNat_eq hlength] at h
  cases x with
  | nan => cases h
  | infinity negative =>
    obtain rfl : negative = false := hx
    cases h
  | negZero =>
    refine ⟨rfl, ?_⟩
    have hpos : (0 : ℚ) < length := of_decide_eq_true h
    exact_mod_cast hpos
  | finite q hq =>
    have hnonneg : (0 : ℚ) ≤ q := by exact_mod_cast (show ((0 : ℕ) : ℚ) ≤ q from hx)
    have hlt : q < length := of_decide_eq_true h
    have hfloor : ⌊q⌋ < length := Int.floor_lt.mpr (by exact_mod_cast hlt)
    have hzero : 0 ≤ ⌊q⌋ := Int.floor_nonneg.mpr hnonneg
    have hstart : Ecma.relativeStart (.finite q hq) length = ⌊q⌋.toNat := by
      rw [Ecma.relativeStart, if_neg (not_lt.mpr hnonneg), min_eq_left (by omega)]
    rw [hstart]
    refine ⟨?_, by omega⟩
    have hcast : ((⌊q⌋.toNat : ℤ) : ℚ) = (⌊q⌋ : ℚ) := by rw [Int.toNat_of_nonneg hzero]
    have hle := Int.floor_le q
    rw [← hcast] at hle
    exact_mod_cast hle

theorem AtLeast.relativeStart_eq {x : JsNumber} {length : ℕ} (hlength : length < 2 ^ 53)
    (hx : AtLeast 0 x) (h : x.lt (.ofNat length) = false) :
    Ecma.relativeStart x length = length := by
  rw [ofNat_eq hlength] at h
  cases x with
  | nan => exact hx.elim
  | infinity negative =>
    obtain rfl : negative = false := hx
    rfl
  | negZero =>
    have hle : ¬ (0 : ℚ) < length := of_decide_eq_false h
    rw [Nat.cast_pos] at hle
    rw [Nat.eq_zero_of_not_pos hle]
    rfl
  | finite q hq =>
    have hle : (length : ℚ) ≤ q := not_lt.mp (of_decide_eq_false h)
    have hstart := AtLeast.relativeStart (x := .finite q hq) hle length
    rw [min_self] at hstart
    refine le_antisymm ?_ hstart
    rw [Ecma.relativeStart, if_neg (not_lt.mpr (length.cast_nonneg.trans hle))]
    exact min_le_right _ _

end JsNumber

theorem relativeStart_ofNat {n : ℕ} (hn : n < 2 ^ 53) (length : ℕ) :
    relativeStart (.ofNat n) length = min n length := by
  have hnonneg : ¬ ((n : ℕ) : ℚ) < 0 := not_lt.mpr n.cast_nonneg
  rw [JsNumber.ofNat_eq hn, relativeStart, if_neg hnonneg, Int.floor_natCast, Int.toNat_natCast]

/-! ## Loops over slices -/

variable {size : JsNumber} {l : List α}

theorem flatten_slicesFrom (hl : l.length < 2 ^ 53) (hsize : size.AtLeast 1) (fuel : ℕ)
    {offset : JsNumber} (hoffset : offset.AtLeast 0)
    (hfuel : l.length ≤ relativeStart offset l.length + fuel) :
    (slicesFrom size l fuel offset).flatten = l.drop (relativeStart offset l.length) := by
  induction fuel generalizing offset with
  | zero => exact (List.drop_eq_nil_of_le hfuel).symm
  | succ fuel ih =>
    rw [slicesFrom]
    cases hlt : offset.lt (.ofNat l.length) with
    | false =>
      rw [hoffset.relativeStart_eq hl hlt, List.drop_length]
      rfl
    | true =>
      obtain ⟨hstart, hbefore⟩ := hoffset.of_lt hl hlt
      have hnext := hstart.add_one (by omega) hsize
      have hadvance := hnext.relativeStart l.length
      rw [min_eq_left (by omega)] at hadvance
      rw [if_pos rfl, List.flatten_cons, ih (hnext.mono (Nat.zero_le _)) (by omega), slice,
        List.drop_take]
      have hsplit := List.take_append_drop
        (relativeStart (offset.add size) l.length - relativeStart offset l.length)
        (l.drop (relativeStart offset l.length))
      rw [List.drop_drop, Nat.add_sub_cancel' (by omega)] at hsplit
      exact hsplit

/-- **A loop over slices** of a size of at least one takes every item once, in order. -/
theorem flatten_slices (hl : l.length < 2 ^ 53) (hsize : size.AtLeast 1) :
    (slices size l).flatten = l := by
  have hstart : relativeStart (.ofNat 0) l.length = 0 := by
    rw [relativeStart_ofNat (by norm_num), Nat.zero_min]
  have hzero : (JsNumber.ofNat 0).AtLeast 0 := by
    rw [JsNumber.ofNat_eq (by norm_num)]
    exact le_refl _
  rw [slices, flatten_slicesFrom hl hsize l.length hzero (by omega), hstart, List.drop_zero]

/-! ## The last elements -/

namespace JsNumber

theorem roundToDouble_neg {q : ℚ} (h : roundToDouble q = some q) :
    roundToDouble (-q) = some (-q) := by
  have hexponent : ulpExponent (-q) = ulpExponent q := by rw [ulpExponent, ulpExponent, abs_neg]
  simp only [roundToDouble, Option.ite_none_right_eq_some, Option.some.injEq] at h
  obtain ⟨hlt, hround⟩ := h
  rw [hround] at hlt
  have hpos : (0 : ℚ) < 2 ^ ulpExponent q := zpow_pos (by norm_num) _
  have hquotient : q / 2 ^ ulpExponent q = (roundHalfEven (q / 2 ^ ulpExponent q) : ℤ) :=
    (div_eq_iff hpos.ne').mpr hround.symm
  have hnegated : roundHalfEven (-q / 2 ^ ulpExponent q) =
      -roundHalfEven (q / 2 ^ ulpExponent q) := by
    rw [neg_div, hquotient, ← Int.cast_neg, roundHalfEven_intCast, roundHalfEven_intCast]
  have hvalue : (roundHalfEven (-q / 2 ^ ulpExponent q) : ℚ) * 2 ^ ulpExponent q = -q := by
    rw [hnegated, Int.cast_neg, neg_mul, hround]
  simp only [roundToDouble, hexponent, hvalue, abs_neg, if_pos hlt]

theorem neg_finite {q : ℚ} (h : roundToDouble q = some q) (hne : q ≠ 0) :
    (finite q h).neg = finite (-q) (roundToDouble_neg h) := by
  rw [neg, ofRat]
  split
  · next hnone =>
    rw [roundToDouble_neg h] at hnone
    cases hnone
  · next r hsome =>
    obtain rfl : -q = r := by simpa [roundToDouble_neg h] using hsome
    rw [if_neg]
    exact fun hzero => hne (neg_eq_zero.mp hzero.1)

end JsNumber

/-- `slice(-Math.max(1, n))` keeps the last elements. -/
theorem relativeStart_neg_ofNat {n : ℕ} (hzero : 0 < n) (hn : n < 2 ^ 53) (length : ℕ) :
    relativeStart (JsNumber.ofNat n).neg length = length - n := by
  have hne : ((n : ℕ) : ℚ) ≠ 0 := Nat.cast_ne_zero.mpr hzero.ne'
  have hneg : -((n : ℕ) : ℚ) < 0 := neg_neg_of_pos (Nat.cast_pos.mpr hzero)
  rw [JsNumber.ofNat_eq hn, JsNumber.neg_finite _ hne, relativeStart, if_pos hneg, Int.ceil_neg,
    Int.floor_natCast]
  omega

/-- `slice(-Math.max(1, limit))` keeps the last element. -/
theorem relativeStart_neg_max (limit : JsNumber) {length : ℕ} (hlength : 0 < length) :
    relativeStart ((JsNumber.ofNat 1).max limit).neg length < length := by
  have hone : relativeStart (JsNumber.ofNat 1).neg length < length := by
    rw [relativeStart_neg_ofNat Nat.one_pos (by norm_num)]
    omega
  rw [JsNumber.max, JsNumber.ofNat_eq (by norm_num : 1 < 2 ^ 53)] at *
  cases limit with
  | nan => exact hlength
  | infinity negative =>
    cases negative with
    | false => exact hlength
    | true => exact hone
  | negZero => exact hone
  | finite q hq =>
    rw [if_neg (by simp), JsNumber.lt]
    split
    · rename_i hlt
      have hlt : ((1 : ℕ) : ℚ) < q := of_decide_eq_true hlt
      rw [Nat.cast_one] at hlt
      have hpos : 0 < q := one_pos.trans hlt
      have hfloor : 1 ≤ ⌊q⌋ := Int.le_floor.mpr (by exact_mod_cast hlt.le)
      rw [JsNumber.neg_finite _ hpos.ne', relativeStart, if_pos (neg_neg_of_pos hpos),
        Int.ceil_neg]
      omega
    · exact hone

/-- The elements that are kept are the last ones. -/
theorem sliceFrom_neg_max (limit : JsNumber) (l : List α) :
    sliceFrom ((JsNumber.ofNat 1).max limit).neg l <:+ l ∧
      (sliceFrom ((JsNumber.ofNat 1).max limit).neg l).getLast? = l.getLast? := by
  refine ⟨List.drop_suffix _ _, ?_⟩
  rcases l.eq_nil_or_concat' with rfl | ⟨init, last, rfl⟩
  · rw [sliceFrom, List.drop_nil]
  · have hstart := relativeStart_neg_max limit
      (show 0 < (init ++ [last]).length by rw [List.length_append]; exact Nat.succ_pos _)
    rw [sliceFrom, List.getLast?_drop, if_neg (by omega)]

end Ecma
