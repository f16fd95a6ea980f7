import MemphisOS.Ecma.Numbers
import Mathlib.Order.WithBot

/-!
# The order of numbers

The comparison operators on numbers other than `NaN` are those of a linear order.
-/

namespace Ecma.JsNumber

/-- `Number.isInteger`. -/
def isInteger : JsNumber → Bool
  | finite q _ => q.isInt
  | negZero => true
  | _ => false

/-- The place of a number in the order. -/
def rank : JsNumber → WithBot (WithTop ℚ)
  | nan => ⊥
  | infinity negative => if negative then ⊥ else ((⊤ : WithTop ℚ) : WithBot (WithTop ℚ))
  | negZero => ((0 : ℚ) : WithTop ℚ)
  | finite q _ => (q : WithTop ℚ)

/-- The unary operator `-` on numbers. -/
def neg : JsNumber → JsNumber
  | nan => nan
  | infinity negative => infinity !negative
  | negZero => ofNat 0
  | finite q _ => ofRat (-q) true

/-- The operator `-` on two numbers. -/
def sub (a b : JsNumber) : JsNumber := add a (neg b)

/-- The sign bit of a number other than `NaN`. -/
def isNegative : JsNumber → Bool
  | nan => false
  | infinity negative => negative
  | negZero => true
  | finite q _ => q < 0

/-- The operator `/` on two numbers. -/
def div (a b : JsNumber) : JsNumber :=
  let negative := a.isNegative != b.isNegative
  match a, b with
  | nan, _ => nan
  | _, nan => nan
  | infinity _, infinity _ => nan
  | infinity _, _ => infinity negative
  | _, infinity _ => if negative then negZero else ofNat 0
  | a, b =>
    let p := a.toRat?.getD 0
    let q := b.toRat?.getD 0
    if q ≠ 0 then ofRat (p / q) negative else if p = 0 then nan else infinity negative

variable {a b c : JsNumber}

theorem ofRat_ne_nan (q : ℚ) (negative : Bool) : ofRat q negative ≠ nan := by
  rw [ofRat]
  split
  · intro h
    cases h
  · split
    all_goals
      intro h
      cases h

theorem ne_nan_of_isInteger (h : a.isInteger = true) : a ≠ nan := by
  rintro rfl
  cases h

theorem lt_iff : lt a b = true ↔ a ≠ nan ∧ b ≠ nan ∧ a.rank < b.rank := by
  have htop : ∀ q : ℚ, ((q : WithTop ℚ) : WithBot (WithTop ℚ)) < ((⊤ : WithTop ℚ)) := fun q =>
    WithBot.coe_lt_coe.mpr (WithTop.coe_lt_top q)
  cases a with
  | nan => simp [lt]
  | infinity m =>
    cases b with
    | infinity n => cases m <;> cases n <;> simp [lt, rank]
    | _ => cases m <;> simp [lt, rank, WithBot.bot_lt_coe]
  | negZero =>
    cases b with
    | infinity n =>
      cases n with
      | true => simp [lt, rank]
      | false => simpa [lt, rank] using htop 0
    | _ => simp [lt, rank]
  | finite p hp =>
    cases b with
    | infinity n =>
      cases n with
      | true => simp [lt, rank]
      | false => simpa [lt, rank] using htop p
    | _ => simp [lt, rank]

theorem le_iff : le a b = true ↔ a ≠ nan ∧ b ≠ nan ∧ a.rank ≤ b.rank := by
  rw [le, Bool.and_eq_true, Bool.and_eq_true, decide_eq_true_eq, decide_eq_true_eq, and_assoc,
    Bool.not_eq_true', ← Bool.not_eq_true, lt_iff]
  constructor
  · rintro ⟨ha, hb, hnot⟩
    exact ⟨ha, hb, not_lt.mp fun hlt => hnot ⟨hb, ha, hlt⟩⟩
  · rintro ⟨ha, hb, hle⟩
    exact ⟨ha, hb, fun h => not_lt.mpr hle h.2.2⟩

theorem lt_ofNat {m n : ℕ} (hm : m < 2 ^ 53) (hn : n < 2 ^ 53) :
    lt (ofNat m) (ofNat n) = decide (m < n) := by
  rw [ofNat_eq hm, ofNat_eq hn, lt, decide_eq_decide, Nat.cast_lt]

theorem le_ofNat {m n : ℕ} (hm : m < 2 ^ 53) (hn : n < 2 ^ 53) :
    le (ofNat m) (ofNat n) = decide (m ≤ n) := by
  rw [le, lt_ofNat hn hm, ofNat_eq hm, ofNat_eq hn, ← decide_not]
  simp

theorem lt_trans (hab : lt a b = true) (hbc : lt b c = true) : lt a c = true := by
  rw [lt_iff] at *
  exact ⟨hab.1, hbc.2.1, hab.2.2.trans hbc.2.2⟩

/-- Numbers other than `NaN` are comparable. -/
theorem lt_of_not_le (ha : a ≠ nan) (hb : b ≠ nan) (h : le b a = false) : lt a b = true := by
  rw [← Bool.not_eq_true, le_iff] at h
  exact lt_iff.mpr ⟨ha, hb, not_le.mp fun hle => h ⟨hb, ha, hle⟩⟩

/-- One of two numbers other than `NaN` is at most the other. -/
theorem le_or_le (ha : a ≠ nan) (hb : b ≠ nan) : le a b = true ∨ le b a = true := by
  rw [le_iff, le_iff]
  rcases le_total a.rank b.rank with h | h
  · exact .inl ⟨ha, hb, h⟩
  · exact .inr ⟨hb, ha, h⟩

theorem roundToDouble_zero : roundToDouble 0 = some 0 :=
  mod_cast @roundToDouble_natCast 0 (by norm_num)

theorem dropZeroSign_negZero : negZero.dropZeroSign = finite 0 roundToDouble_zero :=
  mod_cast @ofNat_eq 0 (by norm_num)

@[simp] theorem rank_dropZeroSign (a : JsNumber) : a.dropZeroSign.rank = a.rank := by
  cases a with
  | negZero =>
    rw [dropZeroSign_negZero]
    rfl
  | _ => rfl

/-- Numbers with one place in the order differ in the sign of zero at most. -/
theorem dropZeroSign_eq_of_rank_eq (ha : a ≠ nan) (hb : b ≠ nan) (h : a.rank = b.rank) :
    a.dropZeroSign = b.dropZeroSign := by
  have hcoe : ∀ p q : ℚ, ((p : WithTop ℚ) : WithBot (WithTop ℚ)) = (q : WithTop ℚ) → p = q :=
    fun p q h => WithTop.coe_injective (WithBot.coe_injective h)
  have htop : ∀ q : ℚ, ((q : WithTop ℚ) : WithBot (WithTop ℚ)) ≠ ((⊤ : WithTop ℚ)) := fun q h =>
    WithTop.coe_ne_top (WithBot.coe_injective h)
  have hbot : ∀ q : WithTop ℚ, (q : WithBot (WithTop ℚ)) ≠ ⊥ := fun _ => WithBot.coe_ne_bot
  rw [← rank_dropZeroSign a, ← rank_dropZeroSign b] at h
  have hfinite : ∀ c : JsNumber, c ≠ nan →
      (∃ m, c.dropZeroSign = infinity m) ∨ ∃ q hq, c.dropZeroSign = finite q hq := by
    intro c hc
    cases c with
    | nan => exact absurd rfl hc
    | infinity m => exact .inl ⟨m, rfl⟩
    | negZero => exact .inr ⟨0, _, dropZeroSign_negZero⟩
    | finite q hq => exact .inr ⟨q, hq, rfl⟩
  rcases hfinite a ha with ⟨m, hm⟩ | ⟨p, hp, hpa⟩ <;> rcases hfinite b hb with ⟨n, hn⟩ | ⟨q, hq, hqb⟩
  · rw [hm, hn] at h ⊢
    cases m <;> cases n <;> simp_all [rank]
  · rw [hm, hqb] at h
    cases m
    · exact absurd h.symm (htop q)
    · exact absurd h.symm (hbot q)
  · rw [hpa, hn] at h
    cases n
    · exact absurd h (htop p)
    · exact absurd h (hbot p)
  · rw [hpa, hqb] at h ⊢
    obtain rfl := hcoe p q h
    rfl

/-- **Equality of numbers is equality of places.** -/
theorem strictEq_iff : strictEq a b = true ↔ a ≠ nan ∧ b ≠ nan ∧ a.rank = b.rank := by
  rw [strictEq, Bool.and_eq_true, decide_eq_true_eq, decide_eq_true_eq]
  constructor
  · rintro ⟨ha, heq⟩
    have hrank : a.rank = b.rank := by
      rw [← rank_dropZeroSign a, heq, rank_dropZeroSign]
    refine ⟨ha, ?_, hrank⟩
    rintro rfl
    cases a with
    | nan => exact ha rfl
    | negZero =>
      rw [dropZeroSign_negZero] at heq
      cases heq
    | _ => cases heq
  · rintro ⟨ha, hb, hrank⟩
    exact ⟨ha, dropZeroSign_eq_of_rank_eq ha hb hrank⟩

/-! ## Finite numbers -/

variable {p q r : ℚ}

theorem toRat?_eq_some (h : a.toRat? = some q) : a ≠ nan ∧ a.rank = (q : WithTop ℚ) := by
  cases a with
  | nan => cases h
  | infinity => cases h
  | negZero =>
    obtain rfl := Option.some.inj h
    exact ⟨nofun, rfl⟩
  | finite =>
    obtain rfl := Option.some.inj h
    exact ⟨nofun, rfl⟩

theorem toRat?_ofNat {n : ℕ} (h : n < 2 ^ 53) : (ofNat n).toRat? = some (n : ℚ) := by
  rw [ofNat_eq h]
  rfl

/-- A value that rounding leaves alone is kept. -/
theorem toRat?_ofRat (h : roundToDouble q = some q) (negative : Bool) :
    (ofRat q negative).toRat? = some q := by
  rw [ofRat]
  split
  · next hnone => exact absurd (h.symm.trans hnone) nofun
  · next r hround =>
    obtain rfl := Option.some.inj (hround.symm.trans h)
    split
    · next hzero => rw [hzero.1, toRat?]
    · rfl

theorem lt_of_toRat? (ha : a.toRat? = some p) (hb : b.toRat? = some q) :
    lt a b = decide (p < q) := by
  obtain ⟨hna, hra⟩ := toRat?_eq_some ha
  obtain ⟨hnb, hrb⟩ := toRat?_eq_some hb
  rw [Bool.eq_iff_iff, decide_eq_true_eq, lt_iff, hra, hrb, WithBot.coe_lt_coe, WithTop.coe_lt_coe]
  exact ⟨fun h => h.2.2, fun h => ⟨hna, hnb, h⟩⟩

theorem le_of_toRat? (ha : a.toRat? = some p) (hb : b.toRat? = some q) :
    le a b = decide (p ≤ q) := by
  obtain ⟨hna, hra⟩ := toRat?_eq_some ha
  obtain ⟨hnb, hrb⟩ := toRat?_eq_some hb
  rw [Bool.eq_iff_iff, decide_eq_true_eq, le_iff, hra, hrb, WithBot.coe_le_coe, WithTop.coe_le_coe]
  exact ⟨fun h => h.2.2, fun h => ⟨hna, hnb, h⟩⟩

/-- A quotient that rounding leaves alone is exact. -/
theorem toRat?_div (ha : a.toRat? = some p) (hb : b.toRat? = some q) (hq : q ≠ 0)
    (h : roundToDouble (p / q) = some (p / q)) : (a.div b).toRat? = some (p / q) := by
  have hnan : ∀ {c : JsNumber} {r : ℚ}, c.toRat? = some r →
      (∃ x hx, c = finite x hx) ∨ c = negZero := by
    intro c r hc
    cases c with
    | nan => cases hc
    | infinity => cases hc
    | negZero => exact .inr rfl
    | finite x hx => exact .inl ⟨x, hx, rfl⟩
  have hdiv : a.div b = ofRat (p / q) (a.isNegative != b.isNegative) := by
    rcases hnan ha with ⟨x, hx, rfl⟩ | rfl <;> rcases hnan hb with ⟨y, hy, rfl⟩ | rfl <;>
      obtain rfl := Option.some.inj ha <;> obtain rfl := Option.some.inj hb <;>
      exact if_pos hq
  rw [hdiv, toRat?_ofRat h]

end Ecma.JsNumber
