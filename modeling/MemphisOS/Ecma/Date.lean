import MemphisOS.Ecma.Numerals

/-!
# Dates

The ISO 8601 rendering of a time value in milliseconds since the epoch.
-/

namespace Ecma

/-- `TimeClip`: the integer part of a time within `8.64e15` of the epoch. -/
def timeClip (t : JsNumber) : Option ℤ :=
  match t.toRat? with
  | some q => if |q| ≤ 8640000000000000 then some (if q < 0 then ⌈q⌉ else ⌊q⌋) else none
  | none => none

/-- Year, month and day of a day counted from the epoch, in the Gregorian calendar. -/
def civilOfDay (day : ℤ) : ℤ × ℕ × ℕ :=
  let z := day + 719468
  let era := z / 146097
  let doe := (z % 146097).toNat
  let yoe := (doe - doe / 1460 + doe / 36524 - doe / 146096) / 365
  let doy := doe - (365 * yoe + yoe / 4 - yoe / 100)
  let mp := (5 * doy + 2) / 153
  let month := if mp < 10 then mp + 3 else mp - 9
  (yoe + era * 400 + if month ≤ 2 then 1 else 0, month, doy - (153 * mp + 2) / 5 + 1)

/-- A year with four digits, or with a sign and six. -/
def yearText (year : ℤ) : Text :=
  if 0 ≤ year ∧ year ≤ 9999 then padStart 4 year.toNat
  else (if year < 0 then '-' else '+') :: padStart 6 year.natAbs

/-- The text of an integral time value. -/
def isoText (t : ℤ) : Text :=
  let (year, month, day) := civilOfDay (t / 86400000)
  let ms := (t % 86400000).toNat
  yearText year ++ '-' :: padStart 2 month ++ '-' :: padStart 2 day ++ 'T' ::
    padStart 2 (ms / 3600000) ++ ':' :: padStart 2 (ms / 60000 % 60) ++ ':' ::
    padStart 2 (ms / 1000 % 60) ++ '.' :: padStart 3 (ms % 1000) ++ ['Z']

/-- `new Date(t).toISOString()`; `none` when it throws a `RangeError`. -/
def toISOString (t : JsNumber) : Option Text := (timeClip t).map isoText

example : isoText 1000 = "1970-01-01T00:00:01.000Z".toList := by decide

example : isoText 1773003600123 = "2026-03-08T21:00:00.123Z".toList := by decide

/-! ## Reading dates -/

/-- The day, counted from the epoch, of a date in the Gregorian calendar. -/
def dayOfCivil (year : ℤ) (month day : ℕ) : ℤ :=
  let y := if month ≤ 2 then year - 1 else year
  let yoe := (y % 400).toNat
  let mp := if month ≤ 2 then month + 9 else month - 3
  let doy := (153 * mp + 2) / 5 + day - 1
  y / 400 * 146097 + ((365 * yoe + yoe / 4 - yoe / 100 + doy : ℕ) : ℤ) - 719468

/-- A number of so many digits. -/
def readDigits (width : ℕ) (t : Text) : Option (ℕ × Text) :=
  if (t.take width).length = width ∧ (t.take width).all Char.isDigit then
    some (digitsValue (t.take width), t.drop width)
  else none

def readIsoChar (c : Char) : Text → Option Text
  | [] => none
  | d :: t => if d = c then some t else none

def readIsoYear (t : Text) : Option (ℤ × Text) :=
  if t.head? = some '+' then (readDigits 6 t.tail).map fun r => ((r.1 : ℤ), r.2)
  else if t.head? = some '-' then (readDigits 6 t.tail).map fun r => (-(r.1 : ℤ), r.2)
  else (readDigits 4 t).map fun r => ((r.1 : ℤ), r.2)

/-- The time value of a date and time of day in milliseconds. -/
def readIso (t : Text) : Option ℤ := do
  let (year, t) ← readIsoYear t
  let t ← readIsoChar '-' t
  let (month, t) ← readDigits 2 t
  let t ← readIsoChar '-' t
  let (day, t) ← readDigits 2 t
  let t ← readIsoChar 'T' t
  let (hour, t) ← readDigits 2 t
  let t ← readIsoChar ':' t
  let (minute, t) ← readDigits 2 t
  let t ← readIsoChar ':' t
  let (second, t) ← readDigits 2 t
  let t ← readIsoChar '.' t
  let (ms, t) ← readDigits 3 t
  if t = ['Z'] then
    some (dayOfCivil year month day * 86400000 +
      ((hour * 3600000 + minute * 60000 + second * 1000 + ms : ℕ) : ℤ))
  else none

/-- `Date.parse` of the texts `toISOString` gives. -/
def parseIso (t : Text) : Option ℤ := (readIso t).filter fun time => isoText time = t

/-- The year of an era a day of it falls in, and the days of the era before that year. -/
theorem yearOfEra {doe : ℕ} (h : doe < 146097) :
    let yoe := (doe - doe / 1460 + doe / 36524 - doe / 146096) / 365
    yoe < 400 ∧ 365 * yoe + yoe / 4 - yoe / 100 ≤ doe ∧
      doe ≤ 365 * yoe + yoe / 4 - yoe / 100 + 365 := by
  intro yoe
  by_cases hlast : doe = 146096
  · subst hlast
    decide
  · -- centuries, blocks of four years and days of a block
    obtain ⟨c, q, r, hdoe, hc, hq, hr⟩ : ∃ c q r, doe = 36524 * c + 1461 * q + r ∧ c ≤ 3 ∧
        1461 * q + r < 36524 ∧ r < 1461 :=
      ⟨doe / 36524, doe % 36524 / 1461, doe % 36524 % 1461, by omega, by omega, by omega, by omega⟩
    have hleap : doe / 1460 = 25 * c + q + (24 * c + q + r) / 1460 := by omega
    have hcentury : doe / 36524 = c := by omega
    have hera : doe / 146096 = 0 := by omega
    have hyear : yoe = 100 * c + 4 * q + (r - (24 * c + q + r) / 1460) / 365 := by omega
    have hs : (r - (24 * c + q + r) / 1460) / 365 ≤ 3 := by omega
    generalize hvalue : (r - (24 * c + q + r) / 1460) / 365 = s at hyear hs
    have hfour : yoe / 4 = 25 * c + q := by omega
    have hhundred : yoe / 100 = c := by omega
    omega

/-- The month and the day of a day of the year. -/
theorem monthOfYear {doy : ℕ} (h : doy ≤ 365) :
    let mp := (5 * doy + 2) / 153
    mp ≤ 11 ∧ (153 * mp + 2) / 5 ≤ doy ∧ doy < (153 * mp + 2) / 5 + 31 := by
  intro mp
  omega

/-- **The date of a day is that day.** -/
theorem dayOfCivil_civilOfDay (day : ℤ) :
    dayOfCivil (civilOfDay day).1 (civilOfDay day).2.1 (civilOfDay day).2.2 = day := by
  have hdoe : ((day + 719468) % 146097).toNat < 146097 := by omega
  obtain ⟨hyoe, hbefore, hafter⟩ := yearOfEra hdoe
  rw [civilOfDay]
  dsimp only
  have hz : day + 719468 = (day + 719468) / 146097 * 146097 +
      (((day + 719468) % 146097).toNat : ℤ) := by omega
  generalize ((day + 719468) % 146097).toNat = doe at *
  generalize (day + 719468) / 146097 = era at *
  generalize (doe - doe / 1460 + doe / 36524 - doe / 146096) / 365 = yoe at *
  obtain ⟨hmp, hlow, -⟩ := @monthOfYear (doe - (365 * yoe + yoe / 4 - yoe / 100)) (by omega)
  generalize hdoy : doe - (365 * yoe + yoe / 4 - yoe / 100) = doy at *
  generalize (5 * doy + 2) / 153 = mp at *
  by_cases hmonth : mp < 10
  · rw [if_pos hmonth, dayOfCivil, if_neg (by omega), if_neg (by omega), if_neg (by omega)]
    have hdiv : (yoe + era * 400 + 0 : ℤ) / 400 = era := by omega
    have hmod : ((yoe + era * 400 + 0 : ℤ) % 400).toNat = yoe := by omega
    rw [hdiv, hmod]
    omega
  · rw [if_neg hmonth, dayOfCivil, if_pos (by omega), if_pos (by omega), if_pos (by omega)]
    have hdiv : (yoe + era * 400 + 1 - 1 : ℤ) / 400 = era := by omega
    have hmod : ((yoe + era * 400 + 1 - 1 : ℤ) % 400).toNat = yoe := by omega
    rw [hdiv, hmod]
    omega

theorem isDigit_padStart {width n : ℕ} : ∀ c ∈ padStart width n, c.isDigit = true := by
  intro c hc
  rcases List.mem_append.mp hc with hzero | hdigit
  · rw [List.eq_of_mem_replicate hzero]
    decide
  · exact digits_isDigit hdigit

theorem length_padStart {width n : ℕ} (h : n < 10 ^ width) (hwidth : 0 < width) :
    (padStart width n).length = width := by
  have hle : (digits n).length ≤ width := (Nat.length_toDigits_le_iff (by decide) hwidth).mpr h
  rw [padStart, List.length_append, List.length_replicate]
  omega

/-- A padded number is read back. -/
theorem readDigits_padStart {width n : ℕ} (h : n < 10 ^ width) (hwidth : 0 < width) (t : Text) :
    readDigits width (padStart width n ++ t) = some (n, t) := by
  have hlength := length_padStart h hwidth
  have htake : (padStart width n ++ t).take width = padStart width n := List.take_left' hlength
  have hdrop : (padStart width n ++ t).drop width = t := List.drop_left' hlength
  have hvalue : digitsValue (padStart width n) = n := by
    rw [digitsValue, padStart, Nat.ofDigitChars_append, Nat.ofDigitChars_replicate_zero,
      Nat.mul_zero]
    exact digitsValue_digits n
  rw [readDigits, htake, hdrop, hvalue, if_pos ⟨hlength, List.all_eq_true.mpr isDigit_padStart⟩]

theorem readIsoChar_self (c : Char) (t : Text) : readIsoChar c (c :: t) = some t := if_pos rfl

/-- A year is read back. -/
theorem readIsoYear_yearText {year : ℤ} (h : year.natAbs < 10 ^ 6) (t : Text) :
    readIsoYear (yearText year ++ t) = some (year, t) := by
  rw [yearText]
  by_cases hshort : 0 ≤ year ∧ year ≤ 9999
  · have hlt : year.toNat < 10 ^ 4 := by omega
    have hlength := length_padStart hlt (by decide)
    have hcast : ((year.toNat : ℕ) : ℤ) = year := Int.toNat_of_nonneg hshort.1
    rw [if_pos hshort, readIsoYear]
    cases hpad : padStart 4 year.toNat with
    | nil =>
      rw [hpad] at hlength
      cases hlength
    | cons c ds =>
      have hdigit : c.isDigit = true := isDigit_padStart c (hpad ▸ List.mem_cons_self)
      rw [List.cons_append, List.head?_cons, ← List.cons_append, ← hpad, if_neg, if_neg,
        readDigits_padStart hlt (by decide), Option.map_some, hcast]
      · intro hminus
        rw [Option.some.inj hminus] at hdigit
        cases hdigit
      · intro hplus
        rw [Option.some.inj hplus] at hdigit
        cases hdigit
  · rw [if_neg hshort, readIsoYear, List.cons_append, List.head?_cons, List.tail_cons,
      readDigits_padStart h (by decide)]
    by_cases hneg : year < 0
    · rw [if_pos hneg, if_neg (by decide), if_pos rfl, Option.map_some]
      exact congrArg (fun y => some (y, t)) (by omega)
    · rw [if_neg hneg, if_pos rfl, Option.map_some]
      exact congrArg (fun y => some (y, t)) (by omega)

/-- The parts of a date have two digits, and its year no more than six. -/
theorem civilOfDay_bounds {day : ℤ} (h : |day| ≤ 100000000) :
    (civilOfDay day).1.natAbs < 10 ^ 6 ∧ (civilOfDay day).2.1 < 10 ^ 2 ∧
      (civilOfDay day).2.2 < 10 ^ 2 := by
  have hdoe : ((day + 719468) % 146097).toNat < 146097 := by omega
  obtain ⟨hyoe, hbefore, hafter⟩ := yearOfEra hdoe
  obtain ⟨hlow, hhigh⟩ := abs_le.mp h
  rw [civilOfDay]
  dsimp only
  have hera : -700 ≤ (day + 719468) / 146097 ∧ (day + 719468) / 146097 ≤ 700 := by omega
  generalize ((day + 719468) % 146097).toNat = doe at *
  generalize (day + 719468) / 146097 = era at *
  generalize (doe - doe / 1460 + doe / 36524 - doe / 146096) / 365 = yoe at *
  obtain ⟨hmp, hfirst, hlast⟩ := @monthOfYear (doe - (365 * yoe + yoe / 4 - yoe / 100)) (by omega)
  generalize doe - (365 * yoe + yoe / 4 - yoe / 100) = doy at *
  generalize (5 * doy + 2) / 153 = mp at *
  refine ⟨?_, ?_, ?_⟩
  · split <;> omega
  · split <;> omega
  · omega

/-- **The text of a time is read back.** -/
theorem parseIso_isoText {t : ℤ} (h : |t| ≤ 8640000000000000) : parseIso (isoText t) = some t := by
  obtain ⟨hlow, hhigh⟩ := abs_le.mp h
  have hday : |t / 86400000| ≤ 100000000 := abs_le.mpr ⟨by omega, by omega⟩
  obtain ⟨hyear, hmonth, hdate⟩ := civilOfDay_bounds hday
  have hms : (t % 86400000).toNat < 86400000 := by omega
  have hread : readIso (isoText t) = some t := by
    rw [isoText]
    dsimp only
    simp only [List.append_assoc, List.cons_append]
    rw [readIso, readIsoYear_yearText hyear]
    simp only [Option.bind_eq_bind, Option.bind_some, readIsoChar_self]
    rw [readDigits_padStart hmonth (by decide)]
    simp only [Option.bind_some, readIsoChar_self]
    rw [readDigits_padStart hdate (by decide)]
    simp only [Option.bind_some, readIsoChar_self]
    rw [readDigits_padStart (by omega) (by decide)]
    simp only [Option.bind_some, readIsoChar_self]
    rw [readDigits_padStart (by omega) (by decide)]
    simp only [Option.bind_some, readIsoChar_self]
    rw [readDigits_padStart (by omega) (by decide)]
    simp only [Option.bind_some, readIsoChar_self]
    rw [readDigits_padStart (by omega) (by decide)]
    simp only [Option.bind_some, if_true, dayOfCivil_civilOfDay]
    refine congrArg some ?_
    omega
  rw [parseIso, hread, Option.filter_some, if_pos (decide_eq_true rfl)]

end Ecma
