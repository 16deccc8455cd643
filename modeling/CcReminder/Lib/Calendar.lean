import Mathlib.Order.Basic
import Mathlib.Tactic.Ring

/-!
# The Gregorian calendar

Dates of the proleptic Gregorian calendar and the number of days since the first day of 1970. The number
of a date is increasing in year, month and day, and every number is that of one date.
-/

set_option autoImplicit true

namespace CcReminder.Lib

def isLeapYear (y : Int) : Bool := y % 4 = 0 ∧ (y % 100 ≠ 0 ∨ y % 400 = 0)

/-- The days of the years from 0 to before `y`. -/
def daysBeforeYear (y : Int) : Int := 365 * y + (y + 3) / 4 - (y + 99) / 100 + (y + 399) / 400

/-- The days of a year before each of its months. -/
def monthStarts (leap : Bool) : List Nat :=
  let extra := if leap then 1 else 0
  [0, 31, 59 + extra, 90 + extra, 120 + extra, 151 + extra, 181 + extra, 212 + extra, 243 + extra,
    273 + extra, 304 + extra, 334 + extra]

def yearLength (leap : Bool) : Nat := if leap then 366 else 365

/-- A date: the month counts from 1, and so does the day. -/
@[ext] structure Date where
  year : Int
  month : Nat
  day : Nat
  deriving DecidableEq

namespace Date

/-- The day of the year, from 0. -/
def dayOfYear (d : Date) : Nat := (monthStarts (isLeapYear d.year)).getD (d.month - 1) 0 + (d.day - 1)

/-- The day of the first of January 1970 is 719528 days after that of the year 0. -/
def dayNumber (d : Date) : Int := daysBeforeYear d.year + d.dayOfYear - 719528

/-- The year that a day lies in, counted from the first of January of the year 0. The guess is at most one
year off. -/
def yearOf (n : Int) : Int :=
  let guess := n * 400 / 146097
  if n < daysBeforeYear guess then guess - 1
  else if daysBeforeYear (guess + 1) ≤ n then guess + 1
  else guess

/-- The month that a day of the year lies in. -/
def monthOf (leap : Bool) (o : Nat) : Nat := (monthStarts leap).countP (· ≤ o)

def ofDayNumber (n : Int) : Date :=
  let year := yearOf (n + 719528)
  let o := (n + 719528 - daysBeforeYear year).toNat
  let leap := isLeapYear year
  let month := monthOf leap o
  { year, month, day := o - (monthStarts leap).getD (month - 1) 0 + 1 }

end Date

/-! ## Years -/

@[simp] theorem yearLength_true : yearLength true = 366 := rfl

@[simp] theorem yearLength_false : yearLength false = 365 := rfl

theorem isLeapYear_iff (y : Int) : isLeapYear y = true ↔ y % 4 = 0 ∧ (y % 100 ≠ 0 ∨ y % 400 = 0) := by
  simp [isLeapYear]

theorem daysBeforeYear_succ (y : Int) :
    daysBeforeYear (y + 1) = daysBeforeYear y + yearLength (isLeapYear y) := by
  cases hleap : isLeapYear y with
  | true =>
    rw [isLeapYear_iff] at hleap
    simp only [daysBeforeYear, yearLength_true]
    omega
  | false =>
    rw [← Bool.not_eq_true, isLeapYear_iff] at hleap
    simp only [daysBeforeYear, yearLength_false]
    omega

theorem daysBeforeYear_lt {y y' : Int} (h : y < y') : daysBeforeYear y < daysBeforeYear y' := by
  simp only [daysBeforeYear]
  omega

/-- In 400 years there are 146097 days. -/
theorem daysBeforeYear_bounds (y : Int) :
    146097 * y - 396 ≤ 400 * daysBeforeYear y ∧ 400 * daysBeforeYear y ≤ 146097 * y + 699 := by
  simp only [daysBeforeYear]
  omega

namespace Date

/-- A day lies in its year. -/
theorem yearOf_spec (n : Int) : daysBeforeYear (yearOf n) ≤ n ∧ n < daysBeforeYear (yearOf n + 1) := by
  have hguess : ∃ guess, guess = n * 400 / 146097 := ⟨_, rfl⟩
  obtain ⟨guess, hguess⟩ := hguess
  have hlower : 146097 * guess ≤ 400 * n := by omega
  have hupper : 400 * n < 146097 * (guess + 1) := by omega
  simp only [yearOf, ← hguess]
  split
  · rename_i hbefore
    have hbounds := daysBeforeYear_bounds (guess - 1)
    rw [Int.sub_add_cancel]
    exact ⟨by omega, hbefore⟩
  · rename_i hfrom
    split
    · rename_i hnext
      have hbounds := daysBeforeYear_bounds (guess + 1 + 1)
      exact ⟨hnext, by omega⟩
    · rename_i hnext
      exact ⟨by omega, by omega⟩

/-! ## Months -/

theorem monthOf_spec (leap : Bool) : ∀ o < yearLength leap, 1 ≤ monthOf leap o ∧ monthOf leap o ≤ 12 ∧
    (monthStarts leap).getD (monthOf leap o - 1) 0 ≤ o ∧
      o - (monthStarts leap).getD (monthOf leap o - 1) 0 < 31 := by
  cases leap <;> decide +kernel

/-- A later month starts at or after the end of the one that the day lies in. -/
theorem monthOf_mono (leap : Bool) {o o' : Nat} (h : o ≤ o') : monthOf leap o ≤ monthOf leap o' :=
  List.countP_mono_left fun start _ hstart => by
    simp only [decide_eq_true_eq] at hstart ⊢
    omega

/-! ## Order -/

/-- What a day number says of its date. -/
theorem ofDayNumber_spec (n : Int) : ∃ o : Nat, o < yearLength (isLeapYear (ofDayNumber n).year) ∧
    n + 719528 = daysBeforeYear (ofDayNumber n).year + o ∧
    (ofDayNumber n).month = monthOf (isLeapYear (ofDayNumber n).year) o ∧
    (ofDayNumber n).day =
      o - (monthStarts (isLeapYear (ofDayNumber n).year)).getD ((ofDayNumber n).month - 1) 0 + 1 := by
  obtain ⟨hlower, hupper⟩ := yearOf_spec (n + 719528)
  rw [daysBeforeYear_succ] at hupper
  refine ⟨(n + 719528 - daysBeforeYear (yearOf (n + 719528))).toNat, ?_, ?_, rfl, rfl⟩
  · change _ < yearLength (isLeapYear (yearOf (n + 719528)))
    omega
  · change _ = daysBeforeYear (yearOf (n + 719528)) + _
    omega

/-- **Round trip.** The number of the date with a number. -/
theorem dayNumber_ofDayNumber (n : Int) : (ofDayNumber n).dayNumber = n := by
  obtain ⟨o, hlt, hn, hmonth, hday⟩ := ofDayNumber_spec n
  have hspec := monthOf_spec _ o hlt
  rw [dayNumber, dayOfYear, hday, hmonth]
  omega

/-- Years, months and days in order. -/
def Before (d d' : Date) : Prop :=
  d.year < d'.year ∨ d.year = d'.year ∧ (d.month < d'.month ∨ d.month = d'.month ∧ d.day < d'.day)

/-- Of two days of a year the earlier one has the lower month, or the lower day in the same month. -/
theorem month_day_lt_iff {leap : Bool} {o o' : Nat} (ho : o < yearLength leap) (ho' : o' < yearLength leap) :
    (monthOf leap o < monthOf leap o' ∨ monthOf leap o = monthOf leap o' ∧
      o - (monthStarts leap).getD (monthOf leap o - 1) 0 + 1 <
        o' - (monthStarts leap).getD (monthOf leap o' - 1) 0 + 1) ↔ o < o' := by
  have hspec := monthOf_spec leap o ho
  have hspec' := monthOf_spec leap o' ho'
  constructor
  · rintro (hmonth | ⟨hmonth, hday⟩)
    · by_contra hle
      exact absurd (monthOf_mono leap (Nat.le_of_not_lt hle)) (by omega)
    · rw [hmonth] at hday hspec
      omega
  · intro hlt
    rcases (monthOf_mono leap hlt.le).lt_or_eq with hmonth | hmonth
    · exact .inl hmonth
    · refine .inr ⟨hmonth, ?_⟩
      rw [hmonth] at hspec ⊢
      omega

theorem before_ofDayNumber_iff (n n' : Int) : (ofDayNumber n).Before (ofDayNumber n') ↔ n < n' := by
  obtain ⟨o, hlt, hn, hmonth, hday⟩ := ofDayNumber_spec n
  obtain ⟨o', hlt', hn', hmonth', hday'⟩ := ofDayNumber_spec n'
  have hnext := daysBeforeYear_succ (ofDayNumber n).year
  have hnext' := daysBeforeYear_succ (ofDayNumber n').year
  generalize ofDayNumber n = d at *
  generalize ofDayNumber n' = d' at *
  rw [Before, hday, hday', hmonth, hmonth']
  rcases lt_trichotomy d.year d'.year with hyear | hyear | hyear
  · have hle : daysBeforeYear (d.year + 1) ≤ daysBeforeYear d'.year := by
      rcases (Int.add_one_le_iff.mpr hyear).lt_or_eq with hfar | hsame
      · exact (daysBeforeYear_lt hfar).le
      · rw [hsame]
    simp only [hyear, true_or, true_iff]
    omega
  · rw [hyear] at hlt hn ⊢
    rw [month_day_lt_iff hlt hlt']
    simp only [lt_irrefl, true_and, false_or]
    omega
  · have hle : daysBeforeYear (d'.year + 1) ≤ daysBeforeYear d.year := by
      rcases (Int.add_one_le_iff.mpr hyear).lt_or_eq with hfar | hsame
      · exact (daysBeforeYear_lt hfar).le
      · rw [hsame]
    simp only [hyear.not_gt, hyear.ne', false_and, or_false, false_iff]
    omega

theorem ofDayNumber_bounds (n : Int) : (ofDayNumber n).month ≤ 12 ∧ (ofDayNumber n).day ≤ 31 := by
  obtain ⟨o, hlt, -, hmonth, hday⟩ := ofDayNumber_spec n
  have hspec := monthOf_spec _ o hlt
  rw [hday, hmonth]
  omega

theorem ofDayNumber_injective {n n' : Int} (h : ofDayNumber n = ofDayNumber n') : n = n' := by
  rw [← dayNumber_ofDayNumber n, h, dayNumber_ofDayNumber]

example : ofDayNumber 19782 = { year := 2024, month := 2, day := 29 } := by decide +kernel

end Date

end CcReminder.Lib
