import Mathlib

/-!
# Dates of the Gregorian calendar

The calendar counts days: a date stands for the number of days before it.
-/

namespace Gregorian

/-- Leap years. -/
def isLeap (year : Nat) : Bool := year % 4 = 0 ∧ year % 100 ≠ 0 ∨ year % 400 = 0

/-- The days of a month, from `1` to `12`. -/
def monthLength (leap : Bool) : Nat → Nat
  | 2 => if leap then 29 else 28
  | 4 => 30
  | 6 => 30
  | 9 => 30
  | 11 => 30
  | _ => 31

/-- The days of a year before a month. -/
def daysBeforeMonth (leap : Bool) (month : Nat) : Nat :=
  ((List.range' 1 (month - 1)).map (monthLength leap)).sum

/-- The days before a year. -/
def daysBeforeYear : Nat → Nat
  | 0 => 0
  | year + 1 => daysBeforeYear year + if isLeap year then 366 else 365

/-- The days of the year before a date. -/
def yearDay (year month day : Nat) : Nat := daysBeforeMonth (isLeap year) month + (day - 1)

/-- The days before a date. -/
def dayNumber (year month day : Nat) : Nat := daysBeforeYear year + yearDay year month day

/-! ## Leap years -/

/-- The leap years before a year, the year zero included. -/
def leapYearsBefore (year : Nat) : Nat := (year + 3) / 4 - (year + 99) / 100 + (year + 399) / 400

theorem isLeap_iff {year : Nat} :
    isLeap year = true ↔ year % 4 = 0 ∧ year % 100 ≠ 0 ∨ year % 400 = 0 := by
  simp only [isLeap, decide_eq_true_iff]

/-- The numbers rounded up to a multiple: one more after a multiple. -/
theorem ceil_succ (year : Nat) {k : Nat} (hk : 0 < k) :
    (year + 1 + (k - 1)) / k = (year + (k - 1)) / k + if year % k = 0 then 1 else 0 := by
  rw [show year + 1 + (k - 1) = year + (k - 1) + 1 by omega, Nat.succ_div]
  have hdvd : k ∣ year + (k - 1) + 1 ↔ year % k = 0 := by
    rw [show year + (k - 1) + 1 = year + k by omega, Nat.dvd_add_self_right, Nat.dvd_iff_mod_eq_zero]
  simp only [hdvd]

theorem leapYearsBefore_succ (year : Nat) :
    leapYearsBefore (year + 1) = leapYearsBefore year + (isLeap year).toNat := by
  have h4 : (year + 1 + 3) / 4 = (year + 3) / 4 + if year % 4 = 0 then 1 else 0 :=
    ceil_succ year (k := 4) (by decide)
  have h100 : (year + 1 + 99) / 100 = (year + 99) / 100 + if year % 100 = 0 then 1 else 0 :=
    ceil_succ year (k := 100) (by decide)
  have h400 : (year + 1 + 399) / 400 = (year + 399) / 400 + if year % 400 = 0 then 1 else 0 :=
    ceil_succ year (k := 400) (by decide)
  have hle : (year + 99) / 100 ≤ (year + 3) / 4 := by omega
  have hof400 : year % 400 = 0 → year % 100 = 0 := by omega
  have hof100 : year % 100 = 0 → year % 4 = 0 := by omega
  simp only [leapYearsBefore, h4, h100, h400]
  generalize (year + 3) / 4 = by4, (year + 99) / 100 = by100, (year + 399) / 400 = by400 at hle
  clear h4 h100 h400
  by_cases hc4 : year % 4 = 0
  · by_cases hc100 : year % 100 = 0
    · by_cases hc400 : year % 400 = 0
      · rw [if_pos hc4, if_pos hc100, if_pos hc400, isLeap_iff.mpr (.inr hc400), Bool.toNat_true]
        omega
      · have hleap : isLeap year = false := by simp [isLeap, hc100, hc400]
        rw [if_pos hc4, if_pos hc100, if_neg hc400, hleap, Bool.toNat_false]
        omega
    · rw [if_pos hc4, if_neg hc100, if_neg (mt hof400 hc100),
        isLeap_iff.mpr (.inl ⟨hc4, hc100⟩), Bool.toNat_true]
      omega
  · have hc100 := mt hof100 hc4
    have hleap : isLeap year = false := by simp [isLeap, hc4, mt hof400 hc100]
    rw [if_neg hc4, if_neg hc100, if_neg (mt hof400 hc100), hleap, Bool.toNat_false]
    rfl

theorem daysBeforeYear_eq (year : Nat) : daysBeforeYear year = 365 * year + leapYearsBefore year := by
  induction year with
  | zero => rfl
  | succ year ih =>
    rw [daysBeforeYear, ih, leapYearsBefore_succ]
    cases isLeap year with
    | false =>
      simp only [Bool.false_eq_true, if_false, Bool.toNat_false]
      omega
    | true =>
      simp only [if_true, Bool.toNat_true]
      omega

theorem leapYearsBefore_mono {y y' : Nat} (h : y ≤ y') : leapYearsBefore y ≤ leapYearsBefore y' := by
  induction h with
  | refl => exact Nat.le_refl _
  | step _ ih =>
    rw [Nat.succ_eq_add_one, leapYearsBefore_succ]
    exact Nat.le_trans ih (Nat.le_add_right _ _)

theorem daysBeforeYear_mono {y y' : Nat} (h : y ≤ y') : daysBeforeYear y ≤ daysBeforeYear y' := by
  induction h with
  | refl => exact Nat.le_refl _
  | step _ ih => exact Nat.le_trans ih (Nat.le_add_right _ _)

/-! ## Months -/

/-- A month ends in the year. -/
theorem daysBeforeMonth_add_le (leap : Bool) {month : Nat} (hpos : 0 < month) (hle : month ≤ 12) :
    daysBeforeMonth leap month + monthLength leap month ≤ 365 + leap.toNat := by
  have hall : ∀ leap : Bool, ∀ month < 13, 0 < month →
      daysBeforeMonth leap month + monthLength leap month ≤ 365 + leap.toNat := by decide
  exact hall leap month (Nat.lt_succ_of_le hle) hpos

/-- A leap day moves the months behind February. -/
theorem daysBeforeMonth_true {month : Nat} (hle : month ≤ 12) :
    daysBeforeMonth true month = daysBeforeMonth false month + if 2 < month then 1 else 0 := by
  have hall : ∀ month < 13, daysBeforeMonth true month =
      daysBeforeMonth false month + if 2 < month then 1 else 0 := by decide
  exact hall month (Nat.lt_succ_of_le hle)

/-- A date is a day of its year. -/
theorem yearDay_lt {year month day : Nat} (hpos : 0 < month) (hle : month ≤ 12) (hday : 0 < day)
    (hlength : day ≤ monthLength (isLeap year) month) :
    yearDay year month day < 365 + (isLeap year).toNat := by
  have hmonth := daysBeforeMonth_add_le (isLeap year) hpos hle
  simp only [yearDay]
  omega

end Gregorian
