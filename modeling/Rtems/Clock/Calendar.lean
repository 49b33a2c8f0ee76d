import Rtems.Clock.Model

/-!
# The calendar

A time of day that `_TOD_Validate` accepts is a date of the Gregorian calendar.  `_TOD_To_seconds`
takes 2100 for a leap year and corrects the result, and `rtems_clock_get_tod` counts from 1970 on.
-/

namespace Rtems.Clock

open Gregorian

/-! ## Valid times of day -/

section

variable {microsecondsPerTick : Nat} {tod : TimeOfDay}

/-- What a time of day has to satisfy. -/
structure Valid (microsecondsPerTick : Nat) (tod : TimeOfDay) : Prop where
  ticks_lt : tod.ticks < 1000000 / microsecondsPerTick
  second_lt : tod.second < 60
  minute_lt : tod.minute < 60
  hour_lt : tod.hour < 24
  month_pos : 0 < tod.month
  month_le : tod.month ≤ 12
  le_year : 1988 ≤ tod.year
  day_pos : 0 < tod.day
  day_le : tod.day ≤ monthLength (isLeap tod.year) tod.month

/-- The table of the source. -/
theorem daysPerMonth_getD (leap : Bool) {month : Nat} (hpos : 0 < month) (hle : month ≤ 12) :
    (daysPerMonth leap).getD month 0 = monthLength leap month := by
  have hall : ∀ leap : Bool, ∀ month < 13, 0 < month →
      (daysPerMonth leap).getD month 0 = monthLength leap month := by decide
  exact hall leap month (Nat.lt_succ_of_le hle) hpos

theorem todValidate_iff : todValidate microsecondsPerTick tod = true ↔ Valid microsecondsPerTick tod := by
  simp only [todValidate]
  constructor
  · intro h
    split at h
    next => cases h
    next hfields =>
      simp only [not_or, Nat.not_le, Nat.not_lt] at hfields
      obtain ⟨hticks, hsecond, hminute, hhour, hmonth, hle, hyear, hday⟩ := hfields
      split at h
      next => cases h
      next hlength =>
        have hpos := Nat.pos_of_ne_zero hmonth
        rw [daysPerMonth_getD _ hpos hle, Nat.not_lt] at hlength
        exact ⟨hticks, hsecond, hminute, hhour, hpos, hle, hyear, Nat.pos_of_ne_zero hday, hlength⟩
  · intro h
    have hlength := h.day_le
    rw [if_neg, if_neg]
    · rw [daysPerMonth_getD _ h.month_pos h.month_le, Nat.not_lt]
      exact hlength
    · simp only [not_or, Nat.not_le, Nat.not_lt]
      exact ⟨h.ticks_lt, h.second_lt, h.minute_lt, h.hour_lt, Nat.ne_of_gt h.month_pos, h.month_le,
        h.le_year, Nat.ne_of_gt h.day_pos⟩

end

/-! ## Seconds of a date -/

/-- The seconds of the day before a time of day. -/
def TimeOfDay.secondOfDay (tod : TimeOfDay) : Nat := (tod.hour * 60 + tod.minute) * 60 + tod.second

/-- The seconds from the start of a year to a time of day. -/
def TimeOfDay.secondsSince (epoch : Nat) (tod : TimeOfDay) : Nat :=
  (dayNumber tod.year tod.month tod.day - daysBeforeYear epoch) * 86400 + tod.secondOfDay

section

variable {microsecondsPerTick : Nat} {tod : TimeOfDay}

theorem Valid.secondOfDay_lt (h : Valid microsecondsPerTick tod) : tod.secondOfDay < 86400 := by
  have hsecond := h.second_lt
  have hminute := h.minute_lt
  have hhour := h.hour_lt
  simp only [TimeOfDay.secondOfDay]
  omega

theorem Valid.yearDay_lt (h : Valid microsecondsPerTick tod) :
    yearDay tod.year tod.month tod.day < 365 + (isLeap tod.year).toNat :=
  Gregorian.yearDay_lt h.month_pos h.month_le h.day_pos h.day_le

/-- The days from the start of an epoch, counted by its leap years. -/
theorem dayNumber_sub {epoch year month day : Nat} (h : epoch ≤ year) :
    dayNumber year month day - daysBeforeYear epoch = 365 * (year - epoch) +
      (Gregorian.leapYearsBefore year - Gregorian.leapYearsBefore epoch) + yearDay year month day := by
  have hmono := leapYearsBefore_mono h
  simp only [dayNumber, daysBeforeYear_eq]
  omega

/-- From 1970 to 1988. -/
theorem secondsSince_1970 (h : Valid microsecondsPerTick tod) :
    tod.secondsSince 1970 = tod.secondsSince 1988 + seconds1970Through1988 := by
  have hmono : daysBeforeYear 1988 ≤ daysBeforeYear tod.year := daysBeforeYear_mono h.le_year
  have h1988 : daysBeforeYear 1988 = daysBeforeYear 1970 + 6574 := by
    rw [daysBeforeYear_eq, daysBeforeYear_eq]
    rfl
  simp only [TimeOfDay.secondsSince, dayNumber, seconds1970Through1988]
  omega

/-! ## The encoder -/

/-- The days that `_TOD_To_seconds` counts from 1988 on, with 2100 for a leap year. -/
def TimeOfDay.countedDays (tod : TimeOfDay) : Nat :=
  (tod.day - 1) + (daysToDate (tod.year % 4 = 0)).getD tod.month 0 +
    (tod.year - 1988) / 4 * 1461 + daysSinceLastLeapYear.getD (tod.year % 4) 0

/-- The table of the source. -/
theorem daysToDate_getD (leap : Bool) {month : Nat} (hpos : 0 < month) (hle : month ≤ 12) :
    (daysToDate leap).getD month 0 = daysBeforeMonth leap month := by
  have hall : ∀ leap : Bool, ∀ month < 13, 0 < month →
      (daysToDate leap).getD month 0 = daysBeforeMonth leap month := by decide
  exact hall leap month (Nat.lt_succ_of_le hle) hpos

theorem daysSinceLastLeapYear_getD {r : Nat} (hr : r < 4) :
    daysSinceLastLeapYear.getD r 0 = 365 * r + (r + 3) / 4 := by
  have hall : ∀ r < 4, daysSinceLastLeapYear.getD r 0 = 365 * r + (r + 3) / 4 := by decide
  exact hall r hr

/-- Whether a month is behind February of 2100. -/
def TimeOfDay.behind2100 (tod : TimeOfDay) : Bool :=
  2100 < tod.year ∨ tod.year = 2100 ∧ 2 < tod.month

/-- Until 2199, the only year that is taken for a leap year is 2100. -/
theorem isLeap_of_ne {year : Nat} (hyear : 1988 ≤ year) (hlt : year < 2200) (hne : year ≠ 2100) :
    isLeap year = decide (year % 4 = 0) := by
  rw [Bool.eq_iff_iff, isLeap_iff, decide_eq_true_iff]
  omega

/-- The leap years since 1988, one for four years but for 2100. -/
theorem leapYears_since_1988 {year : Nat} (hyear : 1988 ≤ year) (hlt : year < 2200) :
    Gregorian.leapYearsBefore year - Gregorian.leapYearsBefore 1988 =
      (year - 1988 + 3) / 4 - if 2100 < year then 1 else 0 := by
  simp only [Gregorian.leapYearsBefore]
  split <;> omega

/-- The days that are counted are those of the calendar, and one more behind February of 2100. -/
theorem Valid.countedDays (h : Valid microsecondsPerTick tod) (hlt : tod.year < 2200) :
    tod.countedDays = dayNumber tod.year tod.month tod.day - daysBeforeYear 1988 +
      tod.behind2100.toNat := by
  have hyear := h.le_year
  have hday := h.day_pos
  have hrest := daysSinceLastLeapYear_getD (Nat.mod_lt tod.year (by decide : 0 < 4))
  simp only [TimeOfDay.countedDays, daysToDate_getD _ h.month_pos h.month_le, hrest,
    dayNumber_sub hyear, leapYears_since_1988 hyear hlt, yearDay]
  by_cases h2100 : tod.year = 2100
  · have hfalse : isLeap 2100 = false := by decide
    have hmonth := daysBeforeMonth_true h.month_le
    rw [h2100, hfalse]
    simp only [TimeOfDay.behind2100, h2100]
    split at hmonth
    next hgt =>
      simp [hgt, hmonth]
      omega
    next hle =>
      simp [hle, hmonth]
      omega
  · rw [isLeap_of_ne hyear hlt h2100]
    simp only [TimeOfDay.behind2100, h2100]
    split
    next hgt =>
      simp [hgt]
      omega
    next hle =>
      simp [hle]
      omega

/-- The last hour of February of 2100. -/
def TimeOfDay.inLastHour (tod : TimeOfDay) : Prop :=
  tod.year = 2100 ∧ tod.month = 2 ∧ tod.day = 28 ∧ tod.hour = 23

instance (tod : TimeOfDay) : Decidable tod.inLastHour :=
  inferInstanceAs (Decidable (_ ∧ _))

/-- The days since 1988 until February of 2100 and behind it. -/
theorem Valid.days_cases (h : Valid microsecondsPerTick tod) (hlt : tod.year < 2200) :
    let days := dayNumber tod.year tod.month tod.day - daysBeforeYear 1988
    if tod.behind2100 then 40967 ≤ days
    else if tod.year = 2100 ∧ tod.month = 2 ∧ tod.day = 28 then days = 40966 else days < 40966 := by
  have hyear := h.le_year
  have hday := h.day_pos
  have hyearDay := h.yearDay_lt
  simp only [dayNumber_sub hyear, leapYears_since_1988 hyear hlt, TimeOfDay.behind2100]
  rcases Nat.lt_trichotomy tod.year 2100 with hbefore | h2100 | hbehind
  · have htoNat := Bool.toNat_le (isLeap tod.year)
    simp [Nat.not_lt_of_gt hbefore, Nat.ne_of_lt hbefore]
    omega
  · have hfalse : isLeap 2100 = false := by decide
    have hlength := h.day_le
    have hmonths : ∀ month < 13, 0 < month →
        (2 < month → 59 ≤ daysBeforeMonth false month) ∧
        (month = 2 → daysBeforeMonth false month = 31 ∧ monthLength false month = 28) ∧
        (month < 2 → daysBeforeMonth false month = 0 ∧ monthLength false month = 31) := by decide
    obtain ⟨hlarge, htwo, hone⟩ := hmonths tod.month (Nat.lt_succ_of_le h.month_le) h.month_pos
    rw [h2100, hfalse] at hlength
    simp only [h2100, yearDay, hfalse]
    rcases Nat.lt_trichotomy tod.month 2 with hlt2 | heq2 | hgt2
    · obtain ⟨hbefore, hmonth⟩ := hone hlt2
      simp [Nat.not_lt_of_gt hlt2, Nat.ne_of_lt hlt2]
      omega
    · obtain ⟨hbefore, hmonth⟩ := htwo heq2
      simp [heq2] at hbefore hmonth ⊢
      split <;> omega
    · have hdays := hlarge hgt2
      simp [hgt2]
      omega
  · simp [hbehind]
    omega

/-- The correction of the source is made behind February of 2100, and in its last hour. -/
theorem Valid.corrected_iff (h : Valid microsecondsPerTick tod) (hlt : tod.year < 2200) :
    secondsAt21000301 - seconds1970Through1988 ≤ tod.countedDays * 86400 + tod.secondOfDay ↔
      tod.behind2100 = true ∨ tod.inLastHour := by
  have hcases := h.days_cases hlt
  have hsecond := h.second_lt
  have hminute := h.minute_lt
  have hhour := h.hour_lt
  rw [h.countedDays hlt]
  simp only [secondsAt21000301, seconds1970Through1988, TimeOfDay.secondOfDay, TimeOfDay.inLastHour]
  cases hbehind : tod.behind2100 with
  | true =>
    simp only [hbehind, if_true] at hcases
    simp only [Bool.toNat_true, true_or, iff_true]
    omega
  | false =>
    simp only [hbehind, Bool.false_eq_true, if_false] at hcases
    simp only [Bool.toNat_false, Bool.false_eq_true, false_or]
    split at hcases <;> omega

/-- A valid time of day that `uint32_t` can hold is before 2200. -/
theorem Valid.year_lt (h : Valid microsecondsPerTick tod) (hrange : tod.secondsSince 1970 < 2 ^ 32) :
    tod.year < 2107 := by
  have hyear := h.le_year
  simp only [TimeOfDay.secondsSince] at hrange
  rw [dayNumber_sub (by omega)] at hrange
  omega

theorem u32_of_lt {n : Nat} (hlt : n < 2 ^ 32) : u32 n = n := Nat.mod_eq_of_lt hlt

/-- The correction, where nothing wraps. -/
theorem correction_eq {time threshold : Nat} (hthreshold : 86400 ≤ threshold) (hlt : time < 2 ^ 32) :
    (if time ≥ threshold then u32 (time + (2 ^ 32 - 86400)) else time) =
      time - if threshold ≤ time then 86400 else 0 := by
  by_cases hge : threshold ≤ time
  · rw [if_pos hge, if_pos hge]
    simp only [u32]
    omega
  · rw [if_neg hge, if_neg hge]
    rfl

/-- The encoder, where nothing wraps. -/
theorem Valid.todToSeconds_eq (h : Valid microsecondsPerTick tod) (hlt : tod.year < 2200)
    (hcounted : tod.countedDays * 86400 + tod.secondOfDay < 2 ^ 32) :
    todToSeconds tod = u32 (tod.countedDays * 86400 + tod.secondOfDay -
      (if secondsAt21000301 - seconds1970Through1988 ≤ tod.countedDays * 86400 + tod.secondOfDay
        then 86400 else 0) + seconds1970Through1988) := by
  have hyear := h.le_year
  have hday := h.day_pos
  have hsecond := h.second_lt
  have hminute := h.minute_lt
  have hhour := h.hour_lt
  obtain ⟨n, hn⟩ : ∃ n, n = tod.countedDays * 86400 + tod.secondOfDay := ⟨_, rfl⟩
  rw [← hn] at hcounted ⊢
  simp only [TimeOfDay.secondOfDay, TimeOfDay.countedDays] at hn
  have hthreshold : 86400 ≤ secondsAt21000301 - seconds1970Through1988 := by decide
  unfold todToSeconds
  generalize secondsAt21000301 - seconds1970Through1988 = threshold at hthreshold ⊢
  extract_lets yearMod4 days0 days1 days2 days3 seconds0 seconds1 seconds2 seconds3
  have hdays0 : days0 = tod.day - 1 := by
    simp only [days0, u32]
    omega
  have hbase : u32 (tod.year + (2 ^ 32 - 1988)) = tod.year - 1988 := by
    simp only [u32]
    omega
  have hminutes : u32 (tod.hour * 60 + tod.minute) = tod.hour * 60 + tod.minute :=
    Nat.mod_eq_of_lt (by omega)
  have hmod : yearMod4 = tod.year % 4 := rfl
  clear_value days0 yearMod4
  subst hmod
  have hdays1 : days1 = days0 + (daysToDate (decide (tod.year % 4 = 0))).getD tod.month 0 :=
    Nat.mod_eq_of_lt (by omega)
  clear_value days1
  have hdays2 : days2 = days1 + (tod.year - 1988) / 4 * 1461 := by
    rw [← hbase]
    exact Nat.mod_eq_of_lt (by omega)
  clear_value days2
  have hdays3 : days3 = days2 + daysSinceLastLeapYear.getD (tod.year % 4) 0 :=
    Nat.mod_eq_of_lt (by omega)
  clear_value days3
  have hseconds0 : seconds0 = days3 * 86400 := Nat.mod_eq_of_lt (by omega)
  clear_value seconds0
  have hseconds1 : seconds1 = seconds0 + (tod.hour * 60 + tod.minute) * 60 := by
    rw [← hminutes]
    exact Nat.mod_eq_of_lt (by omega)
  clear_value seconds1
  have hseconds2 : seconds2 = seconds1 + tod.second := Nat.mod_eq_of_lt (by omega)
  clear_value seconds2
  obtain rfl : seconds2 = n := by omega
  have hseconds3 : seconds3 = seconds2 - if threshold ≤ seconds2 then 86400 else 0 :=
    correction_eq hthreshold hcounted
  clear_value seconds3
  rw [hseconds3]

/-- `_TOD_To_seconds` loses a day in the last hour of February of 2100, and is exact elsewhere. -/
theorem Valid.todToSeconds_cases (h : Valid microsecondsPerTick tod)
    (hrange : tod.secondsSince 1970 < 2 ^ 32) :
    (tod.inLastHour → todToSeconds tod = tod.secondsSince 1970 - 86400) ∧
    (¬ tod.inLastHour → todToSeconds tod = tod.secondsSince 1970) := by
  have hlt : tod.year < 2200 := Nat.lt_trans (h.year_lt hrange) (by decide)
  have hcorrected := h.corrected_iff hlt
  have h1970 := secondsSince_1970 h
  have hbehind : tod.inLastHour → tod.behind2100 = false := by
    rintro ⟨hyear, hmonth, -⟩
    simp [TimeOfDay.behind2100, hyear, hmonth]
  have hcounted : tod.countedDays * 86400 + tod.secondOfDay =
      tod.secondsSince 1988 + tod.behind2100.toNat * 86400 := by
    rw [h.countedDays hlt, TimeOfDay.secondsSince, Nat.add_mul]
    omega
  have hbound : tod.countedDays * 86400 + tod.secondOfDay < 2 ^ 32 := by
    have htoNat := Bool.toNat_le tod.behind2100
    simp only [seconds1970Through1988] at h1970
    omega
  have hthreshold : 86400 ≤ secondsAt21000301 - seconds1970Through1988 := by decide
  rw [h.todToSeconds_eq hlt hbound]
  constructor
  · intro hhour
    have hge := hcorrected.mpr (.inr hhour)
    have hfalse := hbehind hhour
    rw [if_pos hge]
    rw [hcounted, hfalse, Bool.toNat_false, Nat.zero_mul, Nat.add_zero] at hge ⊢
    rw [u32_of_lt (by omega)]
    omega
  · intro hhour
    cases hbehind2100 : tod.behind2100 with
    | false =>
      rw [if_neg (fun hge => (hcorrected.mp hge).elim (by simp [hbehind2100]) hhour), hcounted,
        hbehind2100, Bool.toNat_false, Nat.zero_mul, Nat.add_zero, Nat.sub_zero, ← h1970]
      exact u32_of_lt hrange
    | true =>
      rw [if_pos (hcorrected.mpr (.inl hbehind2100)), hcounted, hbehind2100, Bool.toNat_true,
        Nat.one_mul, Nat.add_sub_cancel, ← h1970]
      exact u32_of_lt hrange

end

end Rtems.Clock
