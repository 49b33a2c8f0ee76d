import Rtems.Clock.Calendar

/-!
# Setting and reading the clock

A time of day goes through three binary times on its way into the clock and back.  The seconds come
back unchanged.  Each conversion rounds the fraction of the second down.
-/

namespace Rtems.Clock

open Gregorian

/-! ## Binary time -/

/-- The time counter gives back what was set, less the uptime. -/
theorem Bintime.add_sub (uptime bt : Bintime) : uptime.add (bt.sub uptime) = bt := by
  have hfrac : uptime.frac + (bt.frac - uptime.frac) = bt.frac := by
    apply UInt64.toNat_inj.mp
    simp only [UInt64.toNat_add, UInt64.toNat_sub]
    have hbt := bt.frac.toNat_lt
    have huptime := uptime.frac.toNat_lt
    omega
  have hcarry : uptime.frac > bt.frac ↔ bt.frac < bt.frac - uptime.frac := by
    simp only [gt_iff_lt, UInt64.lt_iff_toNat_lt, UInt64.toNat_sub]
    have hbt := bt.frac.toNat_lt
    have huptime := uptime.frac.toNat_lt
    omega
  simp only [add, sub, hfrac]
  by_cases h : uptime.frac > bt.frac
  · rw [if_pos h, if_pos (hcarry.mp h)]
    congr 1
    apply UInt32.toNat_inj.mp
    simp only [UInt32.toNat_add, UInt32.toNat_sub]
    have hbt := bt.sec.toNat_lt
    have huptime := uptime.sec.toNat_lt
    have hone : (1 : UInt32).toNat = 1 := rfl
    omega
  · rw [if_neg h, if_neg (mt hcarry.mpr h)]
    congr 1
    apply UInt32.toNat_inj.mp
    simp only [UInt32.toNat_add, UInt32.toNat_sub]
    have hbt := bt.sec.toNat_lt
    have huptime := uptime.sec.toNat_lt
    omega

theorem toNat_ofNat {n : Nat} (hn : n < 1000000000) : (UInt64.ofNat n).toNat = n := by
  have hsize : UInt64.size = 18446744073709551616 := rfl
  exact UInt64.toNat_ofNat_of_lt' (by omega)

/-- The fraction of a number of nanoseconds. -/
theorem toNat_frac (sec : UInt32) {n : Nat} (hn : n < 1000000000) :
    (Timespec.toBintime ⟨sec, .ofNat n⟩).frac.toNat = n * 18446744073 := by
  simp only [Timespec.toBintime, UInt64.toNat_mul]
  have hfactor : (18446744073 : UInt64).toNat = 18446744073 := rfl
  rw [hfactor, toNat_ofNat hn]
  omega

/-- The upper half of the fraction, in nanoseconds. -/
theorem nanoseconds_eq {n : Nat} (hn : n < 1000000000) :
    1000000000 * (n * 18446744073 / 4294967296) % 18446744073709551616 / 4294967296 = n - 1 := by
  have hupper : n * 18446744073 / 4294967296 < 4294967296 := by omega
  have hle := Nat.div_mul_le_self (n * 18446744073) 4294967296
  have hlt := Nat.lt_div_mul_add (a := n * 18446744073) (by decide : 0 < 4294967296)
  generalize n * 18446744073 / 4294967296 = upper at hupper hle hlt ⊢
  rw [Nat.mod_eq_of_lt (by omega)]
  omega

/-- The upper half of the fraction, in microseconds. -/
theorem microseconds_eq {n : Nat} (hn : n < 1000000000) :
    1000000 * (n * 18446744073 / 4294967296) % 18446744073709551616 / 4294967296 =
      (n - 1) / 1000 := by
  have hupper : n * 18446744073 / 4294967296 < 4294967296 := by omega
  have hle := Nat.div_mul_le_self (n * 18446744073) 4294967296
  have hlt := Nat.lt_div_mul_add (a := n * 18446744073) (by decide : 0 < 4294967296)
  generalize n * 18446744073 / 4294967296 = upper at hupper hle hlt ⊢
  rw [Nat.mod_eq_of_lt (by omega)]
  omega

/-- A conversion to nanoseconds and back loses one of them. -/
theorem toTimespec_toBintime {sec : UInt32} {n : Nat} (hn : n < 1000000000) :
    (Timespec.toBintime ⟨sec, .ofNat n⟩).toTimespec = ⟨sec, .ofNat (n - 1)⟩ := by
  have hfrac := toNat_frac sec hn
  simp only [Bintime.toTimespec]
  congr 1
  apply UInt64.toNat_inj.mp
  have hfactor : (1000000000 : UInt64).toNat = 1000000000 := rfl
  have hshift : (32 : UInt64).toNat = 32 := rfl
  simp only [UInt64.toNat_shiftRight, UInt64.toNat_mul, hfrac, hfactor, hshift,
    Nat.shiftRight_eq_div_pow, Nat.reduceMod, Nat.reducePow]
  rw [toNat_ofNat (by omega)]
  exact nanoseconds_eq hn

/-- The microseconds of a number of nanoseconds. -/
theorem toNat_usec {sec : UInt32} {n : Nat} (hn : n < 1000000000) :
    (Timespec.toBintime ⟨sec, .ofNat n⟩).usec.toNat = (n - 1) / 1000 := by
  have hfrac := toNat_frac sec hn
  have hfactor : (1000000 : UInt64).toNat = 1000000 := rfl
  have hshift : (32 : UInt64).toNat = 32 := rfl
  simp only [Bintime.usec, UInt64.toNat_shiftRight, UInt64.toNat_mul, hfrac, hfactor, hshift,
    Nat.shiftRight_eq_div_pow, Nat.reduceMod, Nat.reducePow]
  exact microseconds_eq hn

/-! ## The decoder -/

/-- The decoder leaves the year zero out. -/
theorem leapYearsBefore_eq {year : Nat} (hyear : 0 < year) :
    Gregorian.leapYearsBefore year = leapYearsBefore year + 1 := by
  have h4 : (year + 3) / 4 = (year - 1) / 4 + 1 := by omega
  have h100 : (year + 99) / 100 = (year - 1) / 100 + 1 := by omega
  have h400 : (year + 399) / 400 = (year - 1) / 400 + 1 := by omega
  have hle : (year - 1) / 100 ≤ (year - 1) / 4 := by omega
  simp only [Gregorian.leapYearsBefore, leapYearsBefore, h4, h100, h400]
  omega

/-- The leap years from 1970 on. -/
theorem leapYearsBetween_eq {year : Nat} (hyear : 1970 ≤ year) :
    leapYearsBetween 1970 year =
      Gregorian.leapYearsBefore year - Gregorian.leapYearsBefore 1970 := by
  have hfrom : Gregorian.leapYearsBefore 1970 = leapYearsBefore 1971 + 1 := by decide
  rw [leapYearsBefore_eq (by omega), hfrom, Nat.add_sub_add_right]
  rfl

theorem leapYear_eq (year : Nat) : leapYear year = isLeap year := rfl

section

variable {year yearDay leapYears days : Nat}

/-- The year whose days end behind the days that are counted without leap days. -/
theorem decodeYear (hyear : 1970 ≤ year) (hlt : year < 2107)
    (hday : yearDay < 365 + (isLeap year).toNat)
    (hdays : days = 365 * (year - 1970) +
      (Gregorian.leapYearsBefore year - Gregorian.leapYearsBefore 1970) + yearDay) :
    let first := days / 365 + 1970
    let leapYears := leapYearsBetween 1970 first
    let rest := (days - leapYears) % 365
    (leapYears ≤ days % 365 ∧ first = year ∧ rest = yearDay) ∨
      (days % 365 < leapYears ∧ first = year + 1 ∧ rest + (isLeap year).toNat = yearDay) := by
  intro first leapYears rest
  have hmono := leapYearsBefore_mono hyear
  have hfew : Gregorian.leapYearsBefore year - Gregorian.leapYearsBefore 1970 ≤ 33 := by
    have hmost := leapYearsBefore_mono (Nat.le_of_lt_succ hlt)
    have h2106 : Gregorian.leapYearsBefore 2106 = Gregorian.leapYearsBefore 1970 + 33 := by decide
    omega
  have htoNat := Bool.toNat_le (isLeap year)
  rcases Nat.lt_or_ge (Gregorian.leapYearsBefore year - Gregorian.leapYearsBefore 1970 + yearDay) 365
    with hsame | hnext
  · have hfirst : first = year := by
      simp only [first]
      omega
    have hleap : leapYears = Gregorian.leapYearsBefore year - Gregorian.leapYearsBefore 1970 := by
      simp only [leapYears, hfirst]
      exact leapYearsBetween_eq hyear
    refine .inl ⟨by omega, hfirst, ?_⟩
    simp only [rest, hleap]
    omega
  · have hfirst : first = year + 1 := by
      simp only [first]
      omega
    have hleap : leapYears = Gregorian.leapYearsBefore year - Gregorian.leapYearsBefore 1970 +
        (isLeap year).toNat := by
      simp only [leapYears, hfirst]
      rw [leapYearsBetween_eq (by omega), leapYearsBefore_succ]
      omega
    refine .inr ⟨by omega, hfirst, ?_⟩
    simp only [rest, hleap]
    omega

end

/-- The month of a day of the year. -/
theorem yearDayAsMonth_eq {year month day : Nat} (hpos : 0 < month) (hle : month ≤ 12)
    (hday : 0 < day) (hlength : day ≤ monthLength (isLeap year) month) :
    yearDayAsMonth year (yearDay year month day) = (month - 1, day - 1) := by
  have hall : ∀ leap : Bool, ∀ month < 13, ∀ day < 32, 0 < month → 0 < day →
      day ≤ monthLength leap month →
      monthLoop (daysBeforeMonth leap month + (day - 1)) ((daysToDate leap).drop 2) 0 = month - 1 := by
    decide +kernel
  have hshort : ∀ leap : Bool, ∀ month < 13, monthLength leap month < 32 := by decide
  have hfound := hall (isLeap year) month (Nat.lt_succ_of_le hle) day
    (Nat.lt_of_le_of_lt hlength (hshort _ _ (Nat.lt_succ_of_le hle))) hpos hday hlength
  simp only [yearDayAsMonth, leapYear_eq, yearDay, hfound, Nat.sub_add_cancel hpos,
    daysToDate_getD _ hpos hle, Nat.add_sub_cancel_left]

/-! ## The round trip -/

section

variable {microsecondsPerTick : Nat} {tod : TimeOfDay}

theorem Valid.tick_pos (h : Valid microsecondsPerTick tod) : 0 < microsecondsPerTick := by
  rcases Nat.eq_zero_or_pos microsecondsPerTick with hzero | hpos
  · have hticks := h.ticks_lt
    rw [hzero, Nat.div_zero] at hticks
    exact absurd hticks (Nat.not_lt_zero _)
  · exact hpos

/-- The nanoseconds of the ticks are less than a second. -/
theorem Valid.nanoseconds_lt (h : Valid microsecondsPerTick tod) :
    tod.ticks * (microsecondsPerTick * 1000) < 1000000000 := by
  have hticks := h.ticks_lt
  have hproduct : tod.ticks * microsecondsPerTick < 1000000 := by
    have hquot := Nat.div_mul_le_self 1000000 microsecondsPerTick
    exact Nat.lt_of_lt_of_le (Nat.mul_lt_mul_of_pos_right hticks h.tick_pos) hquot
  rw [← Nat.mul_assoc]
  omega

/-- The clock shows the seconds that were set, and the microseconds rounded down twice. -/
theorem Valid.clockSet_shows (h : Valid microsecondsPerTick tod) (uptime : Bintime) (clock : TodControl) :
    ∃ clock', clockSet microsecondsPerTick uptime clock (some tod) = (.successful, clock') ∧
      clock'.isSet = true ∧
      (uptime.add clock'.boottimebin).sec.toNat = todToSeconds tod ∧
      (uptime.add clock'.boottimebin).usec.toNat =
        (tod.ticks * (microsecondsPerTick * 1000) - 1 - 1) / 1000 := by
  have hnano := h.nanoseconds_lt
  have hwrap : u32 (tod.ticks * (microsecondsPerTick * 1000)) =
      tod.ticks * (microsecondsPerTick * 1000) := u32_of_lt (by omega)
  have hseconds : todToSeconds tod < 2 ^ 32 := Nat.mod_lt _ (by decide)
  refine ⟨_, if_pos (todValidate_iff.mpr h), rfl, ?_, ?_⟩
  · simp only [todSetWithTimestamp, hwrap, toTimespec_toBintime hnano, Bintime.add_sub]
    exact UInt32.toNat_ofNat_of_lt' hseconds
  · simp only [todSetWithTimestamp, hwrap, toTimespec_toBintime hnano, Bintime.add_sub]
    exact toNat_usec (by omega)

/-- The ticks that are read are one less than those that were set. -/
theorem ticks_read (ticks : Nat) {microsecondsPerTick : Nat} (hpos : 0 < microsecondsPerTick) :
    (ticks * (microsecondsPerTick * 1000) - 1 - 1) / 1000 / microsecondsPerTick = ticks - 1 := by
  cases ticks with
  | zero => simp
  | succ ticks =>
    have hnano : (ticks + 1) * (microsecondsPerTick * 1000) =
        (ticks * microsecondsPerTick + (microsecondsPerTick - 1)) * 1000 + 1000 := by
      rw [← Nat.mul_assoc, Nat.add_mul, Nat.one_mul]
      omega
    have hmicro : ((ticks + 1) * (microsecondsPerTick * 1000) - 1 - 1) / 1000 =
        ticks * microsecondsPerTick + (microsecondsPerTick - 1) := by
      rw [hnano]
      omega
    rw [hmicro, Nat.mul_comm, Nat.mul_add_div hpos, Nat.div_eq_of_lt (Nat.sub_lt hpos (by decide)),
      Nat.add_zero, Nat.add_sub_cancel]

/-- A clock that shows the seconds of a date decodes to this date. -/
theorem Valid.clockGetTod_eq (h : Valid microsecondsPerTick tod) {uptime : Bintime}
    {clock : TodControl} (hset : clock.isSet = true) (hlt : tod.year < 2107)
    (hsec : (uptime.add clock.boottimebin).sec.toNat = tod.secondsSince 1970) :
    clockGetTod microsecondsPerTick uptime clock = .ok { tod with
      ticks := (uptime.add clock.boottimebin).usec.toNat / microsecondsPerTick } := by
  have hyear := h.le_year
  have hsecond := h.second_lt
  have hminute := h.minute_lt
  have hhour := h.hour_lt
  have hofDay := h.secondOfDay_lt
  have hdays : (uptime.add clock.boottimebin).sec.toNat / 86400 =
      dayNumber tod.year tod.month tod.day - daysBeforeYear 1970 := by
    rw [hsec, TimeOfDay.secondsSince]
    omega
  have hrest : (uptime.add clock.boottimebin).sec.toNat % 86400 = tod.secondOfDay := by
    rw [hsec, TimeOfDay.secondsSince]
    omega
  have hmonth := yearDayAsMonth_eq h.month_pos h.month_le h.day_pos h.day_le
  rw [dayNumber_sub (by omega : 1970 ≤ tod.year)] at hdays
  have hdecode := decodeYear (by omega) hlt h.yearDay_lt hdays
  simp only [clockGetTod, if_pos hset, hrest]
  simp only at hdecode
  generalize (uptime.add clock.boottimebin).sec.toNat / 86400 = days at hdecode ⊢
  have hyearMonth : tod.month - 1 + 1 = tod.month := Nat.sub_add_cancel h.month_pos
  have hmonthDay : tod.day - 1 + 1 = tod.day := Nat.sub_add_cancel h.day_pos
  have hours : tod.secondOfDay / 3600 = tod.hour := by
    simp only [TimeOfDay.secondOfDay]
    omega
  have minutes : tod.secondOfDay % 3600 / 60 = tod.minute := by
    simp only [TimeOfDay.secondOfDay]
    omega
  have seconds : tod.secondOfDay % 3600 % 60 = tod.second := by
    simp only [TimeOfDay.secondOfDay]
    omega
  rw [hours, minutes, seconds]
  rcases hdecode with ⟨hle, hfirst, hday⟩ | ⟨hgt, hfirst, hday⟩
  · simp only [decide_eq_false (Nat.not_lt_of_le hle), Bool.false_eq_true, if_false, false_and,
      hday]
    simp only [hfirst, hmonth, hyearMonth, hmonthDay]
  · simp only [decide_eq_true hgt, if_true, true_and]
    rw [hfirst] at hday
    simp only [hfirst, Nat.add_sub_cancel, leapYear_eq]
    cases hleap : isLeap tod.year with
    | false =>
      rw [hleap, Bool.toNat_false, Nat.add_zero] at hday
      simp only [Bool.false_eq_true, if_false, hday, hmonth, hyearMonth, hmonthDay]
    | true =>
      rw [hleap, Bool.toNat_true] at hday
      simp only [if_true, hday, hmonth, hyearMonth, hmonthDay]

/-- Every tick but the first is lost on the way. -/
theorem Valid.read (h : Valid microsecondsPerTick tod) (hrange : tod.secondsSince 1970 < 2 ^ 32)
    (hhour : ¬ tod.inLastHour) (uptime : Bintime) (clock : TodControl) :
    ∃ clock', Clock.clockSet microsecondsPerTick uptime clock (some tod) = (.successful, clock') ∧
      Clock.clockGetTod microsecondsPerTick uptime clock' =
        .ok { tod with ticks := tod.ticks - 1 } := by
  obtain ⟨clock', hclock, hset, hsec, husec⟩ := h.clockSet_shows uptime clock
  rw [(h.todToSeconds_cases hrange).2 hhour] at hsec
  refine ⟨clock', hclock, ?_⟩
  rw [h.clockGetTod_eq hset (h.year_lt hrange) hsec, husec, ticks_read _ h.tick_pos]

/-- **The calendar round trip**, for the times of day whose seconds fit in `uint32_t`. -/
theorem calendar_round_trip (uptime : Bintime) (clock : TodControl)
    (hvalid : todValidate microsecondsPerTick tod = true)
    (hrange : tod.secondsSince 1970 < 2 ^ 32) (hhour : ¬ tod.inLastHour) :
    todToSeconds tod = tod.secondsSince 1970 ∧
    tod.secondsSince 1970 = tod.secondsSince 1988 + seconds1970Through1988 ∧
    ∃ clock' now, clockSet microsecondsPerTick uptime clock (some tod) = (.successful, clock') ∧
      clockGetTod microsecondsPerTick uptime clock' = .ok now ∧ now.year = tod.year ∧
      now.month = tod.month ∧ now.day = tod.day ∧ now.hour = tod.hour ∧ now.minute = tod.minute ∧
      now.second = tod.second ∧ (tod.ticks = 0 → now.ticks = tod.ticks) := by
  have h := todValidate_iff.mp hvalid
  obtain ⟨clock', hset, hget⟩ := h.read hrange hhour uptime clock
  refine ⟨(h.todToSeconds_cases hrange).2 hhour, secondsSince_1970 h, clock', _, hset, hget, rfl, rfl,
    rfl, rfl, rfl, rfl, ?_⟩
  intro hticks
  simp only [hticks, Nat.zero_sub]

end

/-- A clock that was never set. -/
def unset : TodControl := ⟨⟨0, 0⟩, false⟩

/-- The last second that fits. -/
theorem calendar_round_trip_last :
    todToSeconds ⟨2106, 2, 7, 6, 28, 15, 0⟩ = 4294967295 ∧
    ∃ clock' now, clockSet 10000 ⟨5, 1⟩ unset (some ⟨2106, 2, 7, 6, 28, 15, 0⟩) =
        (.successful, clock') ∧
      clockGetTod 10000 ⟨5, 1⟩ clock' = .ok now ∧ now.year = 2106 ∧ now.month = 2 ∧ now.day = 7 ∧
      now.hour = 6 ∧ now.minute = 28 ∧ now.second = 15 ∧ now.ticks = 0 := by
  have hvalid : todValidate 10000 ⟨2106, 2, 7, 6, 28, 15, 0⟩ = true := by decide
  have hrange : TimeOfDay.secondsSince 1970 ⟨2106, 2, 7, 6, 28, 15, 0⟩ < 2 ^ 32 := by
    simp only [TimeOfDay.secondsSince, dayNumber, daysBeforeYear_eq]
    decide
  obtain ⟨-, -, clock', now, hset, hget, hyear, hmonth, hday, hhour, hminute, hsecond, hticks⟩ :=
    calendar_round_trip ⟨5, 1⟩ unset hvalid hrange (by decide)
  exact ⟨by decide, clock', now, hset, hget, hyear, hmonth, hday, hhour, hminute, hsecond, hticks rfl⟩

/-- The clock is set and read. -/
def readBack (microsecondsPerTick : Nat) (uptime : Bintime) (tod : TimeOfDay) : Option TimeOfDay :=
  (clockGetTod microsecondsPerTick uptime
    (clockSet microsecondsPerTick uptime unset (some tod)).2).toOption

/-- The seconds count from 1970 on, and wrap in 2106.  A day is lost in the last hour of February of
2100, and a tick of every number of ticks. -/
theorem calendar_round_trip_fails :
    (todValidate 10000 ⟨1988, 1, 1, 0, 0, 0, 0⟩ = true ∧
      todToSeconds ⟨1988, 1, 1, 0, 0, 0, 0⟩ = 567993600 ∧
      TimeOfDay.secondsSince 1988 ⟨1988, 1, 1, 0, 0, 0, 0⟩ = 0) ∧
    (todValidate 10000 ⟨2106, 2, 7, 6, 28, 16, 0⟩ = true ∧
      todToSeconds ⟨2106, 2, 7, 6, 28, 16, 0⟩ = 0 ∧
      readBack 10000 ⟨5, 1⟩ ⟨2106, 2, 7, 6, 28, 16, 0⟩ = some ⟨1970, 1, 1, 0, 0, 0, 0⟩) ∧
    (todValidate 10000 ⟨2100, 2, 28, 23, 0, 0, 0⟩ = true ∧
      readBack 10000 ⟨5, 1⟩ ⟨2100, 2, 28, 23, 0, 0, 0⟩ = some ⟨2100, 2, 27, 23, 0, 0, 0⟩) ∧
    (todValidate 10000 ⟨2000, 2, 29, 22, 11, 9, 7⟩ = true ∧
      readBack 10000 ⟨5, 1⟩ ⟨2000, 2, 29, 22, 11, 9, 7⟩ = some ⟨2000, 2, 29, 22, 11, 9, 6⟩) := by
  refine ⟨⟨by decide, by decide, ?_⟩, ⟨by decide, by decide, by decide +kernel⟩,
    ⟨by decide, by decide +kernel⟩, by decide, by decide +kernel⟩
  rw [TimeOfDay.secondsSince, dayNumber_sub (Nat.le_refl _)]
  decide

end Rtems.Clock
