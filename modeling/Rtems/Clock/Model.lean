import Rtems.Lib.Gregorian

/-!
# The time of day

The model of `_TOD_Validate`, `_TOD_To_seconds`, `rtems_clock_set` and `rtems_clock_get_tod`.
Numbers are those of `uint32_t` where they can wrap.  A clock is the binary time that the time
counter adds to the uptime, which does not go on between calls.
-/

namespace Rtems.Clock

open Gregorian

/-- `rtems_time_of_day`. -/
structure TimeOfDay where
  year : Nat
  month : Nat
  day : Nat
  hour : Nat
  minute : Nat
  second : Nat
  ticks : Nat
deriving DecidableEq, Repr

/-- A number as `uint32_t`. -/
def u32 (n : Nat) : Nat := n % 2 ^ 32

/-! ## Validation -/

/-- `_TOD_Days_per_month`. -/
def daysPerMonth (leap : Bool) : List Nat :=
  if leap then [0, 31, 29, 31, 30, 31, 30, 31, 31, 30, 31, 30, 31]
  else [0, 31, 28, 31, 30, 31, 30, 31, 31, 30, 31, 30, 31]

/-- `_TOD_Validate`. -/
def todValidate (microsecondsPerTick : Nat) (tod : TimeOfDay) : Bool :=
  let ticksPerSecond := 1000000 / microsecondsPerTick
  if tod.ticks ≥ ticksPerSecond ∨ tod.second ≥ 60 ∨ tod.minute ≥ 60 ∨ tod.hour ≥ 24 ∨
      tod.month = 0 ∨ tod.month > 12 ∨ tod.year < 1988 ∨ tod.day = 0 then false
  else
    let leap : Bool := tod.year % 4 = 0 ∧ tod.year % 100 ≠ 0 ∨ tod.year % 400 = 0
    let daysInMonth := (daysPerMonth leap).getD tod.month 0
    if tod.day > daysInMonth then false else true

/-! ## Seconds since the epoch -/

/-- `_TOD_Days_to_date`. -/
def daysToDate (leap : Bool) : List Nat :=
  if leap then [0, 0, 31, 60, 91, 121, 152, 182, 213, 244, 274, 305, 335]
  else [0, 0, 31, 59, 90, 120, 151, 181, 212, 243, 273, 304, 334]

/-- `_TOD_Days_since_last_leap_year`. -/
def daysSinceLastLeapYear : List Nat := [0, 366, 731, 1096]

/-- `TOD_SECONDS_1970_THROUGH_1988`. -/
def seconds1970Through1988 : Nat := (1987 - 1970 + 1) * (365 * 86400) + 4 * 86400

/-- `TOD_SECONDS_AT_2100_03_01_00_00`. -/
def secondsAt21000301 : Nat := 4107538800

/-- `_TOD_To_seconds`. -/
def todToSeconds (tod : TimeOfDay) : Nat :=
  let yearMod4 := tod.year % 4
  let time := u32 (tod.day + (2 ^ 32 - 1))
  let time := u32 (time + (daysToDate (yearMod4 = 0)).getD tod.month 0)
  let time := u32 (time + u32 (tod.year + (2 ^ 32 - 1988)) / 4 * (365 * 4 + 1))
  let time := u32 (time + daysSinceLastLeapYear.getD yearMod4 0)
  let time := u32 (time * 86400)
  let time := u32 (time + u32 (tod.hour * 60 + tod.minute) * 60)
  let time := u32 (time + tod.second)
  -- The year 2100 is not a leap year.
  let time := if time ≥ secondsAt21000301 - seconds1970Through1988 then u32 (time + (2 ^ 32 - 86400))
    else time
  u32 (time + seconds1970Through1988)

/-! ## Binary time -/

/-- `struct bintime`, with a 32-bit `time_t`. -/
structure Bintime where
  sec : UInt32
  frac : UInt64
deriving DecidableEq

/-- `bintime_add`. -/
def Bintime.add (bt bt2 : Bintime) : Bintime :=
  let frac := bt.frac + bt2.frac
  let sec := if bt.frac > frac then bt.sec + 1 else bt.sec
  ⟨sec + bt2.sec, frac⟩

/-- `bintime_sub`. -/
def Bintime.sub (bt bt2 : Bintime) : Bintime :=
  let frac := bt.frac - bt2.frac
  let sec := if bt.frac < frac then bt.sec - 1 else bt.sec
  ⟨sec - bt2.sec, frac⟩

/-- `struct timespec`. -/
structure Timespec where
  sec : UInt32
  nsec : UInt64
deriving DecidableEq

/-- `timespec2bintime`. -/
def Timespec.toBintime (ts : Timespec) : Bintime := ⟨ts.sec, ts.nsec * 18446744073⟩

/-- `bintime2timespec`. -/
def Bintime.toTimespec (bt : Bintime) : Timespec :=
  ⟨bt.sec, ((1000000000 : UInt64) * (bt.frac >>> 32)) >>> 32⟩

/-- The microseconds of `bintime2timeval`. -/
def Bintime.usec (bt : Bintime) : UInt64 := ((1000000 : UInt64) * (bt.frac >>> 32)) >>> 32

/-! ## The clock -/

/-- `TOD_Control`, with what the time counter adds to the uptime. -/
structure TodControl where
  boottimebin : Bintime
  isSet : Bool
deriving DecidableEq

/-- The status codes of the services. -/
inductive Status where
  | successful
  | invalidAddress
  | invalidClock
  | notDefined
deriving DecidableEq, Repr

/-- `_TOD_Set_with_timestamp`, with `_Timecounter_Set_clock`. -/
def todSetWithTimestamp (uptime todAsTimestamp : Bintime) : TodControl :=
  { boottimebin := todAsTimestamp.toTimespec.toBintime.sub uptime
    isSet := true }

/-- `rtems_clock_set`. -/
def clockSet (microsecondsPerTick : Nat) (uptime : Bintime) (clock : TodControl) :
    Option TimeOfDay → Status × TodControl
  | none => (.invalidAddress, clock)
  | some tod =>
    if todValidate microsecondsPerTick tod then
      let seconds := todToSeconds tod
      let nanoseconds := u32 (tod.ticks * (microsecondsPerTick * 1000))
      let todAsTimestamp := Timespec.toBintime ⟨.ofNat seconds, .ofNat nanoseconds⟩
      (.successful, todSetWithTimestamp uptime todAsTimestamp)
    else (.invalidClock, clock)

/-- `_Leap_year`. -/
def leapYear (year : Nat) : Bool := year % 4 = 0 ∧ year % 100 ≠ 0 ∨ year % 400 = 0

/-- `_Leap_years_before`. -/
def leapYearsBefore (year : Nat) : Nat :=
  let year := year - 1
  year / 4 - year / 100 + year / 400

/-- `_Leap_years_between`. -/
def leapYearsBetween («from» «to» : Nat) : Nat := leapYearsBefore «to» - leapYearsBefore («from» + 1)

/-- The loop of `_Year_day_as_month` over the rest of the table. -/
def monthLoop (day : Nat) : List Nat → Nat → Nat
  | [], month => month
  | next :: rest, month => if month < 11 then if day < next then month else monthLoop day rest (month + 1)
      else month

/-- `_Year_day_as_month`: the month, from zero on, and the day in it. -/
def yearDayAsMonth (year day : Nat) : Nat × Nat :=
  let table := (daysToDate (leapYear year)).drop 2
  let month := monthLoop day table 0
  (month, day - (daysToDate (leapYear year)).getD (month + 1) 0)

/-- `rtems_clock_get_tod`, for a place for the result. -/
def clockGetTod (microsecondsPerTick : Nat) (uptime : Bintime) (clock : TodControl) :
    Except Status TimeOfDay :=
  if clock.isSet then
    let bt := uptime.add clock.boottimebin
    let tvSec := bt.sec.toNat
    let days := tvSec / 86400
    let daySecs := tvSec % 86400
    let year := days / 365 + 1970
    let leapYears := leapYearsBetween 1970 year
    let yearDays := (days - leapYears) % 365
    -- The days of the leap years reach into the year before.
    let overflow : Bool := leapYears > days % 365
    let year := if overflow then year - 1 else year
    let yearDays := if overflow ∧ leapYear year then yearDays + 1 else yearDays
    let (month, day) := yearDayAsMonth year yearDays
    let minute := daySecs % 3600
    .ok { year, month := month + 1, day := day + 1, hour := daySecs / 3600, minute := minute / 60,
          second := minute % 60, ticks := bt.usec.toNat / microsecondsPerTick }
  else .error .notDefined

end Rtems.Clock
