import Mathlib.Data.Int.Notation
import Mathlib.Data.Nat.Notation
import Mathlib.Logic.Function.Basic

/-!
# The real-time clock

The clock chip keeps the time in seven registers of two decimal digits each. They are written and
read by `Board/rtc/mvDS1339.c`, and `LSP/time.c` converts their fields from and to the seconds
since 1970.
-/

namespace Mv88fxx81.Rtc

/-- `MV_RTC_TIME`. -/
structure RtcTime where
  seconds : UInt8
  minutes : UInt8
  hours : UInt8
  day : UInt8
  date : UInt8
  month : UInt8
  year : UInt8
  deriving DecidableEq, Repr

/-- `STARTOFTIME`. -/
def STARTOFTIME : ℤ := 1970

/-- `SECDAY`. -/
def SECDAY : ℤ := 86400

/-- `FEBRUARY`. -/
def FEBRUARY : ℕ := 2

/-- `leapyear`. -/
def leapyear (year : ℤ) : Bool := year.tmod 4 = 0

/-- `days_in_year`. -/
def daysInYear (a : ℤ) : ℤ := if leapyear a then 366 else 365

/-- `month_days`. -/
def monthDays : List ℤ := [31, 28, 31, 30, 31, 30, 31, 31, 30, 31, 30, 31]

/-- A year has at least 365 days. -/
theorem daysInYear_ge (a : ℤ) : 365 ≤ daysInYear a := by
  by_cases hleap : leapyear a = true
  · have hvalue : daysInYear a = 366 := if_pos hleap
    omega
  · have hvalue : daysInYear a = 365 := if_neg hleap
    omega

/-- The loop of `to_tm` over the years. -/
def yearLoop (i day : ℤ) : ℤ × ℤ :=
  if daysInYear i ≤ day then yearLoop (i + 1) (day - daysInYear i) else (i, day)
termination_by day.toNat
decreasing_by
  have hge := daysInYear_ge i
  omega

/-- The loop of `to_tm` over the months. It fails where the table has no such month. -/
def monthLoop (monthDays : List ℤ) (i : ℕ) (day : ℤ) : Option (ℕ × ℤ) :=
  if hlt : i - 1 < monthDays.length then
    if monthDays[i - 1] ≤ day then monthLoop monthDays (i + 1) (day - monthDays[i - 1])
    else some (i, day)
  else none
termination_by monthDays.length + 1 - i

/-- `to_tm`, with the table of the months before and afterwards. -/
def toTm (monthDays : List ℤ) (tim : ℤ) : Option (RtcTime × List ℤ) :=
  let gday := tim.tdiv SECDAY
  let hms := tim.tmod SECDAY
  let (i, day) := yearLoop STARTOFTIME gday
  let year := UInt8.ofInt i
  let monthDays := if leapyear year.toNat then monthDays.set (FEBRUARY - 1) 29 else monthDays
  match monthLoop monthDays 1 day with
  | none => none
  | some (i, day) =>
    some
      ({ seconds := UInt8.ofInt ((hms.tmod 3600).tmod 60)
         minutes := UInt8.ofInt ((hms.tmod 3600).tdiv 60)
         hours := UInt8.ofInt (hms.tdiv 3600)
         day := UInt8.ofInt ((gday + 4).tmod 7)
         date := UInt8.ofInt (day + 1)
         month := UInt8.ofNat i
         year := year },
        monthDays.set (FEBRUARY - 1) 28)

/-- `MSK`. -/
def msk (n : UInt8) : UInt8 := (1 <<< n) - 1

/-- The digits of a value in a register, with as many bits for the tens as given. -/
def packDigits (tensBits value : UInt8) : UInt8 :=
  (((value / 10) <<< 4) &&& (msk tensBits <<< 4)) ||| (((value % 10) <<< 0) &&& (msk 4 <<< 0))

/-- The value of the digits in a register. -/
def unpackDigits (tensBits reg : UInt8) : UInt8 :=
  (10 : UInt8) * ((reg &&& (msk tensBits <<< 4)) >>> 4) + ((reg &&& (msk 4 <<< 0)) >>> 0)

/-- `RTC_CLOCK_SECONDS`. -/
def RTC_CLOCK_SECONDS : ℕ := 1

/-- `RTC_CLOCK_MINUTES`. -/
def RTC_CLOCK_MINUTES : ℕ := 2

/-- `RTC_CLOCK_HOUR`. -/
def RTC_CLOCK_HOUR : ℕ := 3

/-- `RTC_CLOCK_DAY`. -/
def RTC_CLOCK_DAY : ℕ := 4

/-- `RTC_CLOCK_DATE`. -/
def RTC_CLOCK_DATE : ℕ := 5

/-- `RTC_CLOCK_MONTH_CENTURY`. -/
def RTC_CLOCK_MONTH_CENTURY : ℕ := 6

/-- `RTC_CLOCK_YEAR`. -/
def RTC_CLOCK_YEAR : ℕ := 7

/-- The bits for the tens of the fields: `RTC_CLOCK_10SECONDS_MSK` and so on. -/
def secondsTens : UInt8 := 3

def minutesTens : UInt8 := 3

def hoursTens : UInt8 := 2

def dateTens : UInt8 := 2

def monthTens : UInt8 := 1

def yearTens : UInt8 := 4

/-- The registers of the chip. -/
abbrev RtcRegs := ℕ → UInt8

/-- `mvRtcCharWrite`. -/
def mvRtcCharWrite (offset : ℕ) (data : UInt8) (regs : RtcRegs) : RtcRegs :=
  Function.update regs offset data

/-- `mvRtcCharRead`. -/
def mvRtcCharRead (offset : ℕ) (regs : RtcRegs) : UInt8 := regs offset

/-- `mvRtcDS1339TimeSet`. -/
def mvRtcDS1339TimeSet (time : RtcTime) (regs : RtcRegs) : RtcRegs :=
  let regs := mvRtcCharWrite RTC_CLOCK_SECONDS (packDigits secondsTens time.seconds) regs
  let regs := mvRtcCharWrite RTC_CLOCK_MINUTES (packDigits minutesTens time.minutes) regs
  let regs := mvRtcCharWrite RTC_CLOCK_HOUR (packDigits hoursTens time.hours) regs
  let regs := mvRtcCharWrite RTC_CLOCK_DAY ((time.day <<< 0) &&& (msk 3 <<< 0)) regs
  let regs := mvRtcCharWrite RTC_CLOCK_DATE (packDigits dateTens time.date) regs
  let regs := mvRtcCharWrite RTC_CLOCK_MONTH_CENTURY (packDigits monthTens time.month) regs
  mvRtcCharWrite RTC_CLOCK_YEAR (packDigits yearTens time.year) regs

/-- `mvRtcDS1339TimeGet`. -/
def mvRtcDS1339TimeGet (regs : RtcRegs) : RtcTime where
  seconds := unpackDigits secondsTens (mvRtcCharRead RTC_CLOCK_SECONDS regs)
  minutes := unpackDigits minutesTens (mvRtcCharRead RTC_CLOCK_MINUTES regs)
  hours := unpackDigits hoursTens (mvRtcCharRead RTC_CLOCK_HOUR regs)
  day := (mvRtcCharRead RTC_CLOCK_DAY regs &&& (msk 3 <<< 0)) >>> 0
  date := unpackDigits dateTens (mvRtcCharRead RTC_CLOCK_DATE regs)
  month := unpackDigits monthTens (mvRtcCharRead RTC_CLOCK_MONTH_CENTURY regs)
  year := unpackDigits yearTens (mvRtcCharRead RTC_CLOCK_YEAR regs)

/-- `mktime` of `include/linux/time.h`. -/
def mktime (year mon day hour min sec : UInt32) : UInt32 :=
  let mon := mon - 2
  let (year, mon) := if mon.toInt32 ≤ 0 then (year - 1, mon + 12) else (year, mon)
  (((year / 4 - year / 100 + year / 400 + 367 * mon / 12 + day + year * 365 - 719499) * 24 + hour) *
    60 + min) * 60 + sec

/-- What `mv_set_rtc` and `rtc_set_time` do with a time. -/
def rtcSetTime (monthDays : List ℤ) (tim : ℤ) (regs : RtcRegs) : Option (RtcRegs × List ℤ) :=
  match toTm monthDays tim with
  | none => none
  | some (time, monthDays) =>
    some (mvRtcDS1339TimeSet { time with year := time.year - UInt8.ofNat 2000 } regs, monthDays)

/-- The time that `rtc_read_time` finds. -/
def rtcReadTime (regs : RtcRegs) : UInt32 :=
  let time := mvRtcDS1339TimeGet regs
  mktime (time.year.toUInt32 + 2000) time.month.toUInt32 time.date.toUInt32 time.hours.toUInt32
    time.minutes.toUInt32 time.seconds.toUInt32

end Mv88fxx81.Rtc
