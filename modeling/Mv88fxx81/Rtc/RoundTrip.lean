import Mathlib.Tactic.IntervalCases
import Mv88fxx81.Lib.Calendar
import Mv88fxx81.Rtc.Clock

/-!
# Setting and reading the clock

`to_tm` counts years by the rule of every fourth year, which is the Gregorian one until 2100. The
days that are left fall into the months of a table that has the days of that year. The digits of all
fields fit their registers, and `mktime` gives the seconds back.
-/

namespace Mv88fxx81.Rtc

open Calendar

/-- The years of `to_tm`. -/
def fourYearly (year : ℕ) : ℕ := if year % 4 = 0 then 366 else 365

theorem daysInYear_natCast (year : ℕ) : daysInYear year = fourYearly year := by
  have hmod : (year : ℤ).tmod 4 = ((year % 4 : ℕ) : ℤ) := by
    rw [Int.tmod_eq_emod_of_nonneg (Int.natCast_nonneg year)]
    rfl
  have hleap : leapyear year = true ↔ year % 4 = 0 := by
    unfold leapyear
    rw [hmod, decide_eq_true_iff]
    omega
  unfold daysInYear fourYearly
  by_cases hfour : year % 4 = 0
  · rw [if_pos (hleap.mpr hfour), if_pos hfour]
    rfl
  · rw [if_neg (fun h => hfour (hleap.mp h)), if_neg hfour]
    rfl

/-- The Gregorian rule is the same until 2100. -/
theorem fourYearly_eq {year : ℕ} (hfrom : 1970 ≤ year) (hto : year < 2100) :
    fourYearly year = Calendar.daysInYear year := by
  have hleap : IsLeap year ↔ year % 4 = 0 := by
    unfold IsLeap
    omega
  unfold fourYearly Calendar.daysInYear
  by_cases hfour : year % 4 = 0
  · rw [if_pos hfour, if_pos (hleap.mpr hfour)]
  · rw [if_neg hfour, if_neg (fun h => hfour (hleap.mp h))]

/-- The loop over the years ends in the year of the day. -/
theorem yearLoop_spec (i d : ℕ) : ∃ n r, yearLoop i d = (((i + n : ℕ) : ℤ), ((r : ℕ) : ℤ)) ∧
    daysOf fourYearly i n + r = d ∧ r < fourYearly (i + n) := by
  induction d using Nat.strong_induction_on generalizing i with
  | _ d ih =>
    rw [yearLoop, daysInYear_natCast]
    by_cases hle : fourYearly i ≤ d
    · have hpos : 365 ≤ fourYearly i := by
        unfold fourYearly
        split <;> decide
      obtain ⟨n, r, hloop, hdays, hlt⟩ := ih (d - fourYearly i) (by omega) (i + 1)
      refine ⟨n + 1, r, ?_, ?_, ?_⟩
      · rw [if_pos (Int.ofNat_le.mpr hle), ← Int.ofNat_sub hle]
        rw [show i + (n + 1) = i + 1 + n by omega]
        exact hloop
      · have hshift : daysOf fourYearly i (n + 1) = fourYearly i + daysOf fourYearly (i + 1) n := by
          unfold daysOf
          rw [Finset.sum_range_succ', Nat.add_zero, Nat.add_comm]
          congr 1
          refine Finset.sum_congr rfl fun k _ => ?_
          rw [show i + (k + 1) = i + 1 + k by omega]
        omega
      · rwa [show i + (n + 1) = i + 1 + n by omega]
    · refine ⟨0, d, ?_, ?_, ?_⟩
      · rw [if_neg (fun h => hle (Int.ofNat_le.mp h))]
        rfl
      · rw [daysOf_zero, Nat.zero_add]
      · exact Nat.not_le.mp hle

/-- A table with the days of the months of a year. -/
def IsTable (table : List ℤ) (year : ℕ) : Prop :=
  table.length = 12 ∧ ∀ k < 12, table[k]? = some (daysInMonth year (1 + k) : ℤ)

/-- The loop over the months ends in the month of the day. -/
theorem monthLoop_spec {table : List ℤ} {year : ℕ} (htable : IsTable table year) {k d : ℕ}
    (hd : daysOf (daysInMonth year) 1 k + d < Calendar.daysInYear year) (hk : k ≤ 12) :
    ∃ m r, monthLoop table (1 + k) d = some (1 + m, ((r : ℕ) : ℤ)) ∧ m < 12 ∧
      daysOf (daysInMonth year) 1 m + r = daysOf (daysInMonth year) 1 k + d ∧
      r < daysInMonth year (1 + m) := by
  obtain ⟨hlength, hentry⟩ := htable
  induction hn : 12 - k generalizing k d with
  | zero =>
    obtain rfl : k = 12 := by omega
    rw [daysOf_months] at hd
    omega
  | succ n ih =>
    have hlt : k < 12 := by omega
    have hindex : 1 + k - 1 < table.length := by omega
    have hget : table[1 + k - 1] = (daysInMonth year (1 + k) : ℤ) := by
      have h := hentry k hlt
      rw [show k = 1 + k - 1 by omega, List.getElem?_eq_getElem hindex] at h
      rw [Option.some.inj h, show 1 + (1 + k - 1) = 1 + k by omega]
    rw [monthLoop, dif_pos hindex, hget]
    by_cases hle : daysInMonth year (1 + k) ≤ d
    · have hnext := @daysOf_succ (daysInMonth year) 1 k
      obtain ⟨m, r, hloop, hm, hdays, hr⟩ :=
        ih (k := k + 1) (d := d - daysInMonth year (1 + k)) (by omega) (by omega) (by omega)
      refine ⟨m, r, ?_, hm, by omega, hr⟩
      rw [if_pos (Int.ofNat_le.mpr hle), ← Int.ofNat_sub hle]
      rw [show 1 + k + 1 = 1 + (k + 1) by omega]
      exact hloop
    · refine ⟨k, d, ?_, hlt, rfl, Nat.not_le.mp hle⟩
      rw [if_neg (fun h => hle (Int.ofNat_le.mp h))]

/-- The table is that of a year without a leap day. -/
theorem monthDays_isTable {year : ℕ} (hleap : ¬ IsLeap year) : IsTable monthDays year := by
  refine ⟨rfl, fun k hk => ?_⟩
  interval_cases k <;> simp [monthDays, daysInMonth, hleap]

/-- With a day more in February it is that of a leap year. -/
theorem monthDays_isTable_leap {year : ℕ} (hleap : IsLeap year) :
    IsTable (monthDays.set (FEBRUARY - 1) 29) year := by
  refine ⟨rfl, fun k hk => ?_⟩
  interval_cases k <;> simp [monthDays, FEBRUARY, daysInMonth, hleap]

/-- The digits of a value can be read back, if its tens fit their bits. -/
theorem unpackDigits_packDigits : ∀ tensBits ∈ [1, 2, 3, 4], ∀ value < 100,
    value < 10 * 2 ^ tensBits →
      unpackDigits (UInt8.ofNat tensBits) (packDigits (UInt8.ofNat tensBits) (UInt8.ofNat value)) =
        UInt8.ofNat value := by
  decide +kernel

theorem ofInt_natCast (n : ℕ) : UInt8.ofInt n = UInt8.ofNat n := by
  apply UInt8.toNat_inj.mp
  unfold UInt8.ofInt
  rw [UInt8.toNat_ofNat', UInt8.toNat_ofNat']
  omega

theorem tdiv_natCast (a b : ℕ) : (a : ℤ).tdiv b = ((a / b : ℕ) : ℤ) :=
  Int.tdiv_eq_ediv_of_nonneg (Int.natCast_nonneg a)

theorem tmod_natCast (a b : ℕ) : (a : ℤ).tmod b = ((a % b : ℕ) : ℤ) :=
  Int.tmod_eq_emod_of_nonneg (Int.natCast_nonneg a)

/-- The fields of `MV_RTC_TIME` for a date and time. -/
def timeOf (civil : CivilTime) : RtcTime where
  seconds := UInt8.ofNat civil.seconds
  minutes := UInt8.ofNat civil.minutes
  hours := UInt8.ofNat civil.hours
  day := UInt8.ofNat (weekday civil.dayNumber)
  date := UInt8.ofNat civil.date
  month := UInt8.ofNat civil.month
  year := UInt8.ofNat civil.year

theorem le_daysOf_fourYearly (i n : ℕ) : 365 * n ≤ daysOf fourYearly i n := by
  induction n with
  | zero => exact Nat.zero_le _
  | succ n ih =>
    have hpos : 365 ≤ fourYearly (i + n) := by
      unfold fourYearly
      split <;> decide
    rw [daysOf_succ]
    omega

/-- The table that `to_tm` looks the months up in is that of the year. -/
theorem isTable_of_year (year : ℕ) (hfrom : 1970 ≤ year) (hto : year < 2100) :
    IsTable (if leapyear (UInt8.ofInt year).toNat then monthDays.set (FEBRUARY - 1) 29
      else monthDays) year := by
  have hyear : leapyear (UInt8.ofInt year).toNat = true ↔ IsLeap year := by
    unfold leapyear IsLeap
    rw [ofInt_natCast, UInt8.toNat_ofNat', decide_eq_true_iff,
      Int.tmod_eq_emod_of_nonneg (Int.natCast_nonneg _)]
    omega
  by_cases hleap : IsLeap year
  · rw [if_pos (hyear.mpr hleap)]
    exact monthDays_isTable_leap hleap
  · rw [if_neg (fun h => hleap (hyear.mp h))]
    exact monthDays_isTable hleap

/-- The table is as before when `to_tm` is done. -/
theorem monthDays_restored (leap : Bool) :
    (if leap then monthDays.set (FEBRUARY - 1) 29 else monthDays).set (FEBRUARY - 1) 28 =
      monthDays := by
  cases leap <;> rfl

/-- `to_tm` gives the date and time of a number of seconds. -/
theorem toTm_spec (t : ℕ) (ht : t < 2 ^ 31) : ∃ civil : CivilTime, civil.toSeconds = t ∧
    civil.year < 2100 ∧ toTm monthDays t = some (timeOf civil, monthDays) := by
  obtain ⟨n, r, hyears, hdays, hr⟩ := yearLoop_spec 1970 (t / 86400)
  have hn : n < 100 := by
    have hle := le_daysOf_fourYearly 1970 n
    omega
  have hsame : daysOf fourYearly 1970 n = daysOf Calendar.daysInYear 1970 n :=
    Finset.sum_congr rfl fun k hk =>
      fourYearly_eq (by omega) (by have := Finset.mem_range.mp hk; omega)
  rw [fourYearly_eq (by omega) (by omega)] at hr
  obtain ⟨m, s, hmonths, hm, hdate, hs⟩ := monthLoop_spec
    (isTable_of_year (1970 + n) (by omega) (by omega)) (k := 0) (d := r)
    (by rw [daysOf_zero, Nat.zero_add]; exact hr) (by omega)
  rw [daysOf_zero, Nat.zero_add] at hdate
  let civil : CivilTime :=
    { year := 1970 + n
      month := 1 + m
      date := s + 1
      hours := t % 86400 / 3600
      minutes := t % 86400 % 3600 / 60
      seconds := t % 86400 % 3600 % 60
      epoch_le := by omega
      month_pos := by omega
      month_le := by omega
      date_pos := by omega
      date_le := hs
      hours_lt := by omega
      minutes_lt := by omega
      seconds_lt := by omega }
  have hnumber : civil.dayNumber = t / 86400 := by
    unfold CivilTime.dayNumber
    change daysOf Calendar.daysInYear 1970 (1970 + n - 1970) +
      (daysOf (daysInMonth (1970 + n)) 1 (1 + m - 1) + (s + 1 - 1)) = t / 86400
    rw [Nat.add_sub_cancel_left, Nat.add_sub_cancel_left, Nat.add_sub_cancel]
    omega
  refine ⟨civil, ?_, by change 1970 + n < 2100; omega, ?_⟩
  · unfold CivilTime.toSeconds
    rw [hnumber]
    change ((t / 86400 * 24 + t % 86400 / 3600) * 60 + t % 86400 % 3600 / 60) * 60 +
      t % 86400 % 3600 % 60 = t
    omega
  · have hday : (t : ℤ).tdiv SECDAY = ((t / 86400 : ℕ) : ℤ) := tdiv_natCast t 86400
    have hms : (t : ℤ).tmod SECDAY = ((t % 86400 : ℕ) : ℤ) := tmod_natCast t 86400
    have hhours : ((t % 86400 : ℕ) : ℤ).tdiv 3600 = ((t % 86400 / 3600 : ℕ) : ℤ) :=
      tdiv_natCast _ 3600
    have hrest : ((t % 86400 : ℕ) : ℤ).tmod 3600 = ((t % 86400 % 3600 : ℕ) : ℤ) :=
      tmod_natCast _ 3600
    have hminutes : ((t % 86400 % 3600 : ℕ) : ℤ).tdiv 60 = ((t % 86400 % 3600 / 60 : ℕ) : ℤ) :=
      tdiv_natCast _ 60
    have hseconds : ((t % 86400 % 3600 : ℕ) : ℤ).tmod 60 = ((t % 86400 % 3600 % 60 : ℕ) : ℤ) :=
      tmod_natCast _ 60
    have hweekday : (((t / 86400 : ℕ) : ℤ) + 4).tmod 7 = ((weekday civil.dayNumber : ℕ) : ℤ) := by
      rw [hnumber, weekday_eq]
      exact tmod_natCast (t / 86400 + 4) 7
    have hdate' : ((s : ℕ) : ℤ) + 1 = ((s + 1 : ℕ) : ℤ) := rfl
    unfold toTm STARTOFTIME
    dsimp only
    rw [hday, hms]
    change yearLoop 1970 ((t / 86400 : ℕ) : ℤ) = _ at hyears
    rw [hyears]
    dsimp only
    change monthLoop _ 1 _ = _ at hmonths
    rw [hmonths]
    dsimp only
    rw [hrest, hhours, hminutes, hseconds, hweekday, hdate', monthDays_restored]
    simp only [ofInt_natCast]
    rfl

/-- The end of `mktime` does not overflow. -/
theorem mktime_tail {year mon day hour min sec : ℕ} (hyear : year < 2100) (hmon : mon ≤ 12)
    (hday : day ≤ 31) (hhour : hour < 24) (hmin : min < 60) (hsec : sec < 60)
    (hepoch : 719499 ≤ year / 4 - year / 100 + year / 400 + 367 * mon / 12 + day + year * 365) :
    ((((UInt32.ofNat year / 4 - UInt32.ofNat year / 100 + UInt32.ofNat year / 400 +
      367 * UInt32.ofNat mon / 12 + UInt32.ofNat day + UInt32.ofNat year * 365 - 719499) * 24 +
        UInt32.ofNat hour) * 60 + UInt32.ofNat min) * 60 + UInt32.ofNat sec).toNat =
      (((year / 4 - year / 100 + year / 400 + 367 * mon / 12 + day + year * 365 - 719499) * 24 +
        hour) * 60 + min) * 60 + sec := by
  have hfour : UInt32.ofNat (year / 4) = UInt32.ofNat year / 4 :=
    UInt32.ofNat_div (by omega) (by omega)
  have hhundred : UInt32.ofNat (year / 100) = UInt32.ofNat year / 100 :=
    UInt32.ofNat_div (by omega) (by omega)
  have hleaps : UInt32.ofNat (year / 400) = UInt32.ofNat year / 400 :=
    UInt32.ofNat_div (by omega) (by omega)
  have hmonths : UInt32.ofNat (367 * mon / 12) = 367 * UInt32.ofNat mon / 12 := by
    rw [UInt32.ofNat_div (by omega) (by omega), UInt32.ofNat_mul]
    rfl
  rw [← hfour, ← hhundred, ← hleaps, ← hmonths, ← UInt32.ofNat_sub (by omega)]
  refine (congrArg UInt32.toNat (?_ : _ = UInt32.ofNat ((((year / 4 - year / 100 + year / 400 +
    367 * mon / 12 + day + year * 365 - 719499) * 24 + hour) * 60 + min) * 60 + sec))).trans ?_
  · simp only [UInt32.ofNat_add, UInt32.ofNat_mul, UInt32.ofNat_sub hepoch]
    rfl
  · rw [UInt32.toNat_ofNat']
    omega

/-- `mktime` counts the months from March on. -/
theorem shiftedMonth_le_zero {month : ℕ} (hpos : 1 ≤ month) (hle : month ≤ 12) :
    (UInt32.ofNat month - 2).toInt32 ≤ 0 ↔ month ≤ 2 := by
  interval_cases month <;> decide

/-- The days before a month from March on. -/
theorem daysOf_fromMarch (year : ℕ) {month : ℕ} (hmarch : 3 ≤ month) (hle : month ≤ 12) :
    daysOf (daysInMonth year) 1 (month - 1) =
      367 * (month - 2) / 12 + 29 + if IsLeap year then 1 else 0 := by
  unfold daysOf
  by_cases hleap : IsLeap year
  · interval_cases month <;> simp [Finset.sum_range_succ, daysInMonth, hleap]
  · interval_cases month <;> simp [Finset.sum_range_succ, daysInMonth, hleap]

theorem daysInMonth_le (year month : ℕ) : daysInMonth year month ≤ 31 := by
  unfold daysInMonth
  split
  · split <;> decide
  all_goals decide

/-- `mktime` gives the seconds of a date and time. -/
theorem mktime_eq (civil : CivilTime) (hto : civil.year < 2100) :
    (mktime (UInt32.ofNat civil.year) (UInt32.ofNat civil.month) (UInt32.ofNat civil.date)
      (UInt32.ofNat civil.hours) (UInt32.ofNat civil.minutes)
      (UInt32.ofNat civil.seconds)).toNat = civil.toSeconds := by
  have hfrom := civil.epoch_le
  have hpos := civil.month_pos
  have hle := civil.month_le
  have hdate := civil.date_pos
  have hdate' := civil.date_le.trans (daysInMonth_le _ _)
  have hyears := daysOf_years (civil.year - 1970)
  rw [show 1969 + (civil.year - 1970) = civil.year - 1 by omega] at hyears
  unfold mktime
  dsimp only
  by_cases hmonth : civil.month ≤ 2
  · rw [if_pos ((shiftedMonth_le_zero hpos hle).mpr hmonth)]
    have hyear : UInt32.ofNat civil.year - 1 = UInt32.ofNat (civil.year - 1) := by
      apply UInt32.toNat_inj.mp
      simp only [UInt32.toNat_sub, UInt32.toNat_ofNat', UInt32.toNat_ofNat]
      omega
    have hmon : UInt32.ofNat civil.month - 2 + 12 = UInt32.ofNat (civil.month + 10) := by
      apply UInt32.toNat_inj.mp
      simp only [UInt32.toNat_add, UInt32.toNat_sub, UInt32.toNat_ofNat', UInt32.toNat_ofNat]
      omega
    have hmonths : daysOf (daysInMonth civil.year) 1 (civil.month - 1) + 336 =
        367 * (civil.month + 10) / 12 := by
      unfold daysOf
      generalize civil.month = month at hpos hmonth
      interval_cases month <;> simp [daysInMonth]
    dsimp only
    rw [hyear, hmon, mktime_tail (by omega) (by omega) hdate' civil.hours_lt civil.minutes_lt
      civil.seconds_lt (by omega)]
    unfold CivilTime.toSeconds CivilTime.dayNumber
    omega
  · rw [if_neg (fun h => hmonth ((shiftedMonth_le_zero hpos hle).mp h))]
    have hmon : UInt32.ofNat civil.month - 2 = UInt32.ofNat (civil.month - 2) := by
      apply UInt32.toNat_inj.mp
      simp only [UInt32.toNat_sub, UInt32.toNat_ofNat', UInt32.toNat_ofNat]
      omega
    have hmonths := daysOf_fromMarch civil.year (show 3 ≤ civil.month by omega) hle
    have hleap : civil.year / 4 + civil.year / 400 + (civil.year - 1) / 100 =
        (civil.year - 1) / 4 + (civil.year - 1) / 400 + civil.year / 100 +
          if IsLeap civil.year then 1 else 0 := by
      by_cases hleap : IsLeap civil.year
      · rw [if_pos hleap]
        unfold IsLeap at hleap
        omega
      · rw [if_neg hleap]
        unfold IsLeap at hleap
        omega
    dsimp only
    rw [hmon, mktime_tail (by omega) (by omega) hdate' civil.hours_lt civil.minutes_lt
      civil.seconds_lt (by omega)]
    unfold CivilTime.toSeconds CivilTime.dayNumber
    omega

/-- The fields that are written to the clock. -/
def clockTime (civil : CivilTime) : RtcTime :=
  { timeOf civil with year := UInt8.ofNat (civil.year - 2000) }

/-- The day of the week fits its register. -/
theorem weekday_kept : ∀ day < 7,
    (((UInt8.ofNat day <<< 0) &&& (msk 3 <<< 0)) &&& (msk 3 <<< 0)) >>> 0 = UInt8.ofNat day := by
  decide

/-- The clock keeps the fields of a date in its century. -/
theorem mvRtcDS1339TimeGet_timeSet (civil : CivilTime) (hto : civil.year < 2100) (regs : RtcRegs) :
    mvRtcDS1339TimeGet (mvRtcDS1339TimeSet (clockTime civil) regs) = clockTime civil := by
  have hmonth := civil.month_le
  have hdate := civil.date_le.trans (daysInMonth_le _ _)
  have hhours := civil.hours_lt
  have hminutes := civil.minutes_lt
  have hseconds := civil.seconds_lt
  have hweekday := weekday_eq civil.dayNumber
  have hgot : mvRtcDS1339TimeGet (mvRtcDS1339TimeSet (clockTime civil) regs) =
      { seconds := unpackDigits secondsTens (packDigits secondsTens (clockTime civil).seconds)
        minutes := unpackDigits minutesTens (packDigits minutesTens (clockTime civil).minutes)
        hours := unpackDigits hoursTens (packDigits hoursTens (clockTime civil).hours)
        day := ((((clockTime civil).day <<< 0) &&& (msk 3 <<< 0)) &&& (msk 3 <<< 0)) >>> 0
        date := unpackDigits dateTens (packDigits dateTens (clockTime civil).date)
        month := unpackDigits monthTens (packDigits monthTens (clockTime civil).month)
        year := unpackDigits yearTens (packDigits yearTens (clockTime civil).year) } := rfl
  rw [hgot]
  refine RtcTime.mk.injEq .. ▸ ⟨?_, ?_, ?_, ?_, ?_, ?_, ?_⟩
  · exact unpackDigits_packDigits 3 (by decide) _ (by omega) (by omega)
  · exact unpackDigits_packDigits 3 (by decide) _ (by omega) (by omega)
  · exact unpackDigits_packDigits 2 (by decide) _ (by omega) (by omega)
  · exact weekday_kept _ (by omega)
  · exact unpackDigits_packDigits 2 (by decide) _ (by omega) (by omega)
  · exact unpackDigits_packDigits 1 (by decide) _ (by omega) (by omega)
  · exact unpackDigits_packDigits 4 (by decide) _ (by omega) (by omega)

/-- A time from 2000 on is in a year from 2000 on. -/
theorem year_ge_of_toSeconds (civil : CivilTime) (hfrom : 946684800 ≤ civil.toSeconds) :
    2000 ≤ civil.year := by
  by_contra hlt
  have hhours := civil.hours_lt
  have hminutes := civil.minutes_lt
  have hseconds := civil.seconds_lt
  have hepoch := civil.epoch_le
  have hday := civil.dayOfYear_lt
  have hnext := @daysOf_succ Calendar.daysInYear 1970 (civil.year - 1970)
  rw [show 1970 + (civil.year - 1970) = civil.year by omega] at hnext
  have hmono := @daysOf_mono Calendar.daysInYear 1970 (civil.year - 1970 + 1) 30 (by omega)
  have hcentury := daysOf_years 30
  unfold CivilTime.toSeconds CivilTime.dayNumber at hfrom
  omega

/-- For a time from 2000 on, `to_tm` gives its only date and time of day with the day of the week,
and restores its table, and the clock that is set to it is read as the same time. -/
theorem rtcSetTime_rtcReadTime (t : ℤ) (hfrom : 946684800 ≤ t) (hto : t < 2 ^ 31)
    (regs : RtcRegs) : ∃ civil : CivilTime, civil.toSeconds = t ∧
      (∀ other : CivilTime, other.toSeconds = t → other = civil) ∧
      toTm monthDays t = some (timeOf civil, monthDays) ∧
      ∃ regs', rtcSetTime monthDays t regs = some (regs', monthDays) ∧
        (rtcReadTime regs').toNat = t := by
  obtain ⟨n, rfl⟩ := Int.eq_ofNat_of_zero_le (show 0 ≤ t by omega)
  obtain ⟨civil, hseconds, hyear, htm⟩ := toTm_spec n (by omega)
  have hcentury := year_ge_of_toSeconds civil (by omega)
  have hoffset : (timeOf civil).year - UInt8.ofNat 2000 = UInt8.ofNat (civil.year - 2000) :=
    (UInt8.ofNat_sub hcentury).symm
  have honly : ∀ other : CivilTime, (other.toSeconds : ℤ) = n → other = civil := fun other h =>
    CivilTime.toSeconds_injective ((Int.ofNat_inj.mp h).trans hseconds.symm)
  refine ⟨civil, by rw [hseconds], honly, htm, mvRtcDS1339TimeSet (clockTime civil) regs, ?_, ?_⟩
  · unfold rtcSetTime
    rw [htm]
    dsimp only
    rw [hoffset]
    rfl
  · unfold rtcReadTime
    rw [mvRtcDS1339TimeGet_timeSet civil hyear]
    have hmonth := civil.month_le
    have hdate := civil.date_le.trans (daysInMonth_le _ _)
    have hyears : (UInt8.ofNat (civil.year - 2000)).toUInt32 + 2000 = UInt32.ofNat civil.year := by
      apply UInt32.toNat_inj.mp
      rw [UInt32.toNat_add, UInt8.toNat_toUInt32, UInt8.toNat_ofNat', UInt32.toNat_ofNat']
      change ((civil.year - 2000) % 2 ^ 8 + 2000) % 2 ^ 32 = civil.year % 2 ^ 32
      omega
    have hfield : ∀ k < 256, (UInt8.ofNat k).toUInt32 = UInt32.ofNat k := by
      intro k hk
      apply UInt32.toNat_inj.mp
      rw [UInt8.toNat_toUInt32, UInt8.toNat_ofNat', UInt32.toNat_ofNat']
      omega
    have hread := mktime_eq civil hyear
    rw [← hyears, ← hfield civil.month (by omega), ← hfield civil.date (by omega),
      ← hfield civil.hours (by have := civil.hours_lt; omega),
      ← hfield civil.minutes (by have := civil.minutes_lt; omega),
      ← hfield civil.seconds (by have := civil.seconds_lt; omega), hseconds] at hread
    exact congrArg Nat.cast hread

/-- The leap day of 2000. -/
theorem rtcReadTime_leapDay : ∃ civil : CivilTime, civil.toSeconds = (951782400 : ℤ) ∧
    (∀ other : CivilTime, other.toSeconds = (951782400 : ℤ) → other = civil) ∧
    toTm monthDays 951782400 = some (timeOf civil, monthDays) ∧
    ∃ regs', rtcSetTime monthDays 951782400 (fun _ => 0) = some (regs', monthDays) ∧
      (rtcReadTime regs').toNat = (951782400 : ℤ) :=
  rtcSetTime_rtcReadTime 951782400 (by decide) (by decide) (fun _ => 0)

end Mv88fxx81.Rtc
