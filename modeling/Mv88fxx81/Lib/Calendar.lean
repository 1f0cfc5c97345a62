import Mathlib.Algebra.BigOperators.Group.Finset.Basic
import Mathlib.Algebra.Order.BigOperators.Group.Finset

/-!
# The Gregorian calendar

Days are counted from the first of January 1970. A count of days falls into the years, and what is
left into the months of its year, in one way only. The days of the week follow each other from a
Thursday on.
-/

namespace Calendar

/-- The days of `n` periods from a first one on. -/
def daysOf (length : ℕ → ℕ) (first n : ℕ) : ℕ := ∑ i ∈ Finset.range n, length (first + i)

section Periods

variable {length : ℕ → ℕ} {first n m r s : ℕ}

@[simp]
theorem daysOf_zero : daysOf length first 0 = 0 := rfl

theorem daysOf_succ : daysOf length first (n + 1) = daysOf length first n + length (first + n) :=
  Finset.sum_range_succ _ _

theorem daysOf_mono (hle : n ≤ m) : daysOf length first n ≤ daysOf length first m :=
  Finset.sum_le_sum_of_subset (Finset.range_mono hle)

/-- A day is in one period only. -/
theorem daysOf_unique (hr : r < length (first + n)) (hs : s < length (first + m))
    (heq : daysOf length first n + r = daysOf length first m + s) : n = m ∧ r = s := by
  rcases Nat.lt_trichotomy n m with hlt | rfl | hlt
  · have hmono := @daysOf_mono length first _ _ (Nat.succ_le_of_lt hlt)
    rw [daysOf_succ] at hmono
    omega
  · exact ⟨rfl, by omega⟩
  · have hmono := @daysOf_mono length first _ _ (Nat.succ_le_of_lt hlt)
    rw [daysOf_succ] at hmono
    omega

end Periods

/-- A leap year. -/
def IsLeap (year : ℕ) : Prop := year % 4 = 0 ∧ (year % 100 ≠ 0 ∨ year % 400 = 0)

instance (year : ℕ) : Decidable (IsLeap year) := inferInstanceAs (Decidable (_ ∧ _))

/-- The days of a year. -/
def daysInYear (year : ℕ) : ℕ := if IsLeap year then 366 else 365

/-- The days of a month. -/
def daysInMonth (year : ℕ) : ℕ → ℕ
  | 2 => if IsLeap year then 29 else 28
  | 4 | 6 | 9 | 11 => 30
  | _ => 31

/-- The twelve months are a year. -/
theorem daysOf_months (year : ℕ) : daysOf (daysInMonth year) 1 12 = daysInYear year := by
  unfold daysOf daysInYear
  by_cases hleap : IsLeap year
  · simp [Finset.sum_range_succ, daysInMonth, hleap]
  · simp [Finset.sum_range_succ, daysInMonth, hleap]

/-- The days from 1970 to a year, without a sum. -/
theorem daysOf_years (n : ℕ) : daysOf daysInYear 1970 n + 477 + (1969 + n) / 100 =
    365 * n + (1969 + n) / 4 + (1969 + n) / 400 := by
  induction n with
  | zero => rfl
  | succ n ih =>
    rw [daysOf_succ, show 1969 + (n + 1) = 1970 + n by omega]
    by_cases hleap : IsLeap (1970 + n)
    · have hlength : daysInYear (1970 + n) = 366 := if_pos hleap
      unfold IsLeap at hleap
      omega
    · have hlength : daysInYear (1970 + n) = 365 := if_neg hleap
      unfold IsLeap at hleap
      omega

/-- A date with a time of day, from 1970 on. -/
structure CivilTime where
  year : ℕ
  month : ℕ
  date : ℕ
  hours : ℕ
  minutes : ℕ
  seconds : ℕ
  epoch_le : 1970 ≤ year
  month_pos : 1 ≤ month
  month_le : month ≤ 12
  date_pos : 1 ≤ date
  date_le : date ≤ daysInMonth year month
  hours_lt : hours < 24
  minutes_lt : minutes < 60
  seconds_lt : seconds < 60

namespace CivilTime

variable (civil : CivilTime)

/-- The days since the first of January 1970. -/
def dayNumber : ℕ :=
  daysOf daysInYear 1970 (civil.year - 1970) +
    (daysOf (daysInMonth civil.year) 1 (civil.month - 1) + (civil.date - 1))

/-- The seconds since the first of January 1970. -/
def toSeconds : ℕ :=
  ((civil.dayNumber * 24 + civil.hours) * 60 + civil.minutes) * 60 + civil.seconds

/-- The days of the year before a date are fewer than a year has. -/
theorem dayOfYear_lt :
    daysOf (daysInMonth civil.year) 1 (civil.month - 1) + (civil.date - 1) <
      daysInYear civil.year := by
  have hpos := civil.date_pos
  have hle := civil.date_le
  have hmonth := civil.month_le
  have hmonth' := civil.month_pos
  have hnext := @daysOf_succ (daysInMonth civil.year) 1 (civil.month - 1)
  have hmono := @daysOf_mono (daysInMonth civil.year) 1 _ _
    (show civil.month - 1 + 1 ≤ 12 by omega)
  rw [daysOf_months] at hmono
  rw [show 1 + (civil.month - 1) = civil.month by omega] at hnext
  omega

/-- A number of seconds is one date and time only. -/
theorem toSeconds_injective : Function.Injective toSeconds := by
  intro a b heq
  unfold toSeconds at heq
  have ha := a.hours_lt
  have ha' := a.minutes_lt
  have ha'' := a.seconds_lt
  have hb := b.hours_lt
  have hb' := b.minutes_lt
  have hb'' := b.seconds_lt
  have hday : a.dayNumber = b.dayNumber := by omega
  have hhours : a.hours = b.hours := by omega
  have hminutes : a.minutes = b.minutes := by omega
  have hseconds : a.seconds = b.seconds := by omega
  have hyear : ∀ c : CivilTime, 1970 + (c.year - 1970) = c.year := fun c => by
    have := c.epoch_le
    omega
  have hmonth : ∀ c : CivilTime, 1 + (c.month - 1) = c.month := fun c => by
    have := c.month_pos
    omega
  have hdate : ∀ c : CivilTime, c.date - 1 < daysInMonth c.year (1 + (c.month - 1)) := fun c => by
    rw [hmonth c]
    have hpos := c.date_pos
    have hle := c.date_le
    omega
  obtain ⟨hn, hr⟩ := daysOf_unique (by rw [hyear]; exact a.dayOfYear_lt)
    (by rw [hyear]; exact b.dayOfYear_lt) hday
  have hyears : a.year = b.year := by
    have := hyear a
    have := hyear b
    omega
  have hbdate := hdate b
  rw [← hyears] at hr hbdate
  obtain ⟨hm, hd⟩ := daysOf_unique (hdate a) hbdate hr
  have hmonths : a.month = b.month := by
    have := hmonth a
    have := hmonth b
    omega
  have hdates : a.date = b.date := by
    have := a.date_pos
    have := b.date_pos
    omega
  cases a
  cases b
  simp only at hyears hmonths hdates hhours hminutes hseconds
  subst hyears hmonths hdates hhours hminutes hseconds
  rfl

end CivilTime

/-- The day of the week, with a Thursday as the first day of all. -/
def weekday : ℕ → ℕ
  | 0 => 4
  | day + 1 => if weekday day = 6 then 0 else weekday day + 1

theorem weekday_eq (day : ℕ) : weekday day = (day + 4) % 7 := by
  induction day with
  | zero => rfl
  | succ day ih =>
    unfold weekday
    rw [ih]
    by_cases hlast : (day + 4) % 7 = 6
    · rw [if_pos hlast]
      omega
    · rw [if_neg hlast]
      omega

end Calendar
