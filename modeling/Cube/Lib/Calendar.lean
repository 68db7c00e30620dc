import Mathlib.Algebra.BigOperators.Group.Finset.Basic
import Mathlib.Algebra.BigOperators.Intervals

/-! # The Gregorian calendar

Dates, their numbers in the order of the days, and the days of the week. The first of January of
the year 1 has the number 1 and is a Monday.
-/

namespace Calendar

def isLeap (year : Nat) : Bool := year % 4 == 0 && (year % 100 != 0 || year % 400 == 0)

def daysInMonth (year : Nat) : Nat → Nat
  | 1 => 31
  | 2 => if isLeap year then 29 else 28
  | 3 => 31
  | 4 => 30
  | 5 => 31
  | 6 => 30
  | 7 => 31
  | 8 => 31
  | 9 => 30
  | 10 => 31
  | 11 => 30
  | 12 => 31
  | _ => 0

/-- A day of the calendar. -/
@[ext] structure Date where
  year : Nat
  month : Nat
  day : Nat
  month_mem : 1 ≤ month ∧ month ≤ 12
  day_mem : 1 ≤ day ∧ day ≤ daysInMonth year month
  deriving DecidableEq

/-- The days of a year before a month. -/
def daysBeforeMonth (year : Nat) : Nat → Nat
  | 0 => 0
  | month + 1 => daysBeforeMonth year month + daysInMonth year month

/-- The days before a year, counted from the year 1. -/
def daysBeforeYear (year : Nat) : Int :=
  365 * (year - 1 : Int) + (year - 1 : Int) / 4 - (year - 1 : Int) / 100 + (year - 1 : Int) / 400

def Date.number (date : Date) : Int :=
  daysBeforeYear date.year + daysBeforeMonth date.year date.month + date.day

/-- The day of the week, from Sunday, which is 0. -/
def Date.weekday (date : Date) : Nat := (date.number % 7).toNat

/-- A year has 365 days, or 366. -/
theorem daysBeforeYear_succ (year : Nat) :
    daysBeforeYear (year + 1) = daysBeforeYear year + daysBeforeMonth year 13 := by
  have leap : isLeap year = true ↔ year % 4 = 0 ∧ (year % 100 ≠ 0 ∨ year % 400 = 0) := by
    simp [isLeap]
  have days : (daysBeforeMonth year 13 : Int) = if isLeap year = true then 366 else 365 := by
    simp only [daysBeforeMonth, daysInMonth]
    split <;> rfl
  have before : daysBeforeYear (year + 1) =
      365 * (year : Int) + (year : Int) / 4 - (year : Int) / 100 + (year : Int) / 400 := by
    have cancel : ((year + 1 : Nat) : Int) - 1 = year := by omega
    rw [daysBeforeYear, cancel]
  have four : (year : Int) / 4 = (year - 1 : Int) / 4 + if year % 4 = 0 then 1 else 0 := by
    split <;> omega
  have hundred : (year : Int) / 100 = (year - 1 : Int) / 100 + if year % 100 = 0 then 1 else 0 := by
    split <;> omega
  have fourHundred :
      (year : Int) / 400 = (year - 1 : Int) / 400 + if year % 400 = 0 then 1 else 0 := by
    split <;> omega
  rw [before, days, daysBeforeYear, four, hundred, fourHundred, if_congr leap rfl rfl]
  split <;> split <;> split <;> split <;> omega

theorem daysInMonth_pos {year month : Nat} (inYear : 1 ≤ month ∧ month ≤ 12) :
    1 ≤ daysInMonth year month := by
  have february : 1 ≤ daysInMonth year 2 := by
    rw [daysInMonth]
    split <;> decide
  obtain ⟨low, high⟩ := inYear
  match month with
  | 2 => exact february
  | 1 | 3 | 4 | 5 | 6 | 7 | 8 | 9 | 10 | 11 | 12 => exact Nat.succ_le_succ (Nat.zero_le _)

theorem daysInMonth_le (year month : Nat) : daysInMonth year month ≤ 31 := by
  unfold daysInMonth
  split <;> first | decide | (split <;> decide)

/-- The first day of a year. -/
def Date.newYear (year : Nat) : Date where
  year := year
  month := 1
  day := 1
  month_mem := by decide
  day_mem := ⟨Nat.le_refl 1, daysInMonth_pos (by decide)⟩

/-- The day after a date. -/
def Date.next (date : Date) : Date :=
  if last : date.day < daysInMonth date.year date.month then
    { date with day := date.day + 1, day_mem := ⟨Nat.le_add_left .., last⟩ }
  else if inYear : date.month < 12 then
    { year := date.year
      month := date.month + 1
      day := 1
      month_mem := ⟨Nat.le_add_left .., inYear⟩
      day_mem := ⟨Nat.le_refl 1, daysInMonth_pos ⟨Nat.le_add_left .., inYear⟩⟩ }
  else
    { year := date.year + 1
      month := 1
      day := 1
      month_mem := by decide
      day_mem := ⟨Nat.le_refl 1, daysInMonth_pos (by decide)⟩ }

/-- **Day after day.** The numbers count the days. -/
theorem Date.number_next (date : Date) : date.next.number = date.number + 1 := by
  unfold next
  split
  next =>
    simp only [number]
    push_cast
    omega
  next last =>
    have lastDay : date.day = daysInMonth date.year date.month :=
      Nat.le_antisymm date.day_mem.2 (Nat.le_of_not_lt last)
    split
    next =>
      simp only [number, daysBeforeMonth]
      rw [lastDay]
      push_cast
      omega
    next inYear =>
      have december : date.month = 12 :=
        Nat.le_antisymm date.month_mem.2 (Nat.le_of_not_lt inYear)
      have year : (daysBeforeMonth date.year 13 : Int) =
          daysBeforeMonth date.year 12 + daysInMonth date.year 12 := Int.natCast_add ..
      have january : daysBeforeMonth (date.year + 1) 1 = 0 := rfl
      simp only [number, daysBeforeYear_succ, january]
      rw [lastDay, december, year]
      push_cast
      omega

/-- Some days after a date. -/
def Date.after (date : Date) (days : Nat) : Date := next^[days] date

theorem Date.number_after (date : Date) (days : Nat) :
    (date.after days).number = date.number + days := by
  induction days with
  | zero => exact (Int.add_zero _).symm
  | succ days ih =>
      rw [after, Function.iterate_succ_apply', number_next, ← after, ih]
      push_cast
      omega

theorem Date.year_le_next (date : Date) : date.year ≤ date.next.year := by
  unfold next
  split
  next => exact Nat.le_refl _
  next =>
    split
    next => exact Nat.le_refl _
    next => exact Nat.le_succ _

theorem Date.year_le_after (date : Date) (days : Nat) : date.year ≤ (date.after days).year := by
  induction days with
  | zero => exact Nat.le_refl _
  | succ days ih =>
      rw [after, Function.iterate_succ_apply', ← after]
      exact ih.trans (year_le_next _)

/-- A date comes after the days before its year. -/
theorem Date.daysBeforeYear_lt (date : Date) : daysBeforeYear date.year < date.number := by
  have day := date.day_mem.1
  rw [number]
  omega

/-- A number of months after a date. The last day of a month leads to the last day of a month, and
so does a day that the month reached does not have. -/
def Date.addMonths (date : Date) (months : Nat) : Date :=
  let months := date.year * 12 + (date.month - 1) + months
  let year := months / 12
  let month := months % 12 + 1
  let last := daysInMonth year month
  have inYear : 1 ≤ month ∧ month ≤ 12 :=
    ⟨Nat.le_add_left .., Nat.succ_le_of_lt (Nat.mod_lt _ (by decide))⟩
  { year := year
    month := month
    day := if date.day = daysInMonth date.year date.month then last else min date.day last
    month_mem := inYear
    day_mem := by
      have some : 1 ≤ last := daysInMonth_pos inYear
      split
      · exact ⟨some, Nat.le_refl last⟩
      · exact ⟨Nat.le_min.mpr ⟨date.day_mem.1, some⟩, Nat.min_le_right ..⟩ }

theorem Date.months_addMonths (date : Date) (months : Nat) :
    (date.addMonths months).year * 12 + (date.addMonths months).month =
      date.year * 12 + date.month + months := by
  have month := date.month_mem
  simp only [addMonths]
  omega

/-! ## The order of the days -/

theorem daysBeforeMonth_mono (year : Nat) {month later : Nat} (le : month ≤ later) :
    daysBeforeMonth year month ≤ daysBeforeMonth year later := by
  induction le with
  | refl => exact Nat.le_refl _
  | step _ ih => exact ih.trans (Nat.le_add_right _ _)

theorem daysBeforeYear_mono {year later : Nat} (le : year ≤ later) :
    daysBeforeYear year ≤ daysBeforeYear later := by
  induction le with
  | refl => exact Int.le_refl _
  | step _ ih =>
      rw [daysBeforeYear_succ]
      omega

/-- The days of a month come before those of a later month of the year. -/
theorem Date.lt_of_month {date : Date} {month : Nat} (later : date.month < month) :
    daysBeforeMonth date.year date.month + date.day ≤ daysBeforeMonth date.year month :=
  (Nat.add_le_add_left date.day_mem.2 _).trans (daysBeforeMonth_mono date.year later)

/-- The days of a year come before those of a later year. -/
theorem Date.number_le_of_year {date : Date} {year : Nat} (later : date.year < year) :
    date.number ≤ daysBeforeYear year := by
  have inYear : daysBeforeMonth date.year date.month + date.day ≤ daysBeforeMonth date.year 13 :=
    lt_of_month (Nat.lt_succ_of_le date.month_mem.2)
  have after := daysBeforeYear_mono later
  rw [daysBeforeYear_succ] at after
  rw [number]
  omega

/-- **The order of the dates** by year, month and day is that of their numbers. -/
theorem Date.number_lt_iff {date other : Date} :
    date.number < other.number ↔
      date.year < other.year ∨
        (date.year = other.year ∧ date.month < other.month) ∨
        (date.year = other.year ∧ date.month = other.month ∧ date.day < other.day) := by
  have forward : ∀ {date other : Date}, (date.year < other.year ∨
      (date.year = other.year ∧ date.month < other.month) ∨
      (date.year = other.year ∧ date.month = other.month ∧ date.day < other.day)) →
      date.number < other.number := by
    intro date other earlier
    rcases earlier with year | ⟨year, month⟩ | ⟨year, month, day⟩
    · exact (number_le_of_year year).trans_lt other.daysBeforeYear_lt
    · have before := lt_of_month month
      have some := other.day_mem.1
      rw [number, number, ← year]
      omega
    · rw [number, number, ← year, ← month]
      omega
  refine ⟨fun less => ?_, forward⟩
  by_contra other_way
  have back : other.number < date.number ∨ date = other := by
    by_cases same : date = other
    · exact Or.inr same
    · refine Or.inl (forward ?_)
      have apart : ¬ (date.year = other.year ∧ date.month = other.month ∧ date.day = other.day) :=
        fun equal => same (Date.ext equal.1 equal.2.1 equal.2.2)
      omega
  rcases back with more | rfl
  · omega
  · omega

/-! ## Cycles of 400 years -/

theorem isLeap_congr {year other : Nat} (cycle : year % 400 = other % 400) :
    isLeap year = isLeap other := by
  have four : year % 4 = other % 4 := by omega
  have hundred : year % 100 = other % 100 := by omega
  rw [isLeap, isLeap, four, hundred, cycle]

theorem daysInMonth_congr {year other : Nat} (cycle : year % 400 = other % 400) (month : Nat) :
    daysInMonth year month = daysInMonth other month := by
  unfold daysInMonth
  rw [isLeap_congr cycle]

theorem daysBeforeMonth_congr {year other : Nat} (cycle : year % 400 = other % 400)
    (month : Nat) : daysBeforeMonth year month = daysBeforeMonth other month := by
  induction month with
  | zero => rfl
  | succ month ih => rw [daysBeforeMonth, daysBeforeMonth, ih, daysInMonth_congr cycle]

/-- 400 years have 146097 days. -/
theorem daysBeforeYear_cycle {year other : Nat} {cycles : Int}
    (later : (other : Int) = year + 400 * cycles) :
    daysBeforeYear other = daysBeforeYear year + 146097 * cycles := by
  simp only [daysBeforeYear]
  omega

theorem Date.number_cycle {date other : Date} {cycles : Int}
    (year : (other.year : Int) = date.year + 400 * cycles) (month : other.month = date.month)
    (day : other.day = date.day) : other.number = date.number + 146097 * cycles := by
  have cycle : other.year % 400 = date.year % 400 := by omega
  rw [number, number, daysBeforeYear_cycle year, daysBeforeMonth_congr cycle, month, day]
  omega

/-- The number of a day in any year, also in one before the year 0. -/
def numberOf (year : Int) (month : Nat) (day : Int) : Int :=
  146097 * (year / 400) + daysBeforeYear (year % 400).toNat +
    daysBeforeMonth (year % 400).toNat month + day

theorem numberOf_date (date : Date) : numberOf date.year date.month date.day = date.number := by
  have later : (date.year : Int) =
      ((date.year % 400 : Int).toNat : Nat) + 400 * (date.year / 400 : Int) := by
    omega
  have cycle : date.year % 400 = (date.year % 400 : Int).toNat % 400 := by omega
  rw [numberOf, Date.number, daysBeforeYear_cycle later, daysBeforeMonth_congr cycle]
  omega

/-- The first day of the year 1. -/
def first : Date where
  year := 1
  month := 1
  day := 1
  month_mem := by decide
  day_mem := by decide

/-- The day with a number, in the first 400 years. -/
def dateAt (number : Int) : Date := first.after ((number - 1) % 146097).toNat

/-- The year of the day with a number. -/
def yearAt (number : Int) : Int := (dateAt number).year + 400 * ((number - 1) / 146097)

theorem number_dateAt (number : Int) :
    (dateAt number).number = number - 146097 * ((number - 1) / 146097) := by
  have start : first.number = 1 := by decide
  rw [dateAt, Date.number_after, start]
  omega

/-- A day is found again by its year, month and day. -/
theorem eq_number {number : Int} {date : Date} (year : yearAt number = date.year)
    (month : (dateAt number).month = date.month) (day : (dateAt number).day = date.day) :
    number = date.number := by
  have cycle : date.number = (dateAt number).number + 146097 * ((number - 1) / 146097) :=
    Date.number_cycle year.symm month.symm day.symm
  rw [cycle, number_dateAt]
  omega

end Calendar
