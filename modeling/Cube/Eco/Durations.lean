import Cube.Eco.DurationUnit

/-! # Durations add up -/

namespace Cube.Eco

open Calendar (Date daysInMonth)

/-- **Additivity.** The durations from one date-time to a second and from there to a third add up
to the duration from the first to the third, in every unit and in any order. -/
theorem durations_add {boost : Gregorian} (lawful : boost.Lawful) (unit : TimeUnitType)
    (a b c : DateTime) (abFits : FitsInt32 (distance unit a b))
    (bcFits : FitsInt32 (distance unit b c)) (acFits : FitsInt32 (distance unit a c)) :
    ∃ ab bc ac, getDurationUnit boost a.text b.text unit = .ok ab ∧
      getDurationUnit boost b.text c.text unit = .ok bc ∧
      getDurationUnit boost a.text c.text unit = .ok ac ∧ ac = ab + bc := by
  refine ⟨distance unit a b, distance unit b c, distance unit a c,
    getDurationUnit_eq lawful a b abFits, getDurationUnit_eq lawful b c bcFits,
    getDurationUnit_eq lawful a c acFits, ?_⟩
  simp only [distance]
  omega

/-- From one day to the next, over the ends of months and years, it is one day. -/
theorem duration_next {boost : Gregorian} (lawful : boost.Lawful) {s e : DateTime}
    (following : e.date = s.date.next) :
    getDurationUnit boost s.text e.text .day = .ok 1 := by
  have one : distance .day s e = 1 := by
    rw [distance, DateTime.index, DateTime.index, following, Date.number_next]
    omega
  rw [getDurationUnit_eq lawful s e (one ▸ by decide), one]

/-! ## A calendar as the code expects it -/

/-- The date of a text of the format `2018-01-31`, and whatever follows. -/
def dateOfText : CString → Option Date
  | y₁ :: y₂ :: y₃ :: y₄ :: _ :: m₁ :: m₂ :: _ :: d₁ :: d₂ :: _ =>
      let year := digits [y₁, y₂, y₃, y₄]
      let month := digits [m₁, m₂]
      let day := digits [d₁, d₂]
      if inYear : 1 ≤ month ∧ month ≤ 12 then
        if inMonth : 1 ≤ day ∧ day ≤ daysInMonth year month then
          some ⟨year, month, day, inYear, inMonth⟩
        else none
      else none
  | _ => none

/-- A number with nothing behind it. -/
theorem digits_padded_nil (width : Nat) {n : Nat} (small : n < 10 ^ width) :
    digits (padded width n) = n := by
  rw [← List.append_nil (padded width n)]
  exact digits_padded width small (by rintro _ ⟨⟩)

theorem dateOfText_text (dt : DateTime) : dateOfText dt.text = some dt.date := by
  have year : digits (padded 4 dt.date.year) = dt.date.year :=
    digits_padded_nil 4 (Nat.lt_succ_of_le dt.year_mem.2)
  have month : digits (padded 2 dt.date.month) = dt.date.month :=
    digits_padded_nil 2 (Nat.lt_of_le_of_lt dt.date.month_mem.2 (by decide))
  have inMonth := dt.date.day_mem.2.trans (daysInMonth_le dt.date.year dt.date.month)
  have day : digits (padded 2 dt.date.day) = dt.date.day :=
    digits_padded_nil 2 (Nat.lt_of_le_of_lt inMonth (by decide))
  change (if inYear : 1 ≤ digits (padded 2 dt.date.month) ∧
      digits (padded 2 dt.date.month) ≤ 12 then
    if inMonth : 1 ≤ digits (padded 2 dt.date.day) ∧ digits (padded 2 dt.date.day) ≤
        daysInMonth (digits (padded 4 dt.date.year)) (digits (padded 2 dt.date.month)) then
      some (Date.mk (digits (padded 4 dt.date.year)) (digits (padded 2 dt.date.month))
        (digits (padded 2 dt.date.day)) inYear inMonth)
    else none
  else none) = some dt.date
  simp only [year, month, day]
  rw [dif_pos dt.date.month_mem, dif_pos dt.date.day_mem]

/-- The Gregorian calendar in the place of `boost::gregorian`. -/
def calendar : Gregorian where
  Date := Date
  fromSimpleString := dateOfText
  year := Date.year
  month := Date.month
  day := Date.day
  dayOfWeek := Date.weekday
  days s e := e.number - s.number

theorem calendar_lawful : calendar.Lawful where
  fromSimpleString dt := ⟨dt.date, dateOfText_text dt, ⟨rfl, rfl, rfl⟩⟩
  dayOfWeek d date shows := congrArg Date.weekday (Date.ext shows.year shows.month shows.day)
  days s e sDate eDate sShows eShows := by
    have start : s = sDate := Date.ext sShows.year sShows.month sShows.day
    have stop : e = eDate := Date.ext eShows.year eShows.month eShows.day
    rw [start, stop]
    rfl

/-- The last second of a leap year's February. -/
def endOfFebruary : DateTime where
  date := ⟨2016, 2, 29, by decide, by decide⟩
  hour := 23
  minute := 59
  second := 59
  year_mem := by decide
  hour_lt := by decide
  minute_lt := by decide
  second_lt := by decide

/-- The last second of March 2018. -/
def endOfMarch : DateTime where
  date := ⟨2018, 3, 31, by decide, by decide⟩
  hour := 23
  minute := 59
  second := 59
  year_mem := by decide
  hour_lt := by decide
  minute_lt := by decide
  second_lt := by decide

/-- The first second of April 2018. -/
def startOfApril : DateTime where
  date := ⟨2018, 4, 1, by decide, by decide⟩
  hour := 0
  minute := 0
  second := 0
  year_mem := by decide
  hour_lt := by decide
  minute_lt := by decide
  second_lt := by decide

/-- Forth and back, in seconds. -/
theorem durations_add_seconds :
    ∃ ab bc ac,
      getDurationUnit calendar startOfApril.text endOfFebruary.text .second = .ok ab ∧
      getDurationUnit calendar endOfFebruary.text endOfMarch.text .second = .ok bc ∧
      getDurationUnit calendar startOfApril.text endOfMarch.text .second = .ok ac ∧
      ac = ab + bc :=
  durations_add calendar_lawful .second startOfApril endOfFebruary endOfMarch (by decide)
    (by decide) (by decide)

end Cube.Eco

/-! ## Seasons

`getSeason` has the quarters of the calendar year. The duration in seasons counts, between the
months of two dates, those that 3 divides: March, which is in the first quarter, is the first month
of its second season.
-/

namespace Cube.Eco

/-- The quarters of the calendar up to the one of a date-time. -/
def DateTime.quarter (dt : DateTime) : Int := dt.date.year * 4 + getSeason dt.date.month

/-- The code is ahead of the calendar in the months that 3 divides. -/
theorem index_season (dt : DateTime) :
    dt.index .season = dt.quarter - 1 + if dt.date.month % 3 = 0 then 1 else 0 := by
  have month := dt.date.month_mem
  rw [DateTime.index, DateTime.quarter, getSeason]
  split <;> omega

/-- **Seasons.** The number of seasons between two dates is the difference of their quarters if and
only if both dates are in the last month of a quarter, or none of them is. -/
theorem season_iff {boost : Gregorian} (lawful : boost.Lawful) (s e : DateTime) :
    getDurationUnit boost s.text e.text .season = .ok (e.quarter - s.quarter) ↔
      (s.date.month % 3 = 0 ↔ e.date.month % 3 = 0) := by
  have sMonths := months_bounds s
  have eMonths := months_bounds e
  have fits : FitsInt32 (distance .season s e) := by
    rw [distance, DateTime.index, DateTime.index]
    exact ⟨by omega, by omega⟩
  rw [getDurationUnit_eq lawful s e fits, distance, index_season, index_season]
  constructor
  · intro same
    have equal := Outcome.ok.inj same
    by_cases sLast : s.date.month % 3 = 0 <;> by_cases eLast : e.date.month % 3 = 0
    · exact iff_of_true sLast eLast
    · rw [if_pos sLast, if_neg eLast] at equal
      omega
    · rw [if_neg sLast, if_pos eLast] at equal
      omega
    · exact iff_of_false sLast eLast
  · intro both
    rw [if_congr both rfl rfl]
    refine congrArg Outcome.ok ?_
    omega

/-- Between the end of a February and the first of an April is one season. -/
theorem season_counted :
    getDurationUnit calendar endOfFebruary.text startOfApril.text .season =
      .ok (startOfApril.quarter - endOfFebruary.quarter) :=
  (season_iff calendar_lawful endOfFebruary startOfApril).mpr (by decide)

/-- The first of April is in the next quarter, and no season is counted. -/
theorem season_missed :
    getDurationUnit calendar endOfMarch.text startOfApril.text .season ≠
      .ok (startOfApril.quarter - endOfMarch.quarter) := by
  decide

end Cube.Eco
