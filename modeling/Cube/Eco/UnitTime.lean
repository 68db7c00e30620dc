import Cube.Lib.Buffer
import Cube.Eco.DurationUnit
import Cube.Eco.Durations

/-! # Stepping by units of time

`get_unit_time` steps a date-time forward and makes the smaller parts of it zero. A step that
`boost` refuses makes it throw.
-/

namespace Cube.Eco

open Calendar (Date)

/-- What is used of `boost::gregorian` and `boost::posix_time` to step. The time of day is in
microseconds. -/
structure Boost extends Gregorian where
  addYears : Date → UInt32 → Option Date
  addMonths : Date → UInt32 → Option Date
  addDays : Date → UInt32 → Option Date
  dateToIso : Date → CString
  Time : Type
  timeFromString : CString → Option Time
  date : Time → Date
  timeOfDay : Time → Nat
  addHours : Time → UInt32 → Option Time
  addMinutes : Time → UInt32 → Option Time
  addSeconds : Time → UInt32 → Option Time
  timeToIso : Time → CString

/-- `reset_number(&dt[pos])`. -/
def resetNumber (dt : CString) (pos : Nat) : Outcome CString CString :=
  if pos ≤ dt.length then
    .ok (dt.take pos ++ (dt.drop pos).map fun c => if c ≤ '9' ∧ c > '0' then '0' else c)
  else .fault

/-- `format_date_time_unit`. -/
def formatDateTimeUnit (dt : CString) : TimeUnitType → Outcome CString CString
  | .second => .ok dt
  | .minute => resetNumber dt 16
  | .hour => resetNumber dt 13
  | .day => resetNumber dt 10
  | .week | .month | .season | .year => resetNumber dt 10

/-- `" 00:00:00"`. -/
def midnight : CString := [' ', '0', '0', ':', '0', '0', ':', '0', '0']

/-- The branch for dates. -/
def unitDate (boost : Boost) (startDt : CString)
    (step : boost.Date → Option boost.Date) : Outcome CString CString :=
  match boost.fromSimpleString startDt >>= step with
  | some s => .ok (boost.dateToIso s ++ midnight)
  | none => .reject ("get_unit_time error time: ".toList ++ startDt)

/-- The branch for times of day. -/
def unitTime (boost : Boost) (startDt : CString) (tType : TimeUnitType)
    (step : boost.Time → Option boost.Time) : Outcome CString CString :=
  match boost.timeFromString startDt >>= step with
  | some s => do
      let fmt ← Buffer.write (boost.timeToIso s) 10 ' '
      formatDateTimeUnit fmt tType
  | none => .reject ("get_unit_time error time: ".toList ++ startDt)

/-- `get_unit_time`. Its switch has no case for weeks and seasons. -/
def getUnitTime (boost : Boost) (startDt : CString) (tUnit : UInt32) (tType : TimeUnitType) :
    Outcome CString CString :=
  if tUnit = 0 then formatDateTimeUnit startDt tType
  else
    match tType with
    | .year => unitDate boost startDt fun s => boost.addYears s tUnit
    | .season => unitDate boost startDt some
    | .month => unitDate boost startDt fun s => boost.addMonths s tUnit
    | .week => unitDate boost startDt some
    | .day => unitDate boost startDt fun s => boost.addDays s tUnit
    | .hour => unitTime boost startDt .hour fun s => boost.addHours s tUnit
    | .minute => unitTime boost startDt .minute fun s => boost.addMinutes s tUnit
    | .second => unitTime boost startDt .second fun s => boost.addSeconds s tUnit

/-! ## Well-formed date-times -/

/-- The text of a date. -/
def dateText (date : Date) : CString :=
  padded 4 date.year ++ '-' :: padded 2 date.month ++ '-' :: padded 2 date.day

/-- The text of the format `2018-01-31T09:30:00`. -/
def DateTime.isoText (dt : DateTime) : CString :=
  dateText dt.date ++ 'T' :: padded 2 dt.hour ++ ':' :: padded 2 dt.minute ++
    ':' :: padded 2 dt.second

/-- The last second of the supported calendar. -/
def lastMoment : DateTime where
  date := ⟨9999, 12, 31, by decide, by decide⟩
  hour := 23
  minute := 59
  second := 59
  year_mem := by decide
  hour_lt := Nat.lt_succ_self _
  minute_lt := Nat.lt_succ_self _
  second_lt := Nat.lt_succ_self _

namespace Boost

variable (boost : Boost)

/-- The time is the one of a date-time, without fractions of a second. -/
structure ShowsTime (p : boost.Time) (dt : DateTime) : Prop where
  date : boost.Shows (boost.date p) dt.date
  timeOfDay : boost.timeOfDay p = ((dt.hour * 60 + dt.minute) * 60 + dt.second) * 1000000

/-- Dates are stepped by months as long as they stay in the supported calendar. -/
def StepsMonths (add : boost.Date → UInt32 → Option boost.Date) (months : Nat) : Prop :=
  ∀ d (dt : DateTime) (n : UInt32), boost.Shows d dt.date → n.toNat < 2 ^ 31 →
    dt.index .month + months * n.toNat ≤ lastMoment.index .month →
      ∃ d', add d n = some d' ∧ boost.Shows d' (dt.date.addMonths (months * n.toNat))

/-- Dates are stepped by days. -/
def StepsDays : Prop :=
  ∀ d (dt : DateTime) (n : UInt32), boost.Shows d dt.date → n.toNat < 2 ^ 31 →
    dt.index .day + n.toNat ≤ lastMoment.index .day →
      ∃ d' dt', boost.addDays d n = some d' ∧ boost.Shows d' (DateTime.date dt') ∧
        dt'.index .day = dt.index .day + n.toNat

/-- Times are stepped by a number of seconds. -/
def StepsSeconds (add : boost.Time → UInt32 → Option boost.Time) (seconds : Nat) : Prop :=
  ∀ p dt (n : UInt32), boost.ShowsTime p dt → n.toNat < 2 ^ 31 →
    dt.index .second + seconds * n.toNat ≤ lastMoment.index .second →
      ∃ p' dt', add p n = some p' ∧ boost.ShowsTime p' dt' ∧
        dt'.index .second = dt.index .second + seconds * n.toNat

/-- `boost` reads and writes well-formed texts and knows the calendar. -/
structure Lawful : Prop extends boost.toGregorian.Lawful where
  addYears : boost.StepsMonths boost.addYears 12
  addMonths : boost.StepsMonths boost.addMonths 1
  addDays : boost.StepsDays
  dateToIso : ∀ d (dt : DateTime), boost.Shows d dt.date → boost.dateToIso d = dateText dt.date
  timeFromString : ∀ dt : DateTime, ∃ p, boost.timeFromString dt.text = some p ∧
    boost.ShowsTime p dt
  addHours : boost.StepsSeconds boost.addHours 3600
  addMinutes : boost.StepsSeconds boost.addMinutes 60
  addSeconds : boost.StepsSeconds boost.addSeconds 1
  timeToIso : ∀ p dt, boost.ShowsTime p dt → boost.timeToIso p = dt.isoText

end Boost

end Cube.Eco

/-! # Stepping and counting

Stepping a number of units forward and counting the units that were stepped. Weeks and seasons are
counted but not stepped, and what does not fit into an `int` is not counted.
-/

namespace Cube.Eco

open Calendar (Date)

/-- A date-time without the parts that are smaller than a unit. -/
def DateTime.truncate (dt : DateTime) : TimeUnitType → DateTime
  | .second => dt
  | .minute => { dt with second := 0, second_lt := Nat.zero_lt_succ _ }
  | .hour => { dt with
      minute := 0
      second := 0
      minute_lt := Nat.zero_lt_succ _
      second_lt := Nat.zero_lt_succ _ }
  | _ => { dt with
      hour := 0
      minute := 0
      second := 0
      hour_lt := Nat.zero_lt_succ _
      minute_lt := Nat.zero_lt_succ _
      second_lt := Nat.zero_lt_succ _ }

/-- A number of units forward from a date-time stays in the supported calendar. -/
def Inside (unit : TimeUnitType) (s : DateTime) (count : Nat) : Prop :=
  s.index unit + count ≤ lastMoment.index unit

instance (unit : TimeUnitType) (s : DateTime) (count : Nat) : Decidable (Inside unit s count) :=
  inferInstanceAs (Decidable (_ ≤ _))

/-! ## Counting -/

theorem fits_toInt32 (v : Int) : FitsInt32 (toInt32 v) := by
  have low : -((2 ^ 32 : Nat) / 2 : Int) ≤ toInt32 v := Int.le_bmod (by decide)
  have high : toInt32 v < ((2 ^ 32 : Nat) + 1 : Int) / 2 := Int.bmod_lt (by decide)
  exact ⟨by omega, by omega⟩

section Counting

variable {boost : Gregorian}

/-- What is counted is the distance, wrapped if it does not fit. -/
theorem getDurationUnit_wraps (lawful : boost.Lawful) (s e : DateTime) (unit : TimeUnitType) :
    getDurationUnit boost s.text e.text unit = .ok (toInt32 (distance unit s e)) := by
  by_cases fits : FitsInt32 (distance unit s e)
  · rw [getDurationUnit_eq lawful s e fits, toInt32_of_fits fits]
  · obtain ⟨sd, sParsed, sShows⟩ := lawful.fromSimpleString s
    obtain ⟨ed, eParsed, eShows⟩ := lawful.fromSimpleString e
    have sNumber := number_bounds s
    have eNumber := number_bounds e
    have sMonths := months_bounds s
    have eMonths := months_bounds e
    have sYear := s.year_mem
    have eYear := e.year_mem
    have sHour := s.hour_lt
    have eHour := e.hour_lt
    simp only [getDurationUnit, sParsed, eParsed]
    cases unit with
    | minute => exact durationMinute_eq lawful sShows eShows
    | second => exact durationSecond_eq lawful sShows eShows
    | year | season | month | week | day | hour =>
        refine (fits ?_).elim
        rw [distance, DateTime.index, DateTime.index]
        exact ⟨by omega, by omega⟩

theorem fits_of_getDurationUnit {sDt eDt : CString} {unit : TimeUnitType} {v : Int}
    (counted : getDurationUnit boost sDt eDt unit = .ok v) : FitsInt32 v := by
  unfold getDurationUnit at counted
  split at counted
  next s e _ _ =>
    cases unit with
    | year | season | month | week | day =>
        rw [← Outcome.ok.inj counted]
        exact fits_toInt32 _
    | hour =>
        obtain ⟨eHour, _, counted⟩ := Outcome.bind_eq_ok.mp counted
        obtain ⟨sHour, _, counted⟩ := Outcome.bind_eq_ok.mp counted
        rw [← Outcome.ok.inj counted]
        exact fits_toInt32 _
    | minute | second =>
        obtain ⟨before, _, counted⟩ := Outcome.bind_eq_ok.mp counted
        obtain ⟨ePart, _, counted⟩ := Outcome.bind_eq_ok.mp counted
        obtain ⟨sPart, _, counted⟩ := Outcome.bind_eq_ok.mp counted
        rw [← Outcome.ok.inj counted]
        exact fits_toInt32 _
  next => cases counted

end Counting

/-! ## Making parts zero -/

/-- Digits of a text are made zero. -/
def zeroed (c : Char) : Char := if c ≤ '9' ∧ c > '0' then '0' else c

theorem zeroed_digitChar {n : Nat} (digit : n < 10) : zeroed (digitChar n) = '0' := by
  interval_cases n <;> rfl

theorem map_zeroed_padded (width n : Nat) : (padded width n).map zeroed = padded width 0 := by
  induction width generalizing n with
  | zero => rfl
  | succ width ih =>
      rw [padded, List.map_append, ih, List.map_singleton,
        zeroed_digitChar (Nat.mod_lt n (by decide))]
      rfl

section Texts

variable (dt : DateTime)

theorem length_dateText (date : Date) : (dateText date).length = 10 := by
  simp only [dateText, List.length_append, List.length_cons, length_padded]

theorem text_eq_append : dt.text = dateText dt.date ++ (' ' :: padded 2 dt.hour ++
    ':' :: padded 2 dt.minute ++ ':' :: padded 2 dt.second) := by
  simp only [DateTime.text, dateText, List.append_assoc]

theorem isoText_eq_append : dt.isoText = dateText dt.date ++ 'T' :: (padded 2 dt.hour ++
    ':' :: padded 2 dt.minute ++ ':' :: padded 2 dt.second) := by
  simp only [DateTime.isoText, List.append_assoc, List.cons_append]

theorem resetNumber_append (front back : CString) {pos : Nat} (at_front : pos = front.length) :
    resetNumber (front ++ back) pos = .ok (front ++ back.map zeroed) := by
  subst at_front
  rw [resetNumber, if_pos (by rw [List.length_append]; exact Nat.le_add_right ..),
    List.take_left, List.drop_left]
  rfl

/-- The parts that are smaller than a unit are made zero. -/
theorem formatDateTimeUnit_text (unit : TimeUnitType) :
    formatDateTimeUnit dt.text unit = .ok (dt.truncate unit).text := by
  have separator : zeroed ':' = ':' := rfl
  have blank : zeroed ' ' = ' ' := rfl
  have minute : resetNumber dt.text 16 = .ok (dt.truncate .minute).text := by
    rw [DateTime.text, resetNumber_append _ (':' :: padded 2 dt.second)
      (by simp only [List.length_append, List.length_cons, length_padded]), List.map_cons,
      separator, map_zeroed_padded]
    rfl
  have hour : resetNumber dt.text 13 = .ok (dt.truncate .hour).text := by
    rw [DateTime.text, List.append_assoc, resetNumber_append _ (':' :: padded 2 dt.minute ++ _)
      (by simp only [List.length_append, List.length_cons, length_padded]), List.map_append,
      List.map_cons, List.map_cons, separator, map_zeroed_padded, map_zeroed_padded,
      ← List.append_assoc]
    rfl
  have day : resetNumber dt.text 10 = .ok (dt.truncate .day).text := by
    rw [text_eq_append, resetNumber_append _ _ (length_dateText dt.date).symm, text_eq_append]
    simp only [List.map_append, List.map_cons, separator, blank, map_zeroed_padded]
    rfl
  cases unit with
  | second => rfl
  | minute => exact minute
  | hour => exact hour
  | day | week | month | season | year => exact day

/-- The `T` of the ISO format is overwritten. -/
theorem write_isoText : (Buffer.write dt.isoText 10 ' ' : Outcome CString CString) =
    .ok dt.text := by
  rw [isoText_eq_append, Buffer.write_append (length_dateText dt.date).symm, text_eq_append]
  rfl

end Texts

/-! ## Stepping -/

section Stepping

variable (s : DateTime)

/-- The month that a number of months leads to. -/
theorem month_reached {months : Nat}
    (inside : s.index .month + months ≤ lastMoment.index .month) :
    ∃ e : DateTime, e.date = s.date.addMonths months ∧
      e.index .month = s.index .month + months := by
  have reached := s.date.months_addMonths months
  have month := (s.date.addMonths months).month_mem
  have start := s.date.month_mem
  have year := s.year_mem
  have last : lastMoment.index .month = 119999 + 1 := rfl
  rw [DateTime.index, last] at inside
  refine ⟨{ s with
    date := s.date.addMonths months
    year_mem := ⟨by omega, by omega⟩ }, rfl, ?_⟩
  change ((s.date.addMonths months).year * 12 + (s.date.addMonths months).month : Int) =
    s.date.year * 12 + s.date.month + months
  omega

theorem text_truncate_day : (s.truncate .day).text = dateText s.date ++ midnight := by
  have start : ' ' :: padded 2 0 ++ ':' :: padded 2 0 ++ ':' :: padded 2 0 = midnight := rfl
  rw [text_eq_append, ← start]
  rfl

variable {boost : Boost} (lawful : boost.Lawful)

include lawful

/-- The date that a step leads to is written with the start of its day. -/
theorem unitDate_text {step : boost.Date → Option boost.Date} {d d' : boost.Date} {e : DateTime}
    (parsed : boost.fromSimpleString s.text = some d) (reached : step d = some d')
    (shows' : boost.Shows d' e.date) :
    unitDate boost s.text step = .ok (e.truncate .day).text := by
  have both : boost.fromSimpleString s.text >>= step = some d' := by
    rw [parsed]
    exact reached
  rw [unitDate, both, text_truncate_day, ← lawful.dateToIso d' e shows']

/-- The time that a step leads to is written without the parts that are smaller than a unit. -/
theorem unitTime_text {step : boost.Time → Option boost.Time} {p p' : boost.Time}
    {e : DateTime} (unit : TimeUnitType) (parsed : boost.timeFromString s.text = some p)
    (reached : step p = some p') (shows' : boost.ShowsTime p' e) :
    unitTime boost s.text unit step = .ok (e.truncate unit).text := by
  have both : boost.timeFromString s.text >>= step = some p' := by
    rw [parsed]
    exact reached
  rw [unitTime, both]
  simp only [lawful.timeToIso p' e shows', write_isoText, Outcome.ok_bind]
  exact formatDateTimeUnit_text e unit

/-- Stepping by months, or by years. -/
theorem months_stepped {add : boost.Date → UInt32 → Option boost.Date} {months : Nat}
    (steps : boost.StepsMonths add months) {count : UInt32} (small : count.toNat < 2 ^ 31)
    (inside : s.index .month + months * count.toNat ≤ lastMoment.index .month) :
    ∃ e, unitDate boost s.text (fun d => add d count) = .ok (DateTime.text e) ∧
      e.index .month = s.index .month + months * count.toNat := by
  obtain ⟨d, parsed, shows⟩ := lawful.fromSimpleString s
  obtain ⟨d', added, shows'⟩ := steps d s count shows small inside
  obtain ⟨e, date, reached⟩ := @month_reached s (months * count.toNat)
    (by push_cast; exact inside)
  rw [← date] at shows'
  refine ⟨e.truncate .day, unitDate_text s lawful parsed added shows', ?_⟩
  push_cast at reached
  exact reached

theorem days_stepped {count : UInt32} (small : count.toNat < 2 ^ 31)
    (inside : Inside .day s count.toNat) :
    ∃ e, unitDate boost s.text (fun d => boost.addDays d count) = .ok (DateTime.text e) ∧
      e.index .day = s.index .day + count.toNat := by
  obtain ⟨d, parsed, shows⟩ := lawful.fromSimpleString s
  obtain ⟨d', e, added, shows', reached⟩ := lawful.addDays d s count shows small inside
  exact ⟨e.truncate .day, unitDate_text s lawful parsed added shows', reached⟩

/-- Stepping by a number of seconds. -/
theorem seconds_stepped {add : boost.Time → UInt32 → Option boost.Time} {seconds : Nat}
    (steps : boost.StepsSeconds add seconds) (unit : TimeUnitType) {count : UInt32}
    (small : count.toNat < 2 ^ 31)
    (inside : s.index .second + seconds * count.toNat ≤ lastMoment.index .second) :
    ∃ e, unitTime boost s.text unit (fun p => add p count) =
        .ok (DateTime.text (DateTime.truncate e unit)) ∧
      e.index .second = s.index .second + seconds * count.toNat := by
  obtain ⟨p, parsed, shows⟩ := lawful.timeFromString s
  obtain ⟨p', e, added, shows', reached⟩ := steps p s count shows small inside
  exact ⟨e, unitTime_text s lawful unit parsed added shows', reached⟩

/-- What a step leads to, in every unit that is stepped. -/
theorem getUnitTime_eq {unit : TimeUnitType} (week : unit ≠ .week) (season : unit ≠ .season)
    {count : UInt32} (some : 1 ≤ count.toNat) (small : count.toNat < 2 ^ 31)
    (inside : Inside unit s count.toNat) :
    ∃ e, getUnitTime boost s.text count unit = .ok (DateTime.text e) ∧
      e.index unit = s.index unit + count.toNat := by
  have positive : count ≠ 0 := fun zero => by
    rw [zero] at some
    exact absurd some (by decide)
  have sMonth := s.date.month_mem
  have sMinute := s.minute_lt
  have sSecond := s.second_lt
  have last : lastMoment.date.number = 3652059 := by decide
  simp only [getUnitTime, if_neg positive]
  cases unit with
  | week => exact (week rfl).elim
  | season => exact (season rfl).elim
  | year =>
      obtain ⟨e, text, reached⟩ := months_stepped s lawful lawful.addYears small (by
        simp only [Inside, DateTime.index, lastMoment] at inside ⊢
        omega)
      have eMonth := e.date.month_mem
      refine ⟨e, text, ?_⟩
      simp only [DateTime.index] at reached ⊢
      omega
  | month =>
      obtain ⟨e, text, reached⟩ := months_stepped s lawful lawful.addMonths small (by
        rw [Inside] at inside
        omega)
      exact ⟨e, text, by omega⟩
  | day => exact days_stepped s lawful small inside
  | hour =>
      obtain ⟨e, text, reached⟩ := seconds_stepped s lawful lawful.addHours .hour small (by
        simp only [Inside, DateTime.index, last] at inside ⊢
        simp only [lastMoment] at inside ⊢
        omega)
      have eMinute := e.minute_lt
      have eSecond := e.second_lt
      refine ⟨e.truncate .hour, text, ?_⟩
      change (e.date.number * 24 + e.hour : Int) = s.date.number * 24 + s.hour + count.toNat
      simp only [DateTime.index] at reached
      omega
  | minute =>
      obtain ⟨e, text, reached⟩ := seconds_stepped s lawful lawful.addMinutes .minute small (by
        simp only [Inside, DateTime.index, last] at inside ⊢
        simp only [lastMoment] at inside ⊢
        omega)
      have eSecond := e.second_lt
      refine ⟨e.truncate .minute, text, ?_⟩
      change ((e.date.number * 24 + e.hour) * 60 + e.minute : Int) =
        (s.date.number * 24 + s.hour) * 60 + s.minute + count.toNat
      simp only [DateTime.index] at reached
      omega
  | second =>
      obtain ⟨e, text, reached⟩ := seconds_stepped s lawful lawful.addSeconds .second small (by
        simp only [Inside, DateTime.index, last] at inside ⊢
        simp only [lastMoment] at inside ⊢
        omega)
      exact ⟨e, text, by omega⟩

/-- Weeks and seasons are not stepped. -/
theorem getUnitTime_unstepped {unit : TimeUnitType} (skipped : unit = .week ∨ unit = .season)
    {count : UInt32} (some : 1 ≤ count.toNat) :
    getUnitTime boost s.text count unit = .ok (s.truncate .day).text := by
  have positive : count ≠ 0 := fun zero => by
    rw [zero] at some
    exact absurd some (by decide)
  obtain ⟨d, parsed, shows⟩ := lawful.fromSimpleString s
  rcases skipped with rfl | rfl
  · simp only [getUnitTime, if_neg positive]
    exact unitDate_text s lawful parsed rfl shows
  · simp only [getUnitTime, if_neg positive]
    exact unitDate_text s lawful parsed rfl shows

omit lawful in
/-- **Stepping and counting.** For a step that stays in the supported calendar, the units that are
counted up to the time it leads to are those that were stepped, if and only if the unit is not the
week or the season and their number fits into an `int`. -/
theorem unit_time_iff (lawful : boost.Lawful) (unit : TimeUnitType) (count : UInt32)
    (some : 1 ≤ count.toNat) (inside : Inside unit s count.toNat) :
    (∃ u, getUnitTime boost s.text count unit = .ok u ∧
      getDurationUnit boost.toGregorian s.text u unit = .ok count.toNat) ↔
      unit ≠ .week ∧ unit ≠ .season ∧ count.toNat < 2 ^ 31 := by
  constructor
  · rintro ⟨u, stepped, counted⟩
    have fits := fits_of_getDurationUnit counted
    have none : unit = .week ∨ unit = .season → False := by
      intro skipped
      rw [getUnitTime_unstepped s lawful skipped some] at stepped
      rw [← Outcome.ok.inj stepped, getDurationUnit_wraps lawful.toLawful] at counted
      have zero : distance unit s (s.truncate .day) = 0 := by
        rcases skipped with rfl | rfl <;> exact Int.sub_self _
      rw [zero] at counted
      have count_eq : toInt32 0 = count.toNat := Outcome.ok.inj counted
      rw [toInt32_of_fits (by decide)] at count_eq
      omega
    refine ⟨fun week => none (.inl week), fun season => none (.inr season), ?_⟩
    have high := fits.2
    omega
  · rintro ⟨week, season, small⟩
    obtain ⟨e, stepped, reached⟩ := getUnitTime_eq s lawful week season some small inside
    have far : distance unit s e = count.toNat := by
      rw [distance, reached]
      omega
    refine ⟨e.text, stepped, ?_⟩
    rw [getDurationUnit_eq lawful.toLawful s e (far ▸ ⟨by omega, by omega⟩), far]

end Stepping

/-! ## A calendar that is stepped -/

/-- The date and the second of its day that are a number of seconds later. -/
def laterTime (p : Date × Nat) (seconds : Nat) : Date × Nat :=
  (p.1.after ((p.2 + seconds) / 86400), (p.2 + seconds) % 86400)

/-- The Gregorian calendar and its times of day, in seconds, in the place of `boost`. -/
def boostCalendar : Boost where
  toGregorian := calendar
  addYears d n := some (Date.addMonths d (12 * n.toNat))
  addMonths d n := some (Date.addMonths d (1 * n.toNat))
  addDays d n := some (Date.after d n.toNat)
  dateToIso := dateText
  Time := Date × Nat
  timeFromString text :=
    (dateOfText text).map fun date =>
      (date, (digits (text.drop 11) * 60 + digits (text.drop 14)) * 60 + digits (text.drop 17))
  date := Prod.fst
  timeOfDay p := p.2 * 1000000
  addHours p n := some (laterTime p (3600 * n.toNat))
  addMinutes p n := some (laterTime p (60 * n.toNat))
  addSeconds p n := some (laterTime p (1 * n.toNat))
  timeToIso p := dateText p.1 ++ 'T' :: padded 2 (p.2 / 3600) ++ ':' :: padded 2 (p.2 / 60 % 60) ++
    ':' :: padded 2 (p.2 % 60)

theorem calendar_shows {d date : Date} : calendar.Shows d date ↔ d = date :=
  ⟨fun shows => Date.ext shows.year shows.month shows.day, fun same => same ▸ ⟨rfl, rfl, rfl⟩⟩

theorem year_le_of_number {date : Date} (inside : date.number ≤ lastMoment.date.number) :
    date.year ≤ 9999 := by
  have last : lastMoment.date.number = 3652059 := by decide
  have before := date.daysBeforeYear_lt
  rw [Calendar.daysBeforeYear] at before
  omega

/-- Some days after the date of a date-time that are still supported. -/
theorem after_year_mem (dt : DateTime) {days : Nat}
    (inside : dt.date.number + days ≤ lastMoment.date.number) :
    1400 ≤ (dt.date.after days).year ∧ (dt.date.after days).year ≤ 9999 := by
  refine ⟨dt.year_mem.1.trans (dt.date.year_le_after days), year_le_of_number ?_⟩
  rw [Date.number_after]
  exact inside

theorem boostCalendar_showsTime {p : Date × Nat} {dt : DateTime} :
    boostCalendar.ShowsTime p dt ↔
      p = (dt.date, (dt.hour * 60 + dt.minute) * 60 + dt.second) := by
  constructor
  · intro shows
    have time : p.2 * 1000000 = ((dt.hour * 60 + dt.minute) * 60 + dt.second) * 1000000 :=
      shows.timeOfDay
    exact Prod.ext (calendar_shows.mp shows.date) (Nat.eq_of_mul_eq_mul_right (by decide) time)
  · rintro rfl
    exact ⟨calendar_shows.mpr rfl, rfl⟩

theorem boostCalendar_seconds (seconds : Nat) : boostCalendar.StepsSeconds
    (fun p n => some (laterTime p (seconds * n.toNat))) seconds := by
  intro p dt n shows small inside
  have start := boostCalendar_showsTime.mp shows
  have hour := dt.hour_lt
  have minute := dt.minute_lt
  have second := dt.second_lt
  let time := (dt.hour * 60 + dt.minute) * 60 + dt.second + seconds * n.toNat
  have total : (time : Int) =
      (dt.hour * 60 + dt.minute) * 60 + dt.second + seconds * n.toNat := by
    simp only [time]
    push_cast
    rfl
  have days : dt.date.number + (time / 86400 : Nat) ≤ lastMoment.date.number := by
    simp only [DateTime.index] at inside
    have last : lastMoment.hour = 23 ∧ lastMoment.minute = 59 ∧ lastMoment.second = 59 :=
      ⟨rfl, rfl, rfl⟩
    simp only [last.1, last.2.1, last.2.2] at inside
    omega
  let later : DateTime :=
    { date := dt.date.after (time / 86400)
      hour := time % 86400 / 3600
      minute := time % 86400 / 60 % 60
      second := time % 86400 % 60
      year_mem := after_year_mem dt days
      hour_lt := by omega
      minute_lt := by omega
      second_lt := by omega }
  refine ⟨_, later, rfl, boostCalendar_showsTime.mpr ?_, ?_⟩
  · rw [start]
    refine Prod.ext rfl ?_
    change time % 86400 = (time % 86400 / 3600 * 60 + time % 86400 / 60 % 60) * 60 +
      time % 86400 % 60
    omega
  · change ((((dt.date.after (time / 86400)).number * 24 + (time % 86400 / 3600 : Nat)) * 60 +
      (time % 86400 / 60 % 60 : Nat)) * 60 + (time % 86400 % 60 : Nat) : Int) = _
    rw [Date.number_after, DateTime.index]
    omega

theorem boostCalendar_months (months : Nat) : boostCalendar.StepsMonths
    (fun d n => some (Date.addMonths d (months * n.toNat))) months := by
  intro d dt n shows small inside
  rw [calendar_shows.mp shows]
  exact ⟨_, rfl, calendar_shows.mpr rfl⟩

theorem boostCalendar_lawful : boostCalendar.Lawful where
  toLawful := calendar_lawful
  addYears := boostCalendar_months 12
  addMonths := boostCalendar_months 1
  addDays d dt n shows small inside := by
    refine ⟨_, { dt with
      date := dt.date.after n.toNat
      year_mem := after_year_mem dt inside }, rfl, ?_, Date.number_after ..⟩
    rw [calendar_shows.mp shows]
    exact calendar_shows.mpr rfl
  dateToIso d dt shows := by
    rw [calendar_shows.mp shows]
    rfl
  timeFromString dt := by
    refine ⟨_, ?_, boostCalendar_showsTime.mpr rfl⟩
    have hour : digits (dt.text.drop 11) = dt.hour := by
      change digits (padded 2 dt.hour ++ ':' :: padded 2 dt.minute ++ ':' :: padded 2 dt.second) = _
      rw [List.append_assoc]
      exact digits_padded 2 (Nat.lt_trans dt.hour_lt (by decide)) (by rintro _ ⟨⟩; rfl)
    have minute : digits (dt.text.drop 14) = dt.minute :=
      digits_padded 2 (Nat.lt_trans dt.minute_lt (by decide)) (by rintro _ ⟨⟩; rfl)
    have second : digits (dt.text.drop 17) = dt.second :=
      digits_padded_nil 2 (Nat.lt_trans dt.second_lt (by decide))
    change (dateOfText dt.text).map _ = _
    rw [dateOfText_text, Option.map_some, hour, minute, second]
    rfl
  addHours := boostCalendar_seconds 3600
  addMinutes := boostCalendar_seconds 60
  addSeconds := boostCalendar_seconds 1
  timeToIso p dt shows := by
    rw [boostCalendar_showsTime.mp shows]
    have hour := dt.hour_lt
    have minute := dt.minute_lt
    have second := dt.second_lt
    have parts : ((dt.hour * 60 + dt.minute) * 60 + dt.second) / 3600 = dt.hour ∧
        ((dt.hour * 60 + dt.minute) * 60 + dt.second) / 60 % 60 = dt.minute ∧
        ((dt.hour * 60 + dt.minute) * 60 + dt.second) % 60 = dt.second := by omega
    change dateText dt.date ++ 'T' :: padded 2 (_ / 3600) ++ ':' :: padded 2 (_ / 60 % 60) ++
      ':' :: padded 2 (_ % 60) = _
    rw [parts.1, parts.2.1, parts.2.2]
    rfl

/-- A month after the last day of February is the last day of March. -/
theorem unit_time_month :
    (∃ u, getUnitTime boostCalendar endOfFebruary.text 1 .month = .ok u ∧
      getDurationUnit calendar endOfFebruary.text u .month = .ok 1) ↔
      TimeUnitType.month ≠ .week ∧ TimeUnitType.month ≠ .season ∧ 1 < 2 ^ 31 :=
  unit_time_iff endOfFebruary boostCalendar_lawful .month 1 (by decide) (by decide)

/-- A week after the end of March is the same day. -/
theorem unit_time_not_stepped :
    ¬ ∃ u, getUnitTime boostCalendar endOfMarch.text 1 .week = .ok u ∧
      getDurationUnit calendar endOfMarch.text u .week = .ok 1 := by
  rintro ⟨u, stepped, counted⟩
  rw [getUnitTime_unstepped endOfMarch boostCalendar_lawful (.inl rfl) (by decide)] at stepped
  rw [← Outcome.ok.inj stepped] at counted
  exact absurd counted (by decide)

end Cube.Eco
