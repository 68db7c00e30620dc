import Mathlib.Tactic.IntervalCases
import Cube.Lib.Calendar
import Cube.Lib.Outcome
import Cube.Eco.Config

/-! # Dates and times

Durations between two date-times in units of time. The dates are those of `boost::gregorian`; the
times are read from their places in the text.
-/

namespace Cube.Eco

/-- Units of time. -/
inductive TimeUnitType where
  | second
  | minute
  | hour
  | day
  | week
  | month
  | season
  | year
  deriving DecidableEq, Repr

/-- What is used of `boost::gregorian`: a text that is not a date makes it throw, and `days s e`
are the days of `e - s`. -/
structure Gregorian where
  Date : Type
  fromSimpleString : CString → Option Date
  year : Date → Nat
  month : Date → Nat
  day : Date → Nat
  dayOfWeek : Date → Nat
  days : Date → Date → Int

/-- The value of an `int`. -/
def toInt32 (v : Int) : Int := v.bmod (2 ^ 32)

/-- The value fits into an `int`. -/
def FitsInt32 (v : Int) : Prop := -2 ^ 31 ≤ v ∧ v < 2 ^ 31

instance (v : Int) : Decidable (FitsInt32 v) := inferInstanceAs (Decidable (_ ∧ _))

theorem toInt32_of_fits {v : Int} (fits : FitsInt32 v) : toInt32 v = v := by
  obtain ⟨low, high⟩ := fits
  apply Int.bmod_eq_of_le <;> omega

/-- What is wrapped on the way makes no difference to what is added. -/
theorem toInt32_toInt32_add (v w : Int) : toInt32 (toInt32 v + w) = toInt32 (v + w) :=
  Int.bmod_add_bmod

theorem toInt32_toInt32_mul (v w : Int) : toInt32 (toInt32 v * w) = toInt32 (v * w) :=
  Int.bmod_mul_bmod

/-- `get_season`. -/
def getSeason (monthNum : Nat) : Nat := (monthNum - 1) / 3 + 1

/-! ## Reading numbers -/

/-- The number that the digits at the start of a text show. -/
def digits (text : CString) : Nat :=
  (text.takeWhile Char.isDigit).foldl (fun number c => 10 * number + (c.toNat - '0'.toNat)) 0

def atoi (text : CString) : Int :=
  match text.dropWhile Char.isWhitespace with
  | '-' :: text => -(digits text : Int)
  | '+' :: text => digits text
  | text => digits text

/-- `atoi(&text[pos])`. -/
def atoiAt (text : CString) (pos : Nat) : Outcome CString Int :=
  if pos ≤ text.length then .ok (atoi (text.drop pos)) else .fault

/-! ## Durations -/

section Duration

variable (boost : Gregorian) (s e : boost.Date) (sDt eDt : CString)

def durationSeason : Int :=
  let sm := toInt32 (boost.year s * 12 + boost.month s)
  let em := toInt32 (boost.year e * 12 + boost.month e)
  let m := toInt32 ((em - sm).tdiv 3)
  let seq : Int := boost.month s % 3
  toInt32 (m + (3 + (em - sm).tmod 3 + seq).tdiv 3 - 1)

def durationMonth : Int :=
  let em := toInt32 (boost.year e * 12 + boost.month e)
  let sm := toInt32 (boost.year s * 12 + boost.month s)
  toInt32 (em - sm)

def durationWeek : Int :=
  let d := toInt32 (boost.days s e)
  let seq : Int := boost.dayOfWeek s
  let seq := if seq ≠ 0 then seq - 1 else 7 - 1
  toInt32 (d.tdiv 7 + (7 + d.tmod 7 + seq).tdiv 7 - 1)

def durationHour : Outcome CString Int := do
  let d := toInt32 (boost.days s e)
  let h := toInt32 ((← atoiAt eDt 11) - (← atoiAt sDt 11))
  .ok (toInt32 (h + d * 24))

def durationMinute : Outcome CString Int := do
  let v ← durationHour boost s e sDt eDt
  let m := toInt32 ((← atoiAt eDt 14) - (← atoiAt sDt 14))
  let v := toInt32 (v * 60)
  .ok (toInt32 (v + m))

def durationSecond : Outcome CString Int := do
  let v ← durationMinute boost s e sDt eDt
  let s := toInt32 ((← atoiAt eDt 17) - (← atoiAt sDt 17))
  let v := toInt32 (v * 60)
  .ok (toInt32 (v + s))

end Duration

/-- `get_duration_unit`. -/
def getDurationUnit (boost : Gregorian) (sDt eDt : CString) (tType : TimeUnitType) :
    Outcome CString Int :=
  match boost.fromSimpleString sDt, boost.fromSimpleString eDt with
  | some s, some e =>
      match tType with
      | .year => .ok (toInt32 (boost.year e - boost.year s))
      | .season => .ok (durationSeason boost s e)
      | .month => .ok (durationMonth boost s e)
      | .week => .ok (durationWeek boost s e)
      | .day => .ok (toInt32 (boost.days s e))
      | .hour => durationHour boost s e sDt eDt
      | .minute => durationMinute boost s e sDt eDt
      | .second => durationSecond boost s e sDt eDt
  | _, _ => .reject ("get_duration_unit error time: ".toList ++ sDt ++ [' '] ++ eDt)

/-! ## Well-formed date-times -/

/-- A date that `boost::gregorian` has, and a time. -/
structure DateTime where
  date : Calendar.Date
  hour : Nat
  minute : Nat
  second : Nat
  year_mem : 1400 ≤ date.year ∧ date.year ≤ 9999
  hour_lt : hour < 24
  minute_lt : minute < 60
  second_lt : second < 60
  deriving DecidableEq

def digitChar (n : Nat) : Char := Char.ofNat ('0'.toNat + n)

/-- A number with leading zeros. -/
def padded : Nat → Nat → CString
  | 0, _ => []
  | width + 1, n => padded width (n / 10) ++ [digitChar (n % 10)]

/-- The text of the format `2018-01-31 09:30:00`. -/
def DateTime.text (dt : DateTime) : CString :=
  padded 4 dt.date.year ++ '-' :: padded 2 dt.date.month ++ '-' :: padded 2 dt.date.day ++
    ' ' :: padded 2 dt.hour ++ ':' :: padded 2 dt.minute ++ ':' :: padded 2 dt.second

namespace Gregorian

variable (boost : Gregorian)

/-- The date is the one that the calendar knows by its year, month and day. -/
structure Shows (d : boost.Date) (date : Calendar.Date) : Prop where
  year : boost.year d = date.year
  month : boost.month d = date.month
  day : boost.day d = date.day

/-- `boost::gregorian` reads the dates of well-formed texts and knows the calendar. -/
structure Lawful : Prop where
  fromSimpleString : ∀ dt : DateTime, ∃ d,
    boost.fromSimpleString dt.text = some d ∧ boost.Shows d dt.date
  dayOfWeek : ∀ d date, boost.Shows d date → boost.dayOfWeek d = date.weekday
  days : ∀ s e sDate eDate, boost.Shows s sDate → boost.Shows e eDate →
    boost.days s e = eDate.number - sDate.number

end Gregorian

end Cube.Eco
