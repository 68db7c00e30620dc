import Cube.Lib.Calendar
import Cube.Base.Version

/-! # Work days

`comm_holiday`, with `string_to_datestamp` of `util.cpp`. A `time_t` counts the seconds since the
start of 1970, and the time zone is a fixed number of seconds. A search for a work day that goes
beyond the greatest distance to one would never end, and faults.
-/

namespace Cube.CtpTrade

open Calendar Decimal Cube.Base

/-! ## The C library -/

/-- `struct tm`. -/
structure Tm where
  year : Int
  mon : Int
  mday : Int
  hour : Int
  min : Int
  sec : Int
  wday : Int
  deriving DecidableEq, Repr

def Tm.zero : Tm := ⟨0, 0, 0, 0, 0, 0, 0⟩

/-- The number of the first of January 1970. -/
def epoch : Int := 719163

/-- The year of a day fits into `tm_year`, which is an `int`. -/
def Representable (number : Int) : Prop :=
  -2 ^ 31 ≤ yearAt number - 1900 ∧ yearAt number - 1900 < 2 ^ 31

instance (number : Int) : Decidable (Representable number) := inferInstanceAs (Decidable (_ ∧ _))

/-- The parts of a format of `sscanf`. -/
inductive Directive where
  | int (width : Option Nat)
  | literal (c : UInt8)
  | blank

/-- A number in front of a text, of so many characters at most. -/
def scanInt (width : Option Nat) (text : List UInt8) : Option (Int × List UInt8) :=
  let text := text.dropWhile isSpace
  let field := text.take (width.getD text.length)
  let sign := if field.head? = some 45 ∨ field.head? = some 43 then 1 else 0
  let digits := (field.drop sign).takeWhile isDigit
  if digits = [] then none
  else
    some (if field.head? = some 45 then -digitsValue digits else digitsValue digits,
      text.drop (sign + digits.length))

/-- `sscanf`: the values up to the first part that does not fit. -/
def sscanf : List Directive → List UInt8 → List Int
  | [], _ => []
  | .int width :: format, text =>
      match scanInt width text with
      | some (value, text) => value :: sscanf format text
      | none => []
  | .literal c :: format, text =>
      if text.head? = some c then sscanf format text.tail else []
  | .blank :: format, text => sscanf format (text.dropWhile isSpace)

/-- `%d-%d-%d %02d:%02d:%02d` -/
def dateFormat : List Directive :=
  [.int none, .literal 45, .int none, .literal 45, .int none, .blank, .int (some 2), .literal 58,
    .int (some 2), .literal 58, .int (some 2)]

section Zone

-- the seconds by which the local time is ahead
variable (offset : Int)

/-- The number of the local day. -/
def dayOf (t : Int) : Int := (t + offset) / (24 * 3600) + epoch

def secondOf (t : Int) : Int := (t + offset) % (24 * 3600)

/-- `localtime`, which has no result for a year that is no `int`. -/
def localtime (t : Int) : Option Tm :=
  let number := dayOf offset t
  if Representable number then
    some
      { year := yearAt number - 1900
        mon := (dateAt number).month - 1
        mday := (dateAt number).day
        hour := secondOf offset t / 3600
        min := secondOf offset t % 3600 / 60
        sec := secondOf offset t % 60
        wday := number % 7 }
  else none

/-- `localtime_r` into a cleared structure. -/
def localtimeR (t : Int) : Tm := (localtime offset t).getD .zero

/-- `mktime`. -/
def mktime (tm : Tm) : Int :=
  (numberOf (tm.year + 1900 + tm.mon / 12) ((tm.mon % 12).toNat + 1) tm.mday - epoch) *
    (24 * 3600) + tm.hour * 3600 + tm.min * 60 + tm.sec - offset

/-- `util::string_to_datestamp` -/
def stringToDatestamp (str : List UInt8) : Int :=
  match sscanf dateFormat str with
  | year :: mon :: mday :: time =>
      mktime offset
        { Tm.zero with
          year := year - 1900
          mon := mon - 1
          mday := mday
          hour := time.getD 0 0
          min := time.getD 1 0
          sec := time.getD 2 0 }
  | _ => 0

/-! ## Holidays -/

variable (holidaysvec : List (List UInt8))

def isholiday (tdate : Int) : Bool :=
  match localtime offset tdate with
  | none => false
  | some timeinfo =>
      if timeinfo.wday = 0 ∨ timeinfo.wday = 6 then true
      else holidaysvec.any fun holiday => stringToDatestamp offset holiday = tdate

/-- No work day is further away. -/
def distance : Nat := 7 * (holidaysvec.length + 1)

/-- The loop of `get_next_work_day` and `get_last_work_day`. -/
def skipHolidays (step : Int) : Nat → Int → Outcome Empty Int
  | 0, _ => .fault
  | steps + 1, day =>
      if isholiday offset holidaysvec day then skipHolidays step steps (day + step) else return day

def getNextWorkDay (tdate : Int) : Outcome Empty Int :=
  skipHolidays offset holidaysvec (24 * 3600) (distance holidaysvec) (tdate + 24 * 3600)

def getLastWorkDay (tdate : Int) : Outcome Empty Int :=
  skipHolidays offset holidaysvec (-(24 * 3600)) (distance holidaysvec) (tdate - 24 * 3600)

/-- The loop of `add_work_days`, for as many more work days. -/
def countWorkDays : Nat → Int → Nat → Outcome Empty Int
  | 0, _, _ => .fault
  | steps + 1, day, ndays =>
      let day := day + 24 * 3600
      let ndays := if isholiday offset holidaysvec day then ndays else ndays - 1
      if ndays > 0 then countWorkDays steps day ndays else return day

def addWorkDays (tdate : Int) (ndays : Int) : Outcome Empty Int :=
  if ndays ≤ 0 then return tdate
  else countWorkDays offset holidaysvec (ndays.toNat * distance holidaysvec) tdate ndays.toNat

end Zone

/-- `%02d`, for a number of two digits. -/
def twoDigits (n : Nat) : List UInt8 := [digit (n / 10), digit n]

/-- `%04d`; a number that takes more than four characters does not fit into the array. -/
def fourDigits (n : Int) : Outcome Empty (List UInt8) :=
  if 0 ≤ n ∧ n < 10000 then
    return [digit (n.toNat / 1000), digit (n.toNat / 100), digit (n.toNat / 10), digit n.toNat]
  else if -1000 < n ∧ n < 0 then
    return [45, digit (n.natAbs / 100), digit (n.natAbs / 10), digit n.natAbs]
  else .fault

/-- `%04d-%02d-%02d` -/
def dateText (year : Int) (month day : Nat) : Outcome Empty (List UInt8) := do
  return (← fourDigits year) ++ 45 :: twoDigits month ++ 45 :: twoDigits day

/-- `get_trade_day`, where `time(NULL)` returns `tmNow`. -/
def getTradeDay (offset : Int) (holidaysvec : List (List UInt8)) (tmNow : Int) :
    Outcome Empty (List UInt8) := do
  let curTime := localtimeR offset tmNow
  let curTime ←
    if curTime.hour < 6 then do
      let yesterday ← getLastWorkDay offset holidaysvec tmNow
      pure (localtimeR offset yesterday)
    else pure curTime
  if curTime.year = 0 then return []
  else dateText (curTime.year + 1900) (curTime.mon + 1).toNat curTime.mday.toNat

/-! ## Days off -/

/-- A holiday as it is listed: `YYYY-MM-DD`. -/
def holidayText (date : Date) : List UInt8 :=
  [digit (date.year / 1000), digit (date.year / 100), digit (date.year / 10), digit date.year] ++
    45 :: twoDigits date.month ++ 45 :: twoDigits date.day

/-- A Saturday or a Sunday. -/
def Weekend (number : Int) : Prop := number % 7 = 6 ∨ number % 7 = 0

/-- A Saturday, a Sunday or a listed day. -/
def Off (holidays : List Date) (number : Int) : Prop :=
  Weekend number ∨ ∃ date ∈ holidays, date.number = number

/-- The nearest work day in a direction is so many days away. -/
structure Nearest (holidays : List Date) (direction number : Int) (days : Nat) : Prop where
  pos : 0 < days
  work : ¬ Off holidays (number + direction * days)
  off : ∀ between : Nat, 0 < between → between < days → Off holidays (number + direction * between)

/-- `get_next_work_day`, so many times. -/
def nextWorkDays (offset : Int) (holidaysvec : List (List UInt8)) :
    Nat → Int → Outcome Empty Int
  | 0, t => return t
  | n + 1, t => do
      let t ← getNextWorkDay offset holidaysvec t
      nextWorkDays offset holidaysvec n t

/-- The work days around an instant are the right ones. -/
structure Right (offset : Int) (holidays : List Date) (t : Int) : Prop where
  today : isholiday offset (holidays.map holidayText) t = true ↔ Off holidays (dayOf offset t)
  next : ∃ days, Nearest holidays 1 (dayOf offset t) days ∧
    getNextWorkDay offset (holidays.map holidayText) t = .ok (t + days * (24 * 3600))
  last : ∃ days, Nearest holidays (-1) (dayOf offset t) days ∧
    getLastWorkDay offset (holidays.map holidayText) t = .ok (t - days * (24 * 3600))
  add : ∀ n : Nat, 0 < n → addWorkDays offset (holidays.map holidayText) t n =
    nextWorkDays offset (holidays.map holidayText) n t
  trade : secondOf offset t / 3600 < 6 → ∀ date ∈ holidays,
    getTradeDay offset (holidays.map holidayText) t ≠ .ok (holidayText date)

/-- A day off that is seen from an instant: its year is an `int`, and it is a Saturday or a Sunday,
or the instant is the start of a day. -/
def Visible (offset t number : Int) : Prop :=
  Representable number ∧ (Weekend number ∨ secondOf offset t = 0)

/-- The day of an instant, and every day that is reached from it over days off alone, is seen when it
is a day off. -/
def Seen (offset : Int) (holidays : List Date) (t : Int) : Prop :=
  ∀ days : Int,
    (∀ between : Int, (0 < between ∧ between < days) ∨ (days < between ∧ between < 0) →
      Off holidays (dayOf offset t + between)) →
    Off holidays (dayOf offset t + days) → Visible offset t (dayOf offset t + days)

/-! ## Texts of dates -/

/-- The number that digits show, up to a character that is none. -/
theorem scanInt_digits {digits : List UInt8} (nonempty : digits ≠ [])
    (plain : ∀ c ∈ digits, isDigit c = true) {rest : List UInt8}
    (ends : ∀ c ∈ rest.head?, isDigit c = false) :
    scanInt none (digits ++ rest) = some ((digitsValue digits : Int), rest) := by
  have behind : rest.takeWhile isDigit = [] := by
    cases rest with
    | nil => rfl
    | cons c rest => exact List.takeWhile_cons_of_neg (by simp [ends c rfl])
  have front : (digits ++ rest).takeWhile isDigit = digits := by
    rw [List.takeWhile_append_of_pos plain, behind, List.append_nil]
  cases digits with
  | nil => exact absurd rfl nonempty
  | cons d digits =>
      obtain ⟨solid, positive, unsigned⟩ := apart_of_isDigit (plain d List.mem_cons_self)
      rw [List.cons_append] at front ⊢
      have start : (d :: (digits ++ rest)).dropWhile isSpace = d :: (digits ++ rest) :=
        List.dropWhile_cons_of_neg (by simp [solid])
      have behind : (d :: (digits ++ rest)).drop (d :: digits).length = rest := by simp
      simp only [scanInt, start, Option.getD_none, List.take_length, List.head?_cons,
        Option.some.injEq, positive, unsigned, or_self, if_false, List.drop_zero, front,
        reduceCtorEq, Nat.zero_add, behind]

/-- The fields of a listed day. -/
theorem sscanf_dateText {year month day : Nat} (inYear : year < 10000) (inMonth : month < 100)
    (inDay : day < 100) :
    sscanf dateFormat ([digit (year / 1000), digit (year / 100), digit (year / 10), digit year] ++
      45 :: twoDigits month ++ 45 :: twoDigits day) = [(year : Int), (month : Int), (day : Int)] := by
  have first : digitsValue [digit (year / 1000), digit (year / 100), digit (year / 10), digit year] =
      year := by
    simp only [digitsValue, List.foldl_cons, List.foldl_nil, digit_toNat]
    omega
  have pair : ∀ n < 100, digitsValue (twoDigits n) = n := by
    intro n small
    simp only [digitsValue, twoDigits, List.foldl_cons, List.foldl_nil, digit_toNat]
    omega
  have pair_plain : ∀ n, ∀ c ∈ twoDigits n, isDigit c = true := by
    simp [twoDigits, isDigit_digit]
  have dash : isDigit 45 = false := by decide
  rw [List.append_assoc, dateFormat, sscanf,
    scanInt_digits (by simp) (by simp [isDigit_digit]) (by simp [dash]), first]
  simp only [List.cons_append, sscanf, List.head?_cons, if_true, List.tail_cons]
  rw [scanInt_digits (by simp [twoDigits]) (pair_plain month) (by simp [dash]), pair month inMonth]
  simp only [List.head?_cons, if_true, List.tail_cons]
  rw [← List.append_nil (twoDigits day),
    scanInt_digits (by simp [twoDigits]) (pair_plain day) (by simp), pair day inDay]
  rfl

theorem stringToDatestamp_holidayText (offset : Int) {date : Date} (short : date.year < 10000) :
    stringToDatestamp offset (holidayText date) =
      (date.number - epoch) * (24 * 3600) - offset := by
  have inMonth := date.month_mem
  have inDay := date.day_mem.2.trans (daysInMonth_le date.year date.month)
  rw [stringToDatestamp, holidayText, sscanf_dateText short (by omega) (by omega)]
  have cancel : (date.year : Int) - 1900 + 1900 + (date.month - 1 : Int) / 12 = date.year := by omega
  have month : ((date.month - 1 : Int) % 12).toNat + 1 = date.month := by omega
  simp only [mktime, cancel, month, numberOf_date, List.getD_nil]
  omega

/-! ## Instants and their days -/

theorem dayOf_add (offset t days : Int) :
    dayOf offset (t + days * (24 * 3600)) = dayOf offset t + days := by
  rw [dayOf, dayOf]
  omega

theorem secondOf_add (offset t days : Int) :
    secondOf offset (t + days * (24 * 3600)) = secondOf offset t := by
  rw [secondOf, secondOf]
  omega

section Zone

variable {offset : Int} {holidays : List Date} (short : ∀ date ∈ holidays, date.year < 10000)
include short

/-- The days off that the code sees: a listed day only at its start. -/
theorem isholiday_iff (t : Int) :
    isholiday offset (holidays.map holidayText) t = true ↔
      Off holidays (dayOf offset t) ∧ Visible offset t (dayOf offset t) := by
  have listed : ((holidays.map holidayText).any fun holiday =>
      stringToDatestamp offset holiday = t) = true ↔
        (∃ date ∈ holidays, date.number = dayOf offset t) ∧ secondOf offset t = 0 := by
    simp only [List.any_map, List.any_eq_true, Function.comp_apply, decide_eq_true_eq]
    constructor
    · rintro ⟨date, among, same⟩
      rw [stringToDatestamp_holidayText offset (short date among)] at same
      refine ⟨⟨date, among, ?_⟩, ?_⟩
      · rw [dayOf]
        omega
      · rw [secondOf]
        omega
    · rintro ⟨⟨date, among, same⟩, start⟩
      refine ⟨date, among, ?_⟩
      rw [stringToDatestamp_holidayText offset (short date among), same, dayOf]
      rw [secondOf] at start
      omega
  by_cases fits : Representable (dayOf offset t)
  · have weekend : (dayOf offset t % 7 = 0 ∨ dayOf offset t % 7 = 6) ↔ Weekend (dayOf offset t) :=
      or_comm
    simp only [isholiday, localtime, if_pos fits]
    by_cases resting : Weekend (dayOf offset t)
    · rw [if_pos (weekend.mpr resting)]
      simp [resting, Off, Visible, fits]
    · rw [if_neg (mt weekend.mp resting), listed, Off, Visible]
      simp [resting, fits]
  · simp [isholiday, localtime, fits, Visible]

/-- The same as many days away, where the time of the day is the same. -/
theorem isholiday_add (t days : Int) :
    isholiday offset (holidays.map holidayText) (t + days * (24 * 3600)) = true ↔
      Off holidays (dayOf offset t + days) ∧ Visible offset t (dayOf offset t + days) := by
  rw [isholiday_iff short, dayOf_add, Visible, Visible, secondOf_add]

end Zone

/-! ## The search for a work day -/

/-- There is a Wednesday that is not listed. -/
theorem exists_work (holidays : List Date) (number : Int) {direction : Int}
    (forward : direction = 1 ∨ direction = -1) :
    ∃ days : Nat, 0 < days ∧ days ≤ 7 * (holidays.length + 1) ∧
      ¬ Off holidays (number + direction * days) := by
  obtain ⟨first, pos, week, wednesday⟩ :
      ∃ first : Nat, 0 < first ∧ first ≤ 7 ∧ (number + direction * first) % 7 = 3 := by
    rcases forward with rfl | rfl
    · exact ⟨((2 - number) % 7).toNat + 1, by omega, by omega, by omega⟩
    · exact ⟨((number - 4) % 7).toNat + 1, by omega, by omega, by omega⟩
  by_contra! none
  have listed : ∀ week ≤ holidays.length,
      number + direction * (first + 7 * week : Nat) ∈ holidays.map Date.number := by
    intro week inside
    rcases none (first + 7 * week) (by omega) (by omega) with weekend | ⟨date, among, same⟩
    · rw [Weekend] at weekend
      rcases forward with rfl | rfl <;> omega
    · exact List.mem_map.mpr ⟨date, among, same⟩
  -- more Wednesdays than holidays
  have different : ((List.range (holidays.length + 1)).map
      fun week => number + direction * (first + 7 * week : Nat)).Nodup := by
    refine List.Nodup.map (fun one other same => ?_) List.nodup_range
    rcases forward with rfl | rfl <;> omega
  have among : ((List.range (holidays.length + 1)).map
      fun week => number + direction * (first + 7 * week : Nat)) ⊆ holidays.map Date.number := by
    intro number among
    obtain ⟨week, inside, rfl⟩ := List.mem_map.mp among
    exact listed week (Nat.lt_succ_iff.mp (List.mem_range.mp inside))
  have few := (different.subperm among).length_le
  simp at few

theorem exists_nearest (holidays : List Date) (number : Int) {direction : Int}
    (forward : direction = 1 ∨ direction = -1) :
    ∃ days, Nearest holidays direction number days ∧ days ≤ 7 * (holidays.length + 1) := by
  classical
  have some : ∃ days : Nat, 0 < days ∧ ¬ Off holidays (number + direction * days) := by
    obtain ⟨days, pos, _, work⟩ := exists_work holidays number forward
    exact ⟨days, pos, work⟩
  refine ⟨Nat.find some, ⟨(Nat.find_spec some).1, (Nat.find_spec some).2, ?_⟩, ?_⟩
  · intro between pos before
    by_contra work
    exact Nat.find_min some before ⟨pos, work⟩
  · obtain ⟨days, pos, bounded, work⟩ := exists_work holidays number forward
    exact (Nat.find_min' some ⟨pos, work⟩).trans bounded

/-- The loop stops at the first day that is no holiday. -/
theorem skipHolidays_eq {offset : Int} {holidaysvec : List (List UInt8)} {step day : Int}
    {steps days : Nat}
    (before : ∀ i < days, isholiday offset holidaysvec (day + i * step) = true)
    (stops : isholiday offset holidaysvec (day + days * step) = false) (enough : days < steps) :
    skipHolidays offset holidaysvec step steps day = .ok (day + days * step) := by
  induction days generalizing steps day with
  | zero =>
      cases steps with
      | zero => exact absurd enough (Nat.not_lt_zero _)
      | succ steps =>
          have here : isholiday offset holidaysvec day = false := by simpa using stops
          simp [skipHolidays, here]
  | succ days ih =>
      cases steps with
      | zero => exact absurd enough (Nat.not_lt_zero _)
      | succ steps =>
          have here : isholiday offset holidaysvec day = true := by
            simpa using before 0 (Nat.succ_pos days)
          have shift : ∀ i : Nat, day + step + i * step = day + (i + 1 : Nat) * step := by
            intro i
            push_cast
            rw [Int.add_mul, Int.one_mul]
            omega
          rw [skipHolidays, if_pos here, ih, shift]
          · intro i inside
            rw [shift]
            exact before (i + 1) (Nat.succ_lt_succ inside)
          · rw [shift]
            exact stops
          · omega

/-- The loop of a search in a direction. -/
theorem search_eq {offset : Int} {holidaysvec : List (List UInt8)} {direction t : Int} {days : Nat}
    (pos : 0 < days) (near : days ≤ distance holidaysvec)
    (before : ∀ i : Nat, 0 < i → i < days →
      isholiday offset holidaysvec (t + direction * i * (24 * 3600)) = true)
    (stops : isholiday offset holidaysvec (t + direction * days * (24 * 3600)) = false) :
    skipHolidays offset holidaysvec (direction * (24 * 3600)) (distance holidaysvec)
        (t + direction * (24 * 3600)) = .ok (t + direction * days * (24 * 3600)) := by
  have shift : ∀ i : Nat, t + direction * (24 * 3600) + i * (direction * (24 * 3600)) =
      t + direction * (i + 1 : Nat) * (24 * 3600) := by
    intro i
    push_cast
    rw [Int.mul_add, Int.mul_one, ← Int.mul_assoc, Int.mul_comm (i : Int) direction]
    omega
  obtain ⟨days, rfl⟩ := Nat.exists_eq_add_one_of_ne_zero pos.ne'
  rw [← shift days] at stops ⊢
  refine skipHolidays_eq (fun i inside => ?_) stops near
  rw [shift]
  exact before (i + 1) (Nat.succ_pos i) (Nat.succ_lt_succ inside)

section Search

variable {offset : Int} {holidays : List Date} (short : ∀ date ∈ holidays, date.year < 10000)
include short

/-- A day that is no holiday for the code is not far, in either direction. -/
theorem exists_stop {direction : Int} (forward : direction = 1 ∨ direction = -1) (t : Int) :
    ∃ days : Nat, 0 < days ∧ days ≤ distance (holidays.map holidayText) ∧
      (∀ i : Nat, 0 < i → i < days → isholiday offset (holidays.map holidayText)
        (t + direction * i * (24 * 3600)) = true) ∧
      isholiday offset (holidays.map holidayText) (t + direction * days * (24 * 3600)) = false := by
  have some : ∃ days : Nat, 0 < days ∧ isholiday offset (holidays.map holidayText)
      (t + direction * days * (24 * 3600)) = false := by
    obtain ⟨days, pos, _, work⟩ := exists_work holidays (dayOf offset t) forward
    refine ⟨days, pos, ?_⟩
    rw [← Bool.not_eq_true, isholiday_add short]
    exact fun holiday => work holiday.1
  refine ⟨Nat.find some, (Nat.find_spec some).1, ?_, ?_, (Nat.find_spec some).2⟩
  · obtain ⟨days, pos, near, work⟩ := exists_work holidays (dayOf offset t) forward
    rw [distance, List.length_map]
    refine (Nat.find_min' some ⟨pos, ?_⟩).trans near
    rw [← Bool.not_eq_true, isholiday_add short]
    exact fun holiday => work holiday.1
  · intro i pos inside
    have passed := Nat.find_min some inside
    simpa [pos] using passed

/-- A search finds the nearest work day exactly if every day off on the way is seen. -/
theorem search_iff {direction : Int} (forward : direction = 1 ∨ direction = -1) (t : Int) :
    (∃ days, Nearest holidays direction (dayOf offset t) days ∧
      skipHolidays offset (holidays.map holidayText) (direction * (24 * 3600))
        (distance (holidays.map holidayText)) (t + direction * (24 * 3600)) =
          .ok (t + direction * days * (24 * 3600))) ↔
      ∀ days : Nat, 0 < days →
        (∀ between : Nat, 0 < between → between < days →
          Off holidays (dayOf offset t + direction * between)) →
        Off holidays (dayOf offset t + direction * days) →
          Visible offset t (dayOf offset t + direction * days) := by
  obtain ⟨stop, pos, near, before, stops⟩ := exists_stop short forward t
  have answer := search_eq pos near before stops
  constructor
  · rintro ⟨days, nearest, found⟩ reached reached_pos way off
    have within : reached < days := by
      by_contra beyond
      rcases Nat.lt_or_eq_of_le (Nat.le_of_not_lt beyond) with less | rfl
      · exact nearest.work (way days nearest.pos less)
      · exact nearest.work off
    have same : stop = days := by
      have equal := Outcome.ok.inj (answer.symm.trans found)
      rcases forward with rfl | rfl <;> omega
    exact ((isholiday_add short _ _).mp (before reached reached_pos (same ▸ within))).2
  · intro seen
    obtain ⟨days, nearest, near⟩ := exists_nearest holidays (dayOf offset t) forward
    refine ⟨days, nearest, search_eq nearest.pos (by simpa [distance] using near) ?_ ?_⟩
    · intro i pos inside
      rw [isholiday_add short]
      have off := nearest.off i pos inside
      exact ⟨off, seen i pos (fun between low high => nearest.off between low (high.trans inside))
        off⟩
    · rw [← Bool.not_eq_true, isholiday_add short]
      exact fun holiday => nearest.work holiday.1

/-! ## More work days -/

omit short in
/-- The loop over several work days passes the holidays in front of the next one. -/
theorem countWorkDays_eq {holidaysvec : List (List UInt8)} {n steps days : Nat} {t : Int}
    (pos : 0 < days) (enough : days ≤ steps)
    (before : ∀ i : Nat, 0 < i → i < days →
      isholiday offset holidaysvec (t + i * (24 * 3600)) = true)
    (stops : isholiday offset holidaysvec (t + days * (24 * 3600)) = false) :
    countWorkDays offset holidaysvec steps t (n + 1) =
      if 0 < n then countWorkDays offset holidaysvec (steps - days) (t + days * (24 * 3600)) n
      else .ok (t + days * (24 * 3600)) := by
  induction days generalizing steps t with
  | zero => exact absurd pos (Nat.lt_irrefl 0)
  | succ days ih =>
      obtain ⟨steps, rfl⟩ := Nat.exists_eq_add_one_of_ne_zero (by omega : steps ≠ 0)
      have shift : ∀ i : Nat, t + 24 * 3600 + i * (24 * 3600) = t + (i + 1 : Nat) * (24 * 3600) := by
        intro i
        omega
      by_cases last : days = 0
      · subst last
        have once : t + ((0 + 1 : Nat) : Int) * (24 * 3600) = t + 24 * 3600 := by omega
        rw [once] at stops ⊢
        simp only [countWorkDays, stops, Bool.false_eq_true, if_false, Nat.add_sub_cancel]
        rfl
      · have here : isholiday offset holidaysvec (t + 24 * 3600) = true := by
          simpa using before 1 Nat.one_pos (by omega)
        rw [countWorkDays, here, if_pos rfl, if_pos (Nat.succ_pos n), ih (by omega) (by omega), shift]
        · rw [Nat.add_sub_add_right]
        · intro i low inside
          rw [shift]
          exact before (i + 1) (Nat.succ_pos i) (by omega)
        · rw [shift]
          exact stops

/-- `add_work_days` goes to the next work day so many times. -/
theorem countWorkDays_eq_nextWorkDays {n steps : Nat} (t : Int)
    (enough : (n + 1) * distance (holidays.map holidayText) ≤ steps) :
    countWorkDays offset (holidays.map holidayText) steps t (n + 1) =
      nextWorkDays offset (holidays.map holidayText) (n + 1) t := by
  induction n generalizing steps t with
  | zero =>
      obtain ⟨days, pos, near, before, stops⟩ := exists_stop short (Or.inl rfl) t
      have next := search_eq pos near before stops
      simp only [Int.one_mul] at next before stops
      rw [countWorkDays_eq pos (by omega) before stops, if_neg (Nat.lt_irrefl 0), nextWorkDays,
        getNextWorkDay, next]
      rfl
  | succ n ih =>
      obtain ⟨days, pos, near, before, stops⟩ := exists_stop short (Or.inl rfl) t
      have next := search_eq pos near before stops
      simp only [Int.one_mul] at next before stops
      have left : (n + 1) * distance (holidays.map holidayText) ≤ steps - days := by
        rw [Nat.succ_mul] at enough
        omega
      rw [countWorkDays_eq pos (by rw [Nat.succ_mul] at enough; omega) before stops,
        if_pos (Nat.succ_pos n), ih _ left, nextWorkDays.eq_def _ _ (n + 1 + 1)]
      simp only [getNextWorkDay, next, Outcome.ok_bind]

theorem addWorkDays_eq {n : Nat} (pos : 0 < n) (t : Int) :
    addWorkDays offset (holidays.map holidayText) t n =
      nextWorkDays offset (holidays.map holidayText) n t := by
  obtain ⟨n, rfl⟩ := Nat.exists_eq_add_one_of_ne_zero pos.ne'
  rw [addWorkDays, if_neg (by omega), Int.toNat_natCast]
  exact countWorkDays_eq_nextWorkDays short t (Nat.le_refl _)

/-! ## The trade day -/

/-- A date that is printed as a listed day is that day. -/
theorem number_of_dateText {number : Int} {date : Date} (among : date ∈ holidays)
    (printed : dateText (yearAt number) (dateAt number).month (dateAt number).day =
      .ok (holidayText date)) : number = date.number := by
  have small : ∀ date : Date, date.month < 100 ∧ date.day < 100 := by
    intro date
    have inMonth := date.month_mem
    have inDay := date.day_mem.2.trans (daysInMonth_le date.year date.month)
    omega
  rw [dateText, fourDigits] at printed
  split at printed
  · rename_i inYear
    obtain ⟨low, high⟩ := inYear
    have same := congrArg (sscanf dateFormat) (Outcome.ok.inj printed)
    rw [sscanf_dateText (by omega) (small _).1 (small _).2, holidayText,
      sscanf_dateText (short date among) (small _).1 (small _).2] at same
    simp only [List.cons.injEq, Int.natCast_inj, and_true] at same
    obtain ⟨year, month, day⟩ := same
    exact eq_number (by omega) month day
  · split at printed
    · have first := congrArg List.head? (Outcome.ok.inj printed)
      have dash : (45 : UInt8) = digit (date.year / 1000) := by
        simpa [holidayText] using first
      have shown := congrArg UInt8.toNat dash
      rw [digit_toNat] at shown
      have fortyFive : (45 : UInt8).toNat = 45 := rfl
      omega
    · exact absurd printed nofun

/-- Before 6 o'clock the trade day is the one of the last work day. -/
theorem getTradeDay_ne {t last : Int} (early : secondOf offset t / 3600 < 6)
    (found : getLastWorkDay offset (holidays.map holidayText) t = .ok last)
    (work : ¬ Off holidays (dayOf offset last)) {date : Date} (among : date ∈ holidays) :
    getTradeDay offset (holidays.map holidayText) t ≠ .ok (holidayText date) := by
  have before : (localtimeR offset t).hour < 6 := by
    rw [localtimeR, localtime]
    split
    · exact early
    · decide
  intro returned
  have listed : Outcome.ok [] ≠ (.ok (holidayText date) : Outcome Empty (List UInt8)) := by
    simp [holidayText]
  simp only [getTradeDay, if_pos before, found, Outcome.ok_bind, Outcome.pure_eq] at returned
  by_cases fits : Representable (dayOf offset last)
  · simp only [localtimeR, localtime, if_pos fits, Option.getD_some] at returned
    split at returned
    · exact listed returned
    · rw [Int.sub_add_cancel, Int.sub_add_cancel, Int.toNat_natCast, Int.toNat_natCast] at returned
      exact work (Or.inr ⟨date, among, (number_of_dateText short among returned).symm⟩)
  · simp only [localtimeR, localtime, if_neg fits, Option.getD_none, Tm.zero, if_pos] at returned
    exact listed returned

/-! ## The law of work days -/

theorem next_iff (t : Int) :
    (∃ days, Nearest holidays 1 (dayOf offset t) days ∧
      getNextWorkDay offset (holidays.map holidayText) t = .ok (t + days * (24 * 3600))) ↔
      ∀ days : Nat, 0 < days →
        (∀ between : Nat, 0 < between → between < days →
          Off holidays (dayOf offset t + between)) →
        Off holidays (dayOf offset t + days) → Visible offset t (dayOf offset t + days) := by
  have searched := @search_iff offset holidays short 1 (Or.inl rfl) t
  simpa only [getNextWorkDay, Int.one_mul] using searched

theorem last_iff (t : Int) :
    (∃ days, Nearest holidays (-1) (dayOf offset t) days ∧
      getLastWorkDay offset (holidays.map holidayText) t = .ok (t - days * (24 * 3600))) ↔
      ∀ days : Nat, 0 < days →
        (∀ between : Nat, 0 < between → between < days →
          Off holidays (dayOf offset t - between)) →
        Off holidays (dayOf offset t - days) → Visible offset t (dayOf offset t - days) := by
  have searched := @search_iff offset holidays short (-1) (Or.inr rfl) t
  simpa only [getLastWorkDay, Int.neg_mul, Int.one_mul, ← Int.sub_eq_add_neg] using searched

/-- **Work days.** They are right around an instant exactly if every day off that is reached from its
day over days off is seen. -/
theorem work_days_right_iff (t : Int) : Right offset holidays t ↔ Seen offset holidays t := by
  constructor
  · rintro ⟨today, next, last, _, _⟩ days way off
    have later := (next_iff short t).mp next
    have earlier := (last_iff short t).mp last
    rcases Int.lt_trichotomy days 0 with before | rfl | after
    · obtain ⟨back, rfl⟩ : ∃ back : Nat, days = -back := ⟨days.natAbs, by omega⟩
      rw [← Int.sub_eq_add_neg] at off ⊢
      refine earlier back (by omega) (fun between low high => ?_) off
      rw [Int.sub_eq_add_neg]
      exact way (-between) (Or.inr (by omega))
    · rw [Int.add_zero] at off ⊢
      exact ((isholiday_iff short t).mp (today.mpr off)).2
    · obtain ⟨ahead, rfl⟩ : ∃ ahead : Nat, days = ahead := ⟨days.toNat, by omega⟩
      exact later ahead (by omega) (fun between low high => way between (Or.inl (by omega))) off
  · intro seen
    have later : ∃ days, Nearest holidays 1 (dayOf offset t) days ∧
        getNextWorkDay offset (holidays.map holidayText) t = .ok (t + days * (24 * 3600)) := by
      refine (next_iff short t).mpr fun days pos way off => seen days (fun between inside => ?_) off
      obtain ⟨ahead, rfl⟩ : ∃ ahead : Nat, between = ahead := ⟨between.toNat, by omega⟩
      exact way ahead (by omega) (by omega)
    have earlier : ∃ days, Nearest holidays (-1) (dayOf offset t) days ∧
        getLastWorkDay offset (holidays.map holidayText) t = .ok (t - days * (24 * 3600)) := by
      refine (last_iff short t).mpr fun days pos way off => ?_
      rw [Int.sub_eq_add_neg] at off ⊢
      refine seen (-days) (fun between inside => ?_) off
      obtain ⟨back, rfl⟩ : ∃ back : Nat, between = -back := ⟨between.natAbs, by omega⟩
      rw [← Int.sub_eq_add_neg]
      exact way back (by omega) (by omega)
    refine ⟨?_, later, earlier, fun n pos => addWorkDays_eq short pos t, ?_⟩
    · refine ⟨fun holiday => ((isholiday_iff short t).mp holiday).1, fun off => ?_⟩
      have visible := seen 0 (by omega) (by rwa [Int.add_zero])
      rw [Int.add_zero] at visible
      exact (isholiday_iff short t).mpr ⟨off, visible⟩
    · intro early date among
      obtain ⟨days, nearest, found⟩ := earlier
      refine getTradeDay_ne short early found ?_ among
      have day : dayOf offset (t - days * (24 * 3600)) = dayOf offset t + -1 * days := by
        rw [dayOf, dayOf]
        omega
      rw [day]
      exact nearest.work

end Search

/-- New Year's Day of 2024, a Monday. -/
def newYear : Date := Date.newYear 2024

/-- Noon of that day, in UTC. -/
def noon : Int := 1704110400

theorem work_days_listed : Right 0 [newYear] noon ↔ Seen 0 [newYear] noon :=
  work_days_right_iff (by decide) noon

/-- At noon the listed day is no holiday. -/
theorem work_days_noon : ¬ Right 0 [newYear] noon := by
  intro right
  have day : dayOf 0 noon = newYear.number := by decide
  have holiday := right.today.mpr (day ▸ Or.inr ⟨newYear, List.mem_cons_self, rfl⟩)
  rcases ((isholiday_iff (by decide) noon).mp holiday).2.2 with weekend | start
  · rw [day] at weekend
    exact absurd weekend (by rw [Weekend]; decide)
  · exact absurd start (by decide)

end Cube.CtpTrade
