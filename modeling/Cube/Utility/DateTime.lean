import Mathlib.Tactic.Common
import Cube.Lib.Calendar

/-! # Dates and times of `datetime.h`

The sum of a date and time with a time, the difference, and the comparisons. The milliseconds of a
time are those of an `int`; all values here are small.
-/

namespace Cube.Utility

structure Date where
  year : Int
  month : Int
  day : Int
  deriving DecidableEq, Repr

namespace Date

def eq (self date : Date) : Bool :=
  self.year = date.year && self.month = date.month && self.day = date.day

def gt (self date : Date) : Bool :=
  self.year > date.year ||
    (self.year = date.year && self.month > date.month) ||
    (self.year = date.year && self.month = date.month && self.day > date.day)

def lt (self date : Date) : Bool :=
  self.year < date.year ||
    (self.year = date.year && self.month < date.month) ||
    (self.year = date.year && self.month = date.month && self.day < date.day)

end Date

structure Time where
  hour : Int
  minute : Int
  sec : Int
  milsec : Int
  deriving DecidableEq, Repr

namespace Time

def eq (self t : Time) : Bool :=
  self.hour = t.hour && self.minute = t.minute && self.sec = t.sec && self.milsec = t.milsec

def gt (self t : Time) : Bool :=
  self.hour > t.hour ||
    (self.hour = t.hour && self.minute > t.minute) ||
    (self.hour = t.hour && self.minute = t.minute && self.sec > t.sec) ||
    (self.hour = t.hour && self.minute = t.minute && self.sec = t.sec && self.milsec > t.milsec)

def lt (self t : Time) : Bool :=
  self.hour < t.hour ||
    (self.hour = t.hour && self.minute < t.minute) ||
    (self.hour = t.hour && self.minute = t.minute && self.sec < t.sec) ||
    (self.hour = t.hour && self.minute = t.minute && self.sec = t.sec && self.milsec < t.milsec)

def milsecs (t : Time) : Int := ((t.hour * 60 + t.minute) * 60 + t.sec) * 1000 + t.milsec

/-- The time of some milliseconds, which need not be positive: division rounds towards 0. -/
def ofMilsecs (ret_milsecs : Int) : Time where
  hour := ret_milsecs.tdiv (60 * 60 * 1000)
  minute := (ret_milsecs.tmod (60 * 60 * 1000)).tdiv (60 * 1000)
  sec := (ret_milsecs.tmod (60 * 1000)).tdiv 1000
  milsec := ret_milsecs.tmod 1000

def add (t1 t2 : Time) : Time := ofMilsecs (t1.milsecs + t2.milsecs)

def sub (t1 t2 : Time) : Time := ofMilsecs (t1.milsecs - t2.milsecs)

end Time

structure DateTime where
  m_date : Date
  m_time : Time
  deriving DecidableEq, Repr

namespace DateTime

def eq (self other : DateTime) : Bool :=
  self.m_date.eq other.m_date && self.m_time.eq other.m_time

def gt (self other : DateTime) : Bool :=
  self.m_date.gt other.m_date ||
    (self.m_date.eq other.m_date && self.m_time.gt other.m_time)

def lt (self other : DateTime) : Bool :=
  self.m_date.lt other.m_date ||
    (self.m_date.eq other.m_date && self.m_time.lt other.m_time)

def ne (self other : DateTime) : Bool := !self.eq other

def ge (self other : DateTime) : Bool := !self.lt other

def le (self other : DateTime) : Bool := !self.gt other

def add (t1 : DateTime) (t2 : Time) : DateTime := ⟨t1.m_date, t1.m_time.add t2⟩

def sub (t1 : DateTime) (t2 : Time) : DateTime := ⟨t1.m_date, t1.m_time.sub t2⟩

end DateTime

/-! ## Instants -/

/-- The milliseconds of a day. -/
def dayMilsecs : Int := 24 * 60 * 60 * 1000

structure Time.Valid (t : Time) : Prop where
  hour : 0 ≤ t.hour ∧ t.hour < 24
  minute : 0 ≤ t.minute ∧ t.minute < 60
  sec : 0 ≤ t.sec ∧ t.sec < 60
  milsec : 0 ≤ t.milsec ∧ t.milsec < 1000

/-- A date of the calendar. -/
def Date.Names (date : Date) (day : Calendar.Date) : Prop :=
  date.year = day.year ∧ date.month = day.month ∧ date.day = day.day

namespace DateTime

/-- The date and time is valid and denotes the instant, in milliseconds. -/
def At (dt : DateTime) (instant : Int) : Prop :=
  ∃ day : Calendar.Date, dt.m_date.Names day ∧ dt.m_time.Valid ∧
    instant = day.number * dayMilsecs + dt.m_time.milsecs

/-- The comparisons with every valid date and time are those of the instants. -/
def Ordered (dt : DateTime) (instant : Int) : Prop :=
  ∀ other there, At other there →
    (dt.eq other = true ↔ instant = there) ∧ (dt.ne other = true ↔ instant ≠ there) ∧
    (dt.lt other = true ↔ instant < there) ∧ (dt.gt other = true ↔ there < instant) ∧
    (dt.le other = true ↔ instant ≤ there) ∧ (dt.ge other = true ↔ there ≤ instant)

/-- The sum is the valid date and time exactly so much later, ordered so, and taking the time away
again leads back. -/
def SumRight (dt : DateTime) (instant : Int) (t : Time) : Prop :=
  At (dt.add t) (instant + t.milsecs) ∧ Ordered (dt.add t) (instant + t.milsecs) ∧
    (dt.add t).sub t = dt

/-- The difference is the valid date and time exactly so much earlier, ordered so. -/
def DifferenceRight (dt : DateTime) (instant : Int) (t : Time) : Prop :=
  At (dt.sub t) (instant - t.milsecs) ∧ Ordered (dt.sub t) (instant - t.milsecs)

end DateTime

/-! ## Times of a day -/

namespace Time

theorem Valid.milsecs_mem {t : Time} (valid : t.Valid) :
    0 ≤ t.milsecs ∧ t.milsecs < dayMilsecs := by
  obtain ⟨hour, minute, sec, milsec⟩ := valid
  rw [milsecs, dayMilsecs]
  omega

@[simp] theorem milsecs_ofMilsecs (ret : Int) : (ofMilsecs ret).milsecs = ret := by
  have hours := Int.tmod_add_mul_tdiv ret (60 * 60 * 1000)
  have minutes := Int.tmod_add_mul_tdiv (ret.tmod (60 * 60 * 1000)) (60 * 1000)
  have seconds := Int.tmod_add_mul_tdiv (ret.tmod (60 * 1000)) 1000
  rw [Int.tmod_tmod_of_dvd ret (by decide)] at minutes seconds
  simp only [milsecs, ofMilsecs]
  omega

/-- For milliseconds that are not negative, the divisions are those of naturals. -/
theorem ofMilsecs_of_nonneg {ret : Int} (nonneg : 0 ≤ ret) :
    ofMilsecs ret =
      { hour := ret / (60 * 60 * 1000)
        minute := ret % (60 * 60 * 1000) / (60 * 1000)
        sec := ret % (60 * 1000) / 1000
        milsec := ret % 1000 } := by
  have minutes : 0 ≤ ret % (60 * 60 * 1000) := Int.emod_nonneg ret (by decide)
  have seconds : 0 ≤ ret % (60 * 1000) := Int.emod_nonneg ret (by decide)
  simp only [ofMilsecs, Int.tmod_eq_emod_of_nonneg nonneg, Int.tdiv_eq_ediv_of_nonneg nonneg,
    Int.tdiv_eq_ediv_of_nonneg minutes, Int.tdiv_eq_ediv_of_nonneg seconds]

/-- The time of some milliseconds is valid exactly for those of a day. -/
theorem valid_ofMilsecs {ret : Int} :
    (ofMilsecs ret).Valid ↔ 0 ≤ ret ∧ ret < dayMilsecs := by
  constructor
  · intro valid
    simpa using valid.milsecs_mem
  · rintro ⟨nonneg, below⟩
    rw [dayMilsecs] at below
    rw [ofMilsecs_of_nonneg nonneg]
    constructor <;> dsimp only <;> omega

/-- A valid time is the one of its milliseconds. -/
theorem Valid.ofMilsecs_milsecs {t : Time} (valid : t.Valid) : ofMilsecs t.milsecs = t := by
  have nonneg := valid.milsecs_mem.1
  obtain ⟨hour, minute, sec, milsec⟩ := valid
  rw [ofMilsecs_of_nonneg nonneg]
  rw [milsecs] at nonneg ⊢
  cases t with
  | mk h m s ms =>
      simp only [Time.mk.injEq] at *
      refine ⟨by omega, by omega, by omega, by omega⟩

/-! ## The comparisons -/

theorem Valid.eq_iff {t other : Time} (valid : t.Valid) (valid' : other.Valid) :
    t.eq other = true ↔ t.milsecs = other.milsecs := by
  obtain ⟨hour, minute, sec, milsec⟩ := valid
  obtain ⟨hour', minute', sec', milsec'⟩ := valid'
  simp only [Time.eq, Bool.and_eq_true, decide_eq_true_eq, milsecs]
  omega

theorem Valid.lt_iff {t other : Time} (valid : t.Valid) (valid' : other.Valid) :
    t.lt other = true ↔ t.milsecs < other.milsecs := by
  obtain ⟨hour, minute, sec, milsec⟩ := valid
  obtain ⟨hour', minute', sec', milsec'⟩ := valid'
  simp only [Time.lt, Bool.or_eq_true, Bool.and_eq_true, decide_eq_true_eq, milsecs]
  omega

theorem gt_eq_lt (t other : Time) : t.gt other = other.lt t := by
  rw [Bool.eq_iff_iff]
  simp only [gt, lt, Bool.or_eq_true, Bool.and_eq_true, decide_eq_true_eq]
  omega

end Time

namespace Date

theorem Names.lt_iff {date other : Date} {day there : Calendar.Date} (names : date.Names day)
    (names' : other.Names there) : date.lt other = true ↔ day.number < there.number := by
  obtain ⟨year, month, inMonth⟩ := names
  obtain ⟨year', month', inMonth'⟩ := names'
  simp only [lt, Bool.or_eq_true, Bool.and_eq_true, decide_eq_true_eq,
    Calendar.Date.number_lt_iff]
  omega

theorem gt_eq_lt (date other : Date) : date.gt other = other.lt date := by
  rw [Bool.eq_iff_iff]
  simp only [gt, lt, Bool.or_eq_true, Bool.and_eq_true, decide_eq_true_eq]
  omega

theorem eq_iff_not_lt (date other : Date) :
    date.eq other = true ↔ ¬ date.lt other = true ∧ ¬ other.lt date = true := by
  simp only [eq, lt, Bool.or_eq_true, Bool.and_eq_true, decide_eq_true_eq]
  omega

theorem Names.eq_iff {date other : Date} {day there : Calendar.Date} (names : date.Names day)
    (names' : other.Names there) : date.eq other = true ↔ day.number = there.number := by
  rw [eq_iff_not_lt, names.lt_iff names', names'.lt_iff names]
  omega

end Date

namespace DateTime

/-- **Order of the instants.** Every comparison of valid dates and times is that of the instants. -/
theorem At.ordered {dt : DateTime} {instant : Int} (valid : At dt instant) :
    Ordered dt instant := by
  rintro other there ⟨day', names', inDay', rfl⟩
  obtain ⟨day, names, inDay, rfl⟩ := valid
  have within := inDay.milsecs_mem
  have within' := inDay'.milsecs_mem
  have equal : dt.eq other = true ↔ day.number * dayMilsecs + dt.m_time.milsecs =
      day'.number * dayMilsecs + other.m_time.milsecs := by
    rw [eq, Bool.and_eq_true, names.eq_iff names', inDay.eq_iff inDay']
    rw [dayMilsecs] at *
    omega
  have less : dt.lt other = true ↔ day.number * dayMilsecs + dt.m_time.milsecs <
      day'.number * dayMilsecs + other.m_time.milsecs := by
    rw [lt, Bool.or_eq_true, Bool.and_eq_true, names.lt_iff names', names.eq_iff names',
      inDay.lt_iff inDay']
    rw [dayMilsecs] at *
    omega
  have more : dt.gt other = true ↔ day'.number * dayMilsecs + other.m_time.milsecs <
      day.number * dayMilsecs + dt.m_time.milsecs := by
    rw [gt, Bool.or_eq_true, Bool.and_eq_true, Date.gt_eq_lt, Time.gt_eq_lt, names'.lt_iff names,
      names.eq_iff names', inDay'.lt_iff inDay]
    rw [dayMilsecs] at *
    omega
  refine ⟨equal, ?_, less, more, ?_, ?_⟩
  · rw [ne, Bool.not_eq_true', ← Bool.not_eq_true, equal]
  · rw [le, Bool.not_eq_true', ← Bool.not_eq_true, more, Int.not_lt]
  · rw [ge, Bool.not_eq_true', ← Bool.not_eq_true, less, Int.not_lt]

/-! ## Sums and differences -/

/-- A time of the same day is valid exactly where the milliseconds are those of a day. -/
theorem at_ofMilsecs {dt : DateTime} {instant : Int} (valid : At dt instant) (change : Int) :
    At ⟨dt.m_date, Time.ofMilsecs (dt.m_time.milsecs + change)⟩ (instant + change) ↔
      0 ≤ dt.m_time.milsecs + change ∧ dt.m_time.milsecs + change < dayMilsecs := by
  constructor
  · rintro ⟨day, names, inDay, _⟩
    exact Time.valid_ofMilsecs.mp inDay
  · intro within
    obtain ⟨day, names, inDay, rfl⟩ := valid
    refine ⟨day, names, Time.valid_ofMilsecs.mpr within, ?_⟩
    rw [Time.milsecs_ofMilsecs, Int.add_assoc]

/-- A sum is right exactly if it is a time of the same day, and so is a difference: the date stays
as it is. -/
theorem sums_right_iff {dt : DateTime} {instant : Int} (valid : At dt instant) {t : Time}
    (duration : t.Valid) :
    (SumRight dt instant t ↔ dt.m_time.milsecs + t.milsecs < dayMilsecs) ∧
      (DifferenceRight dt instant t ↔ t.milsecs ≤ dt.m_time.milsecs) := by
  obtain ⟨day, names, inDay, _⟩ := id valid
  have within := inDay.milsecs_mem
  have within' := duration.milsecs_mem
  have sum := at_ofMilsecs valid t.milsecs
  have difference := at_ofMilsecs valid (-t.milsecs)
  constructor
  · constructor
    · intro right
      exact (sum.mp right.1).2
    · intro before
      have later : At (dt.add t) (instant + t.milsecs) :=
        sum.mpr ⟨Int.add_nonneg within.1 within'.1, before⟩
      refine ⟨later, later.ordered, ?_⟩
      rw [sub, add, Time.sub, Time.add, Time.milsecs_ofMilsecs, Int.add_sub_cancel,
        inDay.ofMilsecs_milsecs]
  · have sub_eq : dt.sub t = ⟨dt.m_date, Time.ofMilsecs (dt.m_time.milsecs + -t.milsecs)⟩ := rfl
    rw [DifferenceRight, sub_eq, Int.sub_eq_add_neg]
    constructor
    · intro right
      have nonneg := (difference.mp right.1).1
      omega
    · intro before
      have earlier := difference.mpr ⟨by omega, by omega⟩
      exact ⟨earlier, earlier.ordered⟩

/-- The first of January 2024. -/
def newYear : Calendar.Date := Calendar.Date.newYear 2024

/-- Noon and one hour. -/
theorem sums_right_noon :
    (SumRight ⟨⟨2024, 1, 1⟩, ⟨12, 0, 0, 0⟩⟩ (newYear.number * dayMilsecs + 12 * 3600000) ⟨1, 0, 0, 0⟩ ↔
        (⟨12, 0, 0, 0⟩ : Time).milsecs + (⟨1, 0, 0, 0⟩ : Time).milsecs < dayMilsecs) ∧
      (DifferenceRight ⟨⟨2024, 1, 1⟩, ⟨12, 0, 0, 0⟩⟩ (newYear.number * dayMilsecs + 12 * 3600000)
          ⟨1, 0, 0, 0⟩ ↔
        (⟨1, 0, 0, 0⟩ : Time).milsecs ≤ (⟨12, 0, 0, 0⟩ : Time).milsecs) :=
  sums_right_iff
    ⟨newYear, ⟨rfl, rfl, rfl⟩, ⟨by decide, by decide, by decide, by decide⟩, rfl⟩
    ⟨by decide, by decide, by decide, by decide⟩

/-- An hour before midnight and two hours: 25 o'clock. -/
theorem sum_not_right_midnight :
    At ⟨⟨2024, 1, 1⟩, ⟨23, 0, 0, 0⟩⟩ (newYear.number * dayMilsecs + 23 * 3600000) ∧
      (⟨2, 0, 0, 0⟩ : Time).Valid ∧
      ¬ SumRight ⟨⟨2024, 1, 1⟩, ⟨23, 0, 0, 0⟩⟩ (newYear.number * dayMilsecs + 23 * 3600000)
        ⟨2, 0, 0, 0⟩ := by
  refine ⟨⟨newYear, ⟨rfl, rfl, rfl⟩, ⟨by decide, by decide, by decide, by decide⟩, rfl⟩,
    ⟨by decide, by decide, by decide, by decide⟩, fun right => ?_⟩
  obtain ⟨_, _, inDay, _⟩ := right.1
  exact absurd inDay.hour.2 (by decide)

end DateTime

end Cube.Utility
