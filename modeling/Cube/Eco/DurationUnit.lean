import Mathlib.Order.Monotone.Basic
import Cube.Eco.DateTime

/-! # Durations are differences

Every unit of time counts the days, months or times of day in its own way, but what it counts from
one date-time to another is the difference of two indices.
-/

namespace Cube.Eco

open Calendar (Date daysBeforeMonth daysBeforeYear daysInMonth)

/-- How many units there were before a date-time. Weeks begin on Monday; seasons begin with
March, June, September and December. -/
def DateTime.index (dt : DateTime) : TimeUnitType → Int
  | .year => dt.date.year
  | .season => (dt.date.year * 12 + dt.date.month : Int) / 3
  | .month => dt.date.year * 12 + dt.date.month
  | .week => (dt.date.number - 1) / 7
  | .day => dt.date.number
  | .hour => dt.date.number * 24 + dt.hour
  | .minute => (dt.date.number * 24 + dt.hour) * 60 + dt.minute
  | .second => ((dt.date.number * 24 + dt.hour) * 60 + dt.minute) * 60 + dt.second

/-- The distance of two date-times in a unit. -/
def distance (unit : TimeUnitType) (s e : DateTime) : Int := e.index unit - s.index unit

/-! ## Digits -/

theorem isDigit_digitChar {n : Nat} (digit : n < 10) : (digitChar n).isDigit = true := by
  interval_cases n <;> rfl

theorem toNat_digitChar {n : Nat} (digit : n < 10) :
    (digitChar n).toNat - '0'.toNat = n := by
  interval_cases n <;> rfl

theorem isDigit_padded (width n : Nat) : ∀ c ∈ padded width n, Char.isDigit c = true := by
  induction width generalizing n with
  | zero => exact nofun
  | succ width ih =>
      intro c member
      rcases List.mem_append.mp member with front | last
      · exact ih (n / 10) c front
      · rw [List.mem_singleton.mp last]
        exact isDigit_digitChar (Nat.mod_lt n (by decide))

/-- A number behind which there are no more digits. -/
theorem digits_padded (width : Nat) {n : Nat} (small : n < 10 ^ width) {rest : CString}
    (ends : ∀ c ∈ rest.head?, Char.isDigit c = false) : digits (padded width n ++ rest) = n := by
  have stop : rest.takeWhile Char.isDigit = [] := by
    cases rest with
    | nil => rfl
    | cons c rest => exact List.takeWhile_cons_of_neg (by rw [ends c rfl]; decide)
  rw [digits, List.takeWhile_append_of_pos (isDigit_padded width n), stop, List.append_nil]
  clear ends stop
  induction width generalizing n with
  | zero =>
      rw [Nat.pow_zero] at small
      exact (Nat.lt_one_iff.mp small).symm
  | succ width ih =>
      have front : n / 10 < 10 ^ width := by
        rw [Nat.pow_succ] at small
        exact Nat.div_lt_of_lt_mul (Nat.mul_comm _ 10 ▸ small)
      rw [padded, List.foldl_append, ih front, List.foldl_cons, List.foldl_nil,
        toNat_digitChar (Nat.mod_lt n (by decide))]
      exact Nat.div_add_mod n 10

theorem atoi_padded {n : Nat} (small : n < 100) {rest : CString}
    (ends : ∀ c ∈ rest.head?, Char.isDigit c = false) : atoi (padded 2 n ++ rest) = n := by
  have tens : n / 10 % 10 < 10 := Nat.mod_lt _ (by decide)
  have first : (padded 2 n ++ rest).dropWhile Char.isWhitespace = padded 2 n ++ rest := by
    change (digitChar (n / 10 % 10) :: _).dropWhile _ = digitChar (n / 10 % 10) :: _
    apply List.dropWhile_cons_of_neg
    generalize n / 10 % 10 = digit at tens
    interval_cases digit <;> decide
  have unsigned : digitChar (n / 10 % 10) ≠ '-' ∧ digitChar (n / 10 % 10) ≠ '+' := by
    generalize n / 10 % 10 = digit at tens
    interval_cases digit <;> decide
  rw [atoi, first]
  have value := digits_padded 2 small ends
  split
  next text starts => exact (unsigned.1 (List.cons.inj starts).1).elim
  next text starts => exact (unsigned.2 (List.cons.inj starts).1).elim
  next => rw [value]

theorem length_padded (width n : Nat) : (padded width n).length = width := by
  induction width generalizing n with
  | zero => rfl
  | succ width ih => rw [padded, List.length_append, ih, List.length_singleton]

variable (dt : DateTime)

theorem length_text : dt.text.length = 19 := by
  simp only [DateTime.text, List.length_append, List.length_cons, length_padded]

theorem atoiAt_hour : atoiAt dt.text 11 = .ok dt.hour := by
  rw [atoiAt, if_pos (by rw [length_text]; decide)]
  refine congrArg Outcome.ok ?_
  change atoi (padded 2 dt.hour ++ ':' :: padded 2 dt.minute ++ ':' :: padded 2 dt.second) = _
  rw [List.append_assoc]
  exact atoi_padded (Nat.lt_trans dt.hour_lt (by decide)) (by rintro _ ⟨⟩; rfl)

theorem atoiAt_minute : atoiAt dt.text 14 = .ok dt.minute := by
  rw [atoiAt, if_pos (by rw [length_text]; decide)]
  refine congrArg Outcome.ok ?_
  change atoi (padded 2 dt.minute ++ ':' :: padded 2 dt.second) = _
  exact atoi_padded (Nat.lt_trans dt.minute_lt (by decide)) (by rintro _ ⟨⟩; rfl)

theorem atoiAt_second : atoiAt dt.text 17 = .ok dt.second := by
  rw [atoiAt, if_pos (by rw [length_text]; decide)]
  refine congrArg Outcome.ok ?_
  change atoi (padded 2 dt.second) = _
  rw [← List.append_nil (padded 2 dt.second)]
  exact atoi_padded (Nat.lt_trans dt.second_lt (by decide)) nofun

/-! ## Days -/

theorem daysBeforeMonth_le (year : Nat) {month : Nat} (inYear : month ≤ 13) :
    daysBeforeMonth year month ≤ 366 := by
  have grows : Monotone (daysBeforeMonth year) :=
    monotone_nat_of_le_succ fun month => Nat.le_add_right ..
  refine (grows inYear).trans ?_
  simp only [daysBeforeMonth, daysInMonth]
  split <;> decide

theorem daysInMonth_le (year month : Nat) : daysInMonth year month ≤ 31 := by
  unfold daysInMonth
  split <;> first | decide | (split <;> decide)

/-- The days of all dates fit into an `int`, and their hours as well. -/
theorem number_bounds : 0 ≤ dt.date.number ∧ dt.date.number ≤ 4000000 := by
  have months := daysBeforeMonth_le dt.date.year (Nat.le_succ_of_le dt.date.month_mem.2)
  have days := dt.date.day_mem.2.trans (daysInMonth_le dt.date.year dt.date.month)
  obtain ⟨low, high⟩ := dt.year_mem
  rw [Date.number, daysBeforeYear]
  omega

/-! ## Units -/

/-- The code divides a distance that may be negative with the C division, which truncates. What it
makes of it is the floor. -/
theorem tdiv_add_tdiv {k seq : Int} (positive : 0 < k) (nonneg : 0 ≤ seq) (d : Int) :
    d.tdiv k + (k + d.tmod k + seq).tdiv k - 1 = (d + seq) / k := by
  have parts : k * d.tdiv k + d.tmod k = d := Int.mul_tdiv_add_tmod d k
  have low : -k < d.tmod k := Int.lt_tmod_of_pos d positive
  have inner : (k + d.tmod k + seq).tdiv k = (k + d.tmod k + seq) / k :=
    Int.tdiv_eq_ediv_of_nonneg (by omega)
  have shift : k + d.tmod k + seq = (d.tmod k + seq) + k * 1 := by omega
  have whole : d + seq = (d.tmod k + seq) + k * d.tdiv k := by omega
  rw [inner, shift, whole, Int.add_mul_ediv_left _ _ (Int.ne_of_gt positive),
    Int.add_mul_ediv_left _ _ (Int.ne_of_gt positive)]
  omega

theorem fits_tdiv_three {d : Int} (fits : FitsInt32 d) : FitsInt32 (d.tdiv 3) := by
  obtain ⟨low, high⟩ := fits
  have parts := Int.mul_tdiv_add_tmod d 3
  have remains := Int.lt_tmod_of_pos d (by decide : (0 : Int) < 3)
  have below := Int.tmod_lt_of_pos d (by decide : (0 : Int) < 3)
  exact ⟨by omega, by omega⟩

theorem months_bounds :
    0 ≤ (dt.date.year * 12 + dt.date.month : Int) ∧
      (dt.date.year * 12 + dt.date.month : Int) ≤ 120000 := by
  have year := dt.year_mem
  have month := dt.date.month_mem
  exact ⟨by omega, by omega⟩

theorem toInt32_months :
    toInt32 (dt.date.year * 12 + dt.date.month) = dt.date.year * 12 + dt.date.month := by
  have months := months_bounds dt
  exact toInt32_of_fits ⟨by omega, by omega⟩

section Units

variable {boost : Gregorian} {s e : DateTime} {sd ed : boost.Date}

theorem durationSeason_eq (sShows : boost.Shows sd s.date) (eShows : boost.Shows ed e.date) :
    durationSeason boost sd ed = distance .season s e := by
  have sMonths := months_bounds s
  have eMonths := months_bounds e
  rw [durationSeason, sShows.year, sShows.month, eShows.year, eShows.month, toInt32_months,
    toInt32_months]
  simp only [toInt32_of_fits (fits_tdiv_three
    (d := (e.date.year * 12 + e.date.month : Int) - (s.date.year * 12 + s.date.month))
    ⟨by omega, by omega⟩)]
  rw [tdiv_add_tdiv (by decide) (Int.emod_nonneg _ (by decide)),
    toInt32_of_fits ⟨by omega, by omega⟩, distance, DateTime.index, DateTime.index]
  omega

theorem durationMonth_eq (sShows : boost.Shows sd s.date) (eShows : boost.Shows ed e.date) :
    durationMonth boost sd ed = distance .month s e := by
  have sMonths := months_bounds s
  have eMonths := months_bounds e
  rw [durationMonth, sShows.year, sShows.month, eShows.year, eShows.month, toInt32_months,
    toInt32_months]
  exact toInt32_of_fits ⟨by omega, by omega⟩

theorem days_eq (lawful : boost.Lawful) (sShows : boost.Shows sd s.date)
    (eShows : boost.Shows ed e.date) :
    toInt32 (boost.days sd ed) = e.date.number - s.date.number := by
  have sNumber := number_bounds s
  have eNumber := number_bounds e
  rw [lawful.days sd ed s.date e.date sShows eShows]
  exact toInt32_of_fits ⟨by omega, by omega⟩

theorem durationWeek_eq (lawful : boost.Lawful) (sShows : boost.Shows sd s.date)
    (eShows : boost.Shows ed e.date) : durationWeek boost sd ed = distance .week s e := by
  have sNumber := number_bounds s
  have eNumber := number_bounds e
  -- The days since Monday.
  have seq : (if (boost.dayOfWeek sd : Int) ≠ 0 then (boost.dayOfWeek sd : Int) - 1 else 7 - 1) =
      (s.date.number - 1) % 7 := by
    rw [lawful.dayOfWeek sd s.date sShows, Date.weekday]
    split <;> omega
  rw [durationWeek, days_eq lawful sShows eShows]
  simp only [seq]
  rw [tdiv_add_tdiv (by decide) (Int.emod_nonneg _ (by decide)), distance, DateTime.index,
    DateTime.index, toInt32_of_fits ⟨by omega, by omega⟩]
  omega

theorem durationHour_eq (lawful : boost.Lawful) (sShows : boost.Shows sd s.date)
    (eShows : boost.Shows ed e.date) :
    durationHour boost sd ed s.text e.text = .ok (distance .hour s e) := by
  have sNumber := number_bounds s
  have eNumber := number_bounds e
  have sHour := s.hour_lt
  have eHour := e.hour_lt
  have h : toInt32 ((e.hour : Int) - s.hour) = (e.hour : Int) - s.hour :=
    toInt32_of_fits ⟨by omega, by omega⟩
  rw [durationHour, days_eq lawful sShows eShows, atoiAt_hour, atoiAt_hour]
  simp only [Outcome.ok_bind]
  rw [h, toInt32_of_fits ⟨by omega, by omega⟩, distance, DateTime.index, DateTime.index]
  refine congrArg Outcome.ok ?_
  omega

/-- Minutes are counted with what is left of them in an `int`. -/
theorem durationMinute_eq (lawful : boost.Lawful) (sShows : boost.Shows sd s.date)
    (eShows : boost.Shows ed e.date) :
    durationMinute boost sd ed s.text e.text = .ok (toInt32 (distance .minute s e)) := by
  have sMinute := s.minute_lt
  have eMinute := e.minute_lt
  have m : toInt32 ((e.minute : Int) - s.minute) = (e.minute : Int) - s.minute :=
    toInt32_of_fits ⟨by omega, by omega⟩
  rw [durationMinute, durationHour_eq lawful sShows eShows, atoiAt_minute, atoiAt_minute]
  simp only [Outcome.ok_bind]
  rw [m, toInt32_toInt32_add, distance, distance, DateTime.index, DateTime.index, DateTime.index,
    DateTime.index]
  refine congrArg (Outcome.ok ∘ toInt32) ?_
  omega

theorem durationSecond_eq (lawful : boost.Lawful) (sShows : boost.Shows sd s.date)
    (eShows : boost.Shows ed e.date) :
    durationSecond boost sd ed s.text e.text = .ok (toInt32 (distance .second s e)) := by
  have sSecond := s.second_lt
  have eSecond := e.second_lt
  have second : toInt32 ((e.second : Int) - s.second) = (e.second : Int) - s.second :=
    toInt32_of_fits ⟨by omega, by omega⟩
  rw [durationSecond, durationMinute_eq lawful sShows eShows, atoiAt_second, atoiAt_second]
  simp only [Outcome.ok_bind]
  rw [second, toInt32_toInt32_mul, toInt32_toInt32_add, distance, distance, DateTime.index,
    DateTime.index, DateTime.index, DateTime.index]
  refine congrArg (Outcome.ok ∘ toInt32) ?_
  omega

/-- **Durations.** If the distance of two date-times fits into an `int`, it is what the code
counts. -/
theorem getDurationUnit_eq (lawful : boost.Lawful) (s e : DateTime) {unit : TimeUnitType}
    (fits : FitsInt32 (distance unit s e)) :
    getDurationUnit boost s.text e.text unit = .ok (distance unit s e) := by
  obtain ⟨sd, sParsed, sShows⟩ := lawful.fromSimpleString s
  obtain ⟨ed, eParsed, eShows⟩ := lawful.fromSimpleString e
  simp only [getDurationUnit, sParsed, eParsed]
  cases unit with
  | year =>
      rw [sShows.year, eShows.year]
      exact congrArg Outcome.ok (toInt32_of_fits fits)
  | season => exact congrArg Outcome.ok (durationSeason_eq sShows eShows)
  | month => exact congrArg Outcome.ok (durationMonth_eq sShows eShows)
  | week => exact congrArg Outcome.ok (durationWeek_eq lawful sShows eShows)
  | day => exact congrArg Outcome.ok (days_eq lawful sShows eShows)
  | hour => exact durationHour_eq lawful sShows eShows
  | minute =>
      rw [durationMinute_eq lawful sShows eShows, toInt32_of_fits fits]
  | second =>
      rw [durationSecond_eq lawful sShows eShows, toInt32_of_fits fits]

end Units

end Cube.Eco
