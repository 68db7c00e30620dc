import Cube.Eco.Log.FileSink

/-! # The daily roll

A log file is rolled when the day of the year is later than the one on which the file was
started. Days of the year start again with every year, and it is the local clock that counts them,
whether or not UTC was asked for.
-/

namespace Cube.Eco.Log.SinkRecord

variable {system : System}

/-- When an append has returned, the file that is open was started on the day of the append. -/
def OnDay (system : System) (isUtc : Bool) (state : Outcome CString SinkRecord) : Prop :=
  ∀ record, state = .ok record → (system.clock isUtc record.started).day =
    (system.clock isUtc record.sink.context.nowTime).day

/-- The append makes the file larger than it may be, or is made on a later day of the local year
than the one on which the file was started, or on the same day in the clock that was asked for. -/
def RollsInTime (system : System) (isUtc : Bool) (state : Outcome CString SinkRecord)
    (input : Append) : Prop :=
  ∀ record, state = .ok record →
    (record.sink.file.write input.buf).fileSize > record.sink.context.rollSize ∨
    (system.localtime record.started).yday < (system.localtime input.now).yday ∨
    (system.clock isUtc record.started).day = (system.clock isUtc input.now).day

/-- The invariant: the start day is the local one. -/
structure Dated (system : System) (isUtc : Bool) (record : SinkRecord) : Prop where
  isLocal : record.sink.context.isUtc = false
  startDay : record.sink.context.startDay = (system.localtime record.started).yday
  onDay : (system.clock isUtc record.started).day =
    (system.clock isUtc record.sink.context.nowTime).day

variable {isUtc : Bool} {record : SinkRecord}

theorem rolls_iff (dated : Dated system isUtc record) (input : Append) :
    Rolls system record input ↔
      (record.sink.file.write input.buf).fileSize > record.sink.context.rollSize ∨
        (system.localtime record.started).yday < (system.localtime input.now).yday := by
  have local_day : ((record.sink.context.update input.now).getTm system input.now).yday =
      (system.localtime input.now).yday := by
    rw [Context.getTm, Context.update, dated.isLocal]
    rfl
  rw [Rolls, Context.isRollFile]
  split
  next large => exact iff_of_true rfl (.inl large)
  next small =>
    have fits : ¬ (record.sink.file.write input.buf).fileSize > record.sink.context.rollSize := small
    rw [decide_eq_true_iff, or_iff_right fits, ← Int.ofNat_lt, ← dated.startDay, ← local_day]
    rfl

/-- Within a year of the clock that is asked for, if that is the local one, a file is rolled in
time. -/
theorem rollsInTime_of_sameYear {input : Append}
    (sameYear : (system.localtime record.started).year = (system.localtime input.now).year)
    (later : (system.localtime record.started).yday ≤ (system.localtime input.now).yday) :
    RollsInTime system false (.ok record) input := by
  rintro _ ⟨⟩
  rcases Nat.lt_or_eq_of_le later with after | same
  · exact .inr (.inl after)
  · exact .inr (.inr (Prod.ext sameYear same))

theorem dated_start {filePath : CString} {rollSize : UInt64} {flushInterval : UInt32} {now : Int}
    {opened : Option UInt32} (started : start system filePath rollSize flushInterval isUtc now
      opened = .ok record) : Dated system isUtc record := by
  obtain ⟨sink, made, returned⟩ := Outcome.bind_eq_ok.mp started
  obtain ⟨file, _, built⟩ := Outcome.bind_eq_ok.mp made
  cases built
  cases returned
  exact ⟨rfl, rfl, rfl⟩

/-- A file that is rolled in time is that of the day. -/
theorem dated_append (dated : Dated system isUtc record) {input : Append}
    (inTime : RollsInTime system isUtc (.ok record) input) {after : SinkRecord}
    (appended : record.append system input = .ok after) : Dated system isUtc after := by
  rw [append_eq] at appended
  split at appended
  next rolls =>
    split at appended
    · cases appended
      refine ⟨dated.isLocal, ?_, rfl⟩
      change ((Context.getTm system _ input.now).yday : Int) = _
      rw [Context.getTm, Context.update, dated.isLocal]
      rfl
    · cases appended
  next stays =>
    cases appended
    refine ⟨dated.isLocal, dated.startDay, ?_⟩
    rcases inTime record rfl with large | later | sameDay
    · exact (stays ((rolls_iff dated input).mpr (.inl large))).elim
    · exact (stays ((rolls_iff dated input).mpr (.inr later))).elim
    · exact sameDay

/-- A file that is not rolled in time is that of another day. -/
theorem rollsInTime_of_onDay (dated : Dated system isUtc record) {input : Append}
    (onDay : OnDay system isUtc (turn system (.ok record) input)) :
    RollsInTime system isUtc (.ok record) input := by
  rintro _ ⟨⟩
  by_cases rolls : Rolls system record input
  · exact ((rolls_iff dated input).mp rolls).imp_right .inl
  · have returned : turn system (.ok record) input = _ :=
      (append_eq record input).trans (if_neg rolls)
    exact .inr (.inr (onDay _ returned))

/-- **The daily roll.** Along every sequence of appends, the file that is open when an append
returns was started on the day of the append, in the clock that was asked for, exactly when every
append rolls the file by its size, or is made on a later day of the local year than the start of
the file, or on the same day. -/
theorem daily_roll_iff (system : System) (filePath : CString) (rollSize : UInt64)
    (flushInterval : UInt32) (isUtc : Bool) (now : Int) (opened : Option UInt32)
    (appends : List Append) :
    Run.Always (turn system) (OnDay system isUtc) (fun _ _ => True)
        (start system filePath rollSize flushInterval isUtc now opened) appends ↔
      Run.Steps (turn system) (RollsInTime system isUtc)
        (start system filePath rollSize flushInterval isUtc now opened) appends := by
  apply Run.always_iff_steps fun state => ∀ record, state = .ok record → Dated system isUtc record
  · exact fun state dated record same => (dated record same).onDay
  · intro state input dated inTime
    refine ⟨trivial, fun after returned => ?_⟩
    obtain ⟨record, rfl, appended⟩ := Outcome.bind_eq_ok.mp returned
    exact dated_append (dated record rfl) inTime appended
  · intro state input dated late allowed
    refine late fun record same => ?_
    subst same
    exact rollsInTime_of_onDay (dated record rfl) allowed.2 record rfl
  · exact fun record => dated_start

/-- The time on the day that begins at a time and has the given date. -/
def timeOn (midnight year : Int) (mon mday yday : Nat) (t : Int) : Tm :=
  let second := (t - midnight).toNat
  ⟨year, mon, mday, second / 3600, second % 3600 / 60, second % 60, yday⟩

/-- UTC on the last day of 2016 and the first of 2017. -/
def utcNewYear (t : Int) : Tm :=
  if t < 1483228800 then timeOn 1483142400 116 11 31 365 t else timeOn 1483228800 117 0 1 0 t

/-- UTC on the tenth and the eleventh of June 2016. -/
def utcJune (t : Int) : Tm :=
  if t < 1465603200 then timeOn 1465516800 116 5 10 161 t else timeOn 1465603200 116 5 11 162 t

/-- A machine whose clock is UTC, and one that is an hour ahead. -/
def greenwich : System := ⟨utcNewYear, utcNewYear, [], []⟩

def hourAhead : System := ⟨fun t => utcJune (t + 3600), utcJune, [], []⟩

/-- A file that was started on the last day of a year is not rolled on the first of the next. A
file that was started half an hour before midnight in UTC, which was asked for, is not rolled
after midnight on a machine whose clock is an hour ahead. -/
theorem not_rolled :
    ¬ Run.Always (turn greenwich) (OnDay greenwich false) (fun _ _ => True)
      (start greenwich [] 1000 3 false 1483228799 (some 0)) [⟨[], 1483228800, none⟩] ∧
    ¬ Run.Always (turn hourAhead) (OnDay hourAhead true) (fun _ _ => True)
      (start hourAhead [] 1000 3 true 1465601400 (some 0)) [⟨[], 1465605000, none⟩] := by
  constructor <;> intro always <;> have onDay := always.final _ rfl <;> revert onDay <;> decide

end Cube.Eco.Log.SinkRecord

/-! ## The flush interval

An append flushes the file if the append before was `m_flush_interval` seconds ago. Appends that
follow each other faster than that never do.
-/

namespace Cube.Eco.Log.SinkRecord

variable {system : System} {record : SinkRecord} {input : Append}

/-- The file was flushed, or opened, `m_flush_interval` seconds ago or earlier. -/
def Due (record : SinkRecord) (input : Append) : Prop :=
  input.now - record.flushed ≥ record.sink.context.flushInterval.toNat

instance (record : SinkRecord) (input : Append) : Decidable (Due record input) :=
  inferInstanceAs (Decidable (_ ≥ _))

/-- An append that returns has flushed the file if that was due. -/
def FlushesInTime (system : System) (state : Outcome CString SinkRecord) (input : Append) : Prop :=
  ∀ record after, state = .ok record → record.append system input = .ok after →
    Due record input → after.sink.file.pending = []

/-- When a flush is due, the append before, or the opening of the sink, was `m_flush_interval`
seconds ago or earlier, or the append rolls the file. -/
def Pauses (system : System) (state : Outcome CString SinkRecord) (input : Append) : Prop :=
  ∀ record, state = .ok record → Due record input →
    input.now - record.sink.context.nowTime ≥ record.sink.context.flushInterval.toNat ∨
      Rolls system record input

/-- What an append leaves to be flushed. -/
theorem pending_append {after : SinkRecord} (appended : record.append system input = .ok after) :
    after.sink.file.pending = [] ↔
      input.now - record.sink.context.nowTime ≥ record.sink.context.flushInterval.toNat ∨
        Rolls system record input := by
  have isFlush : (record.sink.context.update input.now).isFlush = true ↔
      input.now - record.sink.context.nowTime ≥ record.sink.context.flushInterval.toNat :=
    decide_eq_true_iff
  rw [append_eq] at appended
  split at appended
  next rolls =>
    split at appended
    · cases appended
      exact iff_of_true rfl (.inr rolls)
    · cases appended
  next stays =>
    cases appended
    rw [or_iff_left stays, ← isFlush]
    cases (record.sink.context.update input.now).isFlush with
    | true => exact iff_of_true rfl rfl
    | false => exact iff_of_false (List.concat_ne_nil _ _) Bool.false_ne_true

/-- An append that opens no file returns. -/
theorem append_returns (stays : ¬ Rolls system record input) :
    ∃ after, record.append system input = .ok after := by
  rw [append_eq, if_neg stays]
  exact ⟨_, rfl⟩

theorem flushesInTime_iff (state : Outcome CString SinkRecord) (input : Append) :
    FlushesInTime system state input ↔ Pauses system state input := by
  constructor
  · intro flushes record same due
    by_cases rolls : Rolls system record input
    · exact .inr rolls
    · obtain ⟨after, appended⟩ := append_returns rolls
      exact (pending_append appended).mp (flushes record after same appended due)
  · intro pauses record after same appended due
    exact (pending_append appended).mpr (pauses record same due)

/-- **The flush interval.** Along every sequence of appends, those that return have flushed the
file if the last flush was long ago, exactly when at each such append the append before was long
ago as well, or the file is rolled. -/
theorem flush_interval_iff (system : System) (filePath : CString) (rollSize : UInt64)
    (flushInterval : UInt32) (isUtc : Bool) (now : Int) (opened : Option UInt32)
    (appends : List Append) :
    Run.Always (turn system) (fun _ => True) (FlushesInTime system)
        (start system filePath rollSize flushInterval isUtc now opened) appends ↔
      Run.Steps (turn system) (Pauses system)
        (start system filePath rollSize flushInterval isUtc now opened) appends := by
  apply Run.always_iff_steps fun _ => True
  · exact fun _ _ => trivial
  · exact fun state input _ pauses => ⟨(flushesInTime_iff state input).mpr pauses, trivial⟩
  · exact fun state input _ late allowed => late ((flushesInTime_iff state input).mp allowed.1)
  · trivial

/-- Two appends, two and four seconds after the sink was opened, with an interval of three. -/
theorem not_flushed : ¬ Run.Always (turn greenwich) (fun _ => True) (FlushesInTime greenwich)
    (start greenwich [] 1000 3 false 1483142400 (some 0))
    [⟨[], 1483142402, none⟩, ⟨[], 1483142404, none⟩] := by
  intro always
  have pauses := (flushesInTime_iff _ _).mp always.2.2.2.1
  rcases pauses _ rfl (by decide) with long | rolls
  · exact absurd long (by decide)
  · exact absurd rolls (by decide)

end Cube.Eco.Log.SinkRecord
