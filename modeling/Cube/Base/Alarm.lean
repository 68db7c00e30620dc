import Mathlib.Tactic.Common
import Mathlib.Data.Int.Notation
import Cube.Lib.Run

/-! # The alarm

`alarm.cpp` on its timer of `timer.cpp` and the scheduler of `dispatch.cpp`: the time of the next
signal, the ticks of the scheduler, which put operations in its queue, and the execution of these
operations at any later time. Times are seconds since the epoch, except the clock of the scheduler,
which counts milliseconds; the zone is the fixed offset of local time.
-/

namespace Cube.Base

/-- `alarm_info`: a daily time, a minute and a second of every hour (a negative hour), or a second
of every minute (a negative minute). -/
structure AlarmInfo where
  hour : Int
  minute : Int
  second : Int
  hour_lt : hour < 24
  minute_lt : minute < 60
  second_nonneg : 0 ≤ second
  second_lt : second < 60

/-- The fields of `struct tm` that the alarm reads. -/
structure Tm where
  tmHour : Int
  tmMin : Int
  tmSec : Int
  deriving DecidableEq

/-- `localtime` in a zone without daylight saving. -/
def localtime (zone : Int) (t : Nat) : Tm where
  tmHour := (t + zone) / 3600 % 24
  tmMin := (t + zone) / 60 % 60
  tmSec := (t + zone) % 60

namespace Alarm

/-- `calc_fire_period`. -/
def firePeriod (ainfo : AlarmInfo) : Int :=
  if ainfo.minute < 0 then 60
  else if ainfo.hour < 0 then 60 * 60
  else 60 * 60 * 24

/-- `set_fire_time` at the time `t`: the new `fire_time_`. -/
def setFireTime (ainfo : AlarmInfo) (zone : Int) (fireTime : Int) (t : Nat) : Int :=
  if fireTime = 0 then
    let dt := localtime zone t
    if ainfo.minute < 0 then
      let param := if ainfo.second ≤ dt.tmSec then 1 else 0
      param * 60 + (ainfo.second - dt.tmSec) + t
    else if ainfo.hour < 0 then
      let param :=
        if ainfo.minute < dt.tmMin ∨ (ainfo.minute = dt.tmMin ∧ ainfo.second ≤ dt.tmSec) then 1
        else 0
      60 * (param * 60 + (ainfo.minute - dt.tmMin)) + (ainfo.second - dt.tmSec) + t
    else
      let param :=
        if ainfo.hour < dt.tmHour ∨ (ainfo.hour = dt.tmHour ∧ ainfo.minute < dt.tmMin) ∨
            (ainfo.hour = dt.tmHour ∧ ainfo.minute = dt.tmMin ∧ ainfo.second ≤ dt.tmSec) then 1
        else 0
      3600 * (24 * param + (ainfo.hour - dt.tmHour)) + 60 * (ainfo.minute - dt.tmMin) +
        (ainfo.second - dt.tmSec) + t
  else fireTime + firePeriod ainfo

/-- An alarm with its timer, the operations of the timer that are queued, and the times at which the
alarm was signalled. `since` is kept for the statements: when the alarm was turned on, and how often
it was signalled from then on. -/
structure State where
  fireTime : Int
  nextFireTime : Option Nat
  queued : Nat
  signals : List Nat
  since : Option (Nat × Nat)
  deriving DecidableEq

/-- A new alarm. -/
def initial : State := ⟨0, none, 0, [], none⟩

/-- A call, a tick of the scheduler or the execution of a queued operation, with the time and, where
it is read, the clock of the scheduler. -/
inductive Input where
  | turnOn (t clock : Nat)
  | tick (clock : Nat)
  | timeout (t : Nat)
  | turnOff

variable (ainfo : AlarmInfo) (zone : Int)

/-- `turn_on`: the timer is set for 1000 milliseconds, repeated, and attached again. -/
def turnOn (state : State) (t clock : Nat) : State :=
  { state with
    fireTime := setFireTime ainfo zone state.fireTime t
    nextFireTime := some (clock + 1000)
    since := some (state.since.getD (t, 0)) }

/-- `check_timers`, for this timer. -/
def checkTimers (state : State) (clock : Nat) : State :=
  match state.nextFireTime with
  | none => state
  | some nextFireTime =>
      if 0 < nextFireTime ∧ nextFireTime < clock then
        { state with queued := state.queued + 1, nextFireTime := some (clock + 1000) }
      else if nextFireTime = 0 then { state with nextFireTime := some (clock + 1000) }
      else state

/-- `on_timeout`. -/
def onTimeout (state : State) (t : Nat) : State :=
  if state.fireTime ≤ t then
    { state with
      fireTime := setFireTime ainfo zone state.fireTime t
      signals := state.signals ++ [t]
      since := state.since.map fun (start, count) => (start, count + 1) }
  else state

/-- `turn_off`. -/
def turnOff (state : State) : State :=
  { state with nextFireTime := none, fireTime := 0, since := none }

def step (state : State) : Input → State
  | .turnOn t clock => turnOn ainfo zone state t clock
  | .tick clock => checkTimers state clock
  | .timeout t =>
      if state.queued = 0 then state
      else onTimeout ainfo zone { state with queued := state.queued - 1 } t
  | .turnOff => turnOff state

/-! ## The schedule -/

/-- The instant matches the alarm in its second, and in its minute and hour as far as given. -/
def Matches (t : Nat) : Prop :=
  (localtime zone t).tmSec = ainfo.second ∧
    (0 ≤ ainfo.minute → (localtime zone t).tmMin = ainfo.minute ∧
      (0 ≤ ainfo.hour → (localtime zone t).tmHour = ainfo.hour))

/-- The earliest matching instant strictly later than `t`. -/
def Next (t next : Nat) : Prop :=
  t < next ∧ Matches ainfo zone next ∧ ∀ other, t < other → Matches ainfo zone other → next ≤ other

/-- The instant that follows `count` matching instants later than `t`. -/
def Instant (t : Nat) : (count : Nat) → Nat → Prop
  | 0, instant => Next ainfo zone t instant
  | count + 1, instant => ∃ before, Instant t count before ∧ Next ainfo zone before instant

/-- While the alarm is on, it will be signalled next for the first matching instant that it was not
signalled for since it was turned on. -/
def Kept (state : State) : Prop :=
  ∀ start count, state.since = some (start, count) →
    ∃ instant, Instant ainfo zone start count instant ∧ state.fireTime = instant

/-- The alarm is due at `t`: it is on, and the first matching instant that it was not signalled for
has come. -/
def Due (state : State) (t : Nat) : Prop :=
  ∃ start count instant, state.since = some (start, count) ∧
    Instant ainfo zone start count instant ∧ instant ≤ t

/-- The alarm is signalled by a queued operation that is executed when the alarm is due, and by
nothing else. -/
def Timely (state : State) (input : Input) : Prop :=
  match input with
  | .timeout t =>
      (0 < state.queued ∧ Due ainfo zone state t →
        (step ainfo zone state input).signals = state.signals ++ [t]) ∧
      (¬ (0 < state.queued ∧ Due ainfo zone state t) →
        (step ainfo zone state input).signals = state.signals)
  | _ => (step ainfo zone state input).signals = state.signals

/-- The alarm is turned on only while it is off, and no queued operation is executed while it is
off. -/
def Good (state : State) : Input → Prop
  | .turnOn _ _ => state.since = none
  | .timeout _ => state.queued = 0 ∨ state.since ≠ none
  | _ => True

variable {ainfo zone}

/-! ## Matching instants -/

/-- Where in a period the matching instants are. -/
def phase (ainfo : AlarmInfo) : Int :=
  if ainfo.minute < 0 then ainfo.second
  else if ainfo.hour < 0 then 60 * ainfo.minute + ainfo.second
  else 3600 * ainfo.hour + 60 * ainfo.minute + ainfo.second

theorem firePeriod_pos (ainfo : AlarmInfo) : 0 < firePeriod ainfo := by
  unfold firePeriod
  split_ifs <;> decide

theorem matches_iff {t : Nat} :
    Matches ainfo zone t ↔ (t + zone) % firePeriod ainfo = phase ainfo := by
  have second := ainfo.second_nonneg
  have second' := ainfo.second_lt
  have minute := ainfo.minute_lt
  have hour := ainfo.hour_lt
  simp only [Matches, localtime, firePeriod, phase]
  by_cases everyMinute : ainfo.minute < 0
  · rw [if_pos everyMinute, if_pos everyMinute]
    constructor
    · exact fun same => same.1
    · exact fun same => ⟨same, fun given => absurd given (by omega)⟩
  · rw [if_neg everyMinute, if_neg everyMinute]
    by_cases everyHour : ainfo.hour < 0
    · rw [if_pos everyHour, if_pos everyHour]
      constructor
      · rintro ⟨sec, given⟩
        have min := (given (by omega)).1
        omega
      · exact fun same => ⟨by omega, fun _ => ⟨by omega, fun given => absurd given (by omega)⟩⟩
    · rw [if_neg everyHour, if_neg everyHour]
      constructor
      · rintro ⟨sec, given⟩
        obtain ⟨min, given⟩ := given (by omega)
        have hr := given (by omega)
        omega
      · exact fun same => ⟨by omega, fun _ => ⟨by omega, fun _ => by omega⟩⟩

/-- A matching instant within a period is the earliest. -/
theorem next_of_within {t next : Nat} (later : t < next) (within : next ≤ t + firePeriod ainfo)
    (matching : Matches ainfo zone next) : Next ainfo zone t next := by
  refine ⟨later, matching, fun other after also => ?_⟩
  by_contra before
  have positive := firePeriod_pos ainfo
  have same : ((next + zone) - (other + zone)) % firePeriod ainfo = 0 :=
    Int.emod_eq_emod_iff_emod_sub_eq_zero.mp
      ((matches_iff.mp matching).trans (matches_iff.mp also).symm)
  have small := Int.emod_eq_of_lt (a := (next + zone) - (other + zone)) (b := firePeriod ainfo)
    (by omega) (by omega)
  omega

theorem Next.unique {t first second : Nat} (one : Next ainfo zone t first)
    (two : Next ainfo zone t second) : first = second :=
  Nat.le_antisymm (one.2.2 second two.1 two.2.1) (two.2.2 first one.1 one.2.1)

theorem Instant.unique {t count first second : Nat} (one : Instant ainfo zone t count first)
    (two : Instant ainfo zone t count second) : first = second := by
  induction count generalizing first second with
  | zero => exact Next.unique one two
  | succ count ih =>
      obtain ⟨before, earlier, next⟩ := one
      obtain ⟨before', earlier', next'⟩ := two
      obtain rfl := ih earlier earlier'
      exact next.unique next'

theorem Instant.matching {t count instant : Nat} (reached : Instant ainfo zone t count instant) :
    Matches ainfo zone instant ∧ 0 < instant := by
  cases count with
  | zero => exact ⟨reached.2.1, by have := reached.1; omega⟩
  | succ count =>
      obtain ⟨before, _, next⟩ := reached
      exact ⟨next.2.1, by have := next.1; omega⟩

/-- The first time that is set is the earliest matching instant later than the call. -/
theorem setFireTime_first (ainfo : AlarmInfo) (zone : Int) (t : Nat) :
    ∃ next : Nat, setFireTime ainfo zone 0 t = next ∧ Next ainfo zone t next := by
  have second := ainfo.second_nonneg
  have second' := ainfo.second_lt
  have minute := ainfo.minute_lt
  have hour := ainfo.hour_lt
  have within : t < setFireTime ainfo zone 0 t ∧
      setFireTime ainfo zone 0 t ≤ t + firePeriod ainfo ∧
      (setFireTime ainfo zone 0 t + zone) % firePeriod ainfo = phase ainfo := by
    simp only [setFireTime, firePeriod, phase, localtime, ↓reduceIte]
    by_cases everyMinute : ainfo.minute < 0
    · simp only [everyMinute, ↓reduceIte]
      split_ifs <;> omega
    · by_cases everyHour : ainfo.hour < 0
      · simp only [everyMinute, everyHour, ↓reduceIte]
        split_ifs <;> omega
      · simp only [everyMinute, everyHour, ↓reduceIte]
        split_ifs <;> omega
  obtain ⟨later, early, matching⟩ := within
  obtain ⟨next, known⟩ := Int.eq_ofNat_of_zero_le (show 0 ≤ setFireTime ainfo zone 0 t by omega)
  rw [known] at later early matching ⊢
  exact ⟨next, rfl, next_of_within (by omega) early (matches_iff.mpr matching)⟩

/-- Each further time that is set is the matching instant that follows. -/
theorem setFireTime_next {instant : Nat} (matching : Matches ainfo zone instant)
    (positive : 0 < instant) (t : Nat) :
    ∃ next : Nat, setFireTime ainfo zone instant t = next ∧ Next ainfo zone instant next := by
  have period := firePeriod_pos ainfo
  obtain ⟨next, known⟩ :=
    Int.eq_ofNat_of_zero_le (show 0 ≤ (instant : Int) + firePeriod ainfo by omega)
  refine ⟨next, ?_, next_of_within (by omega) (by omega) (matches_iff.mpr ?_)⟩
  · rw [setFireTime, if_neg (by omega), known]
  · have shifted : (next : Int) + zone = instant + zone + firePeriod ainfo := by
      have same : (instant : Int) + firePeriod ainfo = next := known
      omega
    rw [shifted, Int.add_emod_right]
    exact matches_iff.mp matching

/-! ## Runs -/

/-- While the alarm is off its fire time is 0, and while it is on the fire time is the next instant
of its schedule. -/
def Scheduled (ainfo : AlarmInfo) (zone : Int) (state : State) : Prop :=
  (state.since = none → state.fireTime = 0) ∧ Kept ainfo zone state

variable {state : State}

theorem scheduled_initial : Scheduled ainfo zone initial := ⟨fun _ => rfl, nofun⟩

/-- A tick changes neither the schedule nor the signals. -/
theorem checkTimers_fields (state : State) (clock : Nat) :
    (checkTimers state clock).fireTime = state.fireTime ∧
      (checkTimers state clock).since = state.since ∧
      (checkTimers state clock).signals = state.signals := by
  unfold checkTimers
  split
  · exact ⟨rfl, rfl, rfl⟩
  · split_ifs <;> exact ⟨rfl, rfl, rfl⟩

/-- An alarm that is on is due exactly from its fire time on. -/
theorem Scheduled.due_iff (scheduled : Scheduled ainfo zone state) (on : state.since ≠ none)
    (t : Nat) : Due ainfo zone state t ↔ state.fireTime ≤ t := by
  obtain ⟨⟨start, count⟩, since⟩ := Option.ne_none_iff_exists'.mp on
  obtain ⟨instant, reached, fire⟩ := scheduled.2 start count since
  rw [fire]
  constructor
  · rintro ⟨start', count', instant', since', reached', come⟩
    obtain ⟨rfl, rfl⟩ := Prod.mk.inj (Option.some.inj (since.symm.trans since'))
    obtain rfl := reached.unique reached'
    exact Int.ofNat_le.mpr come
  · exact fun come => ⟨start, count, instant, since, reached, Int.ofNat_le.mp come⟩

/-- The execution of an operation while the alarm is on. -/
theorem Scheduled.onTimeout (scheduled : Scheduled ainfo zone state) (on : state.since ≠ none)
    (t : Nat) : Scheduled ainfo zone (onTimeout ainfo zone state t) := by
  obtain ⟨⟨start, count⟩, since⟩ := Option.ne_none_iff_exists'.mp on
  obtain ⟨instant, reached, fire⟩ := scheduled.2 start count since
  unfold Alarm.onTimeout
  by_cases come : state.fireTime ≤ t
  · rw [if_pos come]
    obtain ⟨matching, positive⟩ := reached.matching
    obtain ⟨next, set, following⟩ := setFireTime_next matching positive t
    refine ⟨fun off => ?_, fun start' count' since' => ?_⟩
    · simp [since] at off
    · simp only [since, Option.map_some, Option.some.injEq, Prod.mk.injEq] at since'
      obtain ⟨rfl, rfl⟩ := since'
      exact ⟨next, ⟨instant, reached, following⟩, by rw [fire, set]⟩
  · rw [if_neg come]
    exact scheduled

/-- A good step keeps the schedule and signals on time. -/
theorem Scheduled.step (scheduled : Scheduled ainfo zone state) {input : Input}
    (good : Good state input) : Timely ainfo zone state input ∧
      Scheduled ainfo zone (step ainfo zone state input) := by
  cases input with
  | turnOn t clock =>
      have off : state.since = none := good
      refine ⟨rfl, fun on => by simp [Alarm.step, turnOn, off] at on, fun start count since => ?_⟩
      obtain ⟨next, set, first⟩ := setFireTime_first ainfo zone t
      simp only [Alarm.step, turnOn, off, Option.getD_none, Option.some.injEq,
        Prod.mk.injEq] at since
      obtain ⟨rfl, rfl⟩ := since
      refine ⟨next, first, ?_⟩
      simp only [Alarm.step, turnOn, scheduled.1 off, set]
  | tick clock =>
      obtain ⟨fire, since, signals⟩ := checkTimers_fields state clock
      refine ⟨signals, fun off => ?_, fun start count on => ?_⟩
      · exact fire.trans (scheduled.1 (since.symm.trans off))
      · rw [Alarm.step, since] at on
        obtain ⟨instant, reached, known⟩ := scheduled.2 start count on
        exact ⟨instant, reached, fire.trans known⟩
  | timeout t =>
      by_cases empty : state.queued = 0
      · have same : Alarm.step ainfo zone state (.timeout t) = state := if_pos empty
        refine ⟨⟨fun both => absurd empty (by omega), fun _ => ?_⟩, ?_⟩
        · rw [same]
        · rw [same]
          exact scheduled
      · have on : state.since ≠ none := good.resolve_left empty
        have popped : Scheduled ainfo zone { state with queued := state.queued - 1 } := scheduled
        have executed : Alarm.step ainfo zone state (.timeout t) =
          Alarm.onTimeout ainfo zone { state with queued := state.queued - 1 } t := if_neg empty
        refine ⟨⟨fun both => ?_, fun neither => ?_⟩, ?_⟩
        · have come := (scheduled.due_iff on t).mp both.2
          rw [executed, Alarm.onTimeout, if_pos come]
        · have early : ¬ state.fireTime ≤ t := fun come =>
            neither ⟨by omega, (scheduled.due_iff on t).mpr come⟩
          rw [executed, Alarm.onTimeout, if_neg early]
        · rw [executed]
          exact popped.onTimeout on t
  | turnOff => exact ⟨rfl, fun _ => rfl, nofun⟩

/-- A step that is not good leaves the schedule or signals while the alarm is off. -/
theorem Scheduled.broken (scheduled : Scheduled ainfo zone state) {input : Input}
    (bad : ¬ Good state input) :
    ¬ (Timely ainfo zone state input ∧ Kept ainfo zone (Alarm.step ainfo zone state input)) := by
  rintro ⟨timely, kept⟩
  cases input with
  | turnOn t clock =>
      obtain ⟨⟨start, count⟩, since⟩ :=
        Option.ne_none_iff_exists'.mp (show state.since ≠ none from bad)
      obtain ⟨instant, reached, fire⟩ := scheduled.2 start count since
      obtain ⟨matching, positive⟩ := reached.matching
      obtain ⟨next, set, following⟩ := setFireTime_next matching positive t
      have on : (Alarm.step ainfo zone state (.turnOn t clock)).since = some (start, count) := by
        simp [Alarm.step, turnOn, since]
      obtain ⟨instant', reached', fire'⟩ := kept start count on
      obtain rfl := reached.unique reached'
      simp only [Alarm.step, turnOn, fire, set] at fire'
      have later := following.1
      omega
  | tick clock => exact bad trivial
  | timeout t =>
      obtain ⟨nonempty, off⟩ : state.queued ≠ 0 ∧ state.since = none := by
        simpa [Good] using bad
      have zero := scheduled.1 off
      have never : ¬ (0 < state.queued ∧ Due ainfo zone state t) := by
        rintro ⟨_, start, count, instant, since, _⟩
        rw [off] at since
        cases since
      have silent := timely.2 never
      have come : state.fireTime ≤ t := by omega
      have raised : (Alarm.step ainfo zone state (.timeout t)).signals = state.signals ++ [t] := by
        rw [Alarm.step, if_neg nonempty, Alarm.onTimeout, if_pos come]
      have lengths := congrArg List.length (raised.symm.trans silent)
      simp at lengths
  | turnOff => exact bad trivial

/-- The alarm keeps its schedule in every state of a run and signals on time in every step exactly
if it is turned on only while it is off and no queued operation is executed while it is off. -/
theorem kept_iff (ainfo : AlarmInfo) (zone : Int) (inputs : List Input) :
    Run.Always (step ainfo zone) (Kept ainfo zone) (Timely ainfo zone) initial inputs ↔
      Run.Steps (step ainfo zone) Good initial inputs :=
  Run.always_iff_steps (Scheduled ainfo zone) (fun _ scheduled => scheduled.2)
    (fun _ _ scheduled good => scheduled.step good)
    (fun _ _ scheduled bad => scheduled.broken bad) scheduled_initial inputs

/-- Every day at 0:00:10. -/
def tenSeconds : AlarmInfo := ⟨0, 0, 10, by decide, by decide, by decide, by decide⟩

/-- The alarm is turned on at second 5 and signalled at second 11, by the operation of a tick. -/
theorem kept_daily :
    Run.Always (step tenSeconds 0) (Kept tenSeconds 0) (Timely tenSeconds 0) initial
      [.turnOn 5 100, .tick 1101, .timeout 11, .turnOff] := by
  refine (kept_iff tenSeconds 0 _).mpr ⟨rfl, trivial, .inr ?_, trivial, trivial⟩
  decide

/-- An operation that was queued before the alarm was turned off signals it. -/
theorem not_kept_queued :
    ¬ Run.Always (step tenSeconds 0) (Kept tenSeconds 0) (Timely tenSeconds 0) initial
      [.turnOn 5 100, .tick 1101, .turnOff, .timeout 6] := by
  rintro ⟨-, -, -, -, -, -, -, timely, -⟩
  have silent := timely.2 (by rintro ⟨_, start, count, instant, since, _⟩; cases since)
  exact absurd silent (by decide)

end Alarm

end Cube.Base
