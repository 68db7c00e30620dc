import Mathlib.Data.List.Nodup
import Mathlib.Logic.Function.Basic
import Cube.Lib.Run

/-! # The timers of the dispatch scheduler

`dispatch_scheduler` of `dispatch.cpp` keeps its timers in one vector, under one mutex, and goes
through all of them in every turn of its thread. Here a timer posts its operation as if it were
alone. The clock is read several times in one turn, and no reading comes near the end of a `long`;
what a timer posts is noted in a log, with the reading it was posted at.
-/

namespace Cube.Base.Dispatch

/-- The timing of a timer, as `set_timer` leaves it. -/
structure Timer where
  timeout : Int
  repeats : Bool
  positive : 0 < timeout

/-- `set_timer`. -/
def Timer.set (timeout : Int) (repeats : Bool) : Timer :=
  if positive : 0 < timeout then ⟨timeout, repeats, positive⟩ else ⟨1, repeats, Int.one_pos⟩

/-- What happened to a timer: it posts its operation when it is fired and when it is due. -/
inductive Entry (ι : Type) where
  | attached (timer : ι) (clock : Int)
  | detached (timer : ι)
  | fired (timer : ι) (clock : Int)
  | due (timer : ι) (clock : Int)

def Entry.timer {ι : Type} : Entry ι → ι
  | .attached timer _ => timer
  | .detached timer => timer
  | .fired timer _ => timer
  | .due timer _ => timer

structure Scheduler (ι : Type) where
  nextFireTime : ι → Int
  timers : List ι
  reads : Nat
  log : List (Entry ι)

variable {ι : Type} [DecidableEq ι] (clock : Nat → Int) (timer : ι → Timer)

namespace Scheduler

/-! ## The code -/

/-- `t->next_fire_time_ = util::clock() + t->timeout_`. -/
def rearm (s : Scheduler ι) (t : ι) : Scheduler ι :=
  { s with
    nextFireTime := Function.update s.nextFireTime t (clock s.reads + (timer t).timeout)
    reads := s.reads + 1 }

def note (s : Scheduler ι) (entry : Entry ι) : Scheduler ι := { s with log := s.log ++ [entry] }

def attachTimer (s : Scheduler ι) (t : ι) : Scheduler ι :=
  { s.rearm clock timer t with timers := s.timers ++ [t] }.note (.attached t (clock s.reads))

def detachTimer (s : Scheduler ι) (t : ι) : Scheduler ι :=
  { s with timers := s.timers.erase t }.note (.detached t)

def fireTimer (s : Scheduler ι) (t : ι) : Scheduler ι :=
  (s.rearm clock timer t).note (.fired t (clock s.reads))

/-- The first test of a turn of `check_timers`; the clock is read only behind the first part. -/
def postDue (s : Scheduler ι) (t : ι) : Scheduler ι :=
  if 0 < s.nextFireTime t then
    if s.nextFireTime t < clock s.reads then
      { s with nextFireTime := Function.update s.nextFireTime t 0, reads := s.reads + 1 }.note
        (.due t (clock s.reads))
    else { s with reads := s.reads + 1 }
  else s

/-- A turn of `check_timers`, and whether the timer stays. -/
def visit (s : Scheduler ι) (t : ι) : Scheduler ι × Bool :=
  let s := s.postDue clock t
  if s.nextFireTime t = 0 then
    if (timer t).repeats then (s.rearm clock timer t, true) else (s, false)
  else (s, true)

/-- The loop of `check_timers`, with the timers that stay in front of those that are left. -/
def checkLoop : (kept left : List ι) → Scheduler ι → Scheduler ι
  | kept, [], s => { s with timers := kept }
  | kept, t :: left, s =>
      let visited := s.visit clock timer t
      checkLoop (if visited.2 then kept ++ [t] else kept) left visited.1

def checkTimers (s : Scheduler ι) : Scheduler ι := checkLoop clock timer [] s.timers s

end Scheduler

/-- What is done with the mutex held. `timer::start` detaches and then attaches its timer. -/
inductive Event (ι : Type) where
  | attach (timer : ι)
  | detach (timer : ι)
  | fire (timer : ι)
  | check

def step (s : Scheduler ι) : Event ι → Scheduler ι
  | .attach t => s.attachTimer clock timer t
  | .detach t => s.detachTimer t
  | .fire t => s.fireTimer clock timer t
  | .check => s.checkTimers clock timer

/-- A clock that does not go back, and that has begun. -/
structure Ticks (clock : Nat → Int) : Prop where
  later : ∀ {i j}, i ≤ j → clock i ≤ clock j
  positive : ∀ k, 0 < clock k

/-- A timer is attached only when it is not in the vector, as `start` sees to. -/
def Attachable (s : Scheduler ι) : Event ι → Prop
  | .attach t => t ∉ s.timers
  | .detach _ => True
  | .fire _ => True
  | .check => True

instance (s : Scheduler ι) : DecidablePred (Attachable s)
  | .attach t => inferInstanceAs (Decidable (t ∉ s.timers))
  | .detach _ => isTrue trivial
  | .fire _ => isTrue trivial
  | .check => isTrue trivial

/-! ## One timer -/

/-- A timer alone: it is off, or it was attached, fired or due last at some reading. -/
inductive Phase where
  | off
  | on (since : Int)

/-- What may happen to a timer: it is due only when it is on, and later than its timeout after it
was attached, fired or due last; if it does not repeat it is off then. -/
def Phase.next (timer : Timer) : Phase → Entry ι → Option Phase
  | _, .attached _ clock => some (.on clock)
  | _, .detached _ => some .off
  | .off, .fired _ _ => some .off
  | .on _, .fired _ clock => some (.on clock)
  | .off, .due _ _ => none
  | .on since, .due _ clock =>
      if since + timer.timeout < clock then some (if timer.repeats then .on clock else .off)
      else none

/-- The phase of a timer behind a log, if all that happened to it may happen. -/
def phaseOf (log : List (Entry ι)) (t : ι) : Option Phase :=
  (log.filter (·.timer = t)).foldlM (Phase.next (timer t)) .off

variable {clock timer}

theorem phaseOf_own {log : List (Entry ι)} {t : ι} {phase : Phase}
    (before : phaseOf timer log t = some phase) (entry : Entry ι) (own : entry.timer = t) :
    phaseOf timer (log ++ [entry]) t = phase.next (timer t) entry := by
  rw [phaseOf] at before
  rw [phaseOf, List.filter_append, List.filter_cons_of_pos (by simpa using own), List.filter_nil,
    List.foldlM_append, before]
  exact bind_pure (Phase.next (timer t) phase entry)

/-- A timer in the vector is on, and its time is its timeout after what happened last, or later. -/
def Running (timer : ι → Timer) (s : Scheduler ι) (t : ι) : Prop :=
  ∃ since, phaseOf timer s.log t = some (.on since) ∧
    since + (timer t).timeout ≤ s.nextFireTime t ∧ 0 < s.nextFireTime t

/-- The timers in some vector run, and the others are off. -/
structure Keeps (timer : ι → Timer) (s : Scheduler ι) (timers : List ι) : Prop where
  nodup : timers.Nodup
  running : ∀ t ∈ timers, Running timer s t
  stopped : ∀ t ∉ timers, phaseOf timer s.log t = some .off

/-- What a turn for one timer leaves to the others. -/
structure Spares (s next : Scheduler ι) (t : ι) : Prop where
  time : ∀ other ≠ t, next.nextFireTime other = s.nextFireTime other
  reads : s.reads ≤ next.reads
  log : ∃ added, next.log = s.log ++ added ∧ ∀ entry ∈ added, entry.timer = t

theorem Spares.phaseOf {s next : Scheduler ι} {t other : ι} (spares : Spares s next t)
    (different : other ≠ t) : phaseOf timer next.log other = phaseOf timer s.log other := by
  obtain ⟨added, log, own⟩ := spares.log
  have others : added.filter (·.timer = other) = [] := by
    rw [List.filter_eq_nil_iff]
    intro entry member same
    exact different ((of_decide_eq_true same).symm.trans (own entry member))
  rw [Dispatch.phaseOf, log, List.filter_append, others, List.append_nil]
  rfl

theorem Keeps.change {s next : Scheduler ι} {t : ι} {timers after : List ι}
    (keeps : Keeps timer s timers) (spares : Spares s next t) (nodup : after.Nodup)
    (others : ∀ other ≠ t, other ∈ after ↔ other ∈ timers)
    (running : t ∈ after → Running timer next t)
    (stopped : t ∉ after → phaseOf timer next.log t = some .off) : Keeps timer next after := by
  refine ⟨nodup, fun other member => ?_, fun other absent => ?_⟩
  · by_cases same : other = t
    · exact same ▸ running (same ▸ member)
    · obtain ⟨since, phase, later, positive⟩ :=
        keeps.running other ((others other same).mp member)
      refine ⟨since, (spares.phaseOf same).trans phase, ?_⟩
      rw [spares.time other same]
      exact ⟨later, positive⟩
  · by_cases same : other = t
    · exact same ▸ stopped (same ▸ absent)
    · rw [spares.phaseOf same]
      exact keeps.stopped other (mt (others other same).mpr absent)

/-- A timer that is armed behind what happened last runs. -/
theorem running_armed (ticks : Ticks clock) {after : Scheduler ι} {t : ι} {since : Int}
    {k : Nat} (earlier : since ≤ clock k) (phase : phaseOf timer after.log t = some (.on since))
    (time : after.nextFireTime t = clock k + (timer t).timeout) : Running timer after t := by
  have now := ticks.positive k
  have long := (timer t).positive
  exact ⟨since, phase, by omega, by omega⟩

/-- What is due is posted, in a turn for one timer. -/
def Posts (s next : Scheduler ι) (t : ι) : Prop :=
  ∃ added reading, next.log = s.log ++ added ∧ .due t reading ∈ added

/-- **A turn for one timer.** The timer stays in the vector and runs, or is off and leaves. -/
theorem visit_spec (ticks : Ticks clock) {s : Scheduler ι} {t : ι}
    (running : Running timer s t) :
    Spares s (s.visit clock timer t).1 t ∧
      ((s.visit clock timer t).2 = true → Running timer (s.visit clock timer t).1 t) ∧
      ((s.visit clock timer t).2 = false →
        phaseOf timer (s.visit clock timer t).1.log t = some .off) ∧
      (s.nextFireTime t < clock s.reads → Posts s (s.visit clock timer t).1 t) := by
  obtain ⟨since, phase, later, awake⟩ := running
  by_cases due : s.nextFireTime t < clock s.reads
  · let posted : Scheduler ι := { s with
      nextFireTime := Function.update s.nextFireTime t 0, reads := s.reads + 1
      log := s.log ++ [.due t (clock s.reads)] }
    have turned : s.postDue clock t = posted := by
      rw [Scheduler.postDue, if_pos awake, if_pos due]
      rfl
    have zero : posted.nextFireTime t = 0 := Function.update_self ..
    have next : phaseOf timer posted.log t =
        some (if (timer t).repeats then .on (clock s.reads) else .off) := by
      have own := phaseOf_own phase (.due t (clock s.reads)) rfl
      exact own.trans (if_pos (by omega))
    have posts : s.nextFireTime t < clock s.reads → Posts s posted t :=
      fun _ => ⟨_, _, rfl, List.mem_singleton_self _⟩
    have spares : Spares s posted t :=
      ⟨fun other different => Function.update_of_ne different .., Nat.le_succ _, _, rfl,
        List.forall_mem_singleton.mpr rfl⟩
    rw [Scheduler.visit, turned]
    simp only [if_pos zero]
    by_cases repeats : (timer t).repeats = true
    · rw [if_pos repeats] at next ⊢
      refine ⟨⟨fun other different => ?_, ?_, spares.log⟩, fun _ => ?_, nofun, posts⟩
      · exact (Function.update_of_ne different ..).trans (spares.time other different)
      · exact Nat.le_trans spares.reads (Nat.le_succ _)
      · exact running_armed ticks (ticks.later (Nat.le_succ _)) next (Function.update_self ..)
    · rw [if_neg repeats] at next ⊢
      exact ⟨spares, nofun, fun _ => next, posts⟩
  · have turned : s.postDue clock t = { s with reads := s.reads + 1 } := by
      rw [Scheduler.postDue, if_pos awake, if_neg due]
    have nonzero : ¬ s.nextFireTime t = 0 := by omega
    rw [Scheduler.visit, turned]
    simp only [if_neg nonzero]
    exact ⟨⟨fun _ _ => rfl, Nat.le_succ _, [], (List.append_nil _).symm, List.forall_mem_nil _⟩,
      fun _ => ⟨since, phase, later, awake⟩, nofun, fun now => absurd now due⟩

/-- **The loop.** Every timer has its turn, and those that are due when it begins are posted. -/
theorem checkLoop_spec (ticks : Ticks clock) {s : Scheduler ι}
    (kept left : List ι) (keeps : Keeps timer s (kept ++ left)) :
    Keeps timer (Scheduler.checkLoop clock timer kept left s)
        (Scheduler.checkLoop clock timer kept left s).timers ∧
      s.log <+: (Scheduler.checkLoop clock timer kept left s).log ∧
      ∀ t ∈ left, s.nextFireTime t < clock s.reads →
        Posts s (Scheduler.checkLoop clock timer kept left s) t := by
  induction left generalizing s kept with
  | nil =>
      rw [List.append_nil] at keeps
      exact ⟨⟨keeps.nodup, keeps.running, keeps.stopped⟩, List.prefix_refl _,
        List.forall_mem_nil _⟩
  | cons t left ih =>
      have member : t ∈ kept ++ t :: left := List.mem_append_right _ List.mem_cons_self
      obtain ⟨spares, stays, leaves, posts⟩ :=
        visit_spec ticks (keeps.running t member)
      obtain ⟨absent, rest⟩ := List.nodup_cons.mp (List.nodup_middle.mp keeps.nodup)
      have next : Keeps timer (s.visit clock timer t).1
          ((if (s.visit clock timer t).2 then kept ++ [t] else kept) ++ left) := by
        cases visited : (s.visit clock timer t).2 with
        | true =>
            rw [if_pos rfl, List.append_assoc, List.singleton_append]
            exact keeps.change spares keeps.nodup (fun _ _ => Iff.rfl) (fun _ => stays visited)
              fun gone => absurd member gone
        | false =>
            rw [if_neg Bool.false_ne_true]
            refine keeps.change spares rest (fun other different => ?_)
              (fun inside => absurd inside absent) fun _ => leaves visited
            simp [different]
      obtain ⟨last, log, later⟩ := ih _ next
      obtain ⟨added, grown, _⟩ := spares.log
      refine ⟨last, (List.prefix_append ..).trans (grown ▸ log), ?_⟩
      obtain ⟨more, whole⟩ := log
      intro other inside due
      rcases List.mem_cons.mp inside with rfl | further
      · obtain ⟨found, reading, here, post⟩ := posts due
        exact ⟨found ++ more, reading, by rw [← List.append_assoc, ← here]; exact whole.symm,
          List.mem_append_left _ post⟩
      · have different : other ≠ t := by
          rintro rfl
          exact absent (List.mem_append_right _ further)
        have time := spares.time other different
        obtain ⟨found, reading, there, post⟩ := later other further
          (time ▸ Int.lt_of_lt_of_le due (ticks.later spares.reads))
        exact ⟨added ++ found, reading, by rw [← List.append_assoc, ← grown]; exact there,
          List.mem_append_right _ post⟩

/-- What happened to every timer may happen to it, and the timers that are on are in the vector. -/
def Lawful (timer : ι → Timer) (s : Scheduler ι) : Prop :=
  ∀ t, ∃ phase, phaseOf timer s.log t = some phase ∧ (t ∈ s.timers ↔ phase ≠ .off)

/-- A turn of the scheduler posts every timer in the vector whose time has passed. -/
def Prompt (clock : Nat → Int) (timer : ι → Timer) (s : Scheduler ι) : Event ι → Prop
  | .check => ∀ t ∈ s.timers, s.nextFireTime t < clock s.reads →
      Posts s (s.checkTimers clock timer) t
  | _ => True

theorem Keeps.lawful {s : Scheduler ι} (keeps : Keeps timer s s.timers) : Lawful timer s := by
  intro t
  by_cases member : t ∈ s.timers
  · obtain ⟨since, phase, _⟩ := keeps.running t member
    exact ⟨.on since, phase, iff_of_true member nofun⟩
  · exact ⟨.off, keeps.stopped t member, iff_of_false member fun different => different rfl⟩

/-- **A step** keeps the timers. -/
theorem Keeps.step (ticks : Ticks clock) {s : Scheduler ι}
    (keeps : Keeps timer s s.timers) {event : Event ι} (good : Attachable s event) :
    Prompt clock timer s event ∧
      Keeps timer (step clock timer s event) (step clock timer s event).timers := by
  have rearmed (t : ι) : Function.update s.nextFireTime t (clock s.reads + (timer t).timeout) t =
      clock s.reads + (timer t).timeout := Function.update_self ..
  have others (t : ι) (time : Int) : ∀ other ≠ t,
      Function.update s.nextFireTime t time other = s.nextFireTime other :=
    fun other different => Function.update_of_ne different ..
  cases event with
  | attach t =>
      refine ⟨trivial, keeps.change (t := t) ⟨others t _, Nat.le_succ _, _, rfl,
        List.forall_mem_singleton.mpr rfl⟩ ?_ (fun other different => ?_) (fun _ => ?_) ?_⟩
      · exact List.nodup_append.mpr ⟨keeps.nodup, List.nodup_singleton t, by
          intro first member second same
          rw [List.mem_singleton.mp same]
          rintro rfl
          exact good member⟩
      · change other ∈ s.timers ++ [t] ↔ _
        simp [different]
      · exact running_armed ticks (Int.le_refl _) (phaseOf_own (keeps.stopped t good)
          (.attached t (clock s.reads)) rfl) (rearmed t)
      · exact fun absent => absurd (List.mem_append_right s.timers (List.mem_singleton_self t)) absent
  | detach t =>
      refine ⟨trivial, keeps.change (t := t) ⟨fun _ _ => rfl, Nat.le_refl _, _, rfl,
        List.forall_mem_singleton.mpr rfl⟩ (keeps.nodup.erase t)
        (fun other different => List.mem_erase_of_ne different) (fun member => ?_) fun _ => ?_⟩
      · exact absurd member keeps.nodup.not_mem_erase
      · obtain ⟨phase, before, _⟩ := keeps.lawful t
        exact (phaseOf_own before (.detached t) rfl).trans (by cases phase <;> rfl)
  | fire t =>
      refine ⟨trivial, keeps.change (t := t) ⟨others t _, Nat.le_succ _, _, rfl,
        List.forall_mem_singleton.mpr rfl⟩ keeps.nodup (fun _ _ => Iff.rfl) (fun member => ?_)
        fun absent => ?_⟩
      · obtain ⟨since, phase, _⟩ := keeps.running t member
        exact running_armed ticks (Int.le_refl _)
          (phaseOf_own phase (.fired t (clock s.reads)) rfl) (rearmed t)
      · exact phaseOf_own (keeps.stopped t absent) (.fired t (clock s.reads)) rfl
  | check =>
      obtain ⟨kept, _, posts⟩ := checkLoop_spec ticks [] s.timers keeps
      exact ⟨posts, kept⟩

variable (clock timer)

/-- Nothing has happened. -/
def idle : Scheduler ι := ⟨fun _ => 0, [], 0, []⟩

/-- A clock that goes on by ten with every reading. -/
def tens (k : Nat) : Int := 1000 + 10 * k

end Cube.Base.Dispatch
