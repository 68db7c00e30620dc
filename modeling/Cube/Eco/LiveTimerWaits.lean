import Mathlib.Data.List.Count
import Cube.Eco.LiveTimer

/-! # Waiting for a being to come to rest

`remove_being` waits while its being is running, and is notified when a being has lived. No thread
waits between two passes, as long as the beings that are still to live are as many as the threads
that wait.
-/

namespace Cube.Eco.LiveTimer

open Thread (ConditionVariable)

variable {ι β : Type} {liveTicks : β → LiveTicks} {record : Record ι β}

/-- Between two passes, no thread waits. -/
def Released (record : Record ι β) : Prop :=
  record.timer = .idle → record.eco.condVar.sleeping = []

/-- The being lives in this tick. -/
def EcoState.isDue (liveTicks : β → LiveTicks) (eco : EcoState ι β) (be : β) : Bool :=
  eco.isTimeToLive (liveTicks be).ticks

/-- How many beings ahead of the timer live in this tick. -/
def EcoState.dueAhead (liveTicks : β → LiveTicks) (eco : EcoState ι β) : Nat :=
  eco.beings.ahead.countP (eco.isDue liveTicks)

/-- Whether the being where the timer is, is still to live or to be notified of. -/
def TimerPoint.due (isDue : β → Bool) : TimerPoint β → Nat
  | .visits be => (isDue be).toNat
  | .lives _ _ => 1
  | .clears => 1
  | .notifies => 1
  | _ => 0

/-- How many beings are still to live in this pass. -/
def Record.due (liveTicks : β → LiveTicks) (record : Record ι β) : Nat :=
  if record.timer.isEnded then 0
  else record.timer.due (record.eco.isDue liveTicks) + record.eco.dueAhead liveTicks

theorem Record.due_of_running (liveTicks : β → LiveTicks) (record : Record ι β)
    (running : record.timer.isEnded = false) : record.due liveTicks =
      record.timer.due (record.eco.isDue liveTicks) + record.eco.dueAhead liveTicks := by
  simp [due, running]

/-- Before a thread goes to wait, and before a being is removed that is still to live, fewer threads
wait than beings are still to live; and no `eco::Error` leaves `on_live` while a thread waits. -/
def Spared (liveTicks : β → LiveTicks) (record : Record ι β) : Operation β → Prop
  | .waits _ => record.eco.condVar.sleeping.length < record.due liveTicks
  | .removeBeing be =>
      be ∈ record.eco.beings.ahead → record.eco.isDue liveTicks be = true →
        record.timer.isEnded = false →
        record.eco.condVar.sleeping.length < record.due liveTicks
  | .onLiveTimer => record.timer.isError = true → record.eco.condVar.sleeping = []
  | .addBeing _ => True

instance decidableSpared [DecidableEq ι] [DecidableEq β] :
    ∀ operation, Decidable (Spared liveTicks record operation)
  | .waits _ => inferInstanceAs (Decidable (_ < _))
  | .removeBeing _ => inferInstanceAs (Decidable (_ → _))
  | .onLiveTimer => inferInstanceAs (Decidable (_ → _))
  | .addBeing _ => isTrue trivial

/-- The list has its parts, and the beings that are still to live are enough. -/
structure Enough (liveTicks : β → LiveTicks) (record : Record ι β) : Prop where
  parts : ∃ behind ahead, record.eco.beings = .ofParts behind ahead
  waiting : record.eco.condVar.sleeping.length ≤ record.due liveTicks

theorem length_notifyOne (condition : ConditionVariable ι) (pick : Nat) :
    (condition.notifyOne pick).sleeping.length = condition.sleeping.length - 1 := by
  cases sleeping : condition.sleeping with
  | nil => simp [ConditionVariable.notifyOne, sleeping]
  | cons first rest =>
      rw [ConditionVariable.notifyOne, sleeping, List.length_eraseIdx_of_lt]
      exact Nat.mod_lt _ (Nat.succ_pos _)

namespace Enough

/-- The invariant keeps the promise. -/
theorem released (enough : Enough liveTicks record) : Released record := by
  intro idle
  have waiting := enough.waiting
  simpa [Record.due, idle, TimerPoint.isEnded] using waiting

/-- The threads that wait while the timer is in a pass. -/
theorem waiting_of_point (enough : Enough liveTicks record) {point : TimerPoint β}
    (timer : record.timer = point) (running : point.isEnded = false) :
    record.eco.condVar.sleeping.length ≤
      point.due (record.eco.isDue liveTicks) + record.eco.dueAhead liveTicks := by
  subst timer
  rw [← record.due_of_running liveTicks running]
  exact enough.waiting

/-- The timer comes to the next being, or ends the pass. -/
theorem gets (enough : Enough liveTicks record) (timer : record.timer = .gets)
    (outcome : LiveOutcome) (pick : Nat) :
    Enough liveTicks (record.onLiveTimer liveTicks outcome pick) := by
  cases free : record.eco.locked with
  | true => simpa only [Record.onLiveTimer, timer, free, if_true] using enough
  | false =>
      have waiting := enough.waiting_of_point timer rfl
      obtain ⟨behind, ahead, parts⟩ := enough.parts
      rw [EcoState.dueAhead, parts, CursorList.ahead_ofParts] at waiting
      change _ ≤ 0 + _ at waiting
      rw [Nat.zero_add] at waiting
      cases ahead with
      | nil =>
          obtain ⟨next, ended⟩ :=
            Record.onLiveTimer_of_last timer free parts liveTicks outcome pick
          rw [ended]
          exact ⟨⟨[], behind, next⟩, waiting⟩
      | cons be rest =>
          obtain ⟨next, visited⟩ :=
            Record.onLiveTimer_of_next timer free parts liveTicks outcome pick
          rw [visited]
          refine ⟨⟨_, _, next⟩, ?_⟩
          have due : Record.due liveTicks (record.visits record.eco.getNextBeing be) =
              (record.eco.isDue liveTicks be).toNat + rest.countP (record.eco.isDue liveTicks) := by
            simp only [Record.due, Record.visits, EcoState.dueAhead, next, CursorList.ahead_ofParts]
            rfl
          rw [due, Nat.add_comm]
          rw [List.countP_cons] at waiting
          cases isDue : record.eco.isDue liveTicks be with
          | true =>
              rw [isDue] at waiting
              exact waiting
          | false =>
              rw [isDue] at waiting
              exact waiting

/-- The timer goes on. -/
theorem onLiveTimer (enough : Enough liveTicks record)
    (spared : Spared liveTicks record .onLiveTimer) (outcome : LiveOutcome) (pick : Nat) :
    Enough liveTicks (record.onLiveTimer liveTicks outcome pick) := by
  cases timer : record.timer with
  | idle =>
      simp only [Record.onLiveTimer, timer]
      exact ⟨enough.parts, by simp [Record.ticks, enough.released timer]⟩
  | gets => exact enough.gets timer outcome pick
  | visits be =>
      have waiting := enough.waiting_of_point timer rfl
      have tested : record.onLiveTimer liveTicks outcome pick = record.goesOn record.eco
          (if record.eco.isDue liveTicks be then .lives be outcome else .gets) := by
        simp only [Record.onLiveTimer, timer]
        rfl
      rw [tested]
      refine ⟨enough.parts, ?_⟩
      rw [TimerPoint.due] at waiting
      cases isDue : record.eco.isDue liveTicks be with
      | true =>
          rw [isDue] at waiting
          exact waiting
      | false =>
          rw [isDue] at waiting
          exact waiting
  | lives be ends =>
      have waiting := enough.waiting_of_point timer rfl
      cases ends with
      | error =>
          simp only [Record.onLiveTimer, timer]
          exact ⟨enough.parts, by simp [Record.goesOn, spared (by rw [timer]; rfl)]⟩
      | returns =>
          simp only [Record.onLiveTimer, timer]
          exact ⟨enough.parts, waiting⟩
      | exception =>
          simp only [Record.onLiveTimer, timer]
          exact ⟨enough.parts, waiting⟩
  | clears =>
      have waiting := enough.waiting_of_point timer rfl
      simp only [Record.onLiveTimer, timer]
      exact ⟨enough.parts, waiting⟩
  | notifies =>
      have waiting := enough.waiting_of_point timer rfl
      simp only [Record.onLiveTimer, timer]
      refine ⟨enough.parts, ?_⟩
      change (record.eco.condVar.notifyOne pick).sleeping.length ≤ 0 + record.eco.dueAhead liveTicks
      rw [length_notifyOne, Nat.zero_add]
      rw [TimerPoint.due] at waiting
      omega
  | gone =>
      simp only [Record.onLiveTimer, timer]
      exact enough

/-- A being is added. -/
theorem adds (enough : Enough liveTicks record) (be : β) : Enough liveTicks (record.adds be) := by
  obtain ⟨⟨behind, ahead, parts⟩, waiting⟩ := enough
  have added : (record.adds be).eco.beings = .ofParts behind (ahead ++ [be]) := by
    rw [Record.adds, EcoState.addBeing, parts, CursorList.append_ofParts]
  refine ⟨⟨_, _, added⟩, Nat.le_trans waiting ?_⟩
  have more : record.eco.dueAhead liveTicks ≤ (record.adds be).eco.dueAhead liveTicks := by
    rw [EcoState.dueAhead, EcoState.dueAhead, added, parts, CursorList.ahead_ofParts,
      CursorList.ahead_ofParts]
    exact (List.sublist_append_left ahead [be]).countP_le
  cases ended : record.timer.isEnded with
  | true => simp [Record.due, ended]
  | false =>
      rw [record.due_of_running liveTicks ended, (record.adds be).due_of_running liveTicks ended]
      exact Nat.add_le_add_left more _

variable [DecidableEq β]

/-- A being is removed, and is not waited for if it was still to live. -/
theorem removes (enough : Enough liveTicks record) {be : β}
    (spared : Spared liveTicks record (.removeBeing be)) :
    Enough liveTicks (record.removes be) := by
  obtain ⟨⟨behind, ahead, parts⟩, waiting⟩ := enough
  by_cases passed : be ∈ behind
  · have removed := Record.beings_removes_of_behind parts passed
    have same : (record.removes be).eco.dueAhead liveTicks = record.eco.dueAhead liveTicks := by
      rw [EcoState.dueAhead, EcoState.dueAhead, removed, parts, CursorList.ahead_ofParts,
        CursorList.ahead_ofParts]
      rfl
    refine ⟨⟨_, _, removed⟩, ?_⟩
    rw [Record.due, same]
    exact waiting
  · have removed := Record.beings_removes_of_ahead parts passed
    refine ⟨⟨_, _, removed⟩, ?_⟩
    have fewer : (record.removes be).eco.dueAhead liveTicks =
        record.eco.dueAhead liveTicks -
          if be ∈ ahead ∧ record.eco.isDue liveTicks be = true then 1 else 0 := by
      rw [EcoState.dueAhead, EcoState.dueAhead, removed, parts, CursorList.ahead_ofParts,
        CursorList.ahead_ofParts]
      exact List.countP_erase ..
    cases ended : record.timer.isEnded with
    | true =>
        rw [Record.due, ended] at waiting
        rw [Record.due, show (record.removes be).timer.isEnded = true from ended]
        exact waiting
    | false =>
        have before := record.due_of_running liveTicks ended
        have after := (record.removes be).due_of_running liveTicks ended
        rw [after, fewer]
        change record.eco.condVar.sleeping.length ≤
          record.timer.due (record.eco.isDue liveTicks) + _
        split
        next due =>
          have enough := spared (by rw [parts, CursorList.ahead_ofParts]; exact due.1) due.2 ended
          omega
        next => omega

end Enough

/-! ## Runs -/

section Runs

variable [DecidableEq ι]

theorem Enough.start (timer : ι) (beings : List β) :
    Enough liveTicks (LiveTimer.start timer beings).shared :=
  ⟨⟨[], beings, rfl⟩, Nat.zero_le _⟩

variable [DecidableEq β]

/-- A step of a thread before which the beings that are still to live are enough. -/
theorem Enough.step (enough : Enough liveTicks record) {thread : ι} {operation : Operation β}
    (spared : Spared liveTicks record operation) (input : Input) :
    Enough liveTicks (record.step liveTicks thread operation input).1 := by
  cases operation with
  | onLiveTimer =>
      cases input with
      | goesOn outcome pick => exact enough.onLiveTimer spared outcome pick
      | wakesUp => exact enough
  | addBeing be =>
      simp only [Record.step]
      split
      · exact enough
      · exact enough.adds be
  | removeBeing be =>
      cases input with
      | goesOn outcome pick =>
          simp only [Record.step]
          split
          · exact enough
          · split
            · exact ⟨enough.parts, enough.waiting⟩
            · exact enough.removes spared
      | wakesUp =>
          have awake : (record.eco.condVar.sleeping.erase thread).length ≤
              record.eco.condVar.sleeping.length := List.erase_sublist.length_le
          exact ⟨enough.parts, Nat.le_trans awake enough.waiting⟩
  | waits be =>
      refine ⟨enough.parts, ?_⟩
      change (record.eco.condVar.sleeping ++ [thread]).length ≤ record.due liveTicks
      rw [List.length_append]
      exact spared

/-- **Released waiters.** In a run in which fewer threads wait than beings are still to live,
whenever a thread goes to wait or such a being is removed, and in which an `eco::Error` leaves
`on_live` only while nobody waits, no thread waits between two passes. -/
theorem waits_released (liveTicks : β → LiveTicks) (timer : ι) (beings : List β)
    (choices : List (Choice ι β))
    (spared : Run.Steps (program liveTicks).step (Interleaving.Meets (Spared liveTicks))
      (start timer beings) choices) :
    Run.Always (program liveTicks).step (fun threads => Released threads.shared) (fun _ _ => True)
      (start timer beings) choices :=
  Run.always_of_steps (fun threads => Enough liveTicks threads.shared)
    (fun _ enough => enough.released)
    (fun _ _ enough spared => ⟨trivial, Interleaving.Program.step_shared (program liveTicks) enough
      (fun _ call _ => by cases call <;> exact enough)
      fun thread input operation chosen standing =>
        enough.step (spared thread input operation chosen standing) input⟩)
    (Enough.start timer beings) spared

end Runs

/-- A thread waits for the being where the timer is, which goes on for some steps. -/
def waitsWhile (steps : Nat) : List (Choice (Fin 2) Nat) :=
  List.replicate 2 (.advance timerThread (.goesOn .returns 0)) ++
    .call otherThread (.removeBeing 7) ::
      List.replicate 2 (.advance otherThread (.goesOn .returns 0)) ++
    List.replicate steps (.advance timerThread (.goesOn .returns 0))

/-- The being lives, and the thread is notified. -/
theorem waits_released_one : Run.Always (program fun _ => LiveTicks.one).step
    (fun threads : Threads (Fin 2) Nat => Released threads.shared) (fun _ _ => True) (start 0 [7])
    (waitsWhile 5) :=
  waits_released (fun _ => LiveTicks.one) 0 [7] (waitsWhile 5) (by decide +kernel)

/-- The being does not live in the first tick, and the pass ends without a notification. -/
theorem waits_stranded : ¬ ∀ choices : List (Choice (Fin 2) Nat),
    Run.Always (program fun _ => LiveTicks.two).step (fun threads => Released threads.shared)
      (fun _ _ => True) (start 0 [7]) choices := by
  intro all
  have last := (all (waitsWhile 2)).final (by decide +kernel)
  revert last
  decide +kernel

end Cube.Eco.LiveTimer
