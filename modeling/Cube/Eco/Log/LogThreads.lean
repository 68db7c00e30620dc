import Mathlib.Tactic.SplitIfs
import Cube.Eco.Log.Queue

/-! # The threads of a log queue

Every text that waits for a pack fits into one. An invariant of the log holds in every
interleaving if marking the queue as closed keeps it, and what a thread does that goes on; who
sleeps makes no difference to it.
-/

namespace Cube.Eco.Log.Queue

open Interleaving (Program Outline)
open Thread (AtomicState Section)

variable {ι : Type} {record : Record ι}

/-- A post that waits is one whose text fits into a pack. -/
def Operation.Fitting : Operation → Prop
  | .waitsAvail text => text.length ≤ Pack.capacity
  | _ => True

theorem posts_fitting {text : Text} (fitting : text.length ≤ Pack.capacity)
    (posted : Queue ι × Section Unit) (cut : Bool) :
    ∀ operation, (record.posts text posted cut).2 = some operation → operation.Fitting := by
  intro operation next
  unfold Record.posts at next
  split at next
  · cases next
    exact fitting
  · cases next

theorem pops_fitting (popped : Queue ι × Section (Option Pack)) :
    ∀ operation, (record.pops popped).2 = some operation → operation.Fitting := by
  intro operation next
  unfold Record.pops at next
  split at next
  · cases next
    trivial
  · cases next
    trivial
  · cases next

theorem goesOn_fitting {operation : Operation} (fitting : operation.Fitting) (thread : ι)
    (pick again : Nat) (timedOut : Bool) :
    ∀ next, (record.goesOn thread pick again timedOut operation).2 = some next →
      next.Fitting := by
  cases operation with
  | post text =>
      rw [Record.goesOn]
      split_ifs with large
      · exact nofun
      · exact posts_fitting (Nat.le_of_not_lt large) _ _
  | waitsAvail text => exact posts_fitting fitting _ _
  | pop pack => exact pops_fitting _
  | waitsLogging => exact pops_fitting _
  | notifiesAvail =>
      rintro _ ⟨⟩
      trivial
  | notifiesLogging => exact nofun

/-! ## Invariants -/

theorem advance_awake [DecidableEq ι] {thread : ι} (awake : ¬ record.queue.Asleep thread)
    (operation : Operation) (pick again : Nat) (timedOut : Bool) :
    program.advance thread record operation (.goesOn pick again timedOut) =
      record.goesOn thread pick again timedOut operation := if_neg awake

/-- An invariant of the log, and texts that fit. -/
def outline (invariant : Record ι → Prop) : Outline ι (Record ι) Operation where
  shared := invariant
  running _ _ operation := operation.Fitting

/-- **Invariants of the log.** An invariant is kept by every step, if who sleeps makes no
difference, the mark of `close` keeps it, and so does what the thread does that goes on. -/
theorem outline_step [DecidableEq ι] {invariant : Record ι → Prop} {threads : Threads ι}
    {choice : Choice ι} (holds : (outline invariant).Holds threads)
    (sleeps : ∀ (record : Record ι) (queue : Queue ι), invariant record →
      queue.avail = record.queue.avail → queue.logging = record.queue.logging →
      queue.state = record.queue.state → invariant { record with queue := queue })
    (closes : ∀ record : Record ι, invariant record →
      invariant { record with queue := { record.queue with state := AtomicState.none } })
    (goesOn : ∀ thread pick again timedOut operation,
      choice = .advance thread (.goesOn pick again timedOut) →
      threads.running thread = some operation → ¬ threads.shared.queue.Asleep thread →
      operation.Fitting → invariant (threads.shared.goesOn thread pick again timedOut operation).1) :
    (outline invariant).Holds (program.step threads choice) := by
  refine holds.step (fun thread call _ _ => ?_)
    (fun thread input operation advances running fitting => ?_)
  · cases call with
    | post text => exact ⟨holds.shared, fun _ next => by cases next; trivial, fun _ _ _ => id⟩
    | work => exact ⟨holds.shared, fun _ next => by cases next; trivial, fun _ _ _ => id⟩
    | close =>
        exact ⟨closes _ holds.shared, fun _ next => by cases next; trivial, fun _ _ _ => id⟩
  · cases input with
    | wakesUp =>
        refine ⟨sleeps _ _ holds.shared rfl rfl rfl, ?_, fun _ _ _ => id⟩
        rintro _ ⟨⟩
        exact fitting
    | goesOn pick again timedOut =>
        by_cases asleep : threads.shared.queue.Asleep thread
        · rw [show program.advance thread threads.shared operation (.goesOn pick again timedOut) =
            (threads.shared, some operation) from if_pos asleep]
          refine ⟨holds.shared, ?_, fun _ _ _ => id⟩
          rintro _ ⟨⟩
          exact fitting
        · rw [advance_awake asleep]
          exact ⟨goesOn thread pick again timedOut operation advances running asleep fitting,
            goesOn_fitting fitting thread pick again timedOut, fun _ _ _ => id⟩

end Cube.Eco.Log.Queue
