import Cube.Lib.Tally

/-! # References to an object

`add_ref` and `del_ref` of an object, which the threads that hold references to it call. A decrement
of `Atomic` is atomic, but what `operator--` returns is read behind it, and other threads may
decrement in between.
-/

namespace Cube.Eco.AutoRef

open Interleaving

/-- An object. Besides its count and how often it was deleted there are noted: the references that
no call has taken yet, the calls between their decrement and their test, and how many these were
when the count became zero. -/
structure Object where
  ref : Int
  deleted : Nat
  held : Nat
  testing : Nat
  underWay : Option Nat

inductive RefCall where
  | addRef
  | delRef
  deriving DecidableEq

/-- Where a call stands: before the exchange, or before the count is read again. -/
inductive RefPoint where
  | addRef
  | delRef
  | test

/-- A call is made through a reference of the caller, which it keeps until it is done. -/
def enter (object : Object) : RefCall → Object × RefPoint
  | .addRef => ({ object with held := object.held - 1 }, .addRef)
  | .delRef => ({ object with held := object.held - 1 }, .delRef)

def advance (object : Object) : RefPoint → Object × Option RefPoint
  | .addRef => ({ object with ref := object.ref + 1, held := object.held + 2 }, none)
  | .delRef =>
      let object := { object with ref := object.ref - 1, testing := object.testing + 1 }
      (if object.ref = 0 then { object with underWay := some object.testing } else object,
        some .test)
  | .test =>
      let after := { object with testing := object.testing - 1 }
      (if object.ref = 0 then { after with deleted := object.deleted + 1 } else after, none)

variable {ι : Type}

def program : Program ι Object RefCall RefPoint Unit where
  enter _ := enter
  advance _ object point _ := advance object point

/-- An object with its first reference. -/
def created : Object := ⟨1, 0, 1, 0, none⟩

abbrev Calls (ι : Type) := Threads ι Object RefPoint

/-- A call is made through a reference that is held. -/
def Owned (threads : Calls ι) : Choice ι RefCall Unit → Prop
  | .call _ _ => 0 < threads.shared.held
  | .advance _ _ => True

instance (threads : Calls ι) : DecidablePred (Owned threads)
  | .call _ _ => inferInstanceAs (Decidable (0 < threads.shared.held))
  | .advance _ _ => isTrue trivial

/-- The calls that still count a reference. -/
def counting : RefPoint → Nat
  | .addRef => 1
  | .delRef => 1
  | .test => 0

def tested : RefPoint → Nat
  | .addRef => 0
  | .delRef => 0
  | .test => 1

variable [Fintype ι]

/-- What holds of the object and the calls in every state. -/
structure Counted (threads : Calls ι) : Prop where
  refs : threads.shared.ref = threads.shared.held + threads.tally counting
  tests : threads.shared.testing = threads.tally tested
  alive : threads.shared.ref ≠ 0 → threads.shared.deleted = 0
  last : threads.shared.ref = 0 → ∃ count, threads.shared.underWay = some count ∧ 0 < count ∧
    threads.shared.deleted + threads.shared.testing = count

variable [DecidableEq ι]

/-- A thread goes on, and what it counts changes as the object does. -/
theorem Counted.move {threads : Calls ι} (counted : Counted threads) {thread : ι} {after : Object}
    {next : Option RefPoint}
    (refs : after.ref - after.held + weigh counting (threads.running thread) =
      threads.shared.ref - threads.shared.held + weigh counting next)
    (tests : after.testing + weigh tested (threads.running thread) =
      threads.shared.testing + weigh tested next)
    (alive : after.ref ≠ 0 → after.deleted = 0)
    (last : after.ref = 0 → ∃ count, after.underWay = some count ∧ 0 < count ∧
      after.deleted + after.testing = count) : Counted (threads.move thread (after, next)) := by
  have count : _ = _ + weigh counting next := threads.tally_move counting thread (after, next)
  have test : _ = _ + weigh tested next := threads.tally_move tested thread (after, next)
  have refsBefore := counted.refs
  have testsBefore := counted.tests
  exact ⟨by change after.ref = after.held + _; omega, by change after.testing = _; omega, alive, last⟩

theorem Counted.step {threads : Calls ι} (counted : Counted threads)
    {choice : Choice ι RefCall Unit} (owned : Owned threads choice) :
    Counted (program.step threads choice) := by
  rcases program.step_cases threads choice with
    ⟨unchanged, _⟩ | ⟨thread, call, rfl, idle⟩ | ⟨thread, input, point, rfl, running⟩
  · rw [unchanged]
    exact counted
  · have held : 0 < threads.shared.held := owned
    rw [Program.step_call idle]
    cases call <;> refine counted.move ?_ ?_ counted.alive counted.last <;>
      simp [program, enter, idle, counting, tested] <;> omega
  · have refs := counted.refs
    have part := threads.weight_le_tally counting running
    have one := threads.weight_le_tally tested running
    rw [Program.step_advance running]
    change Counted (threads.move thread (advance threads.shared point))
    cases point with
    | addRef =>
        simp only [counting] at part
        refine counted.move ?_ ?_ (fun _ => counted.alive (by omega)) fun zero => ?_
        · simp only [running, weigh_some, weigh_none, counting]
          omega
        · simp only [running, weigh_some, weigh_none, tested]
        · have above : 0 < threads.shared.ref + 1 := by omega
          exact absurd zero above.ne'
    | delRef =>
        simp only [counting] at part
        have sound : threads.shared.deleted = 0 := counted.alive (by omega)
        rw [advance]
        split
        next zero =>
          refine counted.move ?_ ?_ (fun _ => sound) fun _ => ⟨_, rfl, Nat.succ_pos _, ?_⟩
          · simp only [running, weigh_some, counting]
            omega
          · simp only [running, weigh_some, tested]
          · rw [sound, Nat.zero_add]
        next more =>
          refine counted.move ?_ ?_ (fun _ => sound) fun zero => absurd zero more
          · simp only [running, weigh_some, counting]
            omega
          · simp only [running, weigh_some, tested]
    | test =>
        have tests := counted.tests
        simp only [tested] at one
        rw [advance]
        split
        next zero =>
          obtain ⟨count, noted, some_call, all⟩ := counted.last zero
          refine counted.move ?_ ?_ (fun other => absurd zero other) fun _ =>
            ⟨count, noted, some_call, ?_⟩
          · simp only [running, weigh_some, weigh_none, counting]
          · simp only [running, weigh_some, weigh_none, tested]
            omega
          · change threads.shared.deleted + 1 + (threads.shared.testing - 1) = count
            omega
        next more =>
          refine counted.move ?_ ?_ counted.alive fun zero => absurd zero more
          · simp only [running, weigh_some, weigh_none, counting]
          · simp only [running, weigh_some, weigh_none, tested]
            omega

example : (Run.final program.step (Threads.idle created) [.call (0 : Fin 2) .addRef, .advance 0 (),
    .call 0 .delRef, .call 1 .delRef, .advance 0 (), .advance 1 (), .advance 0 (),
    .advance 1 ()]).shared.deleted = 2 := by
  decide

end Cube.Eco.AutoRef
