import Mathlib.Logic.Function.Basic
import Cube.Lib.Run

/-! # Interleavings of threads over a shared state

Any number of threads make calls on one shared state. A call is in progress from the moment
it is made until it returns, and advances by atomic steps, between which any other thread may
advance. What holds of every interleaving is established by a proof outline: an assertion on
the shared state and one on every call in progress, which no step of another thread disturbs.
-/

namespace Interleaving

variable {ι σ κ ο α : Type}

/-- What threads do to the state they share: `enter` is the moment a call is made, `advance`
one atomic step of a call, after which it is still in progress or has returned. -/
structure Program (ι σ κ ο α : Type) where
  enter : ι → σ → κ → σ × ο
  advance : ι → σ → ο → α → σ × Option ο

/-- The shared state, and the call each thread is in. -/
structure Threads (ι σ ο : Type) where
  shared : σ
  running : ι → Option ο

/-- What may happen next: a thread makes a call, or its call advances on an input that
settles what the program leaves open. -/
inductive Choice (ι κ α : Type) where
  | call (thread : ι) (call : κ)
  | advance (thread : ι) (input : α)
  deriving DecidableEq

/-- No thread is in a call. -/
def Threads.idle (shared : σ) : Threads ι σ ο := ⟨shared, fun _ => none⟩

/-- No call is half done. -/
def Threads.Quiescent (threads : Threads ι σ ο) : Prop := ∀ thread, threads.running thread = none

section Step

variable [DecidableEq ι]

/-- The thread leaves the shared state behind and stands where it is told. -/
def Threads.move (threads : Threads ι σ ο) (thread : ι) (result : σ × Option ο) :
    Threads ι σ ο :=
  ⟨result.1, Function.update threads.running thread result.2⟩

variable (program : Program ι σ κ ο α)

/-- One step of the threads. A choice that is not possible changes nothing. -/
def Program.step (threads : Threads ι σ ο) : Choice ι κ α → Threads ι σ ο
  | .call thread call =>
      match threads.running thread with
      | some _ => threads
      | none =>
          threads.move thread
            ((program.enter thread threads.shared call).1,
              some (program.enter thread threads.shared call).2)
  | .advance thread input =>
      match threads.running thread with
      | some operation =>
          threads.move thread (program.advance thread threads.shared operation input)
      | none => threads

@[simp] theorem Threads.move_running_self (threads : Threads ι σ ο) (thread : ι)
    (result : σ × Option ο) : (threads.move thread result).running thread = result.2 :=
  Function.update_self ..

theorem Threads.move_running_of_ne (threads : Threads ι σ ο) {thread other : ι}
    (result : σ × Option ο) (different : other ≠ thread) :
    (threads.move thread result).running other = threads.running other :=
  Function.update_of_ne different ..

/-- A thread that has to wait stays where it is. -/
theorem Threads.move_waits {threads : Threads ι σ ο} {thread : ι} {operation : ο}
    (running : threads.running thread = some operation) :
    threads.move thread (threads.shared, some operation) = threads := by
  rw [move, ← running, Function.update_eq_self]

theorem Threads.move_running_iff {threads : Threads ι σ ο} {thread other : ι}
    {result : σ × Option ο} {operation : ο} :
    (threads.move thread result).running other = some operation ↔
      (other = thread ∧ result.2 = some operation) ∨
        (other ≠ thread ∧ threads.running other = some operation) := by
  by_cases same : other = thread
  · subst same
    rw [move_running_self]
    simp only [true_and, ne_eq, not_true_eq_false, false_and, or_false]
  · rw [move_running_of_ne _ _ same]
    simp only [same, false_and, ne_eq, not_false_eq_true, true_and, false_or]

variable {program} {threads : Threads ι σ ο}

theorem Program.step_call {thread : ι} (idle : threads.running thread = none) (call : κ) :
    program.step threads (.call thread call) =
      threads.move thread
        ((program.enter thread threads.shared call).1,
          some (program.enter thread threads.shared call).2) := by
  simp only [Program.step, idle]

theorem Program.step_advance {thread : ι} {operation : ο}
    (running : threads.running thread = some operation) (input : α) :
    program.step threads (.advance thread input) =
      threads.move thread (program.advance thread threads.shared operation input) := by
  simp only [Program.step, running]

/-- **Steps.** A choice changes nothing, or an idle thread makes a call, or a call in progress
advances. -/
theorem Program.step_cases (program : Program ι σ κ ο α) (threads : Threads ι σ ο)
    (choice : Choice ι κ α) :
    (program.step threads choice = threads ∧
      ∀ thread input, choice = .advance thread input → threads.running thread = none) ∨
    (∃ thread call, choice = .call thread call ∧ threads.running thread = none) ∨
    (∃ thread input operation,
      choice = .advance thread input ∧ threads.running thread = some operation) := by
  cases choice with
  | call thread call =>
      cases running : threads.running thread with
      | none => exact .inr (.inl ⟨thread, call, rfl, running⟩)
      | some operation =>
          left
          refine ⟨?_, nofun⟩
          simp only [Program.step, running]
  | advance thread input =>
      cases running : threads.running thread with
      | none =>
          left
          refine ⟨by simp only [Program.step, running], ?_⟩
          rintro _ _ ⟨⟩
          exact running
      | some operation => exact .inr (.inr ⟨thread, input, operation, rfl, running⟩)

/-- **Invariants of the shared state.** What entering a call and every atomic step keep, every
step of the threads keeps. -/
theorem Program.step_shared (program : Program ι σ κ ο α) {invariant : σ → Prop}
    {choice : Choice ι κ α} (holds : invariant threads.shared)
    (entered : ∀ thread call, choice = .call thread call →
      invariant (program.enter thread threads.shared call).1)
    (advanced : ∀ thread input operation, choice = .advance thread input →
      threads.running thread = some operation →
      invariant (program.advance thread threads.shared operation input).1) :
    invariant (program.step threads choice).shared := by
  rcases program.step_cases threads choice with
    ⟨unchanged, _⟩ | ⟨thread, call, rfl, idle⟩ | ⟨thread, input, operation, rfl, running⟩
  · rw [unchanged]
    exact holds
  · rw [step_call idle]
    exact entered thread call rfl
  · rw [step_advance running]
    exact advanced thread input operation rfl running

end Step

/-! ## Calls that nobody interrupts -/

section Alone

variable {program : Program ι σ κ ο α} {thread : ι}

/-- A call that advances alone from one shared state to another, where it returns. -/
inductive Program.Alone (program : Program ι σ κ ο α) (thread : ι) : σ → ο → σ → Prop where
  | returns {shared after : σ} {operation : ο} (input : α)
      (step : program.advance thread shared operation input = (after, none)) :
      Alone program thread shared operation after
  | goesOn {shared middle after : σ} {operation next : ο} (input : α)
      (step : program.advance thread shared operation input = (middle, some next))
      (rest : Alone program thread middle next after) : Alone program thread shared operation after

variable [DecidableEq ι]

theorem Threads.move_move (threads : Threads ι σ ο) (thread : ι) (first second : σ × Option ο) :
    (threads.move thread first).move thread second = threads.move thread second := by
  rw [move, move, move, Function.update_idem]

/-- An idle thread makes a call and takes its first step. -/
theorem Program.step_call_advance {threads : Threads ι σ ο} (idle : threads.running thread = none)
    (call : κ) (input : α) :
    program.step (program.step threads (.call thread call)) (.advance thread input) =
      threads.move thread (program.advance thread (program.enter thread threads.shared call).1
        (program.enter thread threads.shared call).2 input) := by
  rw [step_call idle, step_advance (Threads.move_running_self ..), Threads.move_move]
  rfl

/-- **Calls one at a time.** An idle thread may make a call and see it through to its return,
and this is an interleaving. -/
theorem Program.Alone.run {shared after : σ} {operation : ο}
    (alone : program.Alone thread shared operation after) {threads : Threads ι σ ο}
    (stands : threads.shared = shared) (running : threads.running thread = some operation) :
    ∃ inputs : List α, Run.final program.step threads (inputs.map (.advance thread)) =
      threads.move thread (after, none) := by
  induction alone generalizing threads with
  | returns input step =>
      refine ⟨[input], ?_⟩
      rw [List.map_singleton, Run.final, Run.final, step_advance running, stands, step]
  | @goesOn shared middle after operation next input step rest ih =>
      have goesOn : (threads.move thread (middle, some next)).running thread = some next :=
        Threads.move_running_self ..
      obtain ⟨inputs, reached⟩ := ih rfl goesOn
      refine ⟨input :: inputs, ?_⟩
      rw [List.map_cons, Run.final, step_advance running, stands, step, reached,
        Threads.move_move]

end Alone

/-! ## Locks that are held over several steps -/

section Exclusive

variable {locked : σ → Bool} {inside : ο → Prop} {threads : Threads ι σ ο}

/-- A call stands inside a section only while the lock of the section is taken, and no two
calls stand inside. -/
structure Exclusive (locked : σ → Bool) (inside : ο → Prop) (threads : Threads ι σ ο) : Prop where
  taken : ∀ thread operation, threads.running thread = some operation → inside operation →
    locked threads.shared = true
  single : ∀ thread operation other otherOperation, threads.running thread = some operation →
    inside operation → threads.running other = some otherOperation → inside otherOperation →
    thread = other

theorem exclusive_idle (shared : σ) : Exclusive locked inside (Threads.idle shared : Threads ι σ ο)
    where
  taken := nofun
  single := nofun

theorem Exclusive.not_inside (exclusive : Exclusive locked inside threads)
    (free : locked threads.shared = false) {thread : ι} {operation : ο}
    (running : threads.running thread = some operation) : ¬ inside operation := fun isInside => by
  have taken := exclusive.taken thread operation running isInside
  rw [free] at taken
  cases taken

variable [DecidableEq ι] {thread : ι} {result : σ × Option ο}

/-- **Mutual exclusion.** A step keeps it when the thread that is inside afterwards has taken
the lock or was inside before, and a thread that was outside does not free the lock. -/
theorem Exclusive.move (exclusive : Exclusive locked inside threads)
    (enters : ∀ operation, result.2 = some operation → inside operation →
      locked result.1 = true ∧ (locked threads.shared = false ∨
        ∃ before, threads.running thread = some before ∧ inside before))
    (leaves : locked threads.shared = true → locked result.1 = true ∨
      ∃ before, threads.running thread = some before ∧ inside before) :
    Exclusive locked inside (threads.move thread result) := by
  have others {other : ι} {operation : ο} (different : other ≠ thread)
      (running : threads.running other = some operation) (isInside : inside operation) :
      ¬ ∃ before, threads.running thread = some before ∧ inside before :=
    fun ⟨before, standing, wasInside⟩ => different
      (exclusive.single other operation thread before running isInside standing wasInside)
  have alone {other : ι} {operation next : ο} (different : other ≠ thread)
      (running : threads.running other = some operation) (isInside : inside operation)
      (goesOn : result.2 = some next) (nextInside : inside next) : False := by
    rcases (enters next goesOn nextInside).2 with free | before
    · exact exclusive.not_inside free running isInside
    · exact others different running isInside before
  constructor
  · intro other operation running isInside
    rcases Threads.move_running_iff.mp running with ⟨rfl, goesOn⟩ | ⟨different, before⟩
    · exact (enters operation goesOn isInside).1
    · have taken := exclusive.taken other operation before isInside
      exact (leaves taken).resolve_right (others different before isInside)
  · intro first firstOperation second secondOperation runningFirst insideFirst runningSecond
      insideSecond
    rcases Threads.move_running_iff.mp runningFirst with ⟨rfl, goesOn⟩ | ⟨different, before⟩
    · rcases Threads.move_running_iff.mp runningSecond with ⟨rfl, _⟩ | ⟨apart, beforeSecond⟩
      · rfl
      · exact (alone apart beforeSecond insideSecond goesOn insideFirst).elim
    · rcases Threads.move_running_iff.mp runningSecond with ⟨rfl, goesOn⟩ | ⟨_, beforeSecond⟩
      · exact (alone different before insideFirst goesOn insideSecond).elim
      · exact exclusive.single first firstOperation second secondOperation before insideFirst
          beforeSecond insideSecond

end Exclusive

/-! ## Conditions on the call that advances -/

/-- If a call advances, it meets the condition where it stands. -/
def Meets (condition : σ → ο → Prop) (threads : Threads ι σ ο) (choice : Choice ι κ α) : Prop :=
  ∀ thread input operation, choice = .advance thread input →
    threads.running thread = some operation → condition threads.shared operation

instance decidableMeets {condition : σ → ο → Prop}
    [∀ shared operation, Decidable (condition shared operation)] (threads : Threads ι σ ο) :
    ∀ choice : Choice ι κ α, Decidable (Meets condition threads choice)
  | .call _ _ => isTrue nofun
  | .advance thread input =>
      match running : threads.running thread with
      | none => isTrue fun _ _ _ same found => by
          cases same
          rw [running] at found
          cases found
      | some operation => decidable_of_iff (condition threads.shared operation)
          ⟨fun meets _ _ _ same found => by
            cases same
            cases running.symm.trans found
            exact meets, fun meets => meets thread input operation rfl running⟩

/-! ## Proof outlines -/

/-- An assertion on the shared state, and one on each call in progress. -/
structure Outline (ι σ ο : Type) where
  shared : σ → Prop
  running : ι → σ → ο → Prop

namespace Outline

variable {outline : Outline ι σ ο}

/-- Every assertion of the outline holds where it stands. -/
structure Holds (outline : Outline ι σ ο) (threads : Threads ι σ ο) : Prop where
  shared : outline.shared threads.shared
  running : ∀ thread operation, threads.running thread = some operation →
    outline.running thread threads.shared operation

/-- What a step of a thread has to establish: the assertion on the shared state and its own,
and that it does not disturb the assertion of any other thread. -/
structure Keeps (outline : Outline ι σ ο) (thread : ι) (before : σ) (result : σ × Option ο) :
    Prop where
  shared : outline.shared result.1
  own : ∀ operation, result.2 = some operation → outline.running thread result.1 operation
  others : ∀ other operation, other ≠ thread →
    outline.running other before operation → outline.running other result.1 operation

theorem Holds.idle {shared : σ} (holds : outline.shared shared) :
    outline.Holds (Threads.idle shared) := ⟨holds, nofun⟩

variable [DecidableEq ι] {program : Program ι σ κ ο α}

theorem Holds.move {threads : Threads ι σ ο} (holds : outline.Holds threads) {thread : ι}
    {result : σ × Option ο} (keeps : outline.Keeps thread threads.shared result) :
    outline.Holds (threads.move thread result) := by
  refine ⟨keeps.shared, fun other operation running => ?_⟩
  by_cases same : other = thread
  · subst same
    rw [Threads.move_running_self] at running
    exact keeps.own operation running
  · rw [Threads.move_running_of_ne _ _ same] at running
    exact keeps.others other operation same (holds.running other operation running)

/-- **Outlines of interleavings.** An outline survives a step when the call made, or the call
that advances, establishes its own assertion and disturbs no other. -/
theorem Holds.step {threads : Threads ι σ ο} {choice : Choice ι κ α}
    (holds : outline.Holds threads)
    (entered : ∀ thread call, choice = .call thread call → threads.running thread = none →
      outline.Keeps thread threads.shared
        ((program.enter thread threads.shared call).1,
          some (program.enter thread threads.shared call).2))
    (advanced : ∀ thread input operation, choice = .advance thread input →
      threads.running thread = some operation →
      outline.running thread threads.shared operation →
      outline.Keeps thread threads.shared
        (program.advance thread threads.shared operation input)) :
    outline.Holds (program.step threads choice) := by
  rcases program.step_cases threads choice with
    ⟨unchanged, _⟩ | ⟨thread, call, rfl, idle⟩ | ⟨thread, input, operation, rfl, running⟩
  · rw [unchanged]
    exact holds
  · rw [Program.step_call idle]
    exact holds.move (entered thread call rfl idle)
  · rw [Program.step_advance running]
    exact holds.move (advanced thread input operation rfl running
      (holds.running thread operation running))

end Outline

end Interleaving
