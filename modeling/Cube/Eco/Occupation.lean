import Mathlib.Tactic.SplitIfs
import Cube.Lib.Interleaving
import Cube.Eco.Thread.State

/-! # Business objects

A task occupies the object it works on, and releases it or finishes, which marks the state
that it leads to. `occupy` tests the state of the object before it takes the lock, `finish`
changes it without the lock: every access to the state is a step of its own. What `occupy` does
under the lock is one step, since only other sections of that lock occupy the object, and
whoever releases it holds it.
-/

namespace Cube.Eco

open Thread (AtomicState)

/-- `TaskState`. -/
inductive TaskState where
  | noReady
  | occupied
  | finished
  | workingSelf
  | workingOther
  deriving DecidableEq

/-- A `Bobject`; the type of a task is a pointer, of which only the identity counts. -/
structure Bobject (τ : Type) where
  state : AtomicState
  working : AtomicState
  workingTaskType : Option τ
  deriving DecidableEq

namespace Bobject

variable {ι τ : Type}

section Operations

variable (object : Bobject τ)

/-- `occupy`, from where it holds the lock. -/
def occupyLocked [DecidableEq τ] (taskType : τ) : Bobject τ × TaskState :=
  if object.working.isOk then
    (object, if object.workingTaskType = some taskType then .workingSelf else .workingOther)
  else
    ({ object with working := object.working.ok, workingTaskType := some taskType }, .occupied)

def release : Bobject τ := { object with working := AtomicState.none }

end Operations

/-! ## The threads at an object -/

/-- A call of `occupy`. Its fourth parameter, the state to erase, is not used. -/
structure Occupy (τ : Type) where
  taskType : τ
  taskSourState : UInt32
  taskDestState : UInt32
  taskEraseState : UInt32
  deriving DecidableEq

/-- A call of `finish`. -/
structure Finish where
  taskDestState : UInt32
  taskEraseState : UInt32
  deriving DecidableEq

/-- How a holder ends its occupation. -/
inductive Ending where
  | release
  | finish (call : Finish)
  deriving DecidableEq

/-- Where a task stands: in front of one of the tests of `occupy` or of its lock, holding the
object, or in front of the second or third step of `finish`. `tested` is how many tasks had
finished when the first test was made. -/
inductive Point (τ : Type) where
  | testsFinished (call : Occupy τ)
  | testsReady (call : Occupy τ) (tested : Nat)
  | locks (call : Occupy τ) (tested : Nat)
  | holds
  | erases (call : Finish)
  | releases
  deriving DecidableEq

/-- The object, and the tasks that have finished, in the order in which their changes of the
state were complete. -/
structure Record (τ : Type) where
  object : Bobject τ
  finishes : List Finish

/-- A test of `occupy`: the call returns if it says so, and goes on otherwise. -/
def Record.tests (record : Record τ) (returns : Bool) (next : Point τ) :
    Record τ × Option (Point τ) :=
  (record, if returns then none else some next)

/-- One step of a task; the holder ends its occupation as it pleases. -/
def advance [DecidableEq τ] (record : Record τ) (ending : Ending) :
    Point τ → Record τ × Option (Point τ)
  | .testsFinished call =>
      record.tests (record.object.state.has call.taskDestState)
        (.testsReady call record.finishes.length)
  | .testsReady call tested =>
      record.tests (!record.object.state.has call.taskSourState) (.locks call tested)
  | .locks call _ =>
      ({ record with object := (record.object.occupyLocked call.taskType).1 },
        if (record.object.occupyLocked call.taskType).2 = .occupied then some .holds else none)
  | .holds =>
      match ending with
      | .release => ({ record with object := record.object.release }, none)
      | .finish call =>
          ({ record with object := { record.object with
              state := record.object.state.add call.taskDestState } }, some (.erases call))
  | .erases call =>
      ({ object := { record.object with
            state := record.object.state.del call.taskEraseState }
         finishes := record.finishes ++ [call] }, some .releases)
  | .releases => ({ record with object := record.object.release }, none)

/-- Any number of threads that occupy one object. -/
def program [DecidableEq τ] (ι : Type) :
    Interleaving.Program ι (Record τ) (Occupy τ) (Point τ) Ending where
  enter _ record call := (record, .testsFinished call)
  advance _ record point ending := advance record ending point

abbrev Threads (ι τ : Type) := Interleaving.Threads ι (Record τ) (Point τ)

abbrev Choice (ι τ : Type) := Interleaving.Choice ι (Occupy τ) Ending

/-- An object in some state that nobody has occupied yet. -/
def start (state : AtomicState) : Threads ι τ :=
  Interleaving.Threads.idle ⟨⟨state, AtomicState.none, none⟩, []⟩

end Bobject

end Cube.Eco

/-! # Exclusive and final occupation

One task at a time occupies an object. A task that has finished is not occupied again, unless
it finished between the first test of a call of `occupy` and its lock: nothing is tested again
under the lock.
-/

namespace Cube.Eco.Bobject

open Interleaving
open Thread (AtomicState)

variable {ι τ : Type}

/-! ## Tasks that have finished -/

/-- Whether a state that was or was not reached is, after a task has finished. -/
def reaches (dest : UInt32) (reached : Bool) (call : Finish) : Bool :=
  dest &&& call.taskEraseState == 0 && (reached || call.taskDestState == dest)

/-- Some task has finished with a destination state that no task has erased since. -/
def finished (dest : UInt32) (finishes : List Finish) : Bool :=
  finishes.foldl (reaches dest) false

theorem finished_append (dest : UInt32) (first second : List Finish) :
    finished dest (first ++ second) = second.foldl (reaches dest) (finished dest first) :=
  List.foldl_append ..

/-- What has been reached by some tasks is reached whatever others had done before. -/
theorem reached_of_finished {dest : UInt32} {finishes : List Finish}
    (done : finished dest finishes = true) (reached : Bool) :
    finishes.foldl (reaches dest) reached = true := by
  induction finishes using List.reverseRecOn with
  | nil => cases done
  | append_singleton finishes call ih =>
      rw [finished, List.foldl_append, List.foldl_cons, List.foldl_nil, reaches,
        Bool.and_eq_true, Bool.or_eq_true] at done
      rw [List.foldl_append, List.foldl_cons, List.foldl_nil, reaches, Bool.and_eq_true,
        Bool.or_eq_true]
      exact ⟨done.1, done.2.imp_left ih⟩

/-! ## What a run promises -/

/-- Holding the object: from the lock of `occupy` to the last step of the ending. -/
def Point.Inside : Point τ → Prop
  | .holds | .erases _ | .releases => True
  | _ => False

/-- At most one thread holds the object. -/
def OneOccupant (threads : Threads ι τ) : Prop :=
  ∀ thread other point there, threads.running thread = some point → point.Inside →
    threads.running other = some there → there.Inside → thread = other

section Steps

variable [DecidableEq τ]

/-- A call of `occupy` does not occupy the object for a task that has finished. -/
def Final (threads : Threads ι τ) : Choice ι τ → Prop
  | .call _ _ => True
  | .advance thread _ =>
      match threads.running thread with
      | some (.locks call _) =>
          (threads.shared.object.occupyLocked call.taskType).2 = .occupied →
            finished call.taskDestState threads.shared.finishes = false
      | _ => True

instance (threads : Threads ι τ) (choice : Choice ι τ) : Decidable (Final threads choice) := by
  unfold Final
  split
  · infer_instance
  · split <;> infer_instance

/-- When a call of `occupy` takes a free object, no task has finished with its destination
state since its first test; and if that state has no bits, which no test sees, no task has
finished with it at all. -/
def TestIsFresh (threads : Threads ι τ) : Choice ι τ → Prop
  | .call _ _ => True
  | .advance thread _ =>
      match threads.running thread with
      | some (.locks call tested) =>
          threads.shared.object.working.isOk = false →
            finished call.taskDestState (threads.shared.finishes.drop tested) = false ∧
              (call.taskDestState = 0 → finished 0 threads.shared.finishes = false)
      | _ => True

end Steps

/-! ## Occupation is exclusive -/

/-- What a point says about the state of the object and the tasks that have finished. -/
def Point.Knows (record : Record τ) : Point τ → Prop
  | .testsReady call tested | .locks call tested =>
      tested ≤ record.finishes.length ∧
        (call.taskDestState ≠ 0 →
          finished call.taskDestState (record.finishes.take tested) = false)
  | .erases call => record.object.state.Contains call.taskDestState
  | _ => True

/-- The invariant: the working flag is held by one thread, the state has the bits of every
task that has finished, and the threads know what they have tested or set. -/
structure Sound (threads : Threads ι τ) : Prop where
  exclusive : Exclusive (fun record => record.object.working.isOk) Point.Inside threads
  marks : ∀ dest, finished dest threads.shared.finishes = true →
    threads.shared.object.state.Contains dest
  knows : ∀ thread point, threads.running thread = some point → point.Knows threads.shared

theorem sound_start (state : AtomicState) : Sound (start state : Threads ι τ) where
  exclusive := exclusive_idle _
  marks := nofun
  knows := nofun

variable {threads : Threads ι τ}

theorem Sound.oneOccupant (sound : Sound threads) : OneOccupant threads :=
  fun thread other point there running inside runningOther insideOther =>
    sound.exclusive.single thread point other there running inside runningOther insideOther

/-- What a point knows is still so when the state keeps what that thread has set and more
tasks have finished. -/
theorem Point.Knows.later {before after : Record τ} {point : Point τ}
    (knows : point.Knows before) (more : ∃ since, after.finishes = before.finishes ++ since)
    (kept : ∀ call, point = .erases call → after.object.state.Contains call.taskDestState) :
    point.Knows after := by
  obtain ⟨since, log⟩ := more
  have same {call : Occupy τ} {tested : Nat}
      (there : tested ≤ before.finishes.length ∧ (call.taskDestState ≠ 0 →
        finished call.taskDestState (before.finishes.take tested) = false)) :
      tested ≤ after.finishes.length ∧ (call.taskDestState ≠ 0 →
        finished call.taskDestState (after.finishes.take tested) = false) := by
    rw [log, List.take_append_of_le_length there.1, List.length_append]
    exact ⟨Nat.le_add_right_of_le there.1, there.2⟩
  cases point with
  | testsReady call tested => exact same knows
  | locks call tested => exact same knows
  | erases call => exact kept call rfl
  | _ => trivial

section Runs

/-- A step that changes the state only from inside, and only adds to the tasks that have
finished, keeps the invariant if it keeps what concerns its own thread. -/
theorem Sound.move [DecidableEq ι] (sound : Sound threads) {thread : ι} {result : Record τ × Option (Point τ)}
    {point : Point τ} (running : threads.running thread = some point)
    (enters : ∀ next, result.2 = some next → next.Inside →
      result.1.object.working.isOk = true ∧
        (threads.shared.object.working.isOk = false ∨ point.Inside))
    (leaves : threads.shared.object.working.isOk = true →
      result.1.object.working.isOk = true ∨ point.Inside)
    (log : ∃ since, result.1.finishes = threads.shared.finishes ++ since)
    (state : result.1.object.state = threads.shared.object.state ∨ point.Inside)
    (marks : ∀ dest, finished dest result.1.finishes = true →
      result.1.object.state.Contains dest)
    (own : ∀ next, result.2 = some next → next.Knows result.1) :
    Sound (threads.move thread result) := by
  refine ⟨sound.exclusive.move (fun next goesOn inside => ?_) fun taken => ?_, marks,
    fun other there standing => ?_⟩
  · obtain ⟨taken, before⟩ := enters next goesOn inside
    exact ⟨taken, before.imp_right fun inside => ⟨point, running, inside⟩⟩
  · exact (leaves taken).imp_right fun inside => ⟨point, running, inside⟩
  · rcases Threads.move_running_iff.mp standing with ⟨rfl, goesOn⟩ | ⟨different, before⟩
    · exact own there goesOn
    · refine (sound.knows other there before).later log fun call erases => ?_
      have set : there.Knows threads.shared := sound.knows other there before
      rw [erases] at set
      rcases state with same | inside
      · change result.1.object.state.Contains _
        rw [same]
        exact set
      · refine (different ?_).elim
        exact sound.exclusive.single other there thread point before (erases ▸ trivial) running
          inside

/-- A test changes nothing, and the next point knows what it has seen. -/
theorem Sound.tests [DecidableEq ι] (sound : Sound threads) {thread : ι} {point next : Point τ}
    (running : threads.running thread = some point) {returns : Bool} (outside : ¬ next.Inside)
    (knows : returns = false → next.Knows threads.shared) :
    Sound (threads.move thread (threads.shared.tests returns next)) := by
  refine sound.move running (fun other goesOn inside => ?_) .inl ⟨[], (List.append_nil _).symm⟩
    (.inl rfl) sound.marks fun other goesOn => ?_
  all_goals
    dsimp only [Record.tests] at goesOn
    split_ifs at goesOn with done
    obtain rfl := Option.some.inj goesOn
  · exact (outside inside).elim
  · exact knows (Bool.eq_false_iff.mpr done)

variable [DecidableEq τ]

theorem occupyLocked_occupied {object : Bobject τ} {taskType : τ} :
    (object.occupyLocked taskType).2 = .occupied ↔ object.working.isOk = false := by
  unfold occupyLocked
  cases object.working.isOk with
  | true =>
      simp only [if_true, Bool.true_eq_false, iff_false]
      split_ifs <;> decide
  | false => simp only [Bool.false_eq_true, if_false]

section Advance

variable [DecidableEq ι] {thread : ι}

theorem Sound.enter (sound : Sound threads) (idle : threads.running thread = none)
    (call : Occupy τ) : Sound ((program ι).step threads (.call thread call)) := by
  rw [Program.step_call idle]
  refine ⟨sound.exclusive.move (fun next goesOn inside => ?_) .inl, sound.marks,
    fun other there standing => ?_⟩
  · obtain rfl := Option.some.inj goesOn
    exact inside.elim
  · rcases Threads.move_running_iff.mp standing with ⟨rfl, goesOn⟩ | ⟨_, before⟩
    · obtain rfl := Option.some.inj goesOn
      trivial
    · exact sound.knows other there before

/-- The lock of `occupy` takes a free object. -/
theorem Sound.locks (sound : Sound threads) {call : Occupy τ} {tested : Nat}
    (running : threads.running thread = some (.locks call tested)) (ending : Ending) :
    Sound (threads.move thread
      ((program ι).advance thread threads.shared (.locks call tested) ending)) := by
  have section_ : (threads.shared.object.occupyLocked call.taskType).1.state =
      threads.shared.object.state := by
    unfold occupyLocked
    split_ifs <;> rfl
  refine sound.move running (fun next goesOn inside => ?_) (fun taken => .inl ?_)
    ⟨[], (List.append_nil _).symm⟩ (.inl section_) (fun dest done => ?_) fun next goesOn => ?_
  · dsimp only [program, advance] at goesOn ⊢
    split_ifs at goesOn with occupied
    have free := occupyLocked_occupied.mp occupied
    refine ⟨?_, .inl free⟩
    rw [occupyLocked, if_neg (Bool.eq_false_iff.mp free)]
    exact AtomicState.ok_isOk _
  · dsimp only [program, advance]
    rw [occupyLocked, if_pos taken]
    exact taken
  · dsimp only [program, advance] at done ⊢
    rw [section_]
    exact sound.marks dest done
  · dsimp only [program, advance] at goesOn
    split_ifs at goesOn
    obtain rfl := Option.some.inj goesOn
    trivial

/-- Bits that are erased after the destination was set. -/
theorem Sound.erases (sound : Sound threads) {call : Finish}
    (running : threads.running thread = some (.erases call)) (ending : Ending) :
    Sound (threads.move thread
      ((program ι).advance thread threads.shared (.erases call) ending)) := by
  refine sound.move running (fun next goesOn _ => ?_) (fun _ => .inr trivial)
    ⟨[call], rfl⟩ (.inr trivial) (fun dest done => ?_) fun next goesOn => ?_
  · exact ⟨sound.exclusive.taken thread (.erases call) running trivial, .inr trivial⟩
  · dsimp only [program, advance] at done ⊢
    rw [finished_append, List.foldl_cons, List.foldl_nil, reaches, Bool.and_eq_true,
      beq_iff_eq, Bool.or_eq_true, beq_iff_eq] at done
    obtain ⟨apart, before | now⟩ := done
    · exact (sound.marks dest before).del apart
    · subst now
      exact AtomicState.Contains.del (sound.knows thread _ running) apart
  · obtain rfl := Option.some.inj goesOn
    trivial

/-- **Every step keeps the invariant.** -/
theorem Sound.step (sound : Sound threads) (choice : Choice ι τ) :
    Sound ((program ι).step threads choice) := by
  rcases (program ι).step_cases threads choice with
    ⟨unchanged, _⟩ | ⟨thread, call, rfl, idle⟩ | ⟨thread, ending, point, rfl, running⟩
  · rw [unchanged]
    exact sound
  · exact sound.enter idle call
  · rw [Program.step_advance running]
    have unchanged : ∃ since, threads.shared.finishes = threads.shared.finishes ++ since :=
      ⟨[], (List.append_nil _).symm⟩
    cases point with
    | testsFinished call =>
        apply sound.tests running id
        intro fresh
        refine ⟨Nat.le_refl _, fun nonzero => ?_⟩
        rw [List.take_length, ← Bool.not_eq_true]
        intro already
        rw [(sound.marks _ already).has nonzero] at fresh
        cases fresh
    | testsReady call tested =>
        have knows := sound.knows thread _ running
        exact sound.tests running id fun _ => knows
    | locks call tested => exact sound.locks running ending
    | holds =>
        cases ending with
        | release =>
            exact sound.move running nofun (fun _ => .inr trivial) unchanged (.inl rfl)
              sound.marks nofun
        | finish call =>
            refine sound.move running (fun next goesOn _ => ?_) (fun _ => .inr trivial)
              unchanged (.inr trivial) (fun dest done => (sound.marks dest done).add _)
              fun next goesOn => ?_
            · exact ⟨sound.exclusive.taken thread .holds running trivial, .inr trivial⟩
            · obtain rfl := Option.some.inj goesOn
              exact AtomicState.contains_add _ _
    | erases call => exact sound.erases running ending
    | releases =>
        exact sound.move running nofun (fun _ => .inr trivial) unchanged (.inl rfl)
          sound.marks nofun

end Advance

/-- A finished task is occupied again exactly through a test that was not fresh. -/
theorem Sound.final_iff (sound : Sound threads) (choice : Choice ι τ) :
    Final threads choice ↔ TestIsFresh threads choice := by
  cases choice with
  | call thread call => exact Iff.rfl
  | advance thread ending =>
      rw [Final, TestIsFresh]
      cases running : threads.running thread with
      | none => exact Iff.rfl
      | some point =>
          cases point with
          | locks call tested =>
              obtain ⟨inside, knows⟩ := sound.knows thread _ running
              dsimp only
              rw [occupyLocked_occupied]
              refine forall_congr' fun _ => ?_
              have parts := finished_append call.taskDestState
                (threads.shared.finishes.take tested) (threads.shared.finishes.drop tested)
              rw [List.take_append_drop] at parts
              rw [← Bool.not_eq_true, ← Bool.not_eq_true, ← Bool.not_eq_true]
              constructor
              · intro final
                refine ⟨fun since => final ?_, fun zero again => final (zero ▸ again)⟩
                rw [parts]
                exact reached_of_finished since _
              · rintro ⟨fresh, zero⟩ again
                by_cases nonzero : call.taskDestState = 0
                · exact zero nonzero (nonzero ▸ again)
                · rw [parts, knows nonzero] at again
                  exact fresh again
          | _ => exact Iff.rfl

/-- **Occupation is exclusive and final.** In every interleaving one thread at a time holds the
object; and no finished task is occupied again exactly as long as every call of `occupy` that
takes the object has made its first test after the last task with its destination finished. -/
theorem occupation_iff [DecidableEq ι] (state : AtomicState) (choices : List (Choice ι τ)) :
    Run.Always (program ι).step OneOccupant (fun _ _ => True)
        (start state : Threads ι τ) choices ∧
      (Run.Always (program ι).step OneOccupant Final (start state : Threads ι τ) choices ↔
        Run.Steps (program ι).step TestIsFresh (start state : Threads ι τ) choices) := by
  constructor
  · have free : Run.Steps (program ι).step (fun _ _ => True) (start state : Threads ι τ) choices :=
      Run.steps_of_forall (fun _ _ _ => trivial) _
    exact Run.always_of_steps Sound (fun _ sound => sound.oneOccupant)
      (fun _ choice sound _ => ⟨trivial, sound.step choice⟩) (sound_start state) free
  · exact Run.always_iff_steps Sound (fun _ sound => sound.oneOccupant)
      (fun _ choice sound good => ⟨(sound.final_iff choice).mpr good, sound.step choice⟩)
      (fun _ choice sound bad both => bad ((sound.final_iff choice).mp both.1))
      (sound_start state) choices

end Runs

/-! ## A stale test -/

/-- The task that leads from state 1 to state 2. -/
def task : Occupy Unit := ⟨(), 1, 2, 0⟩

/-- The thread that holds the object, and the one that tests its state. -/
def holder : Fin 2 := ⟨0, Nat.two_pos⟩

def tester : Fin 2 := ⟨1, Nat.one_lt_two⟩

/-- The state has been tested when the thread which held the object finishes. -/
def finishesAfterTest : List (Choice (Fin 2) Unit) :=
  [.call holder task, .advance holder .release, .advance holder .release,
    .advance holder .release, .call tester task, .advance tester .release,
    .advance tester .release, .advance holder (.finish ⟨2, 0⟩), .advance holder .release,
    .advance holder .release]

/-- Then the other thread takes the lock, and occupies the object for the finished task. -/
theorem occupied_after_finish :
    ¬ Run.Always (program (Fin 2)).step OneOccupant Final (start ⟨1⟩)
      (finishesAfterTest ++ [.advance 1 .release]) := by
  intro always
  have final := always.drop.2.1
  revert final
  decide

end Cube.Eco.Bobject
