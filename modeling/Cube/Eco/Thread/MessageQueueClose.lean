import Cube.Eco.Thread.MessageQueueOrder

/-! # Closing a message queue

`raw_post` waits for space and does not ask whether the queue is closed. A closed queue takes
nothing more, keeps nobody waiting and lets its workers finish exactly as long as no call of
`post` is in progress or made after the close.
-/

namespace Cube.Eco.Thread.MessageQueue

variable {ι μ : Type} {queue : MessageQueue ι μ} {record : Record ι μ}

/-- Nobody sleeps in a closed queue. -/
def Record.Awake (record : Record ι μ) : Prop :=
  record.queue.isClose = true →
    record.queue.fullCondVar.sleeping = [] ∧ record.queue.emptyCondVar.sleeping = []

/-- The call is one that stores a message. -/
def Operation.Posts (operation : Operation μ) : Prop :=
  ∃ message, operation = .rawPost message ∨ operation = .postUnique message

/-! ## What the operations do to a closed queue -/

theorem new_isClose (capacity : UInt32) : (new capacity : MessageQueue ι μ).isClose = false := by
  change ((0x0000 ||| 0x1000 : UInt32) == 0x0000) = false
  decide

theorem rawClose_isClose : queue.rawClose.isClose = true := by
  unfold rawClose
  split
  · assumption
  · rfl

theorem rawClose_of_isClose (closed : queue.isClose = true) : queue.rawClose = queue :=
  if_pos closed

theorem rawPost_isClose (thread : ι) (message : μ) (pick : Nat) :
    (queue.rawPost thread message pick).1.isClose = queue.isClose := by
  unfold rawPost
  split <;> rfl

theorem postUnique_isClose (uniqueCheck : μ → Bool) (thread : ι) (message : μ) (pick : Nat) :
    (queue.postUnique uniqueCheck thread message pick).1.isClose = queue.isClose := by
  unfold postUnique
  split
  · rfl
  · exact rawPost_isClose thread message pick

namespace Record

variable {checker : μ → μ → Bool} {thread : ι} {pick : Nat} {operation : Operation μ}

theorem awake_of_open (opened : record.queue.isClose = false) : record.Awake := fun closed =>
  absurd (opened.symm.trans closed) Bool.false_ne_true

@[simp] theorem posts_isClose (message : μ) (posted : MessageQueue ι μ × Section Unit) :
    (record.posts message posted).1.queue.isClose = posted.1.isClose := by
  unfold posts
  split <;> rfl

theorem new_awake (capacity : UInt32) : (new capacity : Record ι μ).Awake :=
  awake_of_open (new_isClose capacity)

/-- A close wakes everybody up. -/
theorem Awake.close (awake : record.Awake) :
    ({ record with queue := record.queue.rawClose } : Record ι μ).Awake := by
  intro _
  cases closed : record.queue.isClose with
  | true =>
      rw [rawClose_of_isClose closed]
      exact awake closed
  | false =>
      simp only [rawClose, closed, Bool.false_eq_true, ↓reduceIte]
      exact ⟨rfl, rfl⟩

theorem Awake.wakesUp [DecidableEq ι] (awake : record.Awake) (thread : ι) :
    ({ record with queue := record.queue.wakesUp thread } : Record ι μ).Awake := fun closed =>
  ⟨ConditionVariable.wakesUp_of_empty (awake closed).1 thread,
    ConditionVariable.wakesUp_of_empty (awake closed).2 thread⟩

/-- A `pop` of an open queue leaves it open; one of a closed queue returns, and what it
returns is no longer stored. -/
theorem Awake.pop (awake : record.Awake) (thread : ι) (pick : Nat) :
    (record.pops (record.queue.pop thread pick)).1.Awake ∧
    (record.queue.isClose = true →
      (record.pops (record.queue.pop thread pick)).2 = none ∧
      (record.pops (record.queue.pop thread pick)).1.queue.isClose = true ∧
      (record.pops (record.queue.pop thread pick)).1.popped ++
          (record.pops (record.queue.pop thread pick)).1.queue.deque =
        record.popped ++ record.queue.deque) := by
  rcases pop_cases record.queue thread pick with
    ⟨empty, closed, refuses⟩ | ⟨_, opened, waits⟩ | ⟨message, deque, stored, takes⟩
  · rw [pops, refuses]
    refine ⟨awake, fun _ => ⟨rfl, closed, ?_⟩⟩
    rw [popped, List.reduceOption_append]
    exact congrArg (· ++ record.queue.deque) (List.append_nil _)
  · rw [pops, waits]
    refine ⟨awake_of_open opened, fun closed => ?_⟩
    exact absurd (opened.symm.trans closed) Bool.false_ne_true
  · rw [pops, takes]
    refine ⟨fun closed => ?_, fun closed => ⟨rfl, closed, ?_⟩⟩
    · exact ⟨ConditionVariable.notifyOne_of_empty (awake closed).1 pick, (awake closed).2⟩
    · rw [stored, popped, List.reduceOption_append, List.append_assoc]
      rfl

/-- What a call that gets the mutex of a closed queue does when it is not a post: it returns,
and what was stored is stored or popped. -/
theorem Awake.locked (awake : record.Awake) (checker : μ → μ → Bool) (thread : ι) (pick : Nat)
    {operation : Operation μ} (quiet : record.queue.isClose = true → ¬ operation.Posts) :
    (record.locked checker thread pick operation).1.Awake ∧
    (record.queue.isClose = true →
      (record.locked checker thread pick operation).2 = none ∧
      (record.locked checker thread pick operation).1.accepted = record.accepted ∧
      (record.locked checker thread pick operation).1.queue.isClose = true ∧
      (record.locked checker thread pick operation).1.popped ++
          (record.locked checker thread pick operation).1.queue.deque =
        record.popped ++ record.queue.deque) := by
  cases operation with
  | rawPost message =>
      cases closed : record.queue.isClose with
      | true => exact absurd ⟨message, .inl rfl⟩ (quiet closed)
      | false =>
          refine ⟨awake_of_open ?_, nofun⟩
          exact (posts_isClose message _).trans ((rawPost_isClose thread message pick).trans closed)
  | postUnique message =>
      cases closed : record.queue.isClose with
      | true => exact absurd ⟨message, .inr rfl⟩ (quiet closed)
      | false =>
          refine ⟨awake_of_open ?_, nofun⟩
          exact (posts_isClose message _).trans
            ((postUnique_isClose (checker message) thread message pick).trans closed)
  | pop =>
      obtain ⟨kept, drains⟩ := awake.pop thread pick
      refine ⟨kept, fun closed => ?_⟩
      obtain ⟨returns, stays, same⟩ := drains closed
      exact ⟨returns, pops_accepted _, stays, same⟩
  | close =>
      refine ⟨awake.close, fun closed => ⟨rfl, rfl, rawClose_isClose, ?_⟩⟩
      exact congrArg (record.popped ++ ·) rawClose_deque

/-- A post that gets the mutex waits, or accepts a message. -/
theorem locked_posts (posts : operation.Posts) :
    (record.locked checker thread pick operation).2 ≠ none ∨
      (record.locked checker thread pick operation).1.accepted ≠ record.accepted := by
  have either : ∀ message (posted : MessageQueue ι μ × Section Unit),
      (record.posts message posted).2 ≠ none ∨
        (record.posts message posted).1.accepted ≠ record.accepted := by
    intro message posted
    unfold Record.posts
    split
    · exact .inl nofun
    · exact .inr (ne_append_singleton record.accepted message).symm
  obtain ⟨message, rfl | rfl⟩ := posts
  · exact either message _
  · exact either message _

end Record

/-! ## Every interleaving -/

variable [DecidableEq ι] {checker : μ → μ → Bool} {threads : Threads ι μ} {choice : Choice ι μ}

/-- A step at a closed queue stores nothing, and a thread that gets the mutex returns. -/
def Final (checker : μ → μ → Bool) (threads : Threads ι μ) (choice : Choice ι μ) : Prop :=
  threads.shared.queue.isClose = true →
    ((program checker).step threads choice).shared.accepted = threads.shared.accepted ∧
    ∀ thread pick, choice = .advance thread (.locks pick) →
      ((program checker).step threads choice).running thread = none

/-- The step is not one of a post that gets the mutex of a closed queue. -/
def PostsBeforeClose (threads : Threads ι μ) (choice : Choice ι μ) : Prop :=
  threads.shared.queue.isClose = true → ∀ thread pick operation,
    choice = .advance thread (.locks pick) → threads.running thread = some operation →
      ¬ operation.Posts

/-- A step at a queue where nobody sleeps once it is closed, and that is not one of a post at
a closed queue. -/
theorem awake_step (checker : μ → μ → Bool) (awake : threads.shared.Awake)
    (good : PostsBeforeClose threads choice) :
    ((program checker).step threads choice).shared.Awake ∧
    (threads.shared.queue.isClose = true →
      ((program checker).step threads choice).shared.queue.isClose = true ∧
      ((program checker).step threads choice).shared.popped ++
          ((program checker).step threads choice).shared.queue.deque =
        threads.shared.popped ++ threads.shared.queue.deque) ∧
    Final checker threads choice := by
  unfold Final
  rcases (program checker).step_cases threads choice with
    ⟨unchanged, idle⟩ | ⟨thread, call, rfl, idle⟩ | ⟨thread, input, operation, rfl, running⟩
  · rw [unchanged]
    exact ⟨awake, fun closed => ⟨closed, rfl⟩, fun _ => ⟨rfl, fun thread pick chosen =>
      idle thread (.locks pick) chosen⟩⟩
  · rw [Interleaving.Program.step_call idle]
    exact ⟨awake, fun closed => ⟨closed, rfl⟩, fun _ => ⟨rfl, nofun⟩⟩
  · rw [Interleaving.Program.step_advance running]
    cases input with
    | wakesUp =>
        exact ⟨awake.wakesUp thread, fun closed => ⟨closed, rfl⟩, fun _ => ⟨rfl, nofun⟩⟩
    | locks pick =>
        by_cases asleep : threads.shared.queue.Asleep thread
        · have open_ : threads.shared.queue.isClose = true → False := fun closed => by
            rw [Asleep, (awake closed).1, (awake closed).2] at asleep
            exact asleep.elim List.not_mem_nil List.not_mem_nil
          rw [advance_asleep asleep]
          exact ⟨awake, fun closed => (open_ closed).elim, fun closed => (open_ closed).elim⟩
        · rw [advance_locks asleep]
          obtain ⟨kept, drains⟩ := awake.locked checker thread pick fun closed =>
            good closed thread pick operation rfl running
          refine ⟨kept, fun closed => ⟨(drains closed).2.2.1, (drains closed).2.2.2⟩,
            fun closed => ⟨(drains closed).2.1, ?_⟩⟩
          rintro _ _ ⟨⟩
          rw [Interleaving.Threads.move_running_self]
          exact (drains closed).1

/-- A post that gets the mutex of a closed queue stores its message, or waits. -/
theorem not_final_of_posts (awake : threads.shared.Awake)
    (late : ¬ PostsBeforeClose threads choice) : ¬ Final checker threads choice := by
  unfold PostsBeforeClose at late
  push Not at late
  obtain ⟨closed, thread, pick, operation, rfl, running, posts⟩ := late
  intro final
  obtain ⟨same, returns⟩ := final closed
  have awakeThread : ¬ threads.shared.queue.Asleep thread := fun asleep => by
    rw [Asleep, (awake closed).1, (awake closed).2] at asleep
    exact asleep.elim List.not_mem_nil List.not_mem_nil
  have returned := returns thread pick rfl
  rw [Interleaving.Program.step_advance running, advance_locks awakeThread] at same returned
  rw [Interleaving.Threads.move_running_self] at returned
  rcases Record.locked_posts posts with waits | accepts
  · exact waits returned
  · exact accepts same

/-! ## The workers of a closed queue -/

/-- What was stored when the queue was closed, and nothing more, is popped afterwards. -/
theorem popped_of_steps {choices : List (Choice ι μ)} (awake : threads.shared.Awake)
    (closed : threads.shared.queue.isClose = true)
    (steps : Run.Steps (program checker).step PostsBeforeClose threads choices) :
    (Run.final (program checker).step threads choices).shared.popped ++
        (Run.final (program checker).step threads choices).shared.queue.deque =
      threads.shared.popped ++ threads.shared.queue.deque := by
  induction choices generalizing threads with
  | nil => rfl
  | cons choice choices ih =>
      obtain ⟨kept, drains, _⟩ := awake_step checker awake steps.1
      obtain ⟨stays, same⟩ := drains closed
      exact (ih kept stays steps.2).trans same

/-- **A close is final.** Once the queue is closed nobody sleeps in it; no step stores a
message, and every thread that gets the mutex returns; and whatever happens after the close,
the workers pop what was stored then and nothing else. -/
structure ClosesForGood (checker : μ → μ → Bool) (capacity : UInt32)
    (choices : List (Choice ι μ)) : Prop where
  final : Run.Always (program checker).step (fun threads => threads.shared.Awake)
    (Final checker) (start capacity) choices
  drained : ∀ before after, choices = before ++ after →
    (Run.final (program checker).step (start capacity) before).shared.queue.isClose = true →
    (Run.final (program checker).step (start capacity) choices).shared.popped <+:
      (Run.final (program checker).step (start capacity) before).shared.popped ++
        (Run.final (program checker).step (start capacity) before).shared.queue.deque

/-- **When a close is final.** It is exactly when no call of `post` or `post_unique` gets the
mutex of the closed queue. -/
theorem closes_for_good_iff (checker : μ → μ → Bool) (capacity : UInt32)
    (choices : List (Choice ι μ)) :
    ClosesForGood checker capacity choices ↔
      Run.Steps (program checker).step PostsBeforeClose (start capacity) choices := by
  have exact_condition : Run.Always (program checker).step
        (fun threads => threads.shared.Awake) (Final checker) (start capacity) choices ↔
      Run.Steps (program checker).step PostsBeforeClose (start capacity) choices :=
    Run.always_iff_steps (fun threads : Threads ι μ => threads.shared.Awake)
      (fun _ awake => awake)
      (fun threads choice awake good =>
        have kept := awake_step checker awake good
        ⟨kept.2.2, kept.1⟩)
      (fun threads choice awake late both => not_final_of_posts awake late both.1)
      (Record.new_awake capacity) choices
  refine ⟨fun closes => exact_condition.mp closes.final, fun steps => ?_⟩
  refine ⟨exact_condition.mpr steps, ?_⟩
  rintro before after rfl closed
  have awake := (exact_condition.mpr steps).drop.head
  rw [Run.final_append, ← popped_of_steps awake closed steps.drop]
  exact List.prefix_append _ _

/-- Thread 1 posts on a queue that thread 0 has closed. -/
def latePost : List (Choice Nat Nat) :=
  [.call 0 .close, .advance 0 (.locks 0), .call 1 (.post 7), .advance 1 (.locks 0)]

/-- Thread 1 waits for space when thread 0 closes the queue, wakes up and waits again. -/
def blockedPost : List (Choice Nat Nat) :=
  [.call 1 (.post 7), .advance 1 (.locks 0), .call 1 (.post 8), .advance 1 (.locks 0),
    .call 0 .close, .advance 0 (.locks 0), .advance 1 (.locks 0)]

/-- A message is stored after the close, and a thread that waited for space still does. -/
theorem not_closes_for_good :
    ¬ ClosesForGood (fun _ _ : Nat => false) 1 latePost ∧
    ¬ ClosesForGood (fun _ _ : Nat => false) 1 blockedPost := by
  constructor
  · intro closes
    obtain ⟨_, _, _, _, _, _, _, stores, _⟩ := closes.final
    exact absurd (stores rfl).1 (by decide)
  · intro closes
    exact absurd (closes.final.final (by decide)).1 (by decide)

end Cube.Eco.Thread.MessageQueue
