import Mathlib.Data.List.ReduceOption
import Cube.Eco.Thread.MessageQueue

/-! # The message queue is a bounded FIFO

The messages accepted are those popped followed by those stored. Which thread holds the
mutex when, who is woken up and who wakes up on its own account makes no difference.
-/

namespace Cube.Eco.Thread.MessageQueue

variable {ι μ : Type} {queue : MessageQueue ι μ} {record : Record ι μ}

/-! ## What the operations do to the stored messages -/

theorem isFull_iff : queue.isFull = true ↔ queue.deque.length = queue.capacity.toNat := by
  rw [isFull, beq_iff_eq]

@[simp] theorem new_deque (capacity : UInt32) :
    (new capacity : MessageQueue ι μ).deque = [] := rfl

@[simp] theorem rawClose_deque : queue.rawClose.deque = queue.deque := by
  unfold rawClose
  split <;> rfl

@[simp] theorem rawClose_capacity : queue.rawClose.capacity = queue.capacity := by
  unfold rawClose
  split <;> rfl

/-- A post that waits stores nothing; one that returns had space, and stored its message
last. -/
theorem rawPost_cases (queue : MessageQueue ι μ) (thread : ι) (message : μ) (pick : Nat) :
    (queue.isFull = true ∧ queue.rawPost thread message pick =
      ({ queue with fullCondVar := queue.fullCondVar.wait thread }, .waits)) ∨
    (queue.isFull = false ∧ queue.rawPost thread message pick =
      ({ queue with
        deque := queue.deque ++ [message]
        emptyCondVar := queue.emptyCondVar.notifyOne pick }, .returns ())) := by
  cases full : queue.isFull with
  | true => exact .inl ⟨rfl, by simp only [rawPost, full, ↓reduceIte]⟩
  | false => exact .inr ⟨rfl, by simp only [rawPost, full, Bool.false_eq_true, ↓reduceIte]⟩

/-- A pop that returns a message took the first one; one that returns false found the queue
closed and empty. -/
theorem pop_cases (queue : MessageQueue ι μ) (thread : ι) (pick : Nat) :
    (queue.deque = [] ∧ queue.isClose = true ∧ queue.pop thread pick = (queue, .returns none)) ∨
    (queue.deque = [] ∧ queue.isClose = false ∧ queue.pop thread pick =
      ({ queue with emptyCondVar := queue.emptyCondVar.wait thread }, .waits)) ∨
    (∃ message deque, queue.deque = message :: deque ∧ queue.pop thread pick =
      ({ queue with deque := deque, fullCondVar := queue.fullCondVar.notifyOne pick },
        .returns (some message))) := by
  cases stored : queue.deque with
  | cons message deque => exact .inr (.inr ⟨message, deque, rfl, by simp only [pop, stored]⟩)
  | nil =>
      cases closed : queue.isClose with
      | true => exact .inl ⟨rfl, rfl, by simp only [pop, stored, closed, ↓reduceIte]⟩
      | false =>
          exact .inr (.inl ⟨rfl, rfl, by
            simp only [pop, stored, closed, Bool.false_eq_true, ↓reduceIte]⟩)

/-! ## The invariant -/

namespace Record

/-- The accepted messages are the popped ones and then the stored ones, of which there are
not more than `capacity`. -/
structure Ordered (capacity : UInt32) (record : Record ι μ) : Prop where
  capacity_eq : record.queue.capacity = capacity
  bounded : record.queue.deque.length ≤ capacity.toNat
  accepted_eq : record.accepted = record.popped ++ record.queue.deque

variable {capacity : UInt32}

theorem new_ordered (capacity : UInt32) :
    (new capacity : Record ι μ).Ordered (MessageQueue.new capacity : MessageQueue ι μ).capacity :=
  ⟨rfl, Nat.zero_le _, rfl⟩

/-- Nothing but the sleeping threads and the state has changed. -/
theorem Ordered.of_deque_eq (ordered : record.Ordered capacity) (deque : queue.deque =
    record.queue.deque) (same : queue.capacity = record.queue.capacity) :
    ({ record with queue := queue } : Record ι μ).Ordered capacity := by
  refine ⟨same.trans ordered.capacity_eq, ?_, ?_⟩
  · exact deque ▸ ordered.bounded
  · exact ordered.accepted_eq.trans (congrArg (record.popped ++ ·) deque.symm)

theorem Ordered.rawPost (ordered : record.Ordered capacity) (thread : ι) (message : μ)
    (pick : Nat) :
    (record.posts message (record.queue.rawPost thread message pick)).1.Ordered capacity := by
  rcases rawPost_cases record.queue thread message pick with ⟨_, waits⟩ | ⟨space, stores⟩
  · rw [posts, waits]
    exact ordered.of_deque_eq rfl rfl
  · rw [posts, stores]
    have short : record.queue.deque.length ≠ capacity.toNat := fun full => by
      rw [← ordered.capacity_eq, ← isFull_iff, space] at full
      exact Bool.false_ne_true full
    refine ⟨ordered.capacity_eq, ?_, ?_⟩
    · rw [List.length_append, List.length_singleton]
      exact Nat.lt_of_le_of_ne ordered.bounded short
    · rw [ordered.accepted_eq, List.append_assoc]
      rfl

theorem Ordered.pop (ordered : record.Ordered capacity) (thread : ι) (pick : Nat) :
    (record.pops (record.queue.pop thread pick)).1.Ordered capacity := by
  rcases pop_cases record.queue thread pick with
    ⟨_, _, refuses⟩ | ⟨_, _, waits⟩ | ⟨message, deque, stored, takes⟩
  · rw [pops, refuses]
    refine ⟨ordered.capacity_eq, ordered.bounded, ?_⟩
    rw [ordered.accepted_eq, popped, popped, List.reduceOption_append]
    exact congrArg (· ++ record.queue.deque) (List.append_nil _).symm
  · rw [pops, waits]
    exact ordered.of_deque_eq rfl rfl
  · rw [pops, takes]
    refine ⟨ordered.capacity_eq, ?_, ?_⟩
    · have bounded := ordered.bounded
      rw [stored] at bounded
      exact Nat.le_of_succ_le bounded
    · rw [ordered.accepted_eq, stored, popped, popped, List.reduceOption_append,
        List.append_assoc]
      rfl

end Record

/-! ## Every interleaving -/

/-- A choice that makes no call of `post_unique`. -/
def Plain (choice : Choice ι μ) : Prop :=
  ∀ thread message, choice ≠ .call thread (.postUnique message)

section

variable {checker : μ → μ → Bool} {threads : Threads ι μ} {choice : Choice ι μ}

/-- The queue is ordered, and nobody is in a call of `post_unique`. -/
def ordered (ι μ : Type) (capacity : UInt32) : Interleaving.Outline ι (Record ι μ) (Operation μ)
    where
  shared := Record.Ordered capacity
  running _ _ operation := ∀ message, operation ≠ .postUnique message

/-- A call that gets the mutex, and is not one of `post_unique`, keeps the queue ordered and
does not become one. -/
theorem Record.Ordered.locked {capacity : UInt32} (holds : record.Ordered capacity)
    (checker : μ → μ → Bool) (thread : ι) (pick : Nat) {operation : Operation μ}
    (plain : ∀ message, operation ≠ .postUnique message) :
    (record.locked checker thread pick operation).1.Ordered capacity ∧
      ∀ next, (record.locked checker thread pick operation).2 = some next →
        ∀ message, next ≠ .postUnique message := by
  cases operation with
  | postUnique message => exact absurd rfl (plain message)
  | close => exact ⟨holds.of_deque_eq rawClose_deque rawClose_capacity, nofun⟩
  | pop =>
      refine ⟨holds.pop thread pick, fun next waits message => ?_⟩
      rw [Record.pops_next waits]
      exact nofun
  | rawPost posted =>
      refine ⟨holds.rawPost thread posted pick, fun next waits message => ?_⟩
      rw [Record.posts_next waits]
      exact nofun

theorem ne_append_singleton {α : Type} (list : List α) (last : α) : list ≠ list ++ [last] :=
  fun same => List.cons_ne_nil _ _ (List.self_eq_append_right.mp same)

/-- A call that gets the mutex and returns false found the queue closed and empty. -/
theorem Record.locked_refuses {thread : ι} {pick : Nat} {operation : Operation μ}
    (refuses : (record.locked checker thread pick operation).1.results =
      record.results ++ [none]) :
    record.queue.isClose = true ∧ record.queue.deque = [] := by
  cases operation with
  | pop =>
      rcases pop_cases record.queue thread pick with
        ⟨empty, closed, _⟩ | ⟨_, _, waits⟩ | ⟨message, deque, _, takes⟩
      · exact ⟨closed, empty⟩
      · rw [locked, pops, waits] at refuses
        exact absurd refuses (ne_append_singleton record.results none)
      · rw [locked, pops, takes] at refuses
        cases List.append_cancel_left refuses
  | rawPost message =>
      rw [locked, posts_results] at refuses
      exact absurd refuses (ne_append_singleton record.results none)
  | postUnique message =>
      rw [locked, posts_results] at refuses
      exact absurd refuses (ne_append_singleton record.results none)
  | close => exact absurd refuses (ne_append_singleton record.results none)

variable [DecidableEq ι]

theorem ordered_step {capacity : UInt32} (holds : (ordered ι μ capacity).Holds threads)
    (plain : Plain choice) :
    (ordered ι μ capacity).Holds ((program checker).step threads choice) := by
  refine holds.step (fun thread call made _ => ?_) fun thread input operation _ _ here => ?_
  · refine ⟨holds.shared, ?_, fun _ _ _ other => other⟩
    rintro _ ⟨⟩ message
    cases call with
    | postUnique message => exact absurd made (plain thread message)
    | post message => exact nofun
    | pop => exact nofun
    | close => exact nofun
  · cases input with
    | wakesUp =>
        refine ⟨holds.shared.of_deque_eq rfl rfl, ?_, fun _ _ _ other => other⟩
        rintro _ ⟨⟩
        exact here
    | locks pick =>
        change (ordered ι μ capacity).Keeps _ _ (if _ then _ else _)
        split
        · refine ⟨holds.shared, ?_, fun _ _ _ other => other⟩
          rintro _ ⟨⟩
          exact here
        · obtain ⟨shared, own⟩ := holds.shared.locked checker thread pick here
          exact ⟨shared, own, fun _ _ _ other => other⟩

/-- The step makes a call of `pop` return false. -/
def Refuses (checker : μ → μ → Bool) (threads : Threads ι μ) (choice : Choice ι μ) : Prop :=
  ((program checker).step threads choice).shared.results = threads.shared.results ++ [none]

theorem refuses_closed (refuses : Refuses checker threads choice) :
    threads.shared.queue.isClose = true ∧ threads.shared.queue.deque = [] := by
  unfold Refuses at refuses
  rcases (program checker).step_cases threads choice with
    ⟨unchanged, _⟩ | ⟨thread, call, rfl, idle⟩ | ⟨thread, input, operation, rfl, running⟩
  · rw [unchanged] at refuses
    exact absurd refuses (ne_append_singleton threads.shared.results none)
  · rw [Interleaving.Program.step_call idle] at refuses
    exact absurd refuses (ne_append_singleton threads.shared.results none)
  · rw [Interleaving.Program.step_advance running] at refuses
    cases input with
    | wakesUp => exact absurd refuses (ne_append_singleton threads.shared.results none)
    | locks pick =>
        change (ite _ _ _ : Record ι μ × Option (Operation μ)).1.results = _ at refuses
        split at refuses
        · exact absurd refuses (ne_append_singleton threads.shared.results none)
        · exact Record.locked_refuses refuses

/-- What was popped is what was accepted first, in that order; the rest is stored, and fits
the capacity. -/
structure Record.BoundedFifo (capacity : UInt32) (record : Record ι μ) : Prop where
  popped_prefix : record.popped <+: record.accepted
  accepted_eq : record.accepted = record.popped ++ record.queue.deque
  bounded : record.queue.deque.length ≤ capacity.toNat

/-- **The message queue is a bounded FIFO.** In every interleaving of calls of `post`, `pop`
and `close`, the messages popped are the first of those accepted, in that order; the others
are stored, not more than the capacity; and a `pop` returns false only if it finds the queue
closed and empty. -/
theorem bounded_fifo (capacity : UInt32) (checker : μ → μ → Bool) (choices : List (Choice ι μ))
    (plain : ∀ choice ∈ choices, Plain choice) :
    Run.Always (program checker).step
      (fun threads => threads.shared.BoundedFifo (new capacity : MessageQueue ι μ).capacity)
      (fun threads choice => Refuses checker threads choice →
        threads.shared.queue.isClose = true ∧ threads.shared.queue.deque = [])
      (start capacity) choices := by
  refine Run.always_of_steps (ordered ι μ (new capacity : MessageQueue ι μ).capacity).Holds
    (fun threads holds => ?_) (fun threads choice holds good => ?_)
    (.idle (Record.new_ordered capacity))
    (Run.steps_of_forall (fun choice member _ => plain choice member) _)
  · have accepted := holds.shared.accepted_eq
    exact ⟨⟨_, accepted.symm⟩, accepted, holds.shared.bounded⟩
  · exact ⟨refuses_closed, ordered_step holds good⟩

/-- Thread 0 posts twice on a queue of capacity 1 and has to wait for the pop of thread 1;
after the close, thread 1 pops what is left and is then refused. -/
def handOver : List (Choice Nat Nat) :=
  [.call 0 (.post 7), .advance 0 (.locks 0), .call 0 (.post 8), .advance 0 (.locks 0),
    .call 1 .pop, .advance 1 (.locks 0), .advance 0 (.locks 0), .call 0 .close,
    .advance 0 (.locks 0), .call 1 .pop, .advance 1 (.locks 0), .call 1 .pop,
    .advance 1 (.locks 0)]

theorem bounded_fifo_handOver :
    Run.Always (program fun _ _ : Nat => false).step
      (fun threads => threads.shared.BoundedFifo (new 1 : MessageQueue Nat Nat).capacity)
      (fun threads choice => Refuses (fun _ _ => false) threads choice →
        threads.shared.queue.isClose = true ∧ threads.shared.queue.deque = [])
      (start 1) handOver :=
  bounded_fifo 1 _ handOver (by simp [handOver, Plain])

example : (Run.final (program fun _ _ : Nat => false).step (start 1) handOver).shared.results =
    [some 7, some 8, none] := by decide

end

end Cube.Eco.Thread.MessageQueue
