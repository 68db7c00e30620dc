import Cube.Lib.Interleaving
import Cube.Lib.Run
import Cube.Eco.Thread.State

/-! # The message queue

A bounded queue between threads that post and threads that pop. Every operation holds the
mutex of the queue, except while it sleeps on one of the two condition variables: a step of
the model is what a thread does between getting the mutex and giving it back.
-/

namespace Cube.Eco.Thread

/-- The threads that sleep on a condition variable. -/
structure ConditionVariable (ι : Type) where
  sleeping : List ι := []
  deriving DecidableEq

namespace ConditionVariable

variable {ι : Type} (condition : ConditionVariable ι)

def wait (thread : ι) : ConditionVariable ι := ⟨condition.sleeping ++ [thread]⟩

/-- Which of the sleeping threads wakes up is for the system to pick. -/
def notifyOne (pick : Nat) : ConditionVariable ι :=
  ⟨condition.sleeping.eraseIdx (pick % condition.sleeping.length)⟩

def notifyAll : ConditionVariable ι → ConditionVariable ι := fun _ => ⟨[]⟩

/-- A thread may wake up without having been notified. -/
def wakesUp [DecidableEq ι] (thread : ι) : ConditionVariable ι :=
  ⟨condition.sleeping.erase thread⟩

variable {condition}

theorem notifyOne_of_empty (none : condition.sleeping = []) (pick : Nat) :
    (condition.notifyOne pick).sleeping = [] := by
  rw [notifyOne, none, List.eraseIdx_nil]

theorem wakesUp_of_empty [DecidableEq ι] (none : condition.sleeping = []) (thread : ι) :
    (condition.wakesUp thread).sleeping = [] := by
  rw [wakesUp, none, List.erase_nil]

end ConditionVariable

/-- How a critical section ends: in a wait, which gives the mutex back, or with a result. -/
inductive Section (ρ : Type) where
  | waits
  | returns (result : ρ)
  deriving DecidableEq

structure MessageQueue (ι μ : Type) where
  capacity : UInt32
  deque : List μ
  state : AtomicState
  fullCondVar : ConditionVariable ι
  emptyCondVar : ConditionVariable ι

namespace MessageQueue

variable {ι μ : Type}

def defaultCapacity : UInt32 := 5000

section Operations

variable (queue : MessageQueue ι μ)

def setCapacity (capacity : UInt32) : MessageQueue ι μ :=
  { queue with capacity := if 0 < capacity then capacity else defaultCapacity }

def opened : MessageQueue ι μ := { queue with state := queue.state.ok }

/-- The queue as its constructor leaves it. -/
def new (capacity : UInt32) : MessageQueue ι μ :=
  ((MessageQueue.mk 0 [] AtomicState.none {} {}).setCapacity capacity).opened

def isClose : Bool := queue.state.isNone

def isEmpty : Bool := queue.deque.isEmpty

def isFull : Bool := queue.deque.length == queue.capacity.toNat

def rawClose : MessageQueue ι μ :=
  if queue.isClose then queue
  else
    { queue with
      state := AtomicState.none
      emptyCondVar := queue.emptyCondVar.notifyAll
      fullCondVar := queue.fullCondVar.notifyAll }

/-- One turn of the loop that waits for space. -/
def rawPost (thread : ι) (message : μ) (pick : Nat) : MessageQueue ι μ × Section Unit :=
  if queue.isFull then
    ({ queue with fullCondVar := queue.fullCondVar.wait thread }, .waits)
  else
    ({ queue with
      deque := queue.deque ++ [message]
      emptyCondVar := queue.emptyCondVar.notifyOne pick }, .returns ())

/-- The message that the checker recognises is replaced where it stands. -/
def postUnique (uniqueCheck : μ → Bool) (thread : ι) (message : μ) (pick : Nat) :
    MessageQueue ι μ × Section Unit :=
  match queue.deque.findIdx? uniqueCheck with
  | some index => ({ queue with deque := queue.deque.set index message }, .returns ())
  | none => queue.rawPost thread message pick

/-- One turn of the loop that waits for a message; no message means that the call returned
false. -/
def pop (thread : ι) (pick : Nat) : MessageQueue ι μ × Section (Option μ) :=
  match queue.deque with
  | [] =>
      if queue.isClose then (queue, .returns none)
      else ({ queue with emptyCondVar := queue.emptyCondVar.wait thread }, .waits)
  | message :: deque =>
      ({ queue with deque := deque, fullCondVar := queue.fullCondVar.notifyOne pick },
        .returns (some message))

/-- The thread sleeps in one of the waits. -/
def Asleep (thread : ι) : Prop :=
  thread ∈ queue.fullCondVar.sleeping ∨ thread ∈ queue.emptyCondVar.sleeping

instance [DecidableEq ι] (thread : ι) : Decidable (queue.Asleep thread) :=
  inferInstanceAs (Decidable (_ ∨ _))

def wakesUp [DecidableEq ι] (thread : ι) : MessageQueue ι μ :=
  { queue with
    fullCondVar := queue.fullCondVar.wakesUp thread
    emptyCondVar := queue.emptyCondVar.wakesUp thread }

end Operations

/-! ## The threads of a queue -/

/-- The calls a thread can make. -/
inductive Call (μ : Type) where
  | post (message : μ)
  | postUnique (message : μ)
  | pop
  | close
  deriving DecidableEq

/-- The call a thread is in. A `post_unique` that had to wait for space goes on as a `post`
does. -/
inductive Operation (μ : Type) where
  | rawPost (message : μ)
  | postUnique (message : μ)
  | pop
  | close
  deriving DecidableEq

/-- A thread gets the mutex, and the system picks whom a notification wakes up; or a thread
wakes up on its own account. -/
inductive Input where
  | locks (pick : Nat)
  | wakesUp
  deriving DecidableEq

/-- The queue, and what happened to it: the messages accepted so far, and the result of every
call of `pop` that returned. -/
structure Record (ι μ : Type) where
  queue : MessageQueue ι μ
  accepted : List μ
  results : List (Option μ)

namespace Record

def new (capacity : UInt32) : Record ι μ := ⟨MessageQueue.new capacity, [], []⟩

variable (record : Record ι μ)

/-- The messages popped so far. -/
def popped : List μ := record.results.reduceOption

/-- A post leaves its message in the record once it is in the queue. -/
def posts (message : μ) (posted : MessageQueue ι μ × Section Unit) :
    Record ι μ × Option (Operation μ) :=
  match posted.2 with
  | .waits => ({ record with queue := posted.1 }, some (.rawPost message))
  | .returns _ =>
      ({ record with queue := posted.1, accepted := record.accepted ++ [message] }, none)

def pops (popped : MessageQueue ι μ × Section (Option μ)) : Record ι μ × Option (Operation μ) :=
  match popped.2 with
  | .waits => ({ record with queue := popped.1 }, some .pop)
  | .returns result =>
      ({ record with queue := popped.1, results := record.results ++ [result] }, none)

/-- What a call does while it holds the mutex. -/
def locked (checker : μ → μ → Bool) (thread : ι) (pick : Nat) :
    Operation μ → Record ι μ × Option (Operation μ)
  | .rawPost message => record.posts message (record.queue.rawPost thread message pick)
  | .postUnique message =>
      record.posts message (record.queue.postUnique (checker message) thread message pick)
  | .pop => record.pops (record.queue.pop thread pick)
  | .close => ({ record with queue := record.queue.rawClose }, none)

section

variable {record}

theorem posts_next {message : μ} {posted : MessageQueue ι μ × Section Unit} {next : Operation μ}
    (waits : (record.posts message posted).2 = some next) : next = .rawPost message := by
  unfold posts at waits
  split at waits
  · exact (Option.some.inj waits).symm
  · cases waits

theorem pops_next {popped : MessageQueue ι μ × Section (Option μ)} {next : Operation μ}
    (waits : (record.pops popped).2 = some next) : next = .pop := by
  unfold pops at waits
  split at waits
  · exact (Option.some.inj waits).symm
  · cases waits

@[simp] theorem posts_results (message : μ) (posted : MessageQueue ι μ × Section Unit) :
    (record.posts message posted).1.results = record.results := by
  unfold posts
  split <;> rfl

@[simp] theorem pops_accepted (popped : MessageQueue ι μ × Section (Option μ)) :
    (record.pops popped).1.accepted = record.accepted := by
  unfold pops
  split <;> rfl

end

end Record

def Call.operation : Call μ → Operation μ
  | .post message => .rawPost message
  | .postUnique message => .postUnique message
  | .pop => .pop
  | .close => .close

/-- Any number of threads that post, pop and close. `checker message` recognises the messages
that a `post_unique` of `message` replaces. -/
def program [DecidableEq ι] (checker : μ → μ → Bool) :
    Interleaving.Program ι (Record ι μ) (Call μ) (Operation μ) Input where
  enter _ record call := (record, call.operation)
  advance thread record operation input :=
    match input with
    | .wakesUp => ({ record with queue := record.queue.wakesUp thread }, some operation)
    | .locks pick =>
        if record.queue.Asleep thread then (record, some operation)
        else record.locked checker thread pick operation

section

variable [DecidableEq ι] {checker : μ → μ → Bool} {record : Record ι μ} {thread : ι} {pick : Nat}
  {operation : Operation μ}

theorem advance_asleep (asleep : record.queue.Asleep thread) :
    (program checker).advance thread record operation (.locks pick) =
      (record, some operation) := if_pos asleep

theorem advance_locks (awake : ¬ record.queue.Asleep thread) :
    (program checker).advance thread record operation (.locks pick) =
      record.locked checker thread pick operation := if_neg awake

end

/-- What happens next in a queue. -/
abbrev Choice (ι μ : Type) := Interleaving.Choice ι (Call μ) Input

/-- The queue and the threads at it. -/
abbrev Threads (ι μ : Type) := Interleaving.Threads ι (Record ι μ) (Operation μ)

/-- A new queue, and nobody at it. -/
def start (capacity : UInt32) : Threads ι μ := Interleaving.Threads.idle (Record.new capacity)

end MessageQueue

end Cube.Eco.Thread
