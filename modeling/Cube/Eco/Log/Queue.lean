import Cube.Eco.Thread.MessageQueue

/-! # The log queue

Texts are gathered in packs: posts append to the current pack, the last one of `m_avail`, and
the logging thread pops packs that are full, or partly filled ones once a wait has run out. The
packs it gives back are used again. Every operation but `close` holds the mutex, except while it
sleeps on one of the two condition variables.
-/

namespace Cube.Eco.Log

open Thread (AtomicState ConditionVariable Section)

/-- The bytes of a text. -/
abbrev Text := List UInt8

def packSize : Nat := 8192

def queueSize : UInt32 := 3 * 1024 * 1024

/-- A `FixBuffer<pack_size>`. The texts posted before the log was closed that were appended
since it was cleared are there for the record. -/
structure Pack where
  data : List UInt8
  texts : List Text
  fits : data.length ≤ packSize - 1
  deriving DecidableEq

namespace Pack

/-- The last byte of the buffer ends the string. -/
def capacity : Nat := packSize - 1

def new : Pack := ⟨[], [], Nat.zero_le _⟩

variable (pack : Pack)

def size : Nat := pack.data.length

def avail : Nat := capacity - pack.size

def isFull : Bool := pack.avail == 0

/-- How much of a text is appended. -/
def appendSize (text : Text) : Nat :=
  if pack.avail > text.length then text.length else pack.avail

theorem appendSize_eq (text : Text) : pack.appendSize text = min text.length pack.avail := by
  unfold appendSize
  split <;> omega

/-- What does not fit is left out. -/
def append (text : Text) : Pack where
  data := pack.data ++ text.take (pack.appendSize text)
  texts := pack.texts
  fits := by
    have fits := pack.fits
    rw [List.length_append, List.length_take, appendSize_eq, avail, size, capacity]
    omega

/-- The text stands in the record of the pack. -/
def records (text : Text) : Pack := { pack with texts := pack.texts ++ [text] }

def clear : Pack → Pack := fun _ => new

end Pack

structure Queue (ι : Type) where
  avail : List Pack
  logging : List Pack
  curSize : UInt32
  capacity : UInt32
  availCondVar : ConditionVariable ι
  loggingCondVar : ConditionVariable ι
  state : AtomicState

namespace Queue

variable {ι : Type}

section Operations

variable (queue : Queue ι)

/-- A queue after `set_capacity`. -/
def new (capacity : UInt32) : Queue ι := ⟨[], [], 0, capacity, {}, {}, AtomicState.none.ok⟩

def isOpen : Bool := queue.state.isOk

def isClose : Bool := !queue.isOpen

/-- The queue with a pack to append to, if there is one or one can be allocated. -/
def getAvail : Option (Queue ι) :=
  if !queue.avail.isEmpty then some queue
  else if queue.curSize + UInt32.ofNat Pack.capacity > queue.capacity then none
  else some { queue with
    avail := queue.avail ++ [Pack.new]
    curSize := queue.curSize + UInt32.ofNat Pack.capacity }

/-- The current pack is for the logging thread, unless nothing is in it. -/
def moveAvail : Queue ι :=
  match queue.avail.getLast? with
  | some back =>
      if back.size > 0 then
        { queue with avail := queue.avail.dropLast, logging := queue.logging ++ [back] }
      else queue
  | none => queue

/-- A pack that was logged is inserted before the current one. -/
def recycleAvail (pack : Pack) : Queue ι :=
  { queue with
    avail := match queue.avail.getLast? with
      | some back => queue.avail.dropLast ++ [pack.clear, back]
      | none => [pack.clear]
    availCondVar := queue.availCondVar.notifyAll }

def notifiesLogging (pick : Nat) : Queue ι :=
  { queue with loggingCondVar := queue.loggingCondVar.notifyOne pick }

/-- What a post does once it has a pack. -/
def appends (text : Text) (pick : Nat) : Queue ι :=
  match queue.avail.getLast? with
  | some back =>
      let pack := if queue.isClose then back.append text else (back.append text).records text
      let queue := { queue with avail := queue.avail.dropLast ++ [pack] }
      if pack.isFull then queue.moveAvail.notifiesLogging pick else queue
  | none => queue

/-- One turn of the loop that waits for a pack to append to. -/
def takesPack (thread : ι) (text : Text) (pick : Nat) : Queue ι × Section Unit :=
  match queue.getAvail with
  | none => ({ queue with availCondVar := queue.availCondVar.wait thread }, .waits)
  | some queue => (queue.appends text pick, .returns ())

/-- `post`, up to its first wait. -/
def post (thread : ι) (text : Text) (pick again : Nat) : Queue ι × Section Unit :=
  let queue := match queue.avail.getLast? with
    | some back =>
        if back.avail < text.length then queue.moveAvail.notifiesLogging pick else queue
    | none => queue
  queue.takesPack thread text again

/-- One turn of the loop that waits for a pack to log; no pack means that the queue is closed. -/
def takesLogging (thread : ι) : Queue ι × Section (Option Pack) :=
  match queue.logging with
  | [] =>
      if queue.isClose then (queue, .returns none)
      else ({ queue with loggingCondVar := queue.loggingCondVar.wait thread }, .waits)
  | pack :: logging => ({ queue with logging := logging }, .returns (some pack))

/-- `pop`, up to its first wait, with the pack that is given back. -/
def pop (thread : ι) : Option Pack → Queue ι × Section (Option Pack)
  | some pack => (queue.recycleAvail pack).takesLogging thread
  | none => queue.takesLogging thread

/-- `pop`, after a wait. -/
def popAgain (thread : ι) (timedOut : Bool) : Queue ι × Section (Option Pack) :=
  (if timedOut then queue.moveAvail else queue).takesLogging thread

/-- The thread sleeps in one of the waits. -/
def Asleep (thread : ι) : Prop :=
  thread ∈ queue.availCondVar.sleeping ∨ thread ∈ queue.loggingCondVar.sleeping

instance [DecidableEq ι] (thread : ι) : Decidable (queue.Asleep thread) :=
  inferInstanceAs (Decidable (_ ∨ _))

def wakesUp [DecidableEq ι] (thread : ι) : Queue ι :=
  { queue with
    availCondVar := queue.availCondVar.wakesUp thread
    loggingCondVar := queue.loggingCondVar.wakesUp thread }

end Operations

/-! ## The threads of a log queue -/

/-- The calls a thread can make; `work` is the loop of the logging thread. -/
inductive Call where
  | post (text : Text)
  | work
  | close
  deriving DecidableEq

/-- Where in a call a thread is: before the mutex, with the text it posts or the pack it gives
back, at one of the two waits, or between the steps of `close`. -/
inductive Operation where
  | post (text : Text)
  | waitsAvail (text : Text)
  | pop (pack : Option Pack)
  | waitsLogging
  | notifiesAvail
  | notifiesLogging
  deriving DecidableEq

/-- A thread goes on: the system picks whom its notifications wake up, and whether its wait has
run out; or a thread wakes up, on its own account or because its wait has run out. -/
inductive Input where
  | goesOn (pick again : Nat) (timedOut : Bool)
  | wakesUp
  deriving DecidableEq

/-- The queue, and what happened to it: the texts posted, those of them that were posted before
the queue was closed, the packs popped, whether a text posted before was cut, and whether a
`pop` has reported the end. -/
structure Record (ι : Type) where
  queue : Queue ι
  posted : List Text
  early : List Text
  popped : List Pack
  cut : Bool
  ended : Bool

namespace Record

def new (capacity : UInt32) : Record ι := ⟨Queue.new capacity, [], [], [], false, false⟩

variable (record : Record ι)

/-- A text that is posted before the queue is closed, and does not fit into the current pack. -/
def cuts (text : Text) : Bool :=
  match record.queue.avail.getLast? with
  | some back => record.queue.isOpen && decide (back.avail < text.length)
  | none => false

/-- A post that returns leaves its text in the record. -/
def posts (text : Text) (posted : Queue ι × Section Unit) (cut : Bool) :
    Record ι × Option Operation :=
  match posted.2 with
  | .waits => ({ record with queue := posted.1 }, some (.waitsAvail text))
  | .returns _ =>
      ({ record with
        queue := posted.1
        posted := record.posted ++ [text]
        early := if record.queue.isClose then record.early else record.early ++ [text]
        cut := record.cut || cut }, none)

/-- The logging thread handles the pack it has popped, and gives it back when it pops the next
one. -/
def pops (popped : Queue ι × Section (Option Pack)) : Record ι × Option Operation :=
  match popped.2 with
  | .waits => ({ record with queue := popped.1 }, some .waitsLogging)
  | .returns (some pack) =>
      ({ record with queue := popped.1, popped := record.popped ++ [pack] },
        some (.pop (some pack)))
  | .returns none => ({ record with queue := popped.1, ended := true }, none)

/-- What a thread does that goes on. A text that is larger than a pack is refused. -/
def goesOn (thread : ι) (pick again : Nat) (timedOut : Bool) :
    Operation → Record ι × Option Operation
  | .post text =>
      if text.length > Pack.capacity then (record, none)
      else record.posts text (record.queue.post thread text pick again) false
  | .waitsAvail text =>
      record.posts text (record.queue.takesPack thread text again) (record.cuts text)
  | .pop pack => record.pops (record.queue.pop thread pack)
  | .waitsLogging => record.pops (record.queue.popAgain thread timedOut)
  | .notifiesAvail =>
      ({ record with queue := { record.queue with
          availCondVar := record.queue.availCondVar.notifyAll } }, some .notifiesLogging)
  | .notifiesLogging =>
      ({ record with queue := { record.queue with
          loggingCondVar := record.queue.loggingCondVar.notifyAll } }, none)

end Record

/-- Any number of threads that post, log and close. The first thing that `close` does is to mark
the queue as closed. -/
def program [DecidableEq ι] : Interleaving.Program ι (Record ι) Call Operation Input where
  enter _ record call :=
    match call with
    | .post text => (record, .post text)
    | .work => (record, .pop none)
    | .close =>
        ({ record with queue := { record.queue with state := AtomicState.none } },
          .notifiesAvail)
  advance thread record operation input :=
    match input with
    | .wakesUp => ({ record with queue := record.queue.wakesUp thread }, some operation)
    | .goesOn pick again timedOut =>
        if record.queue.Asleep thread then (record, some operation)
        else record.goesOn thread pick again timedOut operation

/-- What happens next in a log. -/
abbrev Choice (ι : Type) := Interleaving.Choice ι Call Input

/-- The log and the threads at it. -/
abbrev Threads (ι : Type) := Interleaving.Threads ι (Record ι) Operation

/-- A new queue, and nobody at it. -/
def start (capacity : UInt32) : Threads ι := Interleaving.Threads.idle (Record.new capacity)

end Queue

end Cube.Eco.Log
