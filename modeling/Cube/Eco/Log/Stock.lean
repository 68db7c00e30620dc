import Cube.Eco.Log.Queue

/-! # The packs of a log queue by their addresses

The queue and the thread that logs own packs, and hand them on by pointers. Each operation is that
of the queue, in which packs have no addresses.
-/

namespace Cube.Eco.Log

open Thread (AtomicState ConditionVariable Section)

/-- A pointer to a pack, and the pack. -/
structure PackPtr where
  address : Nat
  pack : Pack

/-- A log queue, and the pack in the hand of the thread that pops. A pack that is allocated gets an
address that no pack had before. -/
structure Stock (ι : Type) where
  avail : List PackPtr
  logging : List PackPtr
  hand : Option PackPtr
  allocated : Nat
  curSize : UInt32
  capacity : UInt32
  availCondVar : ConditionVariable ι
  loggingCondVar : ConditionVariable ι
  state : AtomicState

namespace Stock

variable {ι : Type}

section Operations

variable (stock : Stock ι)

def new (capacity : UInt32) : Stock ι :=
  ⟨[], [], none, 0, 0, capacity, {}, {}, AtomicState.none.ok⟩

/-- The queue, without addresses. -/
def queue : Queue ι where
  avail := stock.avail.map PackPtr.pack
  logging := stock.logging.map PackPtr.pack
  curSize := stock.curSize
  capacity := stock.capacity
  availCondVar := stock.availCondVar
  loggingCondVar := stock.loggingCondVar
  state := stock.state

def isClose : Bool := !stock.state.isOk

def getAvail : Option (Stock ι) :=
  if !stock.avail.isEmpty then some stock
  else if stock.curSize + UInt32.ofNat Pack.capacity > stock.capacity then none
  else some { stock with
    avail := stock.avail ++ [⟨stock.allocated, Pack.new⟩]
    allocated := stock.allocated + 1
    curSize := stock.curSize + UInt32.ofNat Pack.capacity }

def moveAvail : Stock ι :=
  match stock.avail.getLast? with
  | some back =>
      if back.pack.size > 0 then
        { stock with avail := stock.avail.dropLast, logging := stock.logging ++ [back] }
      else stock
  | none => stock

/-- The pack leaves the hand. -/
def recycleAvail (ptr : PackPtr) : Stock ι :=
  { stock with
    avail := match stock.avail.getLast? with
      | some back => stock.avail.dropLast ++ [⟨ptr.address, ptr.pack.clear⟩, back]
      | none => [⟨ptr.address, ptr.pack.clear⟩]
    hand := none
    availCondVar := stock.availCondVar.notifyAll }

def notifiesLogging (pick : Nat) : Stock ι :=
  { stock with loggingCondVar := stock.loggingCondVar.notifyOne pick }

def appends (text : Text) (pick : Nat) : Stock ι :=
  match stock.avail.getLast? with
  | some back =>
      let pack :=
        if stock.isClose then back.pack.append text else (back.pack.append text).records text
      let stock := { stock with avail := stock.avail.dropLast ++ [⟨back.address, pack⟩] }
      if pack.isFull then stock.moveAvail.notifiesLogging pick else stock
  | none => stock

def takesPack (thread : ι) (text : Text) (pick : Nat) : Stock ι :=
  match stock.getAvail with
  | none => { stock with availCondVar := stock.availCondVar.wait thread }
  | some stock => stock.appends text pick

def post (thread : ι) (text : Text) (pick again : Nat) : Stock ι :=
  let stock := match stock.avail.getLast? with
    | some back =>
        if back.pack.avail < text.length then stock.moveAvail.notifiesLogging pick else stock
    | none => stock
  stock.takesPack thread text again

/-- The first pack for the logging thread comes into its hand. -/
def takesLogging (thread : ι) : Stock ι :=
  match stock.logging with
  | [] =>
      if stock.isClose then stock
      else { stock with loggingCondVar := stock.loggingCondVar.wait thread }
  | ptr :: logging => { stock with logging := logging, hand := some ptr }

def pop (thread : ι) : Stock ι :=
  match stock.hand with
  | some ptr => (stock.recycleAvail ptr).takesLogging thread
  | none => stock.takesLogging thread

def popAgain (thread : ι) (timedOut : Bool) : Stock ι :=
  (if timedOut then stock.moveAvail else stock).takesLogging thread

end Operations

/-- Which critical section comes next: a post up to its first wait, or after a wait; a pop up to its
first wait, or after a wait, when the hand is empty; or the queue is closed. -/
inductive Turn (ι : Type) where
  | post (thread : ι) (text : Text) (pick again : Nat)
  | postAgain (thread : ι) (text : Text) (pick : Nat)
  | pop (thread : ι)
  | popAgain (thread : ι) (timedOut : Bool)
  | close

def step (stock : Stock ι) : Turn ι → Stock ι
  | .post thread text pick again =>
      if text.length > Pack.capacity then stock else stock.post thread text pick again
  | .postAgain thread text pick => stock.takesPack thread text pick
  | .pop thread => stock.pop thread
  | .popAgain thread timedOut =>
      if stock.hand.isSome then stock else stock.popAgain thread timedOut
  | .close => { stock with state := AtomicState.none }

/-! ## Without addresses -/

variable (stock : Stock ι)

theorem queue_getAvail : stock.getAvail.map queue = stock.queue.getAvail := by
  have empty : (!stock.queue.avail.isEmpty) = !stock.avail.isEmpty := congrArg not List.isEmpty_map
  rw [getAvail, Queue.getAvail, empty]
  by_cases stocked : (!stock.avail.isEmpty) = true
  · rw [if_pos stocked, if_pos stocked]
    rfl
  · rw [if_neg stocked, if_neg stocked]
    by_cases full : stock.curSize + UInt32.ofNat Pack.capacity > stock.capacity
    · rw [if_pos full]
      exact (if_pos full).symm
    · rw [if_neg full]
      refine Eq.trans ?_ (if_neg full).symm
      simp only [Option.map_some, queue, List.map_append, List.map_cons, List.map_nil]

theorem queue_moveAvail : stock.moveAvail.queue = stock.queue.moveAvail := by
  simp only [moveAvail, Queue.moveAvail, queue, List.getLast?_map]
  cases stock.avail.getLast? with
  | none => rfl
  | some back =>
      simp only [Option.map_some]
      split
      · simp only [List.map_dropLast, List.map_append, List.map_cons, List.map_nil]
      · rfl

theorem queue_recycleAvail (ptr : PackPtr) :
    (stock.recycleAvail ptr).queue = stock.queue.recycleAvail ptr.pack := by
  simp only [recycleAvail, Queue.recycleAvail, queue, List.getLast?_map]
  cases stock.avail.getLast? with
  | none => rfl
  | some back =>
      simp only [Option.map_some, List.map_dropLast, List.map_append, List.map_cons, List.map_nil]

theorem queue_notifiesLogging (pick : Nat) :
    (stock.notifiesLogging pick).queue = stock.queue.notifiesLogging pick := rfl

theorem queue_appends (text : Text) (pick : Nat) :
    (stock.appends text pick).queue = stock.queue.appends text pick := by
  have back : stock.queue.avail.getLast? = stock.avail.getLast?.map PackPtr.pack :=
    List.getLast?_map
  rw [appends, Queue.appends, back]
  cases stock.avail.getLast? with
  | none => rfl
  | some back =>
      have closed : stock.queue.isClose = stock.isClose := rfl
      have avail (pack : Pack) :
          ({ stock with avail := stock.avail.dropLast ++ [⟨back.address, pack⟩] } : Stock ι).queue =
            { stock.queue with avail := stock.queue.avail.dropLast ++ [pack] } := by
        simp only [queue, List.map_dropLast, List.map_append, List.map_cons, List.map_nil]
      simp only [Option.map_some, closed]
      rw [apply_ite queue, queue_notifiesLogging, queue_moveAvail, avail]

theorem queue_takesPack (thread : ι) (text : Text) (pick : Nat) :
    (stock.takesPack thread text pick).queue = (stock.queue.takesPack thread text pick).1 := by
  rw [takesPack, Queue.takesPack, ← queue_getAvail]
  cases stock.getAvail with
  | none => rfl
  | some got => exact queue_appends got text pick

theorem queue_post (thread : ι) (text : Text) (pick again : Nat) :
    (stock.post thread text pick again).queue = (stock.queue.post thread text pick again).1 := by
  have back : stock.queue.avail.getLast? = stock.avail.getLast?.map PackPtr.pack :=
    List.getLast?_map
  rw [post, Queue.post, queue_takesPack, back]
  cases stock.avail.getLast? with
  | none => rfl
  | some back =>
      simp only [Option.map_some]
      rw [apply_ite queue, queue_notifiesLogging, queue_moveAvail]

theorem queue_takesLogging (thread : ι) :
    (stock.takesLogging thread).queue = (stock.queue.takesLogging thread).1 := by
  have closed : stock.queue.isClose = stock.isClose := rfl
  have logging : stock.queue.logging = stock.logging.map PackPtr.pack := rfl
  rw [takesLogging, Queue.takesLogging, closed, logging]
  cases stock.logging with
  | nil =>
      simp only [List.map_nil]
      rw [apply_ite queue, apply_ite Prod.fst]
      rfl
  | cons ptr logging => rfl

theorem queue_pop (thread : ι) :
    (stock.pop thread).queue = (stock.queue.pop thread (stock.hand.map PackPtr.pack)).1 := by
  rw [pop]
  cases stock.hand with
  | none => exact queue_takesLogging stock thread
  | some ptr =>
      rw [queue_takesLogging, queue_recycleAvail]
      rfl

theorem queue_popAgain (thread : ι) (timedOut : Bool) :
    (stock.popAgain thread timedOut).queue = (stock.queue.popAgain thread timedOut).1 := by
  rw [popAgain, queue_takesLogging, Queue.popAgain, apply_ite queue, queue_moveAvail]

/-- What a critical section does to a queue, when the thread that pops has a pack in its hand or
none. -/
def Turn.onQueue (queue : Queue ι) (hand : Option Pack) : Turn ι → Queue ι
  | .post thread text pick again =>
      if text.length > Pack.capacity then queue else (queue.post thread text pick again).1
  | .postAgain thread text pick => (queue.takesPack thread text pick).1
  | .pop thread => (queue.pop thread hand).1
  | .popAgain thread timedOut =>
      if hand.isSome then queue else (queue.popAgain thread timedOut).1
  | .close => { queue with state := AtomicState.none }

/-- **Refinement.** The critical sections are those of the queue. -/
theorem queue_step (turn : Turn ι) :
    (stock.step turn).queue = turn.onQueue stock.queue (stock.hand.map PackPtr.pack) := by
  cases turn with
  | post thread text pick again =>
      rw [step, apply_ite queue, queue_post]
      rfl
  | postAgain thread text pick => exact queue_takesPack stock thread text pick
  | pop thread => exact queue_pop stock thread
  | popAgain thread timedOut =>
      rw [step, apply_ite queue, queue_popAgain, Turn.onQueue, Option.isSome_map]
  | close => rfl

end Stock

end Cube.Eco.Log
