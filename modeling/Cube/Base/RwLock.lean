import Cube.Lib.Tally

/-! # The lock for readers and writers

`rwlock` of `lock.cpp`, as it is built on Windows: counters behind a critical section, an
event that readers wait for and a semaphore that writers wait for. The counters are read and
written only inside the critical section, so what a thread does to them between two steps on
the event, the semaphore or the section itself is one step of the model.
-/

namespace Cube.Base

/-- A manual-reset event: once set it lets every thread pass until it is reset. -/
structure Event (ι : Type) where
  signaled : Bool := false
  waiting : List ι := []
  deriving DecidableEq

namespace Event

variable {ι : Type} (event : Event ι)

/-- Setting the event also releases the threads that wait for it. -/
def set : Event ι → Event ι := fun _ => ⟨true, []⟩

def reset : Event ι := { event with signaled := false }

def wait (thread : ι) : Event ι :=
  if event.signaled then event else { event with waiting := event.waiting ++ [thread] }

end Event

/-- The state of an `rwlock`. The two counters of waiting threads are far below the bounds of
a `LONG`, as the number of threads is. -/
structure RwLock (ι : Type) where
  numWritersWaiting : Int := 0
  numReadersWaiting : Int := 0
  activeWriterReaders : UInt32 := 0
  readyToRead : Event ι := {}
  readyToWrite : Nat := 0
  cs : Bool := false
  deriving DecidableEq

/-- The high word of `activeWriterReaders` flags a writer. -/
def hiword (value : UInt32) : UInt32 := value >>> 16

def makelong (low high : UInt32) : UInt32 := low ||| high <<< 16

namespace RwLock

variable {ι : Type}

/-- Where a thread stands that uses the lock: in `lock_read`, holding it to read and in
`unlock_read`, or the same to write. -/
inductive Point where
  /-- In front of the critical section of `lock_read`. -/
  | lockRead
  /-- Counted as waiting, in front of `ResetEvent`. -/
  | resetsEvent
  /-- In front of `LeaveCriticalSection`, to wait afterwards. -/
  | leavesToWait
  /-- In front of `WaitForSingleObject`. -/
  | waitsToRead
  /-- Inside `WaitForSingleObject`, or out of it and in front of the critical section. -/
  | inWaitToRead
  | leavesReading (notifyReaders : Bool)
  | notifiesReading
  | reading
  /-- The last reader, in front of `ResetEvent` in `unlock_read`. -/
  | resetsLast
  | releasesLast
  | leavesUnlockRead
  | lockWrite
  | leavesToWaitWrite
  /-- In front of `WaitForSingleObject` or inside it. -/
  | inWaitToWrite
  | leavesWriting
  | writing
  | leavesUnlockWrite (notifyWriter notifyReaders : Bool)
  | releasesWriter
  | notifiesReaders
  deriving DecidableEq

/-- What a thread uses the lock for; it unlocks what it has locked. -/
inductive Use where
  | read
  | write
  deriving DecidableEq

def Use.point : Use → Point
  | .read => .lockRead
  | .write => .lockWrite

section Operations

variable (lock : RwLock ι)

/-- The test at the head of `lock_read`. -/
def blocksReaders : Bool :=
  decide (lock.numWritersWaiting > 0) || decide (hiword lock.activeWriterReaders > 0)

/-- The test a reader makes that was woken. -/
def admitsReader : Bool :=
  decide (lock.numWritersWaiting = 0) && hiword lock.activeWriterReaders == 0

/-- The first section of `lock_read`. -/
def lockRead : RwLock ι × Point :=
  if lock.blocksReaders then
    ({ lock with numReadersWaiting := lock.numReadersWaiting + 1 }, .resetsEvent)
  else
    ({ lock with activeWriterReaders := lock.activeWriterReaders + 1 },
      .leavesReading (lock.activeWriterReaders + 1 == 1 && lock.numReadersWaiting != 0))

/-- The section a reader enters when it was woken. -/
def wokenRead : RwLock ι × Point :=
  if lock.admitsReader then
    ({ lock with
      numReadersWaiting := lock.numReadersWaiting - 1
      activeWriterReaders := lock.activeWriterReaders + 1 }, .leavesReading false)
  else (lock, .resetsEvent)

/-- The section of `unlock_read` up to the `ResetEvent` of the last reader. -/
def unlockRead : RwLock ι × Point :=
  ({ lock with activeWriterReaders := lock.activeWriterReaders - 1 },
    if lock.activeWriterReaders - 1 == 0 then .resetsLast else .leavesUnlockRead)

/-- The last reader resets the event and hands the lock over to a waiting writer. -/
def resetLast : RwLock ι × Point :=
  let lock := { lock with readyToRead := lock.readyToRead.reset }
  if lock.numWritersWaiting ≠ 0 ∧ lock.activeWriterReaders = 0 then
    ({ lock with
      numWritersWaiting := lock.numWritersWaiting - 1
      activeWriterReaders := makelong 0 1 }, .releasesLast)
  else (lock, .leavesUnlockRead)

def lockWrite : RwLock ι × Point :=
  if lock.activeWriterReaders ≠ 0 then
    ({ lock with numWritersWaiting := lock.numWritersWaiting + 1 }, .leavesToWaitWrite)
  else ({ lock with activeWriterReaders := makelong 0 1 }, .leavesWriting)

def unlockWrite : RwLock ι × Point :=
  if lock.numWritersWaiting ≠ 0 then
    ({ lock with numWritersWaiting := lock.numWritersWaiting - 1 },
      .leavesUnlockWrite true false)
  else
    ({ lock with activeWriterReaders := 0 },
      .leavesUnlockWrite false (lock.numReadersWaiting != 0))

/-- `ReleaseSemaphore` fails on a semaphore that is at its maximum, which is 1. -/
def releaseSemaphore : RwLock ι :=
  if lock.readyToWrite < 1 then { lock with readyToWrite := lock.readyToWrite + 1 } else lock

/-- A thread enters the critical section when nobody is inside. -/
def enter (point : Point) (body : RwLock ι → RwLock ι × Point) : RwLock ι × Option Point :=
  if lock.cs then (lock, some point)
  else ((body { lock with cs := true }).1, some (body { lock with cs := true }).2)

def leave (next : Option Point) : RwLock ι × Option Point := ({ lock with cs := false }, next)

/-- Where a writer goes on that has left the section of `unlock_write`. -/
def afterUnlockWrite (notifyWriter notifyReaders : Bool) : Option Point :=
  if notifyWriter then some .releasesWriter
  else if notifyReaders then some .notifiesReaders
  else none

/-- One step of a thread. -/
def advance [DecidableEq ι] (thread : ι) : Point → RwLock ι × Option Point
  | .lockRead => lock.enter .lockRead lockRead
  | .resetsEvent =>
      ({ lock with readyToRead := lock.readyToRead.reset }, some .leavesToWait)
  | .leavesToWait => lock.leave (some .waitsToRead)
  | .waitsToRead =>
      ({ lock with readyToRead := lock.readyToRead.wait thread }, some .inWaitToRead)
  | .inWaitToRead =>
      if thread ∈ lock.readyToRead.waiting then (lock, some .inWaitToRead)
      else lock.enter .inWaitToRead wokenRead
  | .leavesReading notifyReaders =>
      lock.leave (some (if notifyReaders then .notifiesReading else .reading))
  | .notifiesReading => ({ lock with readyToRead := lock.readyToRead.set }, some .reading)
  | .reading => lock.enter .reading unlockRead
  | .resetsLast => (lock.resetLast.1, some lock.resetLast.2)
  | .releasesLast => (lock.releaseSemaphore, some .leavesUnlockRead)
  | .leavesUnlockRead => lock.leave none
  | .lockWrite => lock.enter .lockWrite lockWrite
  | .leavesToWaitWrite => lock.leave (some .inWaitToWrite)
  | .inWaitToWrite =>
      if 0 < lock.readyToWrite then
        ({ lock with readyToWrite := lock.readyToWrite - 1 }, some .writing)
      else (lock, some .inWaitToWrite)
  | .leavesWriting => lock.leave (some .writing)
  | .writing => lock.enter .writing unlockWrite
  | .leavesUnlockWrite notifyWriter notifyReaders =>
      lock.leave (afterUnlockWrite notifyWriter notifyReaders)
  | .releasesWriter => (lock.releaseSemaphore, none)
  | .notifiesReaders => ({ lock with readyToRead := lock.readyToRead.set }, none)

end Operations

/-- Any number of threads that lock and unlock. -/
def program [DecidableEq ι] : Interleaving.Program ι (RwLock ι) Use Point Unit where
  enter _ lock use := (lock, use.point)
  advance thread lock point _ := lock.advance thread point

abbrev Threads (ι : Type) := Interleaving.Threads ι (RwLock ι) Point

abbrev Choice (ι : Type) := Interleaving.Choice ι Use Unit

/-- A lock as its constructor leaves it, and nobody at it. -/
def start : Threads ι := Interleaving.Threads.idle {}

/-! ## What threads stand for -/

namespace Point

/-- Inside the critical section. -/
def inSection : Point → Nat
  | .resetsEvent | .leavesToWait | .leavesReading _ | .resetsLast | .releasesLast
  | .leavesUnlockRead | .leavesToWaitWrite | .leavesWriting | .leavesUnlockWrite _ _ => 1
  | _ => 0

/-- Holding the lock to read. -/
def reads : Point → Nat
  | .leavesReading _ | .notifiesReading | .reading => 1
  | _ => 0

/-- Holding the lock to write. -/
def writes : Point → Nat
  | .leavesWriting | .writing => 1
  | _ => 0

/-- Handing the lock over to a writer, in front of `ReleaseSemaphore`. -/
def hands : Point → Nat
  | .releasesLast | .releasesWriter => 1
  | .leavesUnlockWrite notifyWriter _ => notifyWriter.toNat
  | _ => 0

/-- Counted as a waiting reader. -/
def waitsReading : Point → Nat
  | .resetsEvent | .leavesToWait | .waitsToRead | .inWaitToRead => 1
  | _ => 0

/-- Waiting to write, or woken from that wait. -/
def waitsWriting : Point → Nat
  | .leavesToWaitWrite | .inWaitToWrite => 1
  | _ => 0

end Point

section Tallies

variable [Fintype ι] (threads : Threads ι)

def readers : Nat := threads.tally Point.reads

def writers : Nat := threads.tally Point.writes

/-- The ownerships handed to a writer that has not woken yet: the semaphore says so, or a
thread is about to release it. -/
def handedOver : Nat := threads.shared.readyToWrite + threads.tally Point.hands

end Tallies

end RwLock

end Cube.Base
