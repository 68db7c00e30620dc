import Cube.Eco.Thread.MessageQueue
import Cube.Lib.CursorList

/-! # The live timer

`Eco` keeps a list of beings, and a timer lets each of them live when its time has come. Other
threads add and remove beings at the same time; a being that is running is removed only when it has
come to rest. Every step of the model is a critical section, or an atomic step outside of one.
-/

namespace Cube.Eco.LiveTimer

open Thread (AtomicState ConditionVariable)

variable {ι β : Type}

/-- `m_live_ticks` of a being. -/
structure LiveTicks where
  ticks : UInt32
  nonzero : ticks ≠ 0

/-- What `Eco` keeps of its beings: `m_be_list` and `m_cur_it` are a list with a cursor. -/
structure EcoState (ι β : Type) where
  tickCount : UInt32
  beings : CursorList β
  running : AtomicState
  condVar : ConditionVariable ι
  locked : Bool

namespace EcoState

variable (eco : EcoState ι β)

def getCurrentBeing : Option β := eco.beings.current

def getNextBeing : EcoState ι β :=
  { eco with
    beings := eco.beings.next
    running := eco.running.ok }

def addBeing (be : β) : EcoState ι β := { eco with beings := eco.beings.append be }

def isTimeToLive (intervalTick : UInt32) : Bool :=
  eco.tickCount == 0 || eco.tickCount % intervalTick == 0

/-- What `remove_being` waits for the end of. -/
def isRunning [DecidableEq β] (be : β) : Bool :=
  decide (eco.getCurrentBeing = some be) && eco.running.isOk

def eraseBeing [DecidableEq β] (be : β) : EcoState ι β := { eco with beings := eco.beings.erase be }

end EcoState

/-- How `on_live` ends: an exception of the standard library is caught, an `eco::Error` is none. -/
inductive LiveOutcome where
  | returns
  | exception
  | error
  deriving DecidableEq

/-- Where the timer is in `on_live_timer`. It is gone when an exception has left it. -/
inductive TimerPoint (β : Type) where
  | idle
  | gets
  | visits (be : β)
  | lives (be : β) (outcome : LiveOutcome)
  | clears
  | notifies
  | gone
  deriving DecidableEq

namespace TimerPoint

/-- The being that the timer calls. -/
def being : TimerPoint β → Option β
  | .visits be => some be
  | .lives be _ => some be
  | _ => none

def isEnded : TimerPoint β → Bool
  | .idle => true
  | .gone => true
  | _ => false

/-- `on_live` ends with an `eco::Error`. -/
def isError : TimerPoint β → Bool
  | .lives _ .error => true
  | _ => false

end TimerPoint

/-- What happened since the last tick: the beings that were registered then, how many were added,
which ones were removed, which ones were visited, and how many steps the timer has taken. -/
structure Pass (β : Type) where
  beings : List β
  added : Nat
  removed : List β
  visited : List β
  steps : Nat

structure Record (ι β : Type) where
  eco : EcoState ι β
  timer : TimerPoint β
  pass : Pass β

/-- A thread is in one of the functions. -/
inductive Operation (β : Type) where
  | onLiveTimer
  | addBeing (be : β)
  | removeBeing (be : β)
  | waits (be : β)

inductive Call (β : Type) where
  | addBeing (be : β)
  | removeBeing (be : β)

/-- What the program leaves open: how `on_live` ends, which thread is notified, and that a thread
wakes up for no reason. -/
inductive Input where
  | goesOn (outcome : LiveOutcome) (pick : Nat)
  | wakesUp
  deriving DecidableEq

namespace Record

variable (record : Record ι β)

/-- The timer has taken a step of a pass. -/
def goesOn (eco : EcoState ι β) (timer : TimerPoint β) : Record ι β :=
  { eco := eco, timer := timer, pass := { record.pass with steps := record.pass.steps + 1 } }

/-- The timer comes to a being. -/
def visits (eco : EcoState ι β) (be : β) : Record ι β :=
  { eco := eco
    timer := .visits be
    pass := { record.pass with
      steps := record.pass.steps + 1
      visited := record.pass.visited ++ [be] } }

/-- A pass begins. -/
def ticks : Record ι β :=
  { eco := { record.eco with tickCount := record.eco.tickCount + 1 }
    timer := .gets
    pass := ⟨record.eco.beings.items, 0, [], [], 0⟩ }

/-- `on_live_timer`. -/
def onLiveTimer (liveTicks : β → LiveTicks) (outcome : LiveOutcome) (pick : Nat) : Record ι β :=
  match record.timer with
  | .idle => record.ticks
  | .gets =>
      if record.eco.locked then record
      else
        match record.eco.getNextBeing.getCurrentBeing with
        | some be => record.visits record.eco.getNextBeing be
        | none => record.goesOn record.eco.getNextBeing .idle
  | .visits be =>
      record.goesOn record.eco
        (if record.eco.isTimeToLive (liveTicks be).ticks then .lives be outcome else .gets)
  | .lives _ .error => record.goesOn record.eco .gone
  | .lives _ _ => record.goesOn record.eco .clears
  | .clears => record.goesOn { record.eco with running := AtomicState.none } .notifies
  | .notifies =>
      record.goesOn { record.eco with condVar := record.eco.condVar.notifyOne pick } .gets
  | .gone => record

/-- Behind the last being the cursor stands before the first one again, and the pass ends. -/
theorem onLiveTimer_of_last {record : Record ι β} {behind : List β} (timer : record.timer = .gets)
    (free : record.eco.locked = false) (parts : record.eco.beings = .ofParts behind [])
    (liveTicks : β → LiveTicks) (outcome : LiveOutcome) (pick : Nat) :
    record.eco.getNextBeing.beings = .ofParts [] behind ∧
      record.onLiveTimer liveTicks outcome pick = record.goesOn record.eco.getNextBeing .idle := by
  have next : record.eco.getNextBeing.beings = .ofParts [] behind := by
    rw [EcoState.getNextBeing, parts, CursorList.next_of_nil]
  exact ⟨next, by simp [onLiveTimer, timer, free, EcoState.getCurrentBeing, next]⟩

/-- The timer comes to the first being that is ahead of it. -/
theorem onLiveTimer_of_next {record : Record ι β} {behind rest : List β} {be : β}
    (timer : record.timer = .gets) (free : record.eco.locked = false)
    (parts : record.eco.beings = .ofParts behind (be :: rest))
    (liveTicks : β → LiveTicks) (outcome : LiveOutcome) (pick : Nat) :
    record.eco.getNextBeing.beings = .ofParts (behind ++ [be]) rest ∧
      record.onLiveTimer liveTicks outcome pick = record.visits record.eco.getNextBeing be := by
  have next : record.eco.getNextBeing.beings = .ofParts (behind ++ [be]) rest := by
    rw [EcoState.getNextBeing, parts, CursorList.next_of_cons]
  exact ⟨next, by simp [onLiveTimer, timer, free, EcoState.getCurrentBeing, next]⟩

/-- `add_being`. -/
def adds (be : β) : Record ι β :=
  { record with
    eco := record.eco.addBeing be
    pass := { record.pass with added := record.pass.added + 1 } }

/-- `remove_being`, when the being is not running. -/
def removes [DecidableEq β] (be : β) : Record ι β :=
  { record with
    eco := record.eco.eraseBeing be
    pass := { record.pass with removed := record.pass.removed ++ [be] } }

theorem beings_removes_of_behind [DecidableEq β] {record : Record ι β} {behind ahead : List β}
    {be : β} (parts : record.eco.beings = .ofParts behind ahead) (passed : be ∈ behind) :
    (record.removes be).eco.beings = .ofParts (behind.erase be) ahead := by
  rw [removes, EcoState.eraseBeing, parts, CursorList.erase_of_mem_behind passed]

theorem beings_removes_of_ahead [DecidableEq β] {record : Record ι β} {behind ahead : List β}
    {be : β} (parts : record.eco.beings = .ofParts behind ahead) (passed : be ∉ behind) :
    (record.removes be).eco.beings = .ofParts behind (ahead.erase be) := by
  rw [removes, EcoState.eraseBeing, parts, CursorList.erase_of_not_mem_behind passed]

/-- `remove_being` has seen that the being is running, and goes to wait with the mutex. -/
def locks : Record ι β := { record with eco := { record.eco with locked := true } }

/-- A thread waits, and gives the mutex back. -/
def sleeps (thread : ι) : Record ι β :=
  { record with
    eco := { record.eco with condVar := record.eco.condVar.wait thread, locked := false } }

def wakes [DecidableEq ι] (thread : ι) : Record ι β :=
  { record with eco := { record.eco with condVar := record.eco.condVar.wakesUp thread } }

variable [DecidableEq ι] [DecidableEq β]

/-- One step of a thread. A thread that has to wait for the mutex stays where it is. -/
def step (liveTicks : β → LiveTicks) (thread : ι) :
    Operation β → Input → Record ι β × Option (Operation β)
  | .onLiveTimer, .goesOn outcome pick =>
      (record.onLiveTimer liveTicks outcome pick, some .onLiveTimer)
  | .onLiveTimer, .wakesUp => (record, some .onLiveTimer)
  | .addBeing be, _ =>
      if record.eco.locked then (record, some (.addBeing be)) else (record.adds be, none)
  | .removeBeing be, .goesOn _ _ =>
      if thread ∈ record.eco.condVar.sleeping ∨ record.eco.locked = true then
        (record, some (.removeBeing be))
      else if record.eco.isRunning be then (record.locks, some (.waits be))
      else (record.removes be, none)
  | .removeBeing be, .wakesUp => (record.wakes thread, some (.removeBeing be))
  | .waits be, _ => (record.sleeps thread, some (.removeBeing be))

end Record

/-- The thread of the timer, and any number of threads that add and remove beings. -/
def program [DecidableEq ι] [DecidableEq β] (liveTicks : β → LiveTicks) :
    Interleaving.Program ι (Record ι β) (Call β) (Operation β) Input where
  enter _ record call :=
    match call with
    | .addBeing be => (record, .addBeing be)
    | .removeBeing be => (record, .removeBeing be)
  advance thread record operation input := record.step liveTicks thread operation input

/-- What happens next. -/
abbrev Choice (ι β : Type) := Interleaving.Choice ι (Call β) Input

abbrev Threads (ι β : Type) := Interleaving.Threads ι (Record ι β) (Operation β)

/-- The timer waits for its first tick, with some beings registered. -/
def start [DecidableEq ι] (timer : ι) (beings : List β) : Threads ι β where
  shared :=
    { eco := ⟨0, ⟨beings, none⟩, AtomicState.none, {}, false⟩
      timer := .idle
      pass := ⟨[], 0, [], [], 0⟩ }
  running := Function.update (fun _ => none) timer (some .onLiveTimer)

/-- The thread of the timer, and another one. -/
def timerThread : Fin 2 := ⟨0, Nat.two_pos⟩

def otherThread : Fin 2 := ⟨1, Nat.one_lt_two⟩

/-- A being that lives in every tick, and one that lives in every second tick. -/
def LiveTicks.one : LiveTicks := ⟨1, by decide⟩

def LiveTicks.two : LiveTicks := ⟨2, by decide⟩

end Cube.Eco.LiveTimer
