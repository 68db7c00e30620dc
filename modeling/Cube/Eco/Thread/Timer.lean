import Cube.Lib.Run

/-! # Timers

`add_timer` arms a wait of a new `deadline_timer` and returns an object that can cancel it. A wait
completes once, when it has expired or when it was aborted, and its handler arms the next wait of a
repeated timer. Every step of the model is a critical section of the service that runs the
handlers, or of the object.
-/

namespace Cube.Eco.Timer

/-- Timers call a closure or start a task. -/
inductive TaskKind where
  | closure
  | task
  deriving DecidableEq, Repr

/-- How a wait stands: its handler is queued once it has expired or was aborted. -/
inductive WaitStatus where
  | waiting
  | expired
  | aborted
  deriving DecidableEq, Repr

/-- A wait of a `deadline_timer`, with what is bound to its handler. `call` is the call of
`add_timer` that the task was given to. -/
structure Wait where
  timer : Nat
  call : Nat
  kind : TaskKind
  millsecs : UInt32
  repeated : Bool
  status : WaitStatus
  deriving DecidableEq, Repr

/-- The object that a call of `add_timer` returned, with its `m_timer`. Of what was asked for and
what was done, `settled` says that the object was cancelled and the completion that was pending has
been processed. -/
structure Call where
  object : Option Nat
  repeated : Bool
  cancelled : Bool
  settled : Bool
  deriving DecidableEq, Repr

/-- A task was invoked, as cancelled or as expired. -/
structure Invocation where
  call : Nat
  isCancel : Bool
  deriving DecidableEq, Repr

structure State where
  nextTimer : Nat
  waits : List Wait
  calls : List Call
  invocations : List Invocation
  deriving DecidableEq, Repr

def start : State := ⟨0, [], [], []⟩

namespace State

/-- A wait for the task of a call is armed. -/
def Armed (s : State) (call : Nat) : Prop := call ∈ s.waits.map Wait.call

instance (s : State) (call : Nat) : Decidable (s.Armed call) :=
  inferInstanceAs (Decidable (_ ∈ _))

/-- `add_closure_timer` and `add_task_timer`, up to the object. -/
def arm (s : State) (call : Nat) (kind : TaskKind) (millsecs : UInt32) (repeated : Bool) : State :=
  { s with
    nextTimer := s.nextTimer + 1
    waits := s.waits ++ [⟨s.nextTimer, call, kind, millsecs, repeated, .waiting⟩] }

/-- `add_timer`. -/
def addTimer (s : State) (kind : TaskKind) (millsecs : UInt32) (repeated : Bool) : State :=
  let armed := s.arm s.calls.length kind millsecs repeated
  { armed with calls := s.calls ++ [⟨some s.nextTimer, repeated, false, false⟩] }

/-- `deadline_timer::cancel`. -/
def abort (s : State) (timer : Nat) : State :=
  { s with
    waits := s.waits.map fun wait =>
      if wait.timer = timer ∧ wait.status = .waiting then { wait with status := .aborted }
      else wait }

/-- `TimerObject::cancel`. If no completion is pending, none is still to be processed. -/
def cancel (s : State) (call : Nat) : State :=
  match s.calls[call]? with
  | some found =>
      let aborted :=
        match found.object with
        | some timer => s.abort timer
        | none => s
      { aborted with
        calls := s.calls.modify call fun found =>
          { found with cancelled := true, settled := found.settled || !decide (s.Armed call) } }
  | none => s

/-- `TimerObject::release`. -/
def release (s : State) (call : Nat) : State :=
  { s.cancel call with
    calls := (s.cancel call).calls.modify call fun found => { found with object := none } }

/-- The deadline of a wait has come. -/
def expire (s : State) (index : Nat) : State :=
  { s with
    waits := s.waits.modify index fun wait =>
      if wait.status = .waiting then { wait with status := .expired } else wait }

/-- What the handler of a wait invokes: a closure also when it was cancelled. -/
def invoked (wait : Wait) : List Invocation :=
  match wait.kind, wait.status with
  | .closure, .aborted => [⟨wait.call, true⟩]
  | .closure, .expired => [⟨wait.call, false⟩]
  | .task, .expired => [⟨wait.call, false⟩]
  | _, _ => []

/-- A handler that is queued runs: `on_closure_timer` and `on_task_timer`. -/
def complete (s : State) (index : Nat) : State :=
  match s.waits[index]? with
  | some wait =>
      if wait.status = .waiting then s
      else
        let done : State :=
          { s with
            waits := s.waits.eraseIdx index
            invocations := s.invocations ++ invoked wait
            calls := s.calls.modify wait.call fun found =>
              { found with settled := found.settled || found.cancelled } }
        if wait.repeated then done.arm wait.call wait.kind wait.millsecs true else done
  | none => s

end State

inductive Action where
  | addTimer (kind : TaskKind) (millsecs : UInt32) (repeated : Bool)
  | cancel (call : Nat)
  | release (call : Nat)
  | expire (index : Nat)
  | complete (index : Nat)
  deriving DecidableEq, Repr

def step (s : State) : Action → State
  | .addTimer kind millsecs repeated => s.addTimer kind millsecs repeated
  | .cancel call => s.cancel call
  | .release call => s.release call
  | .expire index => s.expire index
  | .complete index => s.complete index

end Cube.Eco.Timer
