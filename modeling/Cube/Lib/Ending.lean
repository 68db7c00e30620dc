import Mathlib.Tactic.Attr.Core

/-! # Calls that return or throw

A call ends by returning or by throwing, and in both cases what it has done to the state
stays done: an exception takes nothing back.
-/

/-- How a call ends, with the state it leaves. -/
inductive Ending (σ : Type) where
  | returned (state : σ)
  | thrown (state : σ)
  deriving DecidableEq

namespace Ending

variable {σ : Type}

/-- The state that the call leaves. -/
def state : Ending σ → σ
  | .returned state => state
  | .thrown state => state

/-- The call threw. -/
def threw : Ending σ → Bool
  | .returned _ => false
  | .thrown _ => true

/-- What comes next runs only after a return. -/
def andThen (first : Ending σ) (next : σ → Ending σ) : Ending σ :=
  match first with
  | .returned state => next state
  | .thrown state => .thrown state

/-- An exception is caught and dropped. -/
def caught (first : Ending σ) : Ending σ := .returned first.state

/-- What runs on the way out, however the call ends. -/
def onExit (first : Ending σ) (last : σ → σ) : Ending σ :=
  match first with
  | .returned state => .returned (last state)
  | .thrown state => .thrown (last state)

@[simp] theorem state_returned (state : σ) : (returned state).state = state := rfl

@[simp] theorem state_thrown (state : σ) : (thrown state).state = state := rfl

@[simp] theorem threw_returned (state : σ) : (returned state).threw = false := rfl

@[simp] theorem andThen_returned (state : σ) (next : σ → Ending σ) :
    (returned state).andThen next = next state := rfl

@[simp] theorem andThen_thrown (state : σ) (next : σ → Ending σ) :
    (thrown state).andThen next = thrown state := rfl

@[simp] theorem caught_state (first : Ending σ) : first.caught.state = first.state := rfl

@[simp] theorem onExit_thrown (state : σ) (last : σ → σ) :
    (thrown state).onExit last = thrown (last state) := rfl

theorem eq_returned {ending : Ending σ} (returns : ending.threw = false) :
    ending = .returned ending.state := by
  cases ending with
  | returned state => rfl
  | thrown state => cases returns

theorem eq_thrown {ending : Ending σ} (throws : ending.threw = true) :
    ending = .thrown ending.state := by
  cases ending with
  | returned state => cases throws
  | thrown state => rfl

end Ending
