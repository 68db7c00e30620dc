import Mathlib.Order.Notation
import Mathlib.Tactic.Attr.Core

/-! # Outcomes of code with checked errors and undefined behaviour

A call either returns a value, rejects its input with a reported error, or leaves
the defined behaviour of its language: an access outside a buffer, a null
pointer, an allocation that cannot hold its content. The last case carries no
value, because nothing can be said about a program that has reached it.
-/

/-- The result of a call that may reject its input or lose its footing. -/
inductive Outcome (ε : Type) (α : Type) where
  | ok (value : α)
  | reject (error : ε)
  | fault
  deriving DecidableEq, Repr

namespace Outcome

variable {ε α β γ : Type}

/-- Run the continuation on a returned value; errors and faults propagate. -/
protected def bind (first : Outcome ε α) (next : α → Outcome ε β) : Outcome ε β :=
  match first with
  | .ok value => next value
  | .reject error => .reject error
  | .fault => .fault

instance : Monad (Outcome ε) where
  pure := .ok
  bind := Outcome.bind

@[simp] theorem pure_eq (value : α) : (pure value : Outcome ε α) = .ok value := rfl

@[simp] theorem ok_bind (value : α) (next : α → Outcome ε β) :
    (Outcome.ok value >>= next) = next value := rfl

@[simp] theorem reject_bind (error : ε) (next : α → Outcome ε β) :
    (Outcome.reject error >>= next) = .reject error := rfl

@[simp] theorem fault_bind (next : α → Outcome ε β) :
    ((Outcome.fault : Outcome ε α) >>= next) = .fault := rfl

theorem bind_assoc (first : Outcome ε α) (second : α → Outcome ε β) (third : β → Outcome ε γ) :
    (first >>= second >>= third) = (first >>= fun value => second value >>= third) := by
  cases first with
  | ok value => rfl
  | reject error => rfl
  | fault => rfl

/-- A sequence returns exactly when both of its parts return. -/
theorem bind_eq_ok {first : Outcome ε α} {next : α → Outcome ε β} {result : β} :
    (first >>= next) = .ok result ↔ ∃ value, first = .ok value ∧ next value = .ok result := by
  cases first with
  | ok value =>
      constructor
      · intro returned
        exact ⟨value, rfl, returned⟩
      · rintro ⟨_, ⟨⟩, returned⟩
        exact returned
  | reject error => simp
  | fault => simp

/-- The same call with its errors under other names. -/
def mapReject {ε' : Type} (rename : ε → ε') : Outcome ε α → Outcome ε' α
  | .ok value => .ok value
  | .reject error => .reject (rename error)
  | .fault => .fault

/-- The call stays inside the defined behaviour of its language. -/
def Defined (outcome : Outcome ε α) : Prop := outcome ≠ .fault

instance [DecidableEq ε] [DecidableEq α] (outcome : Outcome ε α) : Decidable outcome.Defined :=
  inferInstanceAs (Decidable (outcome ≠ .fault))

@[simp] theorem defined_ok (value : α) : (Outcome.ok value : Outcome ε α).Defined := nofun

@[simp] theorem defined_reject (error : ε) : (Outcome.reject error : Outcome ε α).Defined := nofun

@[simp] theorem not_defined_fault : ¬ (Outcome.fault : Outcome ε α).Defined :=
  fun defined => defined rfl

/-- A call that cannot be rejected returns exactly when it is defined. -/
theorem defined_iff_ok {outcome : Outcome Empty α} :
    outcome.Defined ↔ ∃ value, outcome = .ok value := by
  cases outcome with
  | ok value => exact iff_of_true (defined_ok value) ⟨value, rfl⟩
  | reject error => exact error.elim
  | fault => exact iff_of_false not_defined_fault nofun

/-- A sequence is defined when its first part is, and its continuation is on
whatever the first part returned. -/
theorem defined_bind {first : Outcome ε α} {next : α → Outcome ε β} :
    (first >>= next).Defined ↔
      first.Defined ∧ ∀ value, first = .ok value → (next value).Defined := by
  cases first with
  | ok value => simp
  | reject error => simp
  | fault => simp

end Outcome
