import Mathlib.Data.List.Forall2

/-! # Draining an input into messages

A reader looks at the front of an input and either finds a message there, waits for
more input, or stops. Draining repeats it, dropping what each message took. An input
that is a concatenation of frames is drained frame by frame exactly when the reader
finds, at every frame boundary, a message of the size of the frame.
-/

namespace Drain

/-- What a reader finds at the front of its input. -/
inductive Step (ε β : Type) where
  | more
  | stop (reason : ε)
  | item (message : β)
  deriving DecidableEq, Repr

/-- How draining ends: for want of input, or for a reason of the reader. -/
inductive Ending (ε α : Type) where
  | waiting (rest : List α)
  | stopped (reason : ε)
  deriving DecidableEq, Repr

variable {α β γ ε : Type}

/-- Drain an input of messages, each of which takes its size off the front. -/
def drain (next : List α → Step ε β) (size : β → Nat) :
    (fuel : Nat) → List α → List β × Ending ε α
  | 0, input => ([], .waiting input)
  | fuel + 1, input =>
      match next input with
      | .more => ([], .waiting input)
      | .stop reason => ([], .stopped reason)
      | .item message =>
          let rest := drain next size fuel (input.drop (size message))
          (message :: rest.1, rest.2)

variable {next : List α → Step ε β} {size : β → Nat}

theorem drain_more {input : List α} (found : next input = .more) (fuel : Nat) :
    drain next size (fuel + 1) input = ([], .waiting input) := by
  simp only [drain, found]

theorem drain_stop {input : List α} {reason : ε} (found : next input = .stop reason)
    (fuel : Nat) : drain next size (fuel + 1) input = ([], .stopped reason) := by
  simp only [drain, found]

theorem drain_item {input : List α} {message : β} (found : next input = .item message)
    (fuel : Nat) :
    drain next size (fuel + 1) input =
      (message :: (drain next size fuel (input.drop (size message))).1,
        (drain next size fuel (input.drop (size message))).2) := by
  simp only [drain, found]

/-- The reader finds, at every boundary between frames, a message that answers the frame
there. -/
def FoundAtBoundaries (next : List α → Step ε β) (encode : γ → List α)
    (answers : γ → β → Prop) : List γ → Prop
  | [] => True
  | sent :: later =>
      (∃ message, next (encode sent ++ (later.map encode).flatten) = .item message ∧
        answers sent message) ∧ FoundAtBoundaries next encode answers later

/-- When whether a frame is found does not depend on what follows it, the boundaries are
found exactly when every frame is. -/
theorem foundAtBoundaries_iff {encode : γ → List α} {answers : γ → β → Prop} {good : γ → Prop}
    (found : ∀ sent rest,
      (∃ message, next (encode sent ++ rest) = .item message ∧ answers sent message) ↔ good sent)
    (frames : List γ) :
    FoundAtBoundaries next encode answers frames ↔ ∀ sent ∈ frames, good sent := by
  induction frames with
  | nil => exact ⟨fun _ => nofun, fun _ => trivial⟩
  | cons sent later ih =>
      rw [FoundAtBoundaries, found, ih, List.forall_mem_cons]

/-- **Frames drain one by one** exactly when the reader finds each at its boundary. -/
theorem drain_flatten {encode : γ → List α} {answers : γ → β → Prop}
    (starved : next [] = .more)
    (sized : ∀ sent message, answers sent message → size message = (encode sent).length)
    (frames : List γ) {fuel : Nat} (enough : frames.length < fuel) :
    List.Forall₂ answers frames (drain next size fuel (frames.map encode).flatten).1 ↔
      FoundAtBoundaries next encode answers frames := by
  induction frames generalizing fuel with
  | nil =>
      obtain ⟨fuel, rfl⟩ := Nat.exists_eq_succ_of_ne_zero (Nat.ne_of_gt enough)
      rw [List.map_nil, List.flatten_nil, drain_more starved]
      exact ⟨fun _ => trivial, fun _ => .nil⟩
  | cons sent later ih =>
      obtain ⟨fuel, rfl⟩ := Nat.exists_eq_succ_of_ne_zero
        (Nat.ne_of_gt (Nat.lt_of_le_of_lt (Nat.zero_le _) enough))
      have enoughLater : later.length < fuel := Nat.lt_of_succ_lt_succ enough
      rw [List.map_cons, List.flatten_cons]
      cases found : next (encode sent ++ (later.map encode).flatten) with
      | more =>
          rw [drain_more found]
          constructor
          · nofun
          · rintro ⟨⟨message, here, _⟩, _⟩
            cases found.symm.trans here
      | stop reason =>
          rw [drain_stop found]
          constructor
          · nofun
          · rintro ⟨⟨message, here, _⟩, _⟩
            cases found.symm.trans here
      | item message =>
          rw [drain_item found, List.forall₂_cons]
          constructor
          · rintro ⟨answered, others⟩
            rw [sized sent message answered, List.drop_left] at others
            exact ⟨⟨message, found, answered⟩, (ih enoughLater).mp others⟩
          · rintro ⟨⟨_, here, answered⟩, foundLater⟩
            cases found.symm.trans here
            rw [sized sent message answered, List.drop_left]
            exact ⟨answered, (ih enoughLater).mpr foundLater⟩

end Drain
