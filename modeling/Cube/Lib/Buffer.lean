import Cube.Lib.Outcome
import Mathlib.Data.List.Basic

/-! # Bounds-checked access to a buffer

Reads and writes of a contiguous buffer, where an access that is not inside the
buffer faults. Each operation has one law for an access inside a split buffer and
one saying exactly when it is defined.
-/

namespace Buffer

variable {ε α β : Type}

/-- The element at a position. -/
def read (buffer : List α) (pos : Nat) : Outcome ε α :=
  match buffer[pos]? with
  | some value => .ok value
  | none => .fault

/-- The `count` elements from a position on. -/
def slice (buffer : List α) (pos count : Nat) : Outcome ε (List α) :=
  if pos + count ≤ buffer.length then .ok ((buffer.drop pos).take count) else .fault

/-- Overwrite the element at a position. -/
def write (buffer : List α) (pos : Nat) (value : α) : Outcome ε (List α) :=
  if pos < buffer.length then .ok (buffer.set pos value) else .fault

/-- Overwrite the elements from a position on. -/
def patch (buffer : List α) (pos : Nat) (values : List α) : Outcome ε (List α) :=
  if pos + values.length ≤ buffer.length then
    .ok (buffer.take pos ++ values ++ buffer.drop (pos + values.length))
  else .fault

/-- `patch` where the values are known to lie inside. -/
def overwrite (buffer : List α) (pos : Nat) (values : List α) : List α :=
  buffer.take pos ++ values ++ buffer.drop (pos + values.length)

/-- Reading inside the buffer returns its element. -/
theorem read_eq_ok {buffer : List α} {pos : Nat} {value : α} :
    (read buffer pos : Outcome ε α) = .ok value ↔ buffer[pos]? = some value := by
  unfold read
  cases buffer[pos]? with
  | none => simp
  | some found => simp

/-- A read is defined exactly inside the buffer. -/
theorem read_defined {buffer : List α} {pos : Nat} :
    (read buffer pos : Outcome ε α).Defined ↔ pos < buffer.length := by
  by_cases inside : pos < buffer.length
  · have found : (read buffer pos : Outcome ε α) = .ok buffer[pos] :=
      read_eq_ok.mpr (List.getElem?_eq_getElem inside)
    simp only [found, Outcome.defined_ok, inside]
  · have missing : buffer[pos]? = none := List.getElem?_eq_none (Nat.le_of_not_lt inside)
    simp only [read, missing, Outcome.not_defined_fault, inside]

/-- What follows a read is defined when the read is inside and its value is followed so. -/
theorem read_bind_defined {buffer : List α} {pos : Nat} {next : α → Outcome ε β} :
    (read buffer pos >>= next).Defined ↔
      ∃ inside : pos < buffer.length, (next buffer[pos]).Defined := by
  by_cases inside : pos < buffer.length
  · have found : (read buffer pos : Outcome ε α) = .ok buffer[pos] :=
      read_eq_ok.mpr (List.getElem?_eq_getElem inside)
    rw [found, Outcome.ok_bind]
    exact ⟨fun defined => ⟨inside, defined⟩, fun defined => defined.2⟩
  · refine iff_of_false (fun defined => ?_) fun defined => inside defined.1
    exact inside (read_defined.mp (Outcome.defined_bind.mp defined).1)

/-- Reading just after a known prefix. -/
theorem read_append (front back : List α) (value : α) :
    (read (front ++ value :: back) front.length : Outcome ε α) = .ok value :=
  read_eq_ok.mpr (by simp)

/-- Reading the element that follows a known prefix, at a position given otherwise. -/
theorem read_append_at {front back : List α} {value : α} {pos : Nat}
    (at_front : pos = front.length) :
    (read (front ++ value :: back) pos : Outcome ε α) = .ok value :=
  at_front ▸ read_append front back value

/-- A slice is returned exactly when it lies inside the buffer. -/
theorem slice_eq_ok {buffer part : List α} {pos count : Nat} :
    (slice buffer pos count : Outcome ε (List α)) = .ok part ↔
      pos + count ≤ buffer.length ∧ (buffer.drop pos).take count = part := by
  unfold slice
  by_cases inside : pos + count ≤ buffer.length
  · simp only [inside, ↓reduceIte, Outcome.ok.injEq, true_and]
  · simp only [inside, ↓reduceIte, reduceCtorEq, false_and]

/-- A slice inside the buffer is returned. -/
theorem slice_of_le {buffer : List α} {pos count : Nat} (inside : pos + count ≤ buffer.length) :
    ∃ part, (slice buffer pos count : Outcome ε (List α)) = .ok part :=
  ⟨_, slice_eq_ok.mpr ⟨inside, rfl⟩⟩

/-- What follows a slice is defined when the slice is inside and its part is followed so. -/
theorem slice_bind_defined {buffer : List α} {pos count : Nat} {next : List α → Outcome ε β} :
    (slice buffer pos count >>= next).Defined ↔
      pos + count ≤ buffer.length ∧ (next ((buffer.drop pos).take count)).Defined := by
  unfold slice
  by_cases inside : pos + count ≤ buffer.length
  · simp only [inside, ↓reduceIte, Outcome.ok_bind, true_and]
  · simp only [inside, ↓reduceIte, Outcome.fault_bind, Outcome.not_defined_fault, false_and]

/-- A slice that is returned has the length asked for. -/
theorem length_of_slice {buffer part : List α} {pos count : Nat}
    (sliced : (slice buffer pos count : Outcome ε (List α)) = .ok part) : part.length = count := by
  obtain ⟨inside, rfl⟩ := slice_eq_ok.mp sliced
  simp only [List.length_take, List.length_drop]
  omega

/-- A returned slice and what follows it make up the buffer from its position on. -/
theorem drop_of_slice {buffer part : List α} {pos count : Nat}
    (sliced : (slice buffer pos count : Outcome ε (List α)) = .ok part) :
    buffer.drop pos = part ++ buffer.drop (pos + count) := by
  obtain ⟨_, rfl⟩ := slice_eq_ok.mp sliced
  rw [← List.drop_drop, List.take_append_drop]

/-- Reading the element a buffer shows from a position on. -/
theorem read_of_drop {buffer rest : List α} {pos : Nat} {value : α}
    (split : buffer.drop pos = value :: rest) :
    (read buffer pos : Outcome ε α) = .ok value ∧ buffer.drop (pos + 1) = rest := by
  constructor
  · apply read_eq_ok.mpr
    rw [← Nat.add_zero pos, ← List.getElem?_drop, split, List.getElem?_cons_zero]
  · rw [← List.drop_drop, split, List.drop_one, List.tail_cons]

/-- Writing the element that follows a known prefix. -/
theorem write_append {front back : List α} {old value : α} {pos : Nat}
    (at_front : pos = front.length) :
    (write (front ++ old :: back) pos value : Outcome ε (List α)) =
      .ok (front ++ value :: back) := by
  subst at_front
  simp [write]

/-- Overwriting succeeds exactly inside the buffer. -/
theorem patch_eq_ok {buffer values patched : List α} {pos : Nat} :
    (patch buffer pos values : Outcome ε (List α)) = .ok patched ↔
      pos + values.length ≤ buffer.length ∧
        buffer.take pos ++ values ++ buffer.drop (pos + values.length) = patched := by
  unfold patch
  by_cases inside : pos + values.length ≤ buffer.length
  · simp only [inside, ↓reduceIte, Outcome.ok.injEq, true_and]
  · simp only [inside, ↓reduceIte, reduceCtorEq, false_and]

/-- Overwriting the middle of a split buffer. -/
theorem patch_append {front old back values : List α} {pos : Nat}
    (at_front : pos = front.length) (same : old.length = values.length) :
    (patch (front ++ (old ++ back)) pos values : Outcome ε (List α)) =
      .ok (front ++ (values ++ back)) := by
  subst at_front
  have inside : front.length + values.length ≤ (front ++ (old ++ back)).length := by
    simp only [List.length_append]
    omega
  have rest : (front ++ (old ++ back)).drop (front.length + values.length) = back := by
    rw [← List.drop_drop, List.drop_left, ← same, List.drop_left]
  simp only [patch, inside, ↓reduceIte, List.take_left, rest, List.append_assoc]

/-! ## Overwriting inside -/

@[simp] theorem overwrite_nil (buffer : List α) (pos : Nat) : overwrite buffer pos [] = buffer := by
  simp [overwrite]

/-- Overwriting keeps the length. -/
theorem length_overwrite {buffer values : List α} {pos : Nat}
    (inside : pos + values.length ≤ buffer.length) :
    (overwrite buffer pos values).length = buffer.length := by
  simp only [overwrite, List.length_append, List.length_take, List.length_drop]
  omega

/-- Values are overwritten in parts. -/
theorem overwrite_append {buffer : List α} {pos : Nat} (inside : pos ≤ buffer.length)
    (first second : List α) : overwrite buffer pos (first ++ second) =
      overwrite (overwrite buffer pos first) (pos + first.length) second := by
  have front : (overwrite buffer pos first).take (pos + first.length) =
      buffer.take pos ++ first := by
    rw [overwrite, List.take_left' (by simp [List.length_take, Nat.min_eq_left inside])]
  have back : (overwrite buffer pos first).drop (pos + first.length + second.length) =
      buffer.drop (pos + first.length + second.length) := by
    rw [← List.drop_drop, overwrite,
      List.drop_left' (by simp [List.length_take, Nat.min_eq_left inside]), List.drop_drop]
  rw [overwrite.eq_def (overwrite buffer pos first), front, back, overwrite, List.length_append,
    ← Nat.add_assoc]
  simp only [List.append_assoc]

/-- Overwriting a split buffer from its split on. -/
theorem overwrite_left {front old values : List α} {pos : Nat} (at_front : pos = front.length)
    (same : old.length = values.length) : overwrite (front ++ old) pos values = front ++ values := by
  subst at_front
  rw [overwrite, List.take_left, ← List.drop_drop, List.drop_left, ← same, List.drop_length,
    List.append_nil]

end Buffer
