import Mathlib.Data.List.Basic

/-! # Lists with a saved cursor

A list is walked by a cursor that stays where it is between the steps, while items are appended and
erased. The end of the list, where the cursor stands after a walk, is also where it stands before
the first item. Every such list has a part that the cursor has passed and a part that is still ahead
of it, and the operations are those of the two parts.
-/

/-- The items, and where the cursor is; nowhere is the end. -/
structure CursorList (α : Type) where
  items : List α
  cursor : Option Nat
  deriving DecidableEq

namespace CursorList

variable {α : Type}

/-- The item at the cursor. -/
def current (list : CursorList α) : Option α := list.cursor.bind fun index => list.items[index]?

/-- The cursor goes to the next item, and from the end to the first one. -/
def next (list : CursorList α) : CursorList α :=
  { list with
    cursor :=
      match list.cursor with
      | none => if list.items.isEmpty then none else some 0
      | some index => if index + 1 < list.items.length then some (index + 1) else none }

def append (list : CursorList α) (item : α) : CursorList α :=
  { list with items := list.items ++ [item] }

/-- The first of the same items is erased. A cursor that was there goes to the item before, or to
the end if there is none. -/
def erase [DecidableEq α] (list : CursorList α) (item : α) : CursorList α :=
  if item ∈ list.items then
    let place := list.items.idxOf item
    { items := list.items.eraseIdx place
      cursor :=
        match list.cursor with
        | none => none
        | some index =>
            if index = place then (if place = 0 then none else some (place - 1))
            else if place < index then some (index - 1) else some index }
  else list

/-- The items that the cursor has not passed. -/
def ahead (list : CursorList α) : List α :=
  match list.cursor with
  | none => list.items
  | some index => list.items.drop (index + 1)

/-- The cursor behind so many items. -/
def cursorBehind : Nat → Option Nat
  | 0 => none
  | count + 1 => some count

/-- The list of the items that the cursor has passed and of those that are ahead of it. -/
def ofParts (behind ahead : List α) : CursorList α := ⟨behind ++ ahead, cursorBehind behind.length⟩

variable (behind rest : List α)

@[simp] theorem items_ofParts : (ofParts behind rest).items = behind ++ rest := rfl

@[simp] theorem ahead_ofParts : (ofParts behind rest).ahead = rest := by
  rw [ahead, ofParts]
  cases length : behind.length with
  | zero => simp [cursorBehind, List.length_eq_zero_iff.mp length]
  | succ count => simp [cursorBehind, ← length]

@[simp] theorem current_ofParts : (ofParts behind rest).current = behind.getLast? := by
  rw [current, ofParts, List.getLast?_eq_getElem?]
  cases length : behind.length with
  | zero => simp [cursorBehind, List.length_eq_zero_iff.mp length]
  | succ count =>
      have inside : count < behind.length := by omega
      simp [cursorBehind, List.getElem?_append_left inside]

/-- With nothing ahead, the cursor goes to the end. -/
theorem next_of_nil : (ofParts behind []).next = ofParts [] behind := by
  rw [next, ofParts, ofParts]
  cases length : behind.length with
  | zero => simp [cursorBehind, List.length_eq_zero_iff.mp length]
  | succ count => simp [cursorBehind, length]

/-- The cursor passes the first item that is ahead of it. -/
theorem next_of_cons (item : α) : (ofParts behind (item :: rest)).next =
    ofParts (behind ++ [item]) rest := by
  rw [next, ofParts, ofParts]
  cases length : behind.length with
  | zero => simp [cursorBehind, List.length_eq_zero_iff.mp length]
  | succ count => simp [cursorBehind, length]

theorem append_ofParts (item : α) : (ofParts behind rest).append item =
    ofParts behind (rest ++ [item]) := by
  simp [append, ofParts]

variable [DecidableEq α] {behind rest} {item : α}

/-- An item is erased that the cursor has passed. -/
theorem erase_of_mem_behind (member : item ∈ behind) :
    (ofParts behind rest).erase item = ofParts (behind.erase item) rest := by
  have place : behind.idxOf item < behind.length := List.idxOf_lt_length_iff.mpr member
  have length := List.length_erase_of_mem member
  have everywhere : item ∈ behind ++ rest := List.mem_append_left _ member
  rw [erase, if_pos (by exact everywhere)]
  have found : (behind ++ rest).idxOf item = behind.idxOf item := List.idxOf_append_of_mem member
  have items : (behind ++ rest).eraseIdx (behind.idxOf item) = behind.erase item ++ rest := by
    rw [← found, List.eraseIdx_idxOf_eq_erase, List.erase_append_left _ member]
  simp only [ofParts, found, items, length, CursorList.mk.injEq, true_and]
  -- The cursor is behind one item less, wherever the item was.
  cases count : behind.length with
  | zero => omega
  | succ index =>
      simp only [cursorBehind, Nat.add_sub_cancel]
      split
      · split
        · rw [show index = 0 by omega]
        · rw [show index = behind.idxOf item - 1 + 1 by omega]
      · rw [if_pos (by omega), show index = index - 1 + 1 by omega]
        rfl

/-- An item is erased that the cursor has not passed. -/
theorem erase_of_not_mem_behind (absent : item ∉ behind) :
    (ofParts behind rest).erase item = ofParts behind (rest.erase item) := by
  by_cases member : item ∈ rest
  · have everywhere : item ∈ behind ++ rest := List.mem_append_right _ member
    rw [erase, if_pos (by exact everywhere)]
    have found : (behind ++ rest).idxOf item = behind.length + rest.idxOf item :=
      List.idxOf_append_of_notMem absent
    have items : (behind ++ rest).eraseIdx (behind.length + rest.idxOf item) =
        behind ++ rest.erase item := by
      rw [← found, List.eraseIdx_idxOf_eq_erase, List.erase_append_right _ absent]
    simp only [ofParts, found, items, CursorList.mk.injEq, true_and]
    cases behind.length with
    | zero => rfl
    | succ index =>
        simp only [cursorBehind]
        rw [if_neg (by omega), if_neg (by omega)]
  · have nowhere : item ∉ behind ++ rest := by simp [absent, member]
    rw [erase, if_neg (by exact nowhere), List.erase_of_not_mem member]

/-- In a list without duplicates, an item is not there any more when it was erased. -/
theorem not_mem_erase {list : CursorList α} (unique : list.items.Nodup) (item : α) :
    item ∉ (list.erase item).items := by
  rw [erase]
  split
  · change item ∉ list.items.eraseIdx (list.items.idxOf item)
    rw [List.eraseIdx_idxOf_eq_erase]
    exact unique.not_mem_erase
  next absent => exact absent

end CursorList
