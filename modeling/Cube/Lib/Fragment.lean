import Mathlib.Data.List.Basic

/-! # Cutting contents into pieces and joining them

A content that is larger than a capacity is cut into pieces, which are numbered; the last one says
that no more are coming. A joiner holds the pieces of a content until the last one, but gives a
last piece that has a first number at once, because it takes it for the only one. With numbers that
come again it may be wrong: a content comes out as it was cut exactly when it is one piece, or its
last piece does not have a first number.
-/

namespace Fragment

variable {κ ν α : Type}

structure Piece (κ ν α : Type) where
  label : κ
  number : ν
  more : Bool
  content : List α

/-- What is held, and the contents that were given. -/
structure Joined (κ α : Type) where
  held : List α
  whole : List (κ × List α)

/-- One piece after the other, from an index on. -/
def split (capacity : Nat) (number : Nat → ν) (label : κ) :
    (fuel index : Nat) → List α → List (Piece κ ν α)
  | 0, index, rest => [⟨label, number index, false, rest⟩]
  | fuel + 1, index, rest =>
      if rest.length ≤ capacity then [⟨label, number index, false, rest⟩]
      else ⟨label, number index, true, rest.take capacity⟩ ::
        split capacity number label fuel (index + 1) (rest.drop capacity)

def join (first : ν → Bool) (joined : Joined κ α) (piece : Piece κ ν α) : Joined κ α :=
  if !piece.more && first piece.number then
    { joined with whole := joined.whole ++ [(piece.label, piece.content)] }
  else
    let held := joined.held ++ piece.content
    if piece.more then { joined with held := held }
    else ⟨[], joined.whole ++ [(piece.label, held)]⟩

/-- How many pieces a content of a length is cut into. -/
def pieces (capacity length : Nat) : Nat := (length - 1) / capacity + 1

variable {capacity : Nat} {number : Nat → ν} {label : κ} {first : ν → Bool}

/-- A content that is larger has one piece more than its rest. -/
theorem pieces_of_lt (positive : 0 < capacity) {length : Nat} (large : capacity < length) :
    pieces capacity length = pieces capacity (length - capacity) + 1 := by
  rw [pieces, pieces, show length - 1 = length - capacity - 1 + capacity by omega,
    Nat.add_div_right _ positive]

theorem pieces_of_le {length : Nat} (small : length ≤ capacity) (positive : 0 < capacity) :
    pieces capacity length = 1 := by
  rw [pieces, Nat.div_eq_of_lt (by omega)]

/-- Enough fuel for a content. -/
theorem length_split (positive : 0 < capacity) {fuel index : Nat} {rest : List α}
    (enough : rest.length ≤ fuel) :
    (split capacity number label fuel index rest).length = pieces capacity rest.length := by
  induction fuel generalizing index rest with
  | zero => rw [split, pieces_of_le (by omega) positive, List.length_singleton]
  | succ fuel ih =>
      rw [split]
      by_cases small : rest.length ≤ capacity
      · rw [if_pos small, pieces_of_le small positive, List.length_singleton]
      · rw [if_neg small, List.length_cons, ih (by rw [List.length_drop]; omega), List.length_drop,
          pieces_of_lt positive (Nat.lt_of_not_le small)]

/-- Every piece has the label of the content. -/
theorem label_of_mem_split {fuel index : Nat} {rest : List α} {piece : Piece κ ν α}
    (member : piece ∈ split capacity number label fuel index rest) : piece.label = label := by
  induction fuel generalizing index rest with
  | zero =>
      rw [split, List.mem_singleton] at member
      rw [member]
  | succ fuel ih =>
      rw [split] at member
      by_cases small : rest.length ≤ capacity
      · rw [if_pos small, List.mem_singleton] at member
        rw [member]
      · rw [if_neg small, List.mem_cons] at member
        rcases member with rfl | member
        · rfl
        · exact ih member

/-- The pieces of a content are some that are followed by more, none of them empty, and a last. -/
theorem split_eq (positive : 0 < capacity) (fuel index : Nat) (rest : List α) :
    ∃ (front : List (Piece κ ν α)) (back : List α),
      split capacity number label fuel index rest =
        front ++ [⟨label, number (index + front.length), false, back⟩] ∧
      (∀ piece ∈ front, piece.more = true ∧ piece.content ≠ []) ∧
      (front.map Piece.content).flatten ++ back = rest := by
  induction fuel generalizing index rest with
  | zero => exact ⟨[], rest, rfl, nofun, rfl⟩
  | succ fuel ih =>
      rw [split]
      by_cases small : rest.length ≤ capacity
      · rw [if_pos small]
        exact ⟨[], rest, rfl, nofun, rfl⟩
      · obtain ⟨front, back, same, more, joined⟩ := ih (index + 1) (rest.drop capacity)
        rw [if_neg small, same]
        refine ⟨⟨label, number index, true, rest.take capacity⟩ :: front, back, ?_, ?_, ?_⟩
        · rw [List.length_cons, Nat.add_assoc, Nat.add_comm 1, List.cons_append]
        · intro piece member
          rcases List.mem_cons.mp member with rfl | member
          · refine ⟨rfl, fun empty => ?_⟩
            have length := congrArg List.length empty
            rw [List.length_take, List.length_nil] at length
            omega
          · exact more piece member
        · rw [List.map_cons, List.flatten_cons, List.append_assoc, joined]
          exact List.take_append_drop capacity rest

/-- The pieces make up the content. -/
theorem flatten_split (positive : 0 < capacity) (fuel index : Nat) (rest : List α) :
    ((split capacity number label fuel index rest).map Piece.content).flatten = rest := by
  obtain ⟨front, back, same, _, joined⟩ :=
    @split_eq κ ν α capacity number label positive fuel index rest
  rw [same, List.map_append, List.flatten_append, List.map_singleton, List.flatten_singleton, joined]

/-- What is held grows by no more than a piece. -/
theorem length_held_join_le (joined : Joined κ α) (piece : Piece κ ν α) :
    (join first joined piece).held.length ≤ joined.held.length + piece.content.length := by
  rw [join]
  split
  · exact Nat.le_add_right _ _
  · dsimp only
    split
    · exact Nat.le_of_eq List.length_append
    · exact Nat.zero_le _

/-- Pieces that are followed by more are held. -/
theorem foldl_join_more {front : List (Piece κ ν α)} (more : ∀ piece ∈ front, piece.more = true)
    (held : List α) (whole : List (κ × List α)) :
    front.foldl (join first) ⟨held, whole⟩ =
      ⟨held ++ (front.map Piece.content).flatten, whole⟩ := by
  induction front generalizing held with
  | nil => rw [List.map_nil, List.flatten_nil, List.append_nil, List.foldl_nil]
  | cons piece front ih =>
      have here : join first ⟨held, whole⟩ piece = ⟨held ++ piece.content, whole⟩ := by
        rw [join, more piece List.mem_cons_self]
        rfl
      rw [List.foldl_cons, here, ih fun piece member => more piece (List.mem_cons_of_mem _ member),
        List.map_cons, List.flatten_cons, List.append_assoc]

/-- **A content comes out as it was cut** exactly when it is one piece or its last piece does not
have a first number. -/
theorem join_split_iff (positive : 0 < capacity) {fuel : Nat} {content : List α}
    (enough : content.length ≤ fuel) (whole : List (κ × List α)) :
    (split capacity number label fuel 0 content).foldl (join first) ⟨[], whole⟩ =
        ⟨[], whole ++ [(label, content)]⟩ ↔
      pieces capacity content.length = 1 ∨
        first (number (pieces capacity content.length - 1)) = false := by
  obtain ⟨front, back, same, more, joined⟩ :=
    @split_eq κ ν α capacity number label positive fuel 0 content
  have count : front.length + 1 = pieces capacity content.length := by
    rw [← @length_split κ ν α capacity number label positive fuel 0 content enough, same,
      List.length_append, List.length_singleton]
  rw [same, List.foldl_append, foldl_join_more fun piece member => (more piece member).1,
    List.nil_append, Nat.zero_add, ← count, Nat.add_sub_cancel, ← joined, List.foldl_cons,
    List.foldl_nil, join]
  cases start : first (number front.length) with
  | false => simp
  | true =>
      cases front with
      | nil => simp
      | cons piece front =>
          have filled := (more piece List.mem_cons_self).2
          simp [filled]

end Fragment
