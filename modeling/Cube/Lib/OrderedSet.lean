import Mathlib.Data.List.Basic

/-! # Ordered sets

Sets that are walked in the order of their elements: a strictly increasing list, which
insertion and erasure keep.
-/

/-- A set of elements, in increasing order. -/
structure OrderedSet (α : Type) [LT α] where
  toList : List α
  sorted : toList.Pairwise (· < ·)
  deriving Repr

namespace OrderedSet

variable {α : Type} [LT α]

instance : Membership α (OrderedSet α) := ⟨fun set value => value ∈ set.toList⟩

theorem mem_toList {set : OrderedSet α} {value : α} : value ∈ set.toList ↔ value ∈ set := Iff.rfl

/-- The set without elements. -/
def empty : OrderedSet α := ⟨[], .nil⟩

@[simp] theorem not_mem_empty (value : α) : value ∉ (empty : OrderedSet α) := List.not_mem_nil

section Erase

variable [DecidableEq α]

instance (value : α) (set : OrderedSet α) : Decidable (value ∈ set) :=
  inferInstanceAs (Decidable (value ∈ set.toList))

/-- Erase an element. -/
def erase (set : OrderedSet α) (value : α) : OrderedSet α :=
  ⟨set.toList.filter (· ≠ value), set.sorted.filter _⟩

@[simp] theorem mem_erase {set : OrderedSet α} {value other : α} :
    other ∈ set.erase value ↔ other ∈ set ∧ other ≠ value := by
  rw [← mem_toList, erase, List.mem_filter, decide_eq_true_eq]
  rfl

end Erase

variable [LE α] [Std.LawfulOrderLT α]

theorem nodup (set : OrderedSet α) : set.toList.Nodup := by
  refine set.sorted.imp fun less same => ?_
  subst same
  exact Std.lt_irrefl less

variable [Std.IsLinearOrder α] [DecidableLT α]

/-- Insert an element where it belongs, unless it is there. -/
def insertList (value : α) : List α → List α
  | [] => [value]
  | first :: rest =>
      if value < first then value :: first :: rest
      else if first < value then first :: insertList value rest
      else first :: rest

theorem mem_insertList {value other : α} {list : List α} :
    other ∈ insertList value list ↔ other = value ∨ other ∈ list := by
  induction list with
  | nil => exact List.mem_singleton.trans (or_iff_left List.not_mem_nil).symm
  | cons first rest ih =>
      rw [insertList]
      split
      · exact List.mem_cons
      · split
        · rw [List.mem_cons, ih, List.mem_cons]
          exact or_left_comm
        next notBelow notAbove =>
          have same : value = first :=
            Std.le_antisymm (Std.not_lt.mp notAbove) (Std.not_lt.mp notBelow)
          rw [same, List.mem_cons, ← or_assoc, or_self]

theorem sorted_insertList {list : List α} (sorted : list.Pairwise (· < ·)) (value : α) :
    (insertList value list).Pairwise (· < ·) := by
  induction list with
  | nil => exact List.pairwise_singleton _ _
  | cons first rest ih =>
      obtain ⟨least, restSorted⟩ := List.pairwise_cons.mp sorted
      rw [insertList]
      split
      next below =>
        refine List.pairwise_cons.mpr ⟨fun other member => ?_, sorted⟩
        rcases List.mem_cons.mp member with rfl | later
        · exact below
        · exact Std.lt_trans below (least other later)
      · split
        next above =>
          refine List.pairwise_cons.mpr ⟨fun other member => ?_, ih restSorted⟩
          rcases mem_insertList.mp member with rfl | later
          · exact above
          · exact least other later
        · exact sorted

/-- Insert an element. -/
def insert (set : OrderedSet α) (value : α) : OrderedSet α :=
  ⟨insertList value set.toList, sorted_insertList set.sorted value⟩

@[simp] theorem mem_insert {set : OrderedSet α} {value other : α} :
    other ∈ set.insert value ↔ other = value ∨ other ∈ set := mem_insertList

end OrderedSet
