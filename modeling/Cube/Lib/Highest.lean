import Mathlib.Data.List.MinMax
import Mathlib.Order.Nat

/-! # The highest mark

Work that is done in ascending order and marked as it is done needs no other record: what is
above the highest mark is what is left.
-/

section Highest

variable {α : Type*} [LinearOrder α] [OrderBot α]

/-- The highest of the marks; the least value where there is none. -/
def highest (marks : List α) : α := marks.foldr max ⊥

theorem le_highest {marks : List α} {mark : α} (member : mark ∈ marks) : mark ≤ highest marks :=
  List.le_max_of_le member le_rfl

theorem highest_append (first second : List α) :
    highest (first ++ second) = max (highest first) (highest second) := by
  induction first with
  | nil => exact (max_eq_right bot_le).symm
  | cons mark first ih =>
      change max mark (highest (first ++ second)) = max (max mark (highest first)) _
      rw [ih, max_assoc]

theorem highest_singleton (mark : α) : highest [mark] = mark := max_eq_left bot_le

/-- What is above every mark is above the highest. -/
theorem highest_lt {marks : List α} {bound : α} (above : ⊥ < bound)
    (each : ∀ mark ∈ marks, mark < bound) : highest marks < bound := by
  induction marks with
  | nil => exact above
  | cons mark marks ih =>
      exact max_lt (each mark List.mem_cons_self)
        (ih fun mark member => each mark (List.mem_cons_of_mem _ member))

/-- What is left of ascending work is above all marks. -/
theorem highest_lt_of_left {before done left : List α}
    (ascending : (done ++ left).Pairwise (· < ·)) (above : ∀ mark ∈ left, highest before < mark)
    {mark : α} (member : mark ∈ left) : highest (before ++ done) < mark := by
  rw [highest_append]
  exact max_lt (above mark member) (highest_lt (lt_of_le_of_lt bot_le (above mark member))
    fun earlier present => (List.pairwise_append.mp ascending).2.2 earlier present mark member)

/-- **Resuming.** What is above the highest mark is what is left. -/
theorem filter_highest {work before done left : List α}
    (split : work.filter (highest before < ·) = done ++ left)
    (ascending : (done ++ left).Pairwise (· < ·)) :
    work.filter (highest (before ++ done) < ·) = left := by
  have above : ∀ mark ∈ done ++ left, highest before < mark := by
    intro mark member
    rw [← split] at member
    exact of_decide_eq_true (List.mem_filter.mp member).2
  have narrower : work.filter (highest (before ++ done) < ·) =
      (work.filter (highest before < ·)).filter (highest (before ++ done) < ·) := by
    rw [List.filter_filter]
    refine List.filter_congr fun mark _ => ?_
    rw [Bool.eq_iff_iff, Bool.and_eq_true, decide_eq_true_iff, decide_eq_true_iff,
      iff_self_and, highest_append]
    exact fun marked => lt_of_le_of_lt (le_max_left _ _) marked
  rw [narrower, split, List.filter_append]
  have none : done.filter (highest (before ++ done) < ·) = [] := by
    refine List.filter_eq_nil_iff.mpr fun mark member marked => ?_
    exact absurd (of_decide_eq_true marked)
      (not_lt.mpr (le_highest (List.mem_append_right before member)))
  have all : left.filter (highest (before ++ done) < ·) = left := by
    refine List.filter_eq_self.mpr fun mark member => decide_eq_true ?_
    exact highest_lt_of_left ascending
      (fun mark member => above mark (List.mem_append_right done member)) member
  rw [none, all, List.nil_append]

end Highest
