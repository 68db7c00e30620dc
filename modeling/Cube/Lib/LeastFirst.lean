import Mathlib.Algebra.Order.Group.Nat
import Mathlib.Data.List.Basic
import Mathlib.Data.Nat.Init

/-! # The first of the least

A scan over a list that remembers the least value so far, and replaces it only by a smaller one,
ends at the first position where the least value of the list stands.
-/

section LeastFirst

variable {β : Type} [LE β] [LT β]

/-- The position and the value of the least so far, where the rest of the list begins at `pos`. -/
def scanLeast [DecidableLT β] : List β → Nat → Nat × β → Nat × β
  | [], _, best => best
  | value :: values, pos, best =>
      scanLeast values (pos + 1) (if value < best.2 then (pos, value) else best)

/-- The least value of a list and the first position where it stands. -/
structure LeastFirst (values : List β) (best : Nat × β) : Prop where
  stands : values[best.1]? = some best.2
  least : ∀ (pos : Nat) value, values[pos]? = some value → best.2 ≤ value
  first : ∀ (pos : Nat) value, pos < best.1 → values[pos]? = some value → best.2 < value

variable [Std.IsLinearOrder β]

theorem LeastFirst.singleton (value : β) : LeastFirst [value] (0, value) where
  stands := rfl
  least pos other found := by
    cases pos with
    | zero =>
        cases found
        exact Std.le_refl value
    | succ pos => cases found
  first pos other before := (Nat.not_lt_zero pos before).elim

variable [Std.LawfulOrderLT β]

/-- There is one first position of the least value. -/
theorem LeastFirst.pos_eq {values : List β} {best other : Nat × β}
    (leastFirst : LeastFirst values best) (also : LeastFirst values other) : best.1 = other.1 := by
  rcases Nat.lt_trichotomy best.1 other.1 with before | same | after
  · have smaller := also.first best.1 best.2 before leastFirst.stands
    exact (Std.not_lt.mpr (leastFirst.least other.1 other.2 also.stands) smaller).elim
  · exact same
  · have smaller := leastFirst.first other.1 other.2 after also.stands
    exact (Std.not_lt.mpr (also.least best.1 best.2 leastFirst.stands) smaller).elim

variable [DecidableLT β]

/-- One step of the scan. -/
theorem LeastFirst.concat {values : List β} {best : Nat × β} (leastFirst : LeastFirst values best)
    (value : β) :
    LeastFirst (values ++ [value]) (if value < best.2 then (values.length, value) else best) := by
  have inside : best.1 < values.length := (List.getElem?_eq_some_iff.mp leastFirst.stands).1
  have cases_found {pos : Nat} {other : β} (found : (values ++ [value])[pos]? = some other) :
      pos < values.length ∧ values[pos]? = some other ∨ pos = values.length ∧ other = value := by
    rcases Nat.lt_trichotomy pos values.length with before | rfl | after
    · rw [List.getElem?_append_left before] at found
      exact .inl ⟨before, found⟩
    · rw [List.getElem?_concat_length] at found
      exact .inr ⟨rfl, (Option.some.inj found).symm⟩
    · have short : (values ++ [value]).length ≤ pos := by
        rw [List.length_append]
        exact after
      rw [List.getElem?_eq_none short] at found
      cases found
  split
  next smaller =>
    refine ⟨List.getElem?_concat_length, fun pos other found => ?_, fun pos other before found => ?_⟩
    · rcases cases_found found with ⟨_, earlier⟩ | ⟨_, rfl⟩
      · exact Std.le_of_lt (Std.lt_of_lt_of_le smaller (leastFirst.least pos other earlier))
      · exact Std.le_refl _
    · rcases cases_found found with ⟨_, earlier⟩ | ⟨rfl, _⟩
      · exact Std.lt_of_lt_of_le smaller (leastFirst.least pos other earlier)
      · exact (Nat.lt_irrefl _ before).elim
  next notSmaller =>
    refine ⟨?_, fun pos other found => ?_, fun pos other before found => ?_⟩
    · rw [List.getElem?_append_left inside]
      exact leastFirst.stands
    · rcases cases_found found with ⟨_, earlier⟩ | ⟨_, rfl⟩
      · exact leastFirst.least pos other earlier
      · exact Std.not_lt.mp notSmaller
    · rcases cases_found found with ⟨_, earlier⟩ | ⟨rfl, _⟩
      · exact leastFirst.first pos other before earlier
      · exact (Nat.lt_asymm inside before).elim

theorem scanLeast_append {done : List β} {best : Nat × β} (leastFirst : LeastFirst done best)
    (values : List β) : LeastFirst (done ++ values) (scanLeast values done.length best) := by
  induction values generalizing done best with
  | nil =>
      rw [List.append_nil]
      exact leastFirst
  | cons value values ih =>
      have rest := ih (leastFirst.concat value)
      rw [List.length_append, List.append_assoc] at rest
      exact rest

/-- **The scan.** A scan that begins with the first value finds the first of the least. -/
theorem leastFirst_scanLeast (value : β) (values : List β) :
    LeastFirst (value :: values) (scanLeast (value :: values) 0 (0, value)) := by
  rw [scanLeast, if_neg (Std.lt_irrefl (a := value))]
  exact scanLeast_append (LeastFirst.singleton value) values

end LeastFirst

/-! # Taking turns

If `n` positions take turns, each has its share of `t` turns, and the next turn is that of the
first position with the smallest share.
-/

namespace Rotation

/-- How many of the first `t` turns a position has had. -/
def share (n t pos : Nat) : Nat := t / n + if pos < t % n then 1 else 0

variable {n : Nat}

theorem share_le (n t pos : Nat) : share n t pos ≤ t / n + 1 := by
  unfold share
  split <;> omega

theorem le_share (n t pos : Nat) : t / n ≤ share n t pos := Nat.le_add_right ..

/-- **Fairness.** Shares differ by at most one. -/
theorem share_le_succ (n t first second : Nat) : share n t first ≤ share n t second + 1 :=
  (share_le n t first).trans (Nat.succ_le_succ (le_share n t second))

/-- After whole rounds the shares are the same. -/
theorem share_mul (positive : 0 < n) (rounds pos : Nat) : share n (rounds * n) pos = rounds := by
  rw [share, Nat.mul_div_cancel _ positive, Nat.mul_mod_left, if_neg (Nat.not_lt_zero pos)]
  rfl

theorem div_mod_succ (positive : 0 < n) (t : Nat) :
    (t + 1) / n = (if t % n + 1 = n then t / n + 1 else t / n) ∧
      (t + 1) % n = if t % n + 1 = n then 0 else t % n + 1 := by
  have below : t % n < n := Nat.mod_lt t positive
  have parts : n * (t / n) + t % n = t := Nat.div_add_mod t n
  apply (Nat.div_mod_unique positive).mpr
  split
  next last =>
    refine ⟨?_, positive⟩
    rw [Nat.mul_succ]
    omega
  next => omega

/-- The next turn. -/
theorem share_succ (positive : 0 < n) (t : Nat) {pos : Nat} (inside : pos < n) :
    share n (t + 1) pos = share n t pos + if pos = t % n then 1 else 0 := by
  have below : t % n < n := Nat.mod_lt t positive
  obtain ⟨divided, left⟩ := div_mod_succ positive t
  rw [share, share, divided, left]
  split <;> split <;> split <;> split <;> omega

/-- **The next turn** is that of the first of the smallest shares. -/
theorem share_next_le (n t pos : Nat) : share n t (t % n) ≤ share n t pos := by
  rw [share, if_neg (Nat.lt_irrefl _)]
  exact le_share n t pos

theorem share_next_lt {t pos : Nat} (before : pos < t % n) :
    share n t (t % n) < share n t pos := by
  rw [share, share, if_neg (Nat.lt_irrefl _), if_pos before]
  exact Nat.lt_succ_self _

end Rotation
