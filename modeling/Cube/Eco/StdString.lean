import Cube.Lib.Outcome
import Cube.Eco.FixBuffer

/-! # Sizes and characters of a `std::string`

A `size_t` has `width` bits. The terminator of a text can be read, nothing behind it.
-/

namespace Cube.Eco

/-- `std::string::npos`. -/
def npos (width : Nat) : Nat := 2 ^ width - 1

/-- The difference of two sizes. -/
def sizeSub (width a b : Nat) : Nat := if b ≤ a then a - b else a + 2 ^ width - b

/-- `strncmp(s, t, n) == 0`. -/
def strncmpZero : CString → CString → Nat → Bool
  | _, _, 0 => true
  | s, t, n + 1 =>
      s.headD nul == t.headD nul && (s.headD nul == nul || strncmpZero s.tail t.tail n)

/-- `content[i]` of a constant text. -/
def strAt {ε : Type} (content : CString) (i : Nat) : Outcome ε Char :=
  if h : i < content.length then .ok content[i]
  else if i = content.length then .ok nul
  else .fault

theorem sizeSub_of_le {width a b : Nat} (le : b ≤ a) : sizeSub width a b = a - b := if_pos le

variable {ε : Type} {content : CString}

theorem strAt_of_lt {i : Nat} (inside : i < content.length) :
    (strAt content i : Outcome ε Char) = .ok content[i] := dif_pos inside

theorem strAt_returns {i : Nat} (inside : i ≤ content.length) :
    ∃ c, (strAt content i : Outcome ε Char) = .ok c := by
  rcases Nat.lt_or_eq_of_le inside with small | rfl
  · exact ⟨_, strAt_of_lt small⟩
  · exact ⟨nul, by rw [strAt, dif_neg (Nat.lt_irrefl _), if_pos rfl]⟩

/-- A character that is not the terminator is one of the text. -/
theorem getElem?_of_strAt {i : Nat} {c : Char}
    (read : (strAt content i : Outcome ε Char) = .ok c) (visible : c ≠ nul) :
    content[i]? = some c := by
  rw [strAt] at read
  split at read
  · next inside =>
      cases read
      exact List.getElem?_eq_getElem inside
  · split at read
    · cases read
      exact absurd rfl visible
    · cases read

end Cube.Eco
