import Mathlib.Algebra.Order.Group.Nat
import Mathlib.Data.List.Induction
import Mathlib.Tactic.Common

/-! # Decimal digits

Numbers as the bytes of their digits. A text of digits without needless zeros is the one of its
number, and no text of digits is shorter than that.
-/

namespace Decimal

def isDigit (c : UInt8) : Bool := 48 ≤ c && c ≤ 57

/-- The number that digits show. -/
def digitsValue (digits : List UInt8) : Nat :=
  digits.foldl (fun value c => 10 * value + (c.toNat - 48)) 0

/-- The digit of a number below ten. -/
def digit (n : Nat) : UInt8 := UInt8.ofNat (48 + n % 10)

/-- The digits of a number. -/
def decimal (n : Nat) : List UInt8 :=
  if n < 10 then [digit n] else decimal (n / 10) ++ [digit n]

theorem isDigit_iff {c : UInt8} : isDigit c = true ↔ 48 ≤ c.toNat ∧ c.toNat ≤ 57 := by
  simp [isDigit, UInt8.le_iff_toNat_le]

theorem digit_toNat (n : Nat) : (digit n).toNat = 48 + n % 10 := by
  rw [digit, UInt8.toNat_ofNat']
  omega

theorem isDigit_digit (n : Nat) : isDigit (digit n) = true := by
  rw [isDigit_iff, digit_toNat]
  omega

theorem digitsValue_append (digits : List UInt8) (c : UInt8) :
    digitsValue (digits ++ [c]) = 10 * digitsValue digits + (c.toNat - 48) := by
  simp [digitsValue]

theorem digitsValue_lt {digits : List UInt8} (plain : ∀ c ∈ digits, isDigit c = true) :
    digitsValue digits < 10 ^ digits.length := by
  induction digits using List.reverseRecOn with
  | nil => decide
  | append_singleton digits c ih =>
      have last := isDigit_iff.mp (plain c (by simp))
      have before := ih fun d among => plain d (by simp [among])
      rw [digitsValue_append, List.length_append, List.length_singleton, pow_succ]
      omega

/-! ## The digits of a number -/

theorem decimal_ne_nil (n : Nat) : decimal n ≠ [] := by
  rw [decimal]
  split <;> simp

theorem isDigit_decimal (n : Nat) : ∀ c ∈ decimal n, isDigit c = true := by
  induction n using Nat.strong_induction_on with
  | _ n ih =>
      rw [decimal]
      split
      · simp [isDigit_digit]
      · intro c among
        rcases List.mem_append.mp among with front | last
        · exact ih (n / 10) (by omega) c front
        · obtain rfl := List.mem_singleton.mp last
          exact isDigit_digit n

theorem digitsValue_decimal (n : Nat) : digitsValue (decimal n) = n := by
  induction n using Nat.strong_induction_on with
  | _ n ih =>
      rw [decimal]
      split
      · simp only [digitsValue, List.foldl_cons, List.foldl_nil, digit_toNat]
        omega
      · rw [digitsValue_append, ih (n / 10) (by omega), digit_toNat]
        omega

/-- Only the number 0 starts with the digit 0. -/
theorem head_decimal {n : Nat} (zero : (decimal n).head? = some 48) : decimal n = [48] := by
  induction n using Nat.strong_induction_on with
  | _ n ih =>
      rw [decimal] at zero ⊢
      split at zero
      · rename_i small
        have same : digit n = 48 := Option.some.inj zero
        rw [if_pos small, same]
      · rename_i large
        obtain ⟨c, rest, split⟩ := List.exists_cons_of_ne_nil (decimal_ne_nil (n / 10))
        have front : (decimal (n / 10)).head? = some 48 := by
          rw [split] at zero ⊢
          exact zero
        have none := congrArg digitsValue (ih (n / 10) (by omega) front)
        rw [digitsValue_decimal] at none
        have nothing : digitsValue [48] = 0 := by decide
        omega

theorem length_decimal_le_of_lt {n count : Nat} (some : 0 < count) (small : n < 10 ^ count) :
    (decimal n).length ≤ count := by
  induction count generalizing n with
  | zero => exact absurd some (Nat.lt_irrefl 0)
  | succ count ih =>
      rw [decimal]
      split
      · exact Nat.succ_le_succ (Nat.zero_le count)
      · rename_i large
        rw [pow_succ] at small
        have more : 0 < count := by
          by_contra none
          obtain rfl : count = 0 := by omega
          omega
        rw [List.length_append, List.length_singleton]
        exact Nat.succ_le_succ (ih more (by omega))

/-- No text of digits is shorter than the digits of its number. -/
theorem length_decimal_le {digits : List UInt8} (nonempty : digits ≠ [])
    (plain : ∀ c ∈ digits, isDigit c = true) :
    (decimal (digitsValue digits)).length ≤ digits.length :=
  length_decimal_le_of_lt (List.length_pos_iff.mpr nonempty) (digitsValue_lt plain)

end Decimal
