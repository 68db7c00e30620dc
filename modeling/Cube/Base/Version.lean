import Mathlib.Algebra.Group.Int.Defs
import Mathlib.Data.List.TakeWhile
import Cube.Lib.Buffer
import Cube.Lib.Decimal

/-! # Comparing versions

`compare_version` of `util.cpp`. It copies one component of each version after the other into two
arrays of the stack, which it neither clears nor terminates, and reads them with `atoi`. What the
arrays held before is a parameter.
-/

namespace Cube.Base

open Decimal

def isSpace (c : UInt8) : Bool := c == 32 || (9 ≤ c && c ≤ 13)

/-- A digit is neither a blank nor a sign. -/
theorem apart_of_isDigit {d : UInt8} (digit : isDigit d = true) :
    isSpace d = false ∧ d ≠ 45 ∧ d ≠ 43 := by
  obtain ⟨low, high⟩ := isDigit_iff.mp digit
  simp only [isSpace, Bool.or_eq_false_iff, Bool.and_eq_false_iff, beq_eq_false_iff_ne,
    decide_eq_false_iff_not, ne_eq, ← UInt8.toNat_inj, UInt8.le_iff_toNat_le]
  change (¬ d.toNat = 32 ∧ (¬ 9 ≤ d.toNat ∨ ¬ d.toNat ≤ 13)) ∧ ¬ d.toNat = 45 ∧ ¬ d.toNat = 43
  omega

/-- `atoi`, on the characters that can be read from the pointer on: blanks, a sign, and digits up to
a character that is none. The value must be an `int`. -/
def atoi (text : List UInt8) : Outcome Empty Int :=
  let text := text.dropWhile isSpace
  let negative := text.head? = some 45
  let text := if text.head? = some 45 ∨ text.head? = some 43 then text.tail else text
  let digits := text.takeWhile isDigit
  let value : Int := if negative then -digitsValue digits else digitsValue digits
  if digits.length < text.length ∧ -2 ^ 31 ≤ value ∧ value < 2 ^ 31 then .ok value else .fault

namespace Version

def point : UInt8 := 46

/-- The characters that a round copies. -/
def component (v : List UInt8) : List UInt8 := v.takeWhile (· ≠ point)

/-- The version behind them and behind the point. -/
def behind (v : List UInt8) : List UInt8 := (v.dropWhile (· ≠ point)).tail

/-- A component in an array of the stack. -/
def copy (t component : List UInt8) : Outcome Empty (List UInt8) :=
  Buffer.patch (t.set 0 0) 0 component

theorem length_behind (v : List UInt8) : (behind v).length ≤ v.length - 1 := by
  have short := (List.dropWhile_suffix (· ≠ point) (l := v)).length_le
  rw [behind, List.length_tail]
  omega

/-- `compare_version`, where the arrays hold `t1` and `t2`. -/
def compareVersion (t1 t2 v1 v2 : List UInt8) : Outcome Empty Int := do
  let t1 ← copy t1 (component v1)
  let t2 ← copy t2 (component v2)
  let tv1 ← atoi t1
  let tv2 ← atoi t2
  if tv1 > tv2 then return 1
  else if tv1 < tv2 then return -1
  else if _more : behind v1 ≠ [] ∨ behind v2 ≠ [] then
    compareVersion t1 t2 (behind v1) (behind v2)
  else return 0
termination_by v1.length + v2.length
decreasing_by
  have first := length_behind v1
  have second := length_behind v2
  have some : 0 < (behind v1).length ∨ 0 < (behind v2).length := by
    simpa only [List.length_pos_iff] using _more
  omega

/-! ## Versions -/

/-- The components of a version: digits, at most nine. -/
def IsVersion (components : List (List UInt8)) : Prop :=
  components ≠ [] ∧
    ∀ digits ∈ components, digits ≠ [] ∧ digits.length ≤ 9 ∧ ∀ c ∈ digits, isDigit c = true

/-- The text of a version. -/
def text (components : List (List UInt8)) : List UInt8 := [point].intercalate components

/-- The sign of the first difference; a component that is missing counts as 0. -/
def order : List Nat → List Nat → Int
  | [], [] => 0
  | [], n :: second => if 0 < n then -1 else order [] second
  | n :: first, [] => if 0 < n then 1 else order first []
  | m :: first, n :: second => if n < m then 1 else if m < n then -1 else order first second

/-- Two versions are compared by their components, whatever the arrays of the stack held. -/
def Right (first second : List (List UInt8)) : Prop :=
  ∀ t1 t2 : List UInt8, t1.length = 64 → t2.length = 64 →
    compareVersion t1 t2 (text first) (text second) =
      .ok (order (first.map digitsValue) (second.map digitsValue))

/-- The components do not get shorter. -/
def Widening (components : List (List UInt8)) : Prop :=
  components.Pairwise fun one other => one.length ≤ other.length

/-- An array that has no digits. -/
def Clean (t : List UInt8) : Prop := t.length = 64 ∧ ∀ c ∈ t, isDigit c = false

/-! ## The texts of versions -/

/-- Components of digits, and any number of them. -/
def Digits (components : List (List UInt8)) : Prop :=
  ∀ digits ∈ components, digits ≠ [] ∧ digits.length ≤ 9 ∧ ∀ c ∈ digits, isDigit c = true

theorem ne_point_of_isDigit {c : UInt8} (digit : isDigit c = true) : c ≠ point := by
  rintro rfl
  exact absurd digit (by decide)

theorem text_cons_cons (digits next : List UInt8) (components : List (List UInt8)) :
    text (digits :: next :: components) = digits ++ point :: text (next :: components) := by
  simp [text, List.intercalate, List.intersperse]

theorem text_singleton (digits : List UInt8) : text [digits] = digits := by
  simp [text, List.intercalate]

/-- The first component of a text and what is behind it. -/
theorem parts_of_text {digits : List UInt8} (plain : ∀ c ∈ digits, isDigit c = true)
    (components : List (List UInt8)) :
    component (text (digits :: components)) = digits ∧
      behind (text (digits :: components)) = text components := by
  have apart : ∀ c ∈ digits, decide (c ≠ point) = true := fun c among =>
    decide_eq_true (ne_point_of_isDigit (plain c among))
  cases components with
  | nil =>
      have whole : digits.takeWhile (· ≠ point) = digits := List.takeWhile_eq_self_iff.mpr apart
      rw [text_singleton, component, behind, whole]
      have none : digits.dropWhile (· ≠ point) = [] := List.dropWhile_eq_nil_iff.mpr apart
      exact ⟨rfl, by rw [none]; rfl⟩
  | cons next components =>
      rw [text_cons_cons, component, behind, List.takeWhile_append_of_pos apart,
        List.dropWhile_append_of_pos apart]
      simp

theorem behind_text {components : List (List UInt8)} (digits : Digits components) :
    behind (text components) = text components.tail := by
  cases components with
  | nil => rfl
  | cons first components =>
      exact (parts_of_text (digits first List.mem_cons_self).2.2 components).2

theorem text_eq_nil {components : List (List UInt8)} (digits : Digits components) :
    text components = [] ↔ components = [] := by
  cases components with
  | nil => simp [text, List.intercalate]
  | cons first components =>
      have nonempty := (digits first List.mem_cons_self).1
      cases components with
      | nil => simpa [text_singleton] using nonempty
      | cons next components => simp [text_cons_cons]

/-! ## Components in the arrays -/

theorem copy_of_fits {t digits : List UInt8} (nonempty : digits ≠ [])
    (fits : digits.length ≤ t.length) : copy t digits = .ok (digits ++ t.drop digits.length) := by
  have behind_first : (t.set 0 0).drop digits.length = t.drop digits.length := by
    rw [List.drop_set_of_lt (List.length_pos_iff.mpr nonempty)]
  rw [copy, Buffer.patch, List.length_set, Nat.zero_add, if_pos fits, behind_first]
  simp

theorem copy_nil (t : List UInt8) : copy t [] = .ok (t.set 0 0) := by
  simp [copy, Buffer.patch]

/-- A text that starts with a digit has neither blanks nor a sign. -/
theorem atoi_cons {d : UInt8} (digit : isDigit d = true) (text : List UInt8) :
    atoi (d :: text) =
      if ((d :: text).takeWhile isDigit).length < (d :: text).length ∧
        digitsValue ((d :: text).takeWhile isDigit) < 2 ^ 31 then
          .ok (digitsValue ((d :: text).takeWhile isDigit) : Int)
      else .fault := by
  obtain ⟨solid, positive, unsigned⟩ := apart_of_isDigit digit
  simp only [atoi, List.dropWhile_cons_of_neg (Bool.not_eq_true _ ▸ solid), List.head?_cons,
    Option.some.injEq, positive, unsigned, or_self, if_false]
  congr 1
  simp only [eq_iff_iff, and_congr_right_iff]
  omega

/-- Digits in front of a character that is none. -/
theorem atoi_digits {digits : List UInt8} (nonempty : digits ≠ []) (short : digits.length ≤ 9)
    (plain : ∀ c ∈ digits, isDigit c = true) {c : UInt8} (ends : isDigit c = false)
    (rest : List UInt8) : atoi (digits ++ c :: rest) = .ok (digitsValue digits) := by
  have front : (digits ++ c :: rest).takeWhile isDigit = digits := by
    rw [List.takeWhile_append_of_pos plain, List.takeWhile_cons_of_neg (by simp [ends]),
      List.append_nil]
  have bounded : digitsValue digits < 2 ^ 31 := by
    have below := digitsValue_lt plain
    have nine := Nat.pow_le_pow_right (by decide : 0 < 10) short
    omega
  cases digits with
  | nil => exact absurd rfl nonempty
  | cons d digits =>
      rw [List.cons_append, atoi_cons (plain d List.mem_cons_self), ← List.cons_append, front,
        if_pos ⟨by simp, bounded⟩]

/-- Nothing ends the digits. -/
theorem atoi_unended {text : List UInt8} (nonempty : text ≠ [])
    (plain : ∀ c ∈ text, isDigit c = true) : atoi text = .fault := by
  have whole : text.takeWhile isDigit = text := List.takeWhile_eq_self_iff.mpr plain
  cases text with
  | nil => exact absurd rfl nonempty
  | cons d text => rw [atoi_cons (plain d List.mem_cons_self), whole, if_neg (by simp)]

theorem atoi_nul (rest : List UInt8) : atoi (0 :: rest) = .ok 0 := by
  have solid : isSpace 0 = false := by decide
  have other : isDigit 0 = false := by decide
  simp [atoi, solid, other, digitsValue]

/-! ## The comparison -/

/-- An array of the stack whose digits, if any, the next component covers. -/
def Ready (t : List UInt8) (components : List (List UInt8)) : Prop :=
  t.length = 64 ∧
    ∀ digits ∈ components.head?, ∀ c ∈ t.drop digits.length, isDigit c = false

/-- A round reads the next component, or 0 behind the last one. -/
theorem round_of_ready {t : List UInt8} {components : List (List UInt8)}
    (digits : Digits components) (widening : Widening components) (ready : Ready t components) :
    ∃ t', copy t (component (text components)) = .ok t' ∧
      atoi t' = .ok ((components.map digitsValue).headD 0) ∧ Ready t' components.tail := by
  obtain ⟨whole, covered⟩ := ready
  cases components with
  | nil =>
      refine ⟨t.set 0 0, copy_nil t, ?_, by simpa using whole, by simp⟩
      cases t with
      | nil => exact absurd whole (by decide)
      | cons c t => exact atoi_nul t
  | cons first components =>
      obtain ⟨nonempty, short, plain⟩ := digits first List.mem_cons_self
      have rest := covered first rfl
      refine ⟨first ++ t.drop first.length, ?_, ?_, ?_, ?_⟩
      · rw [(parts_of_text plain components).1]
        exact copy_of_fits nonempty (by omega)
      · cases behind_first : t.drop first.length with
        | nil =>
            have fits := List.drop_eq_nil_iff.mp behind_first
            omega
        | cons c t =>
            exact atoi_digits nonempty short plain (rest c (by simp [behind_first])) t
      · rw [List.length_append, List.length_drop]
        omega
      · intro next among c read
        have wider := (List.pairwise_cons.mp widening).1 next (List.mem_of_mem_head? among)
        rw [List.drop_append, List.drop_eq_nil_of_le wider, List.nil_append] at read
        exact rest c (List.mem_of_mem_drop read)

/-- The first components decide, or the ones behind them. -/
theorem order_eq (first second : List Nat) :
    order first second =
      if second.headD 0 < first.headD 0 then 1
      else if first.headD 0 < second.headD 0 then -1
      else order first.tail second.tail := by
  cases first with
  | nil =>
      cases second with
      | nil => simp [order]
      | cons n second => simp [order]
  | cons m first =>
      cases second with
      | nil => simp [order]
      | cons n second => simp [order]

theorem compareVersion_of_ready {t1 t2 : List UInt8} {first second : List (List UInt8)}
    (digits1 : Digits first) (digits2 : Digits second) (widening1 : Widening first)
    (widening2 : Widening second) (ready1 : Ready t1 first) (ready2 : Ready t2 second) :
    compareVersion t1 t2 (text first) (text second) =
      .ok (order (first.map digitsValue) (second.map digitsValue)) := by
  -- by induction on the components that are left, of either version
  induction left : first.length + second.length using Nat.strong_induction_on
    generalizing t1 t2 first second with
  | _ left ih =>
      obtain ⟨t1', copied1, read1, next1⟩ := round_of_ready digits1 widening1 ready1
      obtain ⟨t2', copied2, read2, next2⟩ := round_of_ready digits2 widening2 ready2
      have behind1 := behind_text digits1
      have behind2 := behind_text digits2
      have rest1 : Digits first.tail := fun part among => digits1 part (List.mem_of_mem_tail among)
      have rest2 : Digits second.tail := fun part among => digits2 part (List.mem_of_mem_tail among)
      rw [compareVersion, copied1, Outcome.ok_bind, copied2, Outcome.ok_bind, read1,
        Outcome.ok_bind, read2, Outcome.ok_bind, order_eq, behind1, behind2]
      simp only [gt_iff_lt, Int.ofNat_lt, Outcome.pure_eq, apply_ite Outcome.ok]
      congr 2
      simp only [ne_eq, text_eq_nil rest1, text_eq_nil rest2, ← List.map_tail]
      split
      · rename_i more
        refine ih _ ?_ rest1 rest2 (widening1.sublist (List.tail_sublist _))
          (widening2.sublist (List.tail_sublist _)) next1 next2 rfl
        simp only [← List.length_eq_zero_iff, List.length_tail] at more ⊢
        omega
      · rename_i ended
        rw [not_or, not_not, not_not] at ended
        simp [ended.1, ended.2, order]

theorem Clean.ready {t : List UInt8} (clean : Clean t) (components : List (List UInt8)) :
    Ready t components :=
  ⟨clean.1, fun _ _ c read => clean.2 c (List.mem_of_mem_drop read)⟩

/-- No comparison is right whatever the arrays held: nothing behind a first component ends it. Over
arrays without digits, versions whose components do not get shorter are compared right. -/
theorem not_right {first second : List (List UInt8)} (one : IsVersion first)
    (other : IsVersion second) :
    ¬ Right first second ∧
      (Widening first → Widening second → ∀ t1 t2, Clean t1 → Clean t2 →
        compareVersion t1 t2 (text first) (text second) =
          .ok (order (first.map digitsValue) (second.map digitsValue))) := by
  refine ⟨fun right => ?_, fun widening1 widening2 t1 t2 clean1 clean2 =>
    compareVersion_of_ready one.2 other.2 widening1 widening2 (clean1.ready first)
      (clean2.ready second)⟩
  obtain ⟨digits, components, rfl⟩ := List.exists_cons_of_ne_nil one.1
  obtain ⟨digits', components', rfl⟩ := List.exists_cons_of_ne_nil other.1
  obtain ⟨nonempty, short, plain⟩ := one.2 digits List.mem_cons_self
  obtain ⟨nonempty', short', plain'⟩ := other.2 digits' List.mem_cons_self
  have same := right (.replicate 64 57) (.replicate 64 57) (by simp) (by simp)
  have unended : atoi (digits ++ (List.replicate 64 57).drop digits.length) = .fault := by
    refine atoi_unended (by simp [nonempty]) fun c among => ?_
    rcases List.mem_append.mp among with inside | behind
    · exact plain c inside
    · obtain rfl := List.eq_of_mem_replicate (List.mem_of_mem_drop behind)
      decide
  rw [compareVersion, (parts_of_text plain components).1, (parts_of_text plain' components').1,
    copy_of_fits nonempty (by rw [List.length_replicate]; omega), Outcome.ok_bind,
    copy_of_fits nonempty' (by rw [List.length_replicate]; omega), Outcome.ok_bind, unended] at same
  exact absurd same nofun

/-- The versions `1` and `1`. -/
theorem not_right_one : ¬ Right [[49]] [[49]] ∧
    (Widening [[49]] → Widening [[49]] → ∀ t1 t2, Clean t1 → Clean t2 →
      compareVersion t1 t2 (text [[49]]) (text [[49]]) =
        .ok (order ([[49]].map digitsValue) ([[49]].map digitsValue))) :=
  have digits : ([49] : List UInt8) ≠ [] ∧ ([49] : List UInt8).length ≤ 9 ∧
      ∀ c ∈ [49], isDigit c = true := ⟨by simp, by simp, List.forall_mem_singleton.mpr rfl⟩
  have version : IsVersion [[49]] := ⟨by simp, List.forall_mem_singleton.mpr digits⟩
  not_right version version

/-- `10.9` and `10.10`: over cleared arrays, the second round reads `90` and `10`. -/
theorem not_right_ten : ¬ Right [[49, 48], [57]] [[49, 48], [49, 48]] := by
  intro right
  have second : compareVersion (49 :: 48 :: .replicate 62 0) (49 :: 48 :: .replicate 62 0)
      [57] [49, 48] = .ok 1 := by
    rw [compareVersion]
    decide
  have first : compareVersion (.replicate 64 0) (.replicate 64 0) (text [[49, 48], [57]])
      (text [[49, 48], [49, 48]]) = .ok 1 := by
    rw [compareVersion]
    exact second
  have same := first.symm.trans (right _ _ (by simp) (by simp))
  simp [order, digitsValue] at same

end Version

end Cube.Base
