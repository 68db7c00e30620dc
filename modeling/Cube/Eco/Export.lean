import Mathlib.Algebra.Group.Nat.Defs
import Mathlib.Data.List.Basic

/-! # Bit flags and characters

`Export.h` keeps options and categories as integers whose bits are flags. Its
templates compute in 32 bits whatever the width of the object, so a 16-bit object
is widened first and truncated when it is assigned back.

A `char` is signed: reading one into a wider unsigned integer extends its sign.
-/

namespace Cube.Eco

/-- `eco::has`: some bit of `v` is set in the object. -/
def has (obj v : UInt32) : Bool := decide (obj &&& v > 0)

/-- `eco::add`: set the bits of `v`. -/
def add (obj v : UInt32) : UInt32 := obj ||| v

/-- `eco::set`: set or clear the bits of `v`. -/
def set (obj v : UInt32) (is : Bool) : UInt32 := if is then obj ||| v else obj &&& ~~~v

/-- `eco::has` on a 16-bit object. -/
def has16 (obj : UInt16) (v : UInt32) : Bool := has obj.toUInt32 v

/-- `eco::add` on a 16-bit object. -/
def add16 (obj : UInt16) (v : UInt32) : UInt16 := (add obj.toUInt32 v).toUInt16

/-- `eco::set` on a 16-bit object. -/
def set16 (obj : UInt16) (v : UInt32) (is : Bool) : UInt16 := (set obj.toUInt32 v is).toUInt16

theorem has_iff {obj v : UInt32} : has obj v = true ↔ obj &&& v ≠ 0 := by
  rw [has, decide_eq_true_eq, gt_iff_lt, UInt32.pos_iff_ne_zero]

/-- A flag that was set or cleared reads back as it was left. -/
theorem has_set_self {v : UInt32} (nonzero : v ≠ 0) (obj : UInt32) (is : Bool) :
    has (set obj v is) v = is := by
  cases is with
  | true =>
      have absorbed : (obj ||| v) &&& v = v := by
        apply UInt32.toBitVec_inj.mp
        ext bit
        simpa using Or.inr
      rw [has_iff, set, if_pos rfl, absorbed]
      exact nonzero
  | false =>
      have cleared : obj &&& ~~~v &&& v = 0 := by
        rw [UInt32.and_assoc, UInt32.not_and_self, UInt32.and_zero]
      rw [Bool.eq_false_iff, Ne, has_iff, set, if_neg Bool.false_ne_true, cleared]
      exact fun different => different rfl

/-- Setting or clearing flags leaves the other flags alone. -/
theorem has_set_other {v w : UInt32} (disjoint : v &&& w = 0) (obj : UInt32) (is : Bool) :
    has (set obj v is) w = has obj w := by
  have apart (bit : Nat) (inside : bit < 32) : (v.toBitVec[bit] && w.toBitVec[bit]) = false := by
    have zero := congrArg (fun number : UInt32 => number.toBitVec[bit]) disjoint
    simpa using zero
  have same : set obj v is &&& w = obj &&& w := by
    apply UInt32.toBitVec_inj.mp
    ext bit inside
    have away := apart bit inside
    cases is with
    | true =>
        simp only [set, if_true, UInt32.toBitVec_and, UInt32.toBitVec_or, BitVec.getElem_and,
          BitVec.getElem_or, Bool.and_or_distrib_right, away, Bool.or_false]
    | false =>
        simp only [set, Bool.false_eq_true, if_false, UInt32.toBitVec_and, UInt32.toBitVec_not,
          BitVec.getElem_and, BitVec.getElem_not]
        revert away
        cases obj.toBitVec[bit] <;> cases v.toBitVec[bit] <;> cases w.toBitVec[bit] <;> simp
  rw [has, has, same]

/-- A `char` read into a `uint32_t`. -/
def charToUInt32 (c : UInt8) : UInt32 := c.toInt8.toInt32.toUInt32

/-- A `char` read into a `uint16_t`. -/
def charToUInt16 (c : UInt8) : UInt16 := c.toInt8.toInt16.toUInt16

private theorem setWidth_signExtend {width wide : Nat} (wider : width ≤ wide)
    (number : BitVec width) : (number.signExtend wide).setWidth width = number := by
  ext bit inside
  have insideWide : bit < wide := Nat.lt_of_lt_of_le inside wider
  rw [BitVec.getElem_setWidth, BitVec.getLsbD_eq_getElem insideWide, BitVec.getElem_signExtend,
    dif_pos inside]

/-- Assigning back to a `char` undoes reading it, whatever its sign. -/
@[simp] theorem charToUInt32_toUInt8 (c : UInt8) : (charToUInt32 c).toUInt8 = c := by
  apply UInt8.toBitVec_inj.mp
  change (c.toBitVec.signExtend 32).setWidth 8 = c.toBitVec
  exact setWidth_signExtend (by omega) c.toBitVec

@[simp] theorem charToUInt16_toUInt8 (c : UInt8) : (charToUInt16 c).toUInt8 = c := by
  apply UInt8.toBitVec_inj.mp
  change (c.toBitVec.signExtend 16).setWidth 8 = c.toBitVec
  exact setWidth_signExtend (by omega) c.toBitVec

end Cube.Eco
