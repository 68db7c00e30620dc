import Cube.Eco.Export

/-! # State words

`atomic::State` keeps the flags of an object in one 32-bit word. `Atomic` reads the word,
computes the new one and writes it: the model takes the three as one step.
-/

namespace Cube.Eco.Thread

/-- The flags of an object's state. -/
structure AtomicState where
  value : UInt32
  deriving DecidableEq

namespace AtomicState

def a : UInt32 := 0x0001
def b : UInt32 := 0x0002
def c : UInt32 := 0x0004
def d : UInt32 := 0x0008
def e : UInt32 := 0x0010
def f : UInt32 := 0x0020
def g : UInt32 := 0x0040

def none : AtomicState := ⟨0x0000⟩

/-- `add`: set the bits of `v`. -/
def add (state : AtomicState) (v : UInt32) : AtomicState := ⟨state.value ||| v⟩

/-- `del`: clear the bits of `v`. -/
def del (state : AtomicState) (v : UInt32) : AtomicState := ⟨state.value &&& ~~~v⟩

def set (state : AtomicState) (is : Bool) (v : UInt32) : AtomicState :=
  if is then state.add v else state.del v

def has (state : AtomicState) (v : UInt32) : Bool := decide (state.value &&& v > 0)

def ok (state : AtomicState) : AtomicState := ⟨state.value ||| 0x1000⟩

def isOk (state : AtomicState) : Bool := state.has 0x1000

def isNone (state : AtomicState) : Bool := state.value == 0x0000

@[simp] theorem none_isNone : none.isNone := rfl

/-- The templates of `Export.h` compute the same. -/
theorem value_set (state : AtomicState) (is : Bool) (v : UInt32) :
    (state.set is v).value = Eco.set state.value v is := by
  cases is with
  | true => rfl
  | false => rfl

/-- A flag reads back as it was set. -/
theorem has_set_self {v : UInt32} (nonzero : v ≠ 0) (state : AtomicState) (is : Bool) :
    (state.set is v).has v = is := by
  change Eco.has (state.set is v).value v = is
  rw [value_set]
  exact Eco.has_set_self nonzero state.value is

/-- The other flags are left alone. -/
theorem has_set_other {v w : UInt32} (disjoint : v &&& w = 0) (state : AtomicState) (is : Bool) :
    (state.set is v).has w = state.has w := by
  change Eco.has (state.set is v).value w = Eco.has state.value w
  rw [value_set]
  exact Eco.has_set_other disjoint state.value is

@[simp] theorem none_isOk : none.isOk = false := rfl

@[simp] theorem ok_isOk (state : AtomicState) : state.ok.isOk = true :=
  has_set_self (v := 0x1000) (by decide) state true

/-! ## Words that contain others -/

/-- All bits of `v` are set. -/
def Contains (state : AtomicState) (v : UInt32) : Prop := state.value &&& v = v

theorem Contains.has {state : AtomicState} {v : UInt32} (contains : state.Contains v)
    (nonzero : v ≠ 0) : state.has v = true := by
  rw [AtomicState.has, contains, decide_eq_true_eq, gt_iff_lt, UInt32.pos_iff_ne_zero]
  exact nonzero

theorem contains_add (state : AtomicState) (v : UInt32) : (state.add v).Contains v := by
  apply UInt32.toBitVec_inj.mp
  ext bit inside
  simp only [add, UInt32.toBitVec_and, UInt32.toBitVec_or, BitVec.getElem_and,
    BitVec.getElem_or]
  cases state.value.toBitVec[bit] <;> cases v.toBitVec[bit] <;> rfl

theorem Contains.add {state : AtomicState} {v : UInt32} (contains : state.Contains v)
    (w : UInt32) : (state.add w).Contains v := by
  apply UInt32.toBitVec_inj.mp
  ext bit inside
  have there := congrArg (fun number : UInt32 => number.toBitVec[bit]) contains
  simp only [UInt32.toBitVec_and, BitVec.getElem_and] at there
  simp only [AtomicState.add, UInt32.toBitVec_and, UInt32.toBitVec_or, BitVec.getElem_and,
    BitVec.getElem_or]
  revert there
  cases state.value.toBitVec[bit] <;> cases v.toBitVec[bit] <;>
    cases w.toBitVec[bit] <;> simp

/-- Clearing other bits leaves the word inside. -/
theorem Contains.del {state : AtomicState} {v w : UInt32} (contains : state.Contains v)
    (disjoint : v &&& w = 0) : (state.del w).Contains v := by
  apply UInt32.toBitVec_inj.mp
  ext bit inside
  have there := congrArg (fun number : UInt32 => number.toBitVec[bit]) contains
  have apart := congrArg (fun number : UInt32 => number.toBitVec[bit]) disjoint
  simp only [UInt32.toBitVec_and, BitVec.getElem_and] at there apart
  simp only [AtomicState.del, UInt32.toBitVec_and, UInt32.toBitVec_not, BitVec.getElem_and,
    BitVec.getElem_not]
  revert there apart
  cases state.value.toBitVec[bit] <;> cases v.toBitVec[bit] <;>
    cases w.toBitVec[bit] <;> simp

theorem add_or (state : AtomicState) (v w : UInt32) :
    state.add (v ||| w) = (state.set true v).set true w :=
  congrArg AtomicState.mk (UInt32.or_assoc state.value v w).symm

theorem del_or (state : AtomicState) (v w : UInt32) :
    state.del (v ||| w) = (state.set false v).set false w := by
  apply congrArg AtomicState.mk
  change state.value &&& ~~~(v ||| w) = state.value &&& ~~~v &&& ~~~w
  apply UInt32.toBitVec_inj.mp
  simp only [UInt32.toBitVec_and, UInt32.toBitVec_or, UInt32.toBitVec_not, BitVec.not_or,
    BitVec.and_assoc]

theorem none_has (v : UInt32) : none.has v = false := by
  change decide (0 &&& v > 0) = false
  rw [UInt32.zero_and]
  rfl

theorem none_del (v : UInt32) : none.del v = none := by
  change AtomicState.mk (0 &&& ~~~v) = none
  rw [UInt32.zero_and]
  rfl

end AtomicState

end Cube.Eco.Thread
