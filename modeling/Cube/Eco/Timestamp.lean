import Mathlib.Tactic.Attr.Core

/-! # Timestamps

What has become of an object since it was read: `eco::meta::Timestamp`.
-/

namespace Cube.Eco

abbrev Timestamp := UInt32

namespace Timestamp

def vInsert : Timestamp := 0
def vUpdate : Timestamp := 1
def vRemove : Timestamp := 2
def vClear : Timestamp := 3

def cleared (v : Timestamp) : Bool := v == vClear
def removed (v : Timestamp) : Bool := v == vRemove
def updated (v : Timestamp) : Bool := v == vUpdate
def inserted (v : Timestamp) : Bool := v == vInsert

/-- `eco::meta::clear`: a removed content stays removed. -/
def clear (v : Timestamp) : Timestamp := if removed v then v else vClear

@[simp] theorem removed_vInsert : removed vInsert = false := rfl

@[simp] theorem removed_vUpdate : removed vUpdate = false := rfl

@[simp] theorem removed_vRemove : removed vRemove = true := rfl

end Timestamp

end Cube.Eco
