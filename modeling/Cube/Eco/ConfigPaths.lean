import Mathlib.Data.List.Basic
import Cube.Eco.Config

/-! # Paths in a configuration

The text of a path is its names joined by slashes. A walk along it takes at each name but the
last the first child whose name begins with it.
-/

namespace Cube.Eco

/-- A name, or a key, that no slash is in. -/
def Plain (name : CString) : Prop := '/' ∉ name

instance (name : CString) : Decidable (Plain name) := inferInstanceAs (Decidable (_ ∉ _))

/-- The text of a path. -/
def pathKey (path : List CString) : CString := List.intercalate ['/'] path

@[simp] theorem pathKey_singleton (name : CString) : pathKey [name] = name := by
  rw [pathKey, List.intercalate_singleton]

theorem pathKey_cons_cons (name next : CString) (path : List CString) :
    pathKey (name :: next :: path) = name ++ '/' :: pathKey (next :: path) := by
  rw [pathKey, List.intercalate_cons_cons, List.append_assoc]
  rfl

namespace ContextNode

def hasName (name : CString) (it : ContextNode) : Bool := decide (it.name = name)

def beginsWith (name : CString) (it : ContextNode) : Bool := decide (name <+: it.name)

/-- The first child with the name. -/
def child (node : ContextNode) (name : CString) : Option ContextNode :=
  node.children.find? (hasName name)

/-- The first child whose name begins with the name. -/
def childLike (node : ContextNode) (name : CString) : Option ContextNode :=
  node.children.find? (beginsWith name)

theorem hasName_iff {name : CString} {it : ContextNode} :
    hasName name it = true ↔ it.name = name := decide_eq_true_iff

/-- The node at a path. -/
def nodeAt (node : ContextNode) : List CString → Option ContextNode
  | [] => some node
  | name :: path =>
      match node.child name with
      | some it => it.nodeAt path
      | none => none

/-- The node that the searches come to. -/
def lead (node : ContextNode) : List CString → Option ContextNode
  | [] => some node
  | [name] => node.child name
  | name :: next :: path =>
      match node.childLike name with
      | some it => it.lead (next :: path)
      | none => none

end ContextNode

/-! ## What the searches return -/

namespace Config

variable {α : Type} {take : α → ContextNode → α} {result : α}

end Config

end Cube.Eco
