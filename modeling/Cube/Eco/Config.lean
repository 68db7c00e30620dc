import Mathlib.Logic.Function.Basic

/-! # Configurations

A configuration is a tree of nodes with properties, read from a file, and an index of it: a
table of values under the names on the way to them, joined by slashes. Searches walk the tree;
`find` looks into the index.
-/

namespace Cube.Eco

/-- The characters of a C string, before its end. -/
abbrev CString := List Char

/-- Where the flag is first; `-1` is `none`. -/
def findFirst : CString → Char → Option Nat
  | [], _ => none
  | c :: key, flag => if c = flag then some 0 else (findFirst key flag).map (· + 1)

/-- `strncmp` returns zero: the strings do not differ in their first characters. -/
def strncmp (first second : CString) (count : Nat) : Bool := first.take count == second.take count

/-- `xml::sub_path`. -/
def subPath (sup sub : CString) : CString := if sup ≠ [] then sup ++ '/' :: sub else sub

structure Parameter where
  key : CString
  value : CString
  deriving DecidableEq

abbrev Context := List Parameter

def Context.find (context : Context) (key : CString) : Option CString :=
  (List.find? (fun parameter => decide (parameter.key = key)) context).map Parameter.value

/-- A set of children that is there but empty reads as none. -/
inductive ContextNode where
  | mk (name value : CString) (propertySet : Context) (children : List ContextNode)

abbrev ContextNodeSet := List ContextNode

namespace ContextNode

def name : ContextNode → CString
  | mk name _ _ _ => name

def value : ContextNode → CString
  | mk _ value _ _ => value

def propertySet : ContextNode → Context
  | mk _ _ propertySet _ => propertySet

def children : ContextNode → ContextNodeSet
  | mk _ _ _ children => children

def hasChildren (node : ContextNode) : Bool := !node.children.isEmpty

def setName (name : CString) : ContextNode → ContextNode
  | mk _ value propertySet children => mk name value propertySet children

end ContextNode

/-- A value in the index, and whether it is one of a property or one of a node. -/
structure Indexed where
  value : CString
  property : Bool
  deriving DecidableEq

/-- The table of the index. -/
abbrev IndexMap := CString → Option Indexed

def IndexMap.set (data : IndexMap) (key : CString) (value : Indexed) : IndexMap :=
  Function.update data key (some value)

namespace Config

section Raw

variable {α : Type}

mutual

/-- `get_property_set_raw` and `get_children_raw`: what is taken from the node that the key
leads to, among these nodes. -/
def getRaw (take : α → ContextNode → α) (result : α) (parentKey : CString) : ContextNodeSet → α
  | [] => result
  | it :: nodeSet =>
      match findFirst parentKey '/' with
      | none =>
          if it.name = parentKey then take result it else getRaw take result parentKey nodeSet
      | some nodeEnd =>
          if strncmp it.name parentKey nodeEnd then
            getBelow take result (parentKey.drop (nodeEnd + 1)) it
          else getRaw take result parentKey nodeSet

/-- The search goes on below a node, if it has children. -/
def getBelow (take : α → ContextNode → α) (result : α) (parentKey : CString) : ContextNode → α
  | .mk _ _ _ children =>
      if !children.isEmpty then getRaw take result parentKey children else result

end

end Raw

def getPropertySetRaw (result : Context) (parentKey : CString) (nodeSet : ContextNodeSet) :
    Context := getRaw (fun _ it => it.propertySet) result parentKey nodeSet

def getChildrenRaw (result : ContextNodeSet) (parentKey : CString) (nodeSet : ContextNodeSet) :
    ContextNodeSet :=
  getRaw (fun result it => if it.hasChildren then it.children else result) result parentKey nodeSet

/-- The index entries of the attributes of a node. -/
def setupAttributes (data : IndexMap) (nodeName : CString) : Context → IndexMap
  | [] => data
  | att :: context =>
      setupAttributes (data.set (subPath nodeName att.key) ⟨att.value, true⟩) nodeName context

mutual

def setupIndex (data : IndexMap) (parentName : CString) : ContextNode → IndexMap
  | .mk name value propertySet children =>
      let nodeName := subPath parentName name
      let data := if nodeName ≠ [] then data.set nodeName ⟨value, false⟩ else data
      setupChildren (setupAttributes data nodeName propertySet) nodeName children

def setupChildren (data : IndexMap) (nodeName : CString) : ContextNodeSet → IndexMap
  | [] => data
  | it :: children => setupChildren (setupIndex data nodeName it) nodeName children

end

end Config

/-- The tree of a configuration and its index. -/
structure Config where
  root : ContextNode
  data : IndexMap

namespace Config

/-- `init`, with the tree that was read. -/
def init (root : ContextNode) : Config where
  root := root.setName []
  data := setupIndex (fun _ => none) [] (root.setName [])

variable (config : Config)

def find (key : CString) : Option Indexed := config.data key

def getPropertySet (result : Context) (nodeKey : CString) : Context :=
  if config.root.hasChildren then getPropertySetRaw result nodeKey config.root.children else result

def getChildren (result : ContextNodeSet) (parentKey : CString) : ContextNodeSet :=
  if config.root.hasChildren then getChildrenRaw result parentKey config.root.children else result

end Config

end Cube.Eco
