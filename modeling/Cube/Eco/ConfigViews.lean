import Cube.Eco.ConfigIndex

/-! # The two views of a configuration

What the searches find along a path is what the index holds under it, exactly as long as they
stay on the path, or come to a node with the same children and properties.
-/

namespace Cube.Eco

/-- What there is at a node, or nothing if there is none. -/
def childrenOf (node : Option ContextNode) : ContextNodeSet :=
  (node.map ContextNode.children).getD []

def propertiesOf (node : Option ContextNode) : Context :=
  (node.map ContextNode.propertySet).getD []

/-- The searches return the children and the properties of the node at the path, and `find`
returns the value of a property under the path and a key exactly if the properties found hold
the key with that value. -/
structure Agree (config : Config) (path : List CString) : Prop where
  children : config.getChildren [] (pathKey path) = childrenOf (config.root.nodeAt path)
  properties : config.getPropertySet [] (pathKey path) = propertiesOf (config.root.nodeAt path)
  find : ∀ key value, Plain key →
    (config.find (pathKey path ++ '/' :: key) = some ⟨value, true⟩ ↔
      Context.find (config.getPropertySet [] (pathKey path)) key = some value)

namespace Config

section Views

variable {root : ContextNode} {path : List CString}

/-! ## The searches -/

end Views

end Config

end Cube.Eco
