import Cube.Eco.Web.HtmlClassFinder

/-! # Objects made of JSON classes

`MakeText` puts the texts of an object's children into the content of its class, in the order in
which they were added, then sets the values of properties, and then replaces object names. The
positions are adjusted by the difference to the last one; a child at the position of the last one
follows a comma.
-/

namespace Cube.Eco

/-- What the functions of `JsonObject` throw. -/
inductive JsonError where
  | text (error : Text.Error)
  | findChildClass (className : CString)
  | property (stage : Nat)
  deriving DecidableEq, Repr

/-- `JsonClass`: `m_name`, `m_content`, `m_parent_pos` and `m_children`. -/
inductive JsonClass where
  | mk (name content : CString) (parentPos : Nat) (children : List JsonClass)

namespace JsonClass

def name : JsonClass → CString
  | mk name _ _ _ => name

def content : JsonClass → CString
  | mk _ content _ _ => content

def parentPos : JsonClass → Nat
  | mk _ _ parentPos _ => parentPos

def children : JsonClass → List JsonClass
  | mk _ _ _ children => children

/-- `GetContent`. -/
def getContent (cls : JsonClass) : CString := cText cls.content

/-- `FindChild`. -/
def findChild (cls : JsonClass) (className : CString) : Option JsonClass :=
  cls.children.find? (·.name = className)

end JsonClass

/-- A map from names, in their order. -/
abbrev NameMap := List (CString × CString)

/-- `map[name] = value`. -/
def NameMap.set (name value : CString) : NameMap → NameMap
  | [] => [(name, value)]
  | (other, old) :: rest =>
      if other = name then (name, value) :: rest
      else if name < other then (name, value) :: (other, old) :: rest
      else (other, old) :: NameMap.set name value rest

/-- `JsonObject`: `m_class`, `m_obj_names`, `m_prop_values` and `m_children`. -/
inductive JsonObject where
  | mk (cls : JsonClass) (objNames propValues : NameMap) (children : List JsonObject)

namespace JsonObject

def cls : JsonObject → JsonClass
  | mk cls _ _ _ => cls

def children : JsonObject → List JsonObject
  | mk _ _ _ children => children

/-- The quoted name of a property. -/
def quoted (name : CString) : CString := '"' :: (name ++ ['"'])

/-- The search for a property's key and the two quotes behind it, and the replacement of what stands
from the one to the other. -/
def replaceValue {α : Type} [DecidableEq α] (quote : α) (key value text : List α) :
    Outcome JsonError (List α) :=
  match Text.find key text with
  | none => .reject (.property 1)
  | some keyPos =>
      match Text.findFrom [quote] text (keyPos + key.length) with
      | none => .reject (.property 2)
      | some firstPos =>
          match Text.findFrom [quote] text (firstPos + 1) with
          | none => .reject (.property 3)
          | some secondPos =>
              (Text.replace text firstPos (secondPos - firstPos + 1) value).mapReject .text

/-- The loop of `MakeText` over the property values. -/
def setValues (curText : CString) : NameMap → Outcome JsonError CString
  | [] => .ok curText
  | (name, value) :: rest => do
      setValues (← replaceValue '"' (quoted name) value curText) rest

/-- The loop of `MakeText` over the object names. -/
def replaceNames (curText : CString) : NameMap → CString
  | [] => curText
  | (name, value) :: rest => replaceNames (Text.replaceAll name value curText) rest

mutual

/-- `MakeText`. -/
def makeText (width : Nat) : JsonObject → Outcome JsonError CString
  | mk cls objNames propValues children => do
      let curText ← placeChildren width children cls.getContent 0 0
      let curText ← setValues curText propValues
      .ok (replaceNames curText objNames)

/-- The loop of `MakeText` over the children. -/
def placeChildren (width : Nat) :
    List JsonObject → CString → Nat → Nat → Outcome JsonError CString
  | [], curText, _, _ => .ok curText
  | child :: rest, curText, lastPos, childPos =>
      if lastPos = child.cls.parentPos then do
        let childText := ',' :: (← child.makeText width)
        let curText ← (Text.insert curText childPos childText).mapReject .text
        placeChildren width rest curText lastPos (childPos + childText.length)
      else do
        let childPos := sizeSub width (childPos + child.cls.parentPos) lastPos
        let childText ← child.makeText width
        let curText ← (Text.insert curText childPos childText).mapReject .text
        placeChildren width rest curText child.cls.parentPos (childPos + childText.length)

end

/-- `SetObjectName`. -/
def setObjectName (name value : CString) : JsonObject → JsonObject
  | mk cls objNames propValues children =>
      mk cls (objNames.set name value) propValues children

/-- `SetValue`, with a number as the text that it was cast to. -/
def setNumber (propName number : CString) : JsonObject → JsonObject
  | mk cls objNames propValues children =>
      mk cls objNames (propValues.set propName number) children

/-- `SetValue`, with a text. -/
def setText (propName value : CString) (o : JsonObject) : JsonObject :=
  o.setNumber propName ('"' :: (value ++ ['"']))

/-- `AddChild`; the object with the new child. -/
def addChild (className : CString) : JsonObject → Outcome JsonError JsonObject
  | mk cls objNames propValues children =>
      match cls.findChild className with
      | none => .reject (.findChildClass className)
      | some childClass =>
          .ok (mk cls objNames propValues (children ++ [mk childClass [] [] []]))

end JsonObject

end Cube.Eco
