import Cube.Eco.Web.ClassScanning

/-! # Loading the classes of a document

`LoadClass` cuts the classes of a document out one after another, and the classes of each class out
of its content.
-/

namespace Cube.Eco

/-- `HtmlClass`: `m_name`, `m_content`, `m_position` and `m_children`. -/
inductive HtmlClass where
  | mk (name content : CString) (position : Nat) (children : List HtmlClass)

namespace HtmlClass

def name : HtmlClass → CString
  | mk name _ _ _ => name

def content : HtmlClass → CString
  | mk _ content _ _ => content

def position : HtmlClass → Nat
  | mk _ _ position _ => position

def children : HtmlClass → List HtmlClass
  | mk _ _ _ children => children

/-- `LoadClass` from a call of `Find` on: the content that is left, and the children. -/
def loadFrom (width : Nat) (content : CString) (findStart : Nat) :
    Outcome Text.Error (CString × List HtmlClass) :=
  match _called : HtmlClassFinder.find width content findStart with
  | .fault => .fault
  | .reject error => .reject error
  | .ok none => .ok (content, [])
  | .ok (some found) => do
      let child ← loadFrom width found.classContent 0
      let rest ← loadFrom width found.content found.parentPos
      .ok (rest.1, mk found.className child.1 found.parentPos child.2 :: rest.2)
termination_by content.length
decreasing_by
  · exact (HtmlClassFinder.find_shrinks _called).1
  · exact (HtmlClassFinder.find_shrinks _called).2

/-- `LoadClass`, for the root class of a document. -/
def load (width : Nat) (document : CString) : Outcome Text.Error HtmlClass := do
  let loaded ← loadFrom width document 0
  .ok (mk ['r', 'o', 'o', 't'] loaded.1 0 loaded.2)

variable {width findStart : Nat} {content : CString}

theorem loadFrom_none (called : HtmlClassFinder.find width content findStart = .ok none) :
    loadFrom width content findStart = .ok (content, []) := by
  rw [loadFrom]
  split
  · next other => cases called.symm.trans other
  · next other => cases called.symm.trans other
  · rfl
  · next other => cases called.symm.trans other

theorem loadFrom_some {found : HtmlClassFinder.Found}
    (called : HtmlClassFinder.find width content findStart = .ok (some found)) :
    loadFrom width content findStart =
      (loadFrom width found.classContent 0 >>= fun child =>
        loadFrom width found.content found.parentPos >>= fun rest =>
          .ok (rest.1, mk found.className child.1 found.parentPos child.2 :: rest.2)) := by
  rw [loadFrom]
  split
  · next other => cases called.symm.trans other
  · next other => cases called.symm.trans other
  · next other => cases called.symm.trans other
  · next other =>
      cases called.symm.trans other
      rfl

/-- `LoadClass` returns only if `Find` does. -/
theorem loadFrom_called {loaded : CString × List HtmlClass}
    (returned : loadFrom width content findStart = .ok loaded) :
    ∃ result, HtmlClassFinder.find width content findStart = .ok result := by
  rw [loadFrom] at returned
  split at returned
  · cases returned
  · cases returned
  · next called => exact ⟨none, called⟩
  · next found called => exact ⟨some found, called⟩

/-- The calls of `Find` that `LoadClass` makes from one on. -/
inductive Calls (width : Nat) : CString → Nat → CString → Nat → Prop where
  | here (content : CString) (findStart : Nat) : Calls width content findStart content findStart
  | child {content content' : CString} {findStart findStart' : Nat} {found : HtmlClassFinder.Found}
      (called : HtmlClassFinder.find width content findStart = .ok (some found))
      (inner : Calls width found.classContent 0 content' findStart') :
      Calls width content findStart content' findStart'
  | next {content content' : CString} {findStart findStart' : Nat} {found : HtmlClassFinder.Found}
      (called : HtmlClassFinder.find width content findStart = .ok (some found))
      (later : Calls width found.content found.parentPos content' findStart') :
      Calls width content findStart content' findStart'

end HtmlClass

end Cube.Eco

/-! ## Objects made of HTML classes

`AddChild` keeps the children of an object in the order of their classes, and `MakeText` puts their
texts into the content of the object's class. A class is told apart from its siblings by its place
among them; `FindChild` returns a new class, without a place, for a name that no child has. The
calls go to objects by the class names on the way to them.
-/

namespace Cube.Eco

/-- What `AddChild` throws. -/
inductive HtmlError where
  | parameterPos
  | compareChildClass
  deriving DecidableEq, Repr

/-- `HtmlClass::GetContent`. -/
def HtmlClass.getContent (cls : HtmlClass) : CString := cText cls.content

/-- `HtmlClass::FindChild`, with the place of the class. -/
def HtmlClass.findChild (cls : HtmlClass) (className : CString) : HtmlClass × Option Nat :=
  match cls.children.findIdx? (·.name = className) with
  | some place => (cls.children.getD place (.mk [] [] 0 []), some place)
  | none => (.mk [] [] 0 [], none)

/-- `HtmlClass::Compare`, for classes at places among the children. -/
def HtmlClass.compare : Option Nat → Option Nat → Outcome HtmlError Int
  | some i, some j => .ok (if i = j then 0 else if i < j then -1 else 1)
  | some _, none => .ok (-1)
  | none, some _ => .ok 1
  | none, none => .reject .compareChildClass

/-- `HtmlObject`: `m_pos_mode`, `m_class` with its place, `m_prop_values` and `m_children`. -/
inductive HtmlObject where
  | mk (posMode : Int) (cls : HtmlClass) (place : Option Nat)
      (propValues : List (CString × CString)) (children : List HtmlObject)

namespace HtmlObject

def classPos : Int := 1

def orderPos : Int := 2

def posMode : HtmlObject → Int
  | mk posMode _ _ _ _ => posMode

def cls : HtmlObject → HtmlClass
  | mk _ cls _ _ _ => cls

def place : HtmlObject → Option Nat
  | mk _ _ place _ _ => place

def children : HtmlObject → List HtmlObject
  | mk _ _ _ _ children => children

def withChildren : HtmlObject → List HtmlObject → HtmlObject
  | mk posMode cls place propValues _, children => mk posMode cls place propValues children

/-- The replacement of property values, in the order of the map. -/
def replaceProps (curText : CString) : List (CString × CString) → CString
  | [] => curText
  | (key, value) :: rest =>
      replaceProps (Text.replaceAll ('$' :: '(' :: (key ++ [')'])) value curText) rest

mutual

/-- `MakeText`. -/
def makeText (width : Nat) : HtmlObject → Outcome Text.Error CString
  | mk _ cls _ propValues children => do
      let curText ← placeChildren width children cls.getContent 0 0
      .ok (replaceProps curText propValues)

/-- The loop of `MakeText` over the children. -/
def placeChildren (width : Nat) :
    List HtmlObject → CString → Nat → Nat → Outcome Text.Error CString
  | [], curText, _, _ => .ok curText
  | child :: rest, curText, lastPos, childPos =>
      if lastPos = child.cls.position ∨ child.posMode = orderPos then do
        let childText ← child.makeText width
        let curText ← Text.insert curText childPos childText
        placeChildren width rest curText lastPos (childPos + childText.length)
      else do
        let childPos := sizeSub width (childPos + child.cls.position) lastPos
        let childText ← child.makeText width
        let curText ← Text.insert curText childPos childText
        placeChildren width rest curText child.cls.position (childPos + childText.length)

end

/-- The loop of `AddChild` that finds the right place for a child; `curClass` is its `cur_class`. -/
def insertChild (child : HtmlObject) :
    Option Nat → List HtmlObject → Outcome HtmlError (List HtmlObject)
  | _, [] => .ok [child]
  | curClass, it :: rest => do
      let curClass := if it.place ≠ curClass ∧ it.posMode = classPos then it.place else curClass
      if (← HtmlClass.compare child.place curClass) < 0 then .ok (child :: it :: rest)
      else .ok (it :: (← insertChild child curClass rest))

/-- `AddChild`; the object with the new child. -/
def addChild (o : HtmlObject) (className : CString) (posMode : Int) :
    Outcome HtmlError HtmlObject :=
  if posMode ≠ classPos ∧ posMode ≠ orderPos then .reject .parameterPos
  else
    let (childClass, place) := o.cls.findChild className
    let child := mk posMode childClass place [] []
    if posMode = classPos then
      match o.children with
      | [] => .ok (o.withChildren [child])
      | first :: rest => do
          .ok (o.withChildren (← insertChild child first.place (first :: rest)))
    else .ok (o.withChildren (o.children ++ [child]))

/-- Change the child of a class; there is no call on an object that does not exist. -/
def modifyChild (className : CString) (change : HtmlObject → Outcome HtmlError HtmlObject) :
    List HtmlObject → Outcome HtmlError (List HtmlObject)
  | [] => .fault
  | child :: rest =>
      if child.cls.name = className then do .ok ((← change child) :: rest)
      else do .ok (child :: (← modifyChild className change rest))

/-- `AddChild` in `class_pos` mode on the object at the end of a path. -/
def addAt : List CString → CString → HtmlObject → Outcome HtmlError HtmlObject
  | [], className, o => o.addChild className classPos
  | name :: path, className, o => do
      .ok (o.withChildren (← modifyChild name (addAt path className) o.children))

/-- Calls of `AddChild` in turn. -/
def addAll : List (List CString × CString) → HtmlObject → Outcome HtmlError HtmlObject
  | [], o => .ok o
  | (path, className) :: calls, o => do addAll calls (← addAt path className o)

/-- The object of the root class. -/
def root (cls : HtmlClass) : HtmlObject := mk 0 cls none [] []

end HtmlObject

end Cube.Eco
