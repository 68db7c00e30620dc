import Mathlib.Data.List.TakeWhile
import Cube.Eco.Web.Html

/-! # One instance of each class

An instance of a class has one child for each of its classes whose path is made. Calls of `AddChild`
make paths, in any order in which an object is there before it gets children; the text of an
instance with all paths made weaves the texts of the children into the content.
-/

namespace Cube.Eco

namespace HtmlClass

mutual

/-- The content with the texts of the children at their positions. -/
def fullText : HtmlClass → CString
  | mk _ content _ children => Text.weave content 0 (pieces children)

def pieces : List HtmlClass → List (Nat × CString)
  | [] => []
  | child :: rest => (child.position, child.fullText) :: pieces rest

end

mutual

/-- The paths of class names to the classes below. -/
def paths : HtmlClass → List (List CString)
  | mk _ _ _ children => childPaths children

def childPaths : List HtmlClass → List (List CString)
  | [] => []
  | child :: rest => [child.name] :: child.paths.map (child.name :: ·) ++ childPaths rest

end

mutual

/-- Siblings have different names. -/
def DistinctNames : HtmlClass → Prop
  | mk _ _ _ children => (children.map name).Nodup ∧ AllDistinct children

def AllDistinct : List HtmlClass → Prop
  | [] => True
  | child :: rest => child.DistinctNames ∧ AllDistinct rest

end

mutual

/-- No content has a terminator in it, and the positions fit. -/
def Placed : HtmlClass → Prop
  | mk _ content _ children =>
      (∀ c ∈ content, c ≠ nul) ∧ Text.Fits content 0 (pieces children) ∧ AllPlaced children

def AllPlaced : List HtmlClass → Prop
  | [] => True
  | child :: rest => child.Placed ∧ AllPlaced rest

end

theorem AllDistinct.of_mem {children : List HtmlClass} (distinct : AllDistinct children)
    {child : HtmlClass} (member : child ∈ children) : child.DistinctNames := by
  induction children with
  | nil => cases member
  | cons first rest ih =>
      rcases List.mem_cons.mp member with rfl | member
      · exact distinct.1
      · exact ih distinct.2 member

/-- A path goes through a child. -/
theorem mem_childPaths {children : List HtmlClass} {path : List CString} :
    path ∈ childPaths children ↔
      ∃ child ∈ children, path = [child.name] ∨ ∃ rest ∈ child.paths, child.name :: rest = path := by
  induction children with
  | nil => simp only [childPaths, List.not_mem_nil, false_and, exists_false]
  | cons first rest ih =>
      simp only [childPaths, List.cons_append, List.mem_cons, List.mem_append, List.mem_map, ih,
        exists_eq_or_imp, or_assoc]

end HtmlClass

namespace HtmlObject

open HtmlClass

mutual

/-- The instance of a class with the paths that are made. -/
def instanceOf (made : List CString → Bool) (posMode : Int) (place : Option Nat) :
    HtmlClass → HtmlObject
  | .mk name content position children =>
      mk posMode (.mk name content position children) place [] (instances made 0 children)

def instances (made : List CString → Bool) : Nat → List HtmlClass → List HtmlObject
  | _, [] => []
  | i, child :: rest =>
      if made [child.name] then
        instanceOf (fun path => made (child.name :: path)) classPos (some i) child ::
          instances made (i + 1) rest
      else instances made (i + 1) rest

end

variable {made made' : List CString → Bool}

@[simp] theorem instanceOf_cls (posMode : Int) (place : Option Nat) (cls : HtmlClass) :
    (instanceOf made posMode place cls).cls = cls := by
  cases cls
  rfl

@[simp] theorem instanceOf_posMode (posMode : Int) (place : Option Nat) (cls : HtmlClass) :
    (instanceOf made posMode place cls).posMode = posMode := by
  cases cls
  rfl

@[simp] theorem instanceOf_place (posMode : Int) (place : Option Nat) (cls : HtmlClass) :
    (instanceOf made posMode place cls).place = place := by
  cases cls
  rfl

@[simp] theorem instanceOf_children (posMode : Int) (place : Option Nat) (cls : HtmlClass) :
    (instanceOf made posMode place cls).children = instances made 0 cls.children := by
  cases cls
  rfl

/-! ## The text of an instance -/

mutual

/-- The text of an instance with all its paths made. -/
theorem makeText_instanceOf (width : Nat) (posMode : Int) (place : Option Nat) :
    ∀ (cls : HtmlClass) (made : List CString → Bool), cls.Placed →
      (∀ path ∈ cls.paths, made path = true) →
      (instanceOf made posMode place cls).makeText width = .ok cls.fullText
  | .mk name content position children, made, placed, all => by
      have visible : (HtmlClass.mk name content position children).getContent = [] ++ content :=
        List.takeWhile_eq_self_iff.mpr fun c member => decide_eq_true (placed.1 c member)
      have done : placeChildren width (instances made 0 children) ([] ++ content) 0
          ([] : CString).length = .ok ([] ++ Text.weave content 0 (pieces children)) :=
        placeChildren_instances width children made 0 0 [] content placed.2.1 placed.2.2 all
      rw [instanceOf, makeText, visible]
      exact Outcome.bind_eq_ok.mpr ⟨_, done, rfl⟩

theorem placeChildren_instances (width : Nat) :
    ∀ (classes : List HtmlClass) (made : List CString → Bool) (i last : Nat)
      (front left : CString), Text.Fits left last (pieces classes) → AllPlaced classes →
      (∀ path ∈ childPaths classes, made path = true) →
      placeChildren width (instances made i classes) (front ++ left) last front.length =
        .ok (front ++ Text.weave left last (pieces classes))
  | [], made, i, last, front, left, _, _, _ => by
      rw [instances, placeChildren, pieces, Text.weave]
  | cls :: rest, made, i, last, front, left, fits, placed, all => by
      have here : made [cls.name] = true := all _ (by rw [childPaths]; exact List.mem_cons_self)
      have text := makeText_instanceOf width classPos (some i) cls
        (fun path => made (cls.name :: path)) placed.1 fun path member => all _ (by
          rw [childPaths, List.cons_append]
          exact List.mem_cons_of_mem _ (List.mem_append_left _ (List.mem_map_of_mem member)))
      obtain ⟨after, inside, fits⟩ := fits
      have later := placeChildren_instances width rest made (i + 1) cls.position
        (front ++ left.take (cls.position - last) ++ cls.fullText)
        (left.drop (cls.position - last)) fits placed.2 fun path member => all _ (by
          rw [childPaths]
          exact List.mem_append_right _ member)
      have inserted : Text.insert (front ++ left) (front.length + (cls.position - last))
          cls.fullText = .ok (front ++ left.take (cls.position - last) ++ cls.fullText ++
            left.drop (cls.position - last)) := by
        have split := Text.insert_append (front ++ left.take (cls.position - last))
          (left.drop (cls.position - last)) cls.fullText
        rw [List.append_assoc, List.take_append_drop, List.length_append,
          List.length_take_of_le inside] at split
        exact split
      have length : (front ++ left.take (cls.position - last) ++ cls.fullText).length =
          front.length + (cls.position - last) + cls.fullText.length := by
        rw [List.length_append, List.length_append, List.length_take_of_le inside]
      have woven : Text.weave left last (pieces (cls :: rest)) =
          left.take (cls.position - last) ++ cls.fullText ++
            Text.weave (left.drop (cls.position - last)) cls.position (pieces rest) := by
        rw [pieces, Text.weave]
      rw [length] at later
      rw [instances, if_pos here, placeChildren, instanceOf_cls, instanceOf_posMode, woven,
        ← List.append_assoc, ← List.append_assoc]
      by_cases same : last = cls.position
      · rw [if_pos (.inl same), text, Outcome.ok_bind]
        rw [same, Nat.sub_self, Nat.add_zero] at inserted later
        rw [inserted, Outcome.ok_bind, same, Nat.sub_self]
        exact later
      · have other : ¬ (last = cls.position ∨ classPos = orderPos) :=
          not_or.mpr ⟨same, by decide⟩
        have place : sizeSub width (front.length + cls.position) last =
            front.length + (cls.position - last) := by
          rw [sizeSub, if_pos (by omega)]
          omega
        rw [if_neg other, place]
        simp only
        rw [text, Outcome.ok_bind, inserted, Outcome.ok_bind]
        exact later

end

/-! ## Making a path -/

/-- One more path is made. -/
def mark (made : List CString → Bool) (path : List CString) : List CString → Bool :=
  fun other => made other || decide (other = path)

/-- A path is made only behind the object that it starts from. -/
def Closed (made : List CString → Bool) : Prop :=
  ∀ path name, made (path ++ [name]) = true → path = [] ∨ made path = true

theorem Closed.first (closed : Closed made) {name : CString} {path : List CString}
    (there : made (name :: path) = true) : made [name] = true := by
  induction path using List.reverseRecOn with
  | nil => exact there
  | append_singleton path last ih =>
      rcases closed (name :: path) last there with absurd | before
      · cases absurd
      · exact ih before

theorem Closed.below (closed : Closed made) (name : CString) :
    Closed fun path => made (name :: path) := by
  intro path last there
  exact (closed (name :: path) last there).imp_left nofun

mutual

/-- An instance depends on its paths only. -/
theorem instanceOf_congr (posMode : Int) (place : Option Nat) :
    ∀ (cls : HtmlClass) (made made' : List CString → Bool),
      (∀ path, path ≠ [] → made path = made' path) →
      instanceOf made posMode place cls = instanceOf made' posMode place cls
  | .mk name content position children, made, made', same => by
      rw [instanceOf, instanceOf, instances_congr 0 children made made'
        fun child _ path => same (child.name :: path) (List.cons_ne_nil _ _)]

/-- Instances depend on the paths through them only. -/
theorem instances_congr (i : Nat) :
    ∀ (classes : List HtmlClass) (made made' : List CString → Bool),
      (∀ child ∈ classes, ∀ path, made (child.name :: path) = made' (child.name :: path)) →
      instances made i classes = instances made' i classes
  | [], made, made', _ => rfl
  | cls :: rest, made, made', same => by
      have here := instanceOf_congr classPos (some i) cls (fun path => made (cls.name :: path))
        (fun path => made' (cls.name :: path)) fun path _ => same cls List.mem_cons_self path
      have later := instances_congr (i + 1) rest made made' fun child member =>
        same child (List.mem_cons_of_mem _ member)
      rw [instances, instances, here, later, same cls List.mem_cons_self []]

end

theorem instances_append (made : List CString → Bool) (i : Nat) (front back : List HtmlClass) :
    instances made i (front ++ back) =
      instances made i front ++ instances made (i + front.length) back := by
  induction front generalizing i with
  | nil => rfl
  | cons cls front ih =>
      rw [List.cons_append, instances, instances, ih, List.length_cons, Nat.add_right_comm,
        Nat.add_assoc]
      split
      · rw [List.cons_append]
      · rfl

theorem instances_none (i : Nat) {classes : List HtmlClass}
    (none : ∀ child ∈ classes, made [child.name] = false) : instances made i classes = [] := by
  induction classes generalizing i with
  | nil => rfl
  | cons cls rest ih =>
      rw [instances, if_neg (Bool.eq_false_iff.mp (none cls List.mem_cons_self))]
      exact ih (i + 1) fun child member => none child (List.mem_cons_of_mem _ member)

/-- The classes that a path does not go through keep their instances. -/
theorem instances_mark (i : Nat) {classes : List HtmlClass} {name : CString} {path : List CString}
    (different : ∀ other ∈ classes, other.name ≠ name) :
    instances (mark made (name :: path)) i classes = instances made i classes := by
  refine instances_congr i classes _ _ fun other among rest => ?_
  rw [mark, Bool.or_eq_left_iff_imp, decide_eq_true_eq]
  exact fun same => absurd (List.cons.inj same).1 (different other among)

/-- What an instance among siblings is. -/
theorem mem_instances {i : Nat} {classes : List HtmlClass} {o : HtmlObject}
    (member : o ∈ instances made i classes) : o.posMode = classPos ∧ o.cls ∈ classes ∧
      ∃ j, o.place = some j ∧ i ≤ j ∧ j < i + classes.length := by
  induction classes generalizing i with
  | nil => cases member
  | cons cls rest ih =>
      have later (member : o ∈ instances made (i + 1) rest) : o.posMode = classPos ∧
          o.cls ∈ cls :: rest ∧ ∃ j, o.place = some j ∧ i ≤ j ∧ j < i + (cls :: rest).length := by
        obtain ⟨mode, among, j, place, above, below⟩ := ih member
        rw [List.length_cons]
        exact ⟨mode, List.mem_cons_of_mem _ among, j, place, by omega, by omega⟩
      rw [instances] at member
      split at member
      · rcases List.mem_cons.mp member with rfl | member
        · rw [instanceOf_posMode, instanceOf_cls, instanceOf_place, List.length_cons]
          exact ⟨rfl, List.mem_cons_self, i, rfl, le_rfl, by omega⟩
        · exact later member
      · exact later member

/-- A child goes between the children of earlier classes and those of later ones. -/
theorem insertChild_between {child : HtmlObject} {place : Nat} (own : child.place = some place)
    {front back : List HtmlObject}
    (before : ∀ o ∈ front, o.posMode = classPos ∧ ∃ j, o.place = some j ∧ j < place)
    (behind : ∀ o ∈ back, o.posMode = classPos ∧ ∃ j, o.place = some j ∧ place < j)
    (curClass : Option Nat) :
    insertChild child curClass (front ++ back) = .ok (front ++ child :: back) := by
  have current {o : HtmlObject} (mode : o.posMode = classPos) (curClass : Option Nat) :
      (if o.place ≠ curClass ∧ o.posMode = classPos then o.place else curClass) = o.place := by
    by_cases same : o.place = curClass
    · rw [if_neg (fun different => different.1 same), same]
    · rw [if_pos ⟨same, mode⟩]
  induction front generalizing curClass with
  | nil =>
      cases back with
      | nil => rfl
      | cons o back =>
          obtain ⟨mode, j, other, above⟩ := behind o List.mem_cons_self
          have less : HtmlClass.compare child.place o.place = .ok (-1) := by
            rw [own, other, HtmlClass.compare, if_neg (by omega), if_pos above]
          rw [List.nil_append, insertChild]
          simp only [current mode, less, Outcome.ok_bind]
          rfl
  | cons o front ih =>
      obtain ⟨mode, j, other, below⟩ := before o List.mem_cons_self
      have more : HtmlClass.compare child.place o.place = .ok 1 := by
        rw [own, other, HtmlClass.compare, if_neg (by omega), if_neg (by omega)]
      have later := ih (fun o member => before o (List.mem_cons_of_mem _ member)) o.place
      rw [List.cons_append, insertChild]
      simp only [current mode, more, Outcome.ok_bind, later]
      rfl

/-- A class among its siblings. -/
theorem split_named {classes : List HtmlClass} (names : (classes.map HtmlClass.name).Nodup)
    {cls : HtmlClass} (member : cls ∈ classes) :
    ∃ front back, classes = front ++ cls :: back ∧ (∀ other ∈ front, other.name ≠ cls.name) ∧
      ∀ other ∈ back, other.name ≠ cls.name := by
  obtain ⟨front, back, rfl⟩ := List.append_of_mem member
  rw [List.map_append, List.map_cons, List.nodup_middle, List.nodup_cons, List.mem_append,
    not_or] at names
  refine ⟨front, back, rfl, fun other member same => ?_, fun other member same => ?_⟩
  · exact names.1.1 (same ▸ List.mem_map_of_mem member)
  · exact names.1.2 (same ▸ List.mem_map_of_mem member)

variable {children : List HtmlClass} {posMode : Int} {place : Option Nat}

theorem findChild_split {name content : CString} {position : Nat} {front back : List HtmlClass}
    {cls : HtmlClass} (before : ∀ other ∈ front, other.name ≠ cls.name) :
    (HtmlClass.mk name content position (front ++ cls :: back)).findChild cls.name =
      (cls, some front.length) := by
  have found : (front ++ cls :: back).findIdx? (·.name = cls.name) = some front.length := by
    rw [List.findIdx?_append, List.findIdx?_eq_none_iff.mpr fun other member =>
      decide_eq_false (before other member), Option.none_or, List.findIdx?_cons,
      if_pos (decide_eq_true rfl), Option.map_some, Nat.zero_add]
  rw [HtmlClass.findChild, HtmlClass.children, found]
  simp only [List.getD_eq_getElem?_getD, List.getElem?_append_right (le_refl front.length),
    Nat.sub_self, List.getElem?_cons_zero, Option.getD_some]

/-- `AddChild` in `class_pos` mode puts the child where the loop does. -/
theorem addChild_placed {o : HtmlObject} {className : CString} {childClass : HtmlClass}
    {placed : List HtmlObject} (named : o.cls.findChild className = (childClass, place))
    (inserted : ∀ curClass,
      insertChild (mk classPos childClass place [] []) curClass o.children = .ok placed) :
    o.addChild className classPos = .ok (o.withChildren placed) := by
  rw [addChild, if_neg (fun wrong => wrong.1 rfl), named]
  simp only [↓reduceIte]
  cases there : o.children with
  | nil =>
      have first := inserted none
      rw [there, insertChild] at first
      rw [Outcome.ok.inj first]
  | cons first rest =>
      simp only
      rw [← there, inserted, Outcome.ok_bind]

/-- `AddChild` on an instance makes the path of the child. -/
theorem addChild_instanceOf {cls child : HtmlClass} (names : (cls.children.map name).Nodup)
    (member : child ∈ cls.children) (closed : Closed made) (fresh : made [child.name] = false) :
    (instanceOf made posMode place cls).addChild child.name classPos =
      .ok (instanceOf (mark made [child.name]) posMode place cls) := by
  obtain ⟨front, back, split, before, behind⟩ := split_named names member
  obtain ⟨name, content, position, children⟩ := cls
  obtain rfl : children = front ++ child :: back := split
  have below : ∀ path, path ≠ [] → mark made [child.name] (child.name :: path) = false := by
    intro path nonempty
    rw [mark, Bool.or_eq_false_iff]
    refine ⟨Bool.eq_false_iff.mpr fun there => ?_, decide_eq_false fun same => ?_⟩
    · rw [closed.first there] at fresh
      cases fresh
    · exact nonempty (List.cons.inj same).2
  have own : instanceOf (fun path => mark made [child.name] (child.name :: path)) classPos
      (some front.length) child = mk classPos child (some front.length) [] [] := by
    obtain ⟨childName, childContent, childPosition, grandchildren⟩ := child
    rw [instanceOf, instances_none 0 fun grandchild _ => below [grandchild.name] (by simp)]
  have marked : mark made [child.name] [child.name] = true := by
    rw [mark, decide_eq_true rfl, Bool.or_true]
  have after : instances (mark made [child.name]) 0 (front ++ child :: back) =
      instances made 0 front ++ mk classPos child (some front.length) [] [] ::
        instances made (front.length + 1) back := by
    rw [instances_append, instances, if_pos marked, Nat.zero_add, own,
      instances_mark 0 before, instances_mark _ behind]
  have now : instances made 0 (front ++ child :: back) =
      instances made 0 front ++ instances made (front.length + 1) back := by
    rw [instances_append, instances, if_neg (Bool.eq_false_iff.mp fresh), Nat.zero_add]
  have inserted (curClass : Option Nat) : insertChild (mk classPos child (some front.length) [] [])
      curClass (instances made 0 (front ++ child :: back)) =
        .ok (instances (mark made [child.name]) 0 (front ++ child :: back)) := by
    rw [now, after]
    refine insertChild_between rfl (fun o among => ?_) (fun o among => ?_) curClass
    · obtain ⟨mode, -, j, here, -, below⟩ := mem_instances among
      exact ⟨mode, j, here, by omega⟩
    · obtain ⟨mode, -, j, here, above, -⟩ := mem_instances among
      exact ⟨mode, j, here, above⟩
  rw [addChild_placed ((congrArg (findChild · child.name) (instanceOf_cls _ _ _)).trans
    (findChild_split before)) (by rw [instanceOf_children]; exact inserted)]
  rfl

/-- A call on the child of a class changes its instance. -/
theorem modifyChild_split {className : CString} {change : HtmlObject → Outcome HtmlError HtmlObject}
    {front back : List HtmlObject} {o o' : HtmlObject}
    (before : ∀ other ∈ front, other.cls.name ≠ className) (named : o.cls.name = className)
    (changed : change o = .ok o') :
    modifyChild className change (front ++ o :: back) = .ok (front ++ o' :: back) := by
  induction front with
  | nil => rw [List.nil_append, modifyChild, if_pos named, changed, Outcome.ok_bind, List.nil_append]
  | cons other front ih =>
      rw [List.cons_append, modifyChild, if_neg (before other List.mem_cons_self),
        ih fun o among => before o (List.mem_cons_of_mem _ among), Outcome.ok_bind,
        List.cons_append]

/-- A call of `AddChild` makes the path of the class that it is for. -/
theorem addAt_instanceOf {className : CString} {path : List CString} {cls : HtmlClass}
    (distinct : cls.DistinctNames) (closed : Closed made)
    (known : path ++ [className] ∈ cls.paths) (there : path = [] ∨ made path = true)
    (fresh : made (path ++ [className]) = false) :
    addAt path className (instanceOf made posMode place cls) =
      .ok (instanceOf (mark made (path ++ [className])) posMode place cls) := by
  induction path generalizing made posMode place cls with
  | nil =>
      obtain ⟨name, content, position, children⟩ := cls
      obtain ⟨child, member, is | ⟨rest, -, is⟩⟩ := mem_childPaths.mp known
      · obtain rfl : className = child.name := (List.cons.inj is).1
        exact addChild_instanceOf distinct.1 member closed fresh
      · obtain rfl : child.name = className := (List.cons.inj is).1
        exact addChild_instanceOf distinct.1 member closed fresh
  | cons first path ih =>
      obtain ⟨name, content, position, children⟩ := cls
      obtain ⟨child, member, is | ⟨rest, known, is⟩⟩ := mem_childPaths.mp known
      · exact absurd (List.cons.inj is).2 (by simp)
      · obtain ⟨rfl, rfl⟩ := List.cons.inj is
        obtain ⟨front, back, split, before, behind⟩ := split_named distinct.1 member
        have made_first : made [child.name] = true := closed.first (there.resolve_left nofun)
        have below : path = [] ∨ made (child.name :: path) = true :=
          .inr (there.resolve_left nofun)
        have marked : mark made (child.name :: path ++ [className]) [child.name] = true := by
          rw [mark, made_first, Bool.true_or]
        have same : (fun rest => mark made (child.name :: path ++ [className]) (child.name :: rest)) =
            mark (fun rest => made (child.name :: rest)) (path ++ [className]) := by
          funext rest
          simp only [mark, List.cons_append, List.cons.injEq, true_and]
        have inner : addAt path className (instanceOf (fun rest => made (child.name :: rest))
            classPos (some front.length) child) = .ok (instanceOf
              (mark (fun rest => made (child.name :: rest)) (path ++ [className])) classPos
              (some front.length) child) :=
          ih (distinct.2.of_mem member) (closed.below child.name) known below fresh
        have now : instances made 0 children = instances made 0 front ++
            instanceOf (fun rest => made (child.name :: rest)) classPos (some front.length) child ::
              instances made (front.length + 1) back := by
          rw [split, instances_append, instances, if_pos made_first, Nat.zero_add]
        have after : instances (mark made (child.name :: path ++ [className])) 0 children =
            instances made 0 front ++ instanceOf
              (mark (fun rest => made (child.name :: rest)) (path ++ [className])) classPos
              (some front.length) child :: instances made (front.length + 1) back := by
          rw [split, instances_append, instances, if_pos marked, Nat.zero_add, same,
            List.cons_append, instances_mark 0 before, instances_mark _ behind]
        have changed : modifyChild child.name (addAt path className) (instances made 0 children) =
            .ok (instances (mark made (child.name :: path ++ [className])) 0 children) := by
          rw [now, after]
          exact modifyChild_split (fun o among => before _ (mem_instances among).2.1)
            (congrArg HtmlClass.name (instanceOf_cls _ _ _)) inner
        rw [addAt, instanceOf_children, HtmlClass.children, changed, Outcome.ok_bind]
        rfl

/-! ## Calls in any order -/

/-- The path that a call makes. -/
def callPath (call : List CString × CString) : List CString := call.1 ++ [call.2]

/-- Every class is instantiated once, under its own parent, which is there by then. -/
structure OnceEach (cls : HtmlClass) (calls : List (List CString × CString)) : Prop where
  nodup : (calls.map callPath).Nodup
  all : ∀ path, path ∈ calls.map callPath ↔ path ∈ cls.paths
  parents : ∀ before call after, calls = before ++ call :: after →
    call.1 = [] ∨ call.1 ∈ before.map callPath

/-- The paths that calls have made. -/
def madeBy (calls : List (List CString × CString)) : List CString → Bool :=
  fun path => decide (path ∈ calls.map callPath)

variable {cls : HtmlClass} {calls : List (List CString × CString)}

theorem OnceEach.closed (once : OnceEach cls calls) {before after : List (List CString × CString)}
    (split : calls = before ++ after) : Closed (madeBy before) := by
  intro path name there
  obtain ⟨call, member, is⟩ := List.mem_map.mp (of_decide_eq_true there)
  obtain ⟨first, second, rfl⟩ := List.append_of_mem member
  rw [List.append_assoc] at split
  obtain ⟨rfl, -⟩ := List.append_inj' is rfl
  refine (once.parents first call _ split).imp_right fun earlier => decide_eq_true ?_
  rw [List.map_append]
  exact List.mem_append_left _ earlier

theorem mark_madeBy (before : List (List CString × CString)) (call : List CString × CString) :
    mark (madeBy before) (callPath call) = madeBy (before ++ [call]) := by
  funext path
  rw [mark, madeBy, madeBy, ← Bool.decide_or, List.map_append, decide_eq_decide, List.mem_append,
    List.map_cons, List.map_nil, List.mem_singleton]

theorem OnceEach.addAll_eq (once : OnceEach cls calls) (distinct : cls.DistinctNames) :
    ∀ after before : List (List CString × CString), calls = before ++ after →
      addAll after (instanceOf (madeBy before) 0 none cls) =
        .ok (instanceOf (madeBy calls) 0 none cls)
  | [], before, split => by rw [split, List.append_nil, addAll]
  | (path, className) :: after, before, split => by
      have known : path ++ [className] ∈ cls.paths := by
        rw [← once.all, split, List.map_append]
        exact List.mem_append_right _ List.mem_cons_self
      have fresh : madeBy before (path ++ [className]) = false := by
        have nodup := once.nodup
        rw [split, List.map_append, List.map_cons, List.nodup_middle, List.nodup_cons,
          List.mem_append, not_or] at nodup
        exact decide_eq_false nodup.1.1
      have there := (once.parents before (path, className) after split).imp_right
        fun earlier => decide_eq_true earlier
      rw [addAll, addAt_instanceOf distinct (once.closed split) known there fresh, Outcome.ok_bind,
        show path ++ [className] = callPath (path, className) from rfl, mark_madeBy]
      refine once.addAll_eq distinct after (before ++ [(path, className)]) ?_
      rw [split, List.append_assoc, List.singleton_append]

/-- The text does not depend on the order of the calls. -/
theorem OnceEach.makeText (once : OnceEach cls calls) (distinct : cls.DistinctNames)
    (placed : cls.Placed) (width : Nat) : ∃ o, addAll calls (root cls) = .ok o ∧
      o.makeText width = .ok cls.fullText := by
  have start : root cls = instanceOf (madeBy []) 0 none cls := by
    obtain ⟨name, content, position, children⟩ := cls
    rw [root, instanceOf, instances_none 0 fun _ _ => decide_eq_false List.not_mem_nil]
  refine ⟨_, start ▸ once.addAll_eq distinct calls [] rfl, ?_⟩
  exact makeText_instanceOf width 0 none cls _ placed fun path member =>
    decide_eq_true ((once.all path).mpr member)

end HtmlObject

end Cube.Eco
