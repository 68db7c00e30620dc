import Mathlib.Data.List.TakeWhile
import Cube.Eco.Web.Json

/-! # Where children and values belong

The expected text of an object has the children of each class at the place of the class in the
content. They are blocks there, and so are the values that were set: a property is only looked for
in the characters of the content itself.
-/

namespace Cube.Eco.JsonObject

open JsonClass

/-- A character of the content, or a text that came in its place. -/
inductive Item where
  | own (c : Char)
  | block (text : CString)
  deriving DecidableEq

/-- The text of items. -/
def flatten : List Item → CString
  | [] => []
  | .own c :: items => c :: flatten items
  | .block text :: items => text ++ flatten items

/-- Texts with commas between them. -/
def joined : List CString → CString
  | [] => []
  | text :: texts => text ++ texts.flatMap (',' :: ·)

/-- The instances of the classes at a place of the content, with the texts of all children in the
order in which they were added. -/
def blocksAt (cls : JsonClass) (texts : List (CString × CString)) (place : Nat) : List Item :=
  (cls.children.map name).dedup.filterMap fun className =>
    let instances := (texts.filter (·.1 = className)).map (·.2)
    if (cls.findChild className).map parentPos = some place ∧ instances ≠ [] then
      some (.block (joined instances))
    else none

/-- The content from a place on, with the children. -/
def placed (cls : JsonClass) (texts : List (CString × CString)) : Nat → CString → List Item
  | place, [] => blocksAt cls texts place
  | place, c :: rest => blocksAt cls texts place ++ .own c :: placed cls texts (place + 1) rest

/-- The values of properties of the content itself. -/
def setOwnValues (items : List Item) : NameMap → Outcome JsonError (List Item)
  | [] => .ok items
  | (name, value) :: rest => do
      let key := (quoted name).map Item.own
      setOwnValues (← replaceValue (.own '"') key [.block value] items) rest

mutual

/-- The text that an object should have. -/
def expected : JsonObject → Outcome JsonError CString
  | mk cls objNames propValues children => do
      let texts ← expectedTexts children
      let items ← setOwnValues (placed cls texts 0 cls.content) propValues
      .ok (replaceNames (flatten items) objNames)

/-- The texts of children, with the names of their classes. -/
def expectedTexts : List JsonObject → Outcome JsonError (List (CString × CString))
  | [] => .ok []
  | child :: rest => do
      let childText ← child.expected
      let texts ← expectedTexts rest
      .ok ((child.cls.name, childText) :: texts)

end

mutual

/-- Every child has the class that its parent's class has under this name. -/
def Built : JsonObject → Prop
  | mk cls _ _ children =>
      (∀ child ∈ children, cls.findChild child.cls.name = some child.cls) ∧ AllBuilt children

def AllBuilt : List JsonObject → Prop
  | [] => True
  | child :: rest => child.Built ∧ AllBuilt rest

end

/-- The children were added in the order of the places of their classes, which are different, behind
the start of the content and inside it. -/
structure InOrder (content : CString) (children : List JsonObject) : Prop where
  sorted : (children.map fun child => child.cls.parentPos).Pairwise (· ≤ ·)
  inside : ∀ child ∈ children, 0 < child.cls.parentPos ∧ child.cls.parentPos ≤ content.length
  apart : ∀ child ∈ children, ∀ other ∈ children, child.cls.parentPos = other.cls.parentPos →
    child.cls.name = other.cls.name

/-- In turn, each property has a quoted value in the content, with no child inside, and its key is
nowhere in the text in front of it. -/
def PropertiesFirst (items : List Item) : NameMap → Prop
  | [] => True
  | (name, value) :: rest =>
      ∃ front between old back,
        items = front ++ (quoted name ++ between ++ '"' :: (old ++ ['"'])).map Item.own ++ back ∧
        '"' ∉ between ∧ '"' ∉ old ∧
        (∀ j < (flatten front).length, ¬ Text.StandsAt (quoted name) (flatten items) j) ∧
        PropertiesFirst
          (front ++ (quoted name ++ between).map Item.own ++ .block value :: back) rest

mutual

/-- An object whose children and values come where they belong. -/
def Orderly : JsonObject → Prop
  | mk cls _ propValues children =>
      (∀ c ∈ cls.content, c ≠ nul) ∧ InOrder cls.content children ∧ AllOrderly children ∧
        ∀ texts, expectedTexts children = .ok texts →
          PropertiesFirst (placed cls texts 0 cls.content) propValues

def AllOrderly : List JsonObject → Prop
  | [] => True
  | child :: rest => child.Orderly ∧ AllOrderly rest

end

/-! ## Values -/

@[simp] theorem flatten_append (front back : List Item) :
    flatten (front ++ back) = flatten front ++ flatten back := by
  induction front with
  | nil => rfl
  | cons item front ih =>
      cases item with
      | own c => rw [List.cons_append, flatten, flatten, ih, List.cons_append]
      | block text => rw [List.cons_append, flatten, flatten, ih, List.append_assoc]

@[simp] theorem flatten_own (chars : CString) : flatten (chars.map Item.own) = chars := by
  induction chars with
  | nil => rfl
  | cons c chars ih => rw [List.map_cons, flatten, ih]

section Replace

variable {α : Type} [DecidableEq α] {quote : α} {key value front between old back : List α}

theorem findFrom_gap (front : List α) {gap : List α} (plain : quote ∉ gap) (back : List α) :
    Text.findFrom [quote] (front ++ (gap ++ quote :: back)) front.length =
      some (front.length + gap.length) := by
  refine Text.findFrom_eq_some.mpr ⟨Nat.le_add_right .., ?_, ?_, fun q behind small stands => ?_⟩
  · rw [List.length_append, List.length_append]
    omega
  · rw [Text.standsAt_append]
    exact Text.standsAt_here gap [quote] back
  · obtain ⟨offset, rfl⟩ := Nat.exists_eq_add_of_le behind
    rw [Text.standsAt_append] at stands
    have here := stands.get Nat.zero_lt_one
    rw [Nat.add_zero, List.getElem?_append_left (by omega)] at here
    exact plain (List.mem_of_getElem? here)

/-- The value behind the first place of a key is replaced. -/
theorem replaceValue_eq (first : ∀ j < front.length,
      ¬ Text.StandsAt key (front ++ (key ++ (between ++ quote :: (old ++ quote :: back)))) j)
    (plain : quote ∉ between) (plain_old : quote ∉ old) :
    replaceValue quote key value (front ++ (key ++ (between ++ quote :: (old ++ quote :: back)))) =
      .ok (front ++ (key ++ (between ++ (value ++ back)))) := by
  have found : Text.find key (front ++ (key ++ (between ++ quote :: (old ++ quote :: back)))) =
      some front.length := by
    refine Text.find_eq_some.mpr ⟨?_, Text.standsAt_here .., first⟩
    rw [List.length_append]
    exact Nat.le_add_right ..
  have first_quote := findFrom_gap (front ++ key) plain (old ++ quote :: back)
  rw [List.append_assoc, List.length_append] at first_quote
  have second_quote := findFrom_gap (front ++ key ++ between ++ [quote]) plain_old back
  rw [List.append_assoc, List.append_assoc, List.append_assoc, List.singleton_append,
    List.length_append, List.length_append, List.length_append, List.length_singleton]
    at second_quote
  have replaced := Text.replace_append (front ++ key ++ between) (quote :: (old ++ [quote])) back
    value
  have size : front.length + key.length + between.length + 1 + old.length -
      (front.length + key.length + between.length) + 1 = (quote :: (old ++ [quote])).length := by
    rw [List.length_cons, List.length_append, List.length_singleton]
    omega
  simp only [List.append_assoc, List.cons_append, List.nil_append] at replaced
  rw [show (front ++ (key ++ between)).length = front.length + key.length + between.length by
    rw [List.length_append, List.length_append, Nat.add_assoc]] at replaced
  rw [replaceValue, found]
  simp only [first_quote, second_quote, size]
  rw [replaced]
  rfl

end Replace

/-- A key of own characters stands where it stands in the text. -/
theorem standsAt_flatten {key : CString} {items : List Item} {place : Nat}
    (stands : Text.StandsAt (key.map Item.own) items place) :
    Text.StandsAt key (flatten items) (flatten (items.take place)).length := by
  have split := stands.split
  have text : flatten items = flatten (items.take place) ++
      (key ++ flatten (items.drop (place + (key.map Item.own).length))) := by
    rw [← flatten_own key, ← flatten_append, ← flatten_append, flatten_own, ← split,
      List.take_append_drop]
  rw [text]
  exact Text.standsAt_here ..

theorem flatten_take_lt {front : List Item} {c : Char} {place : Nat}
    (here : front[place]? = some (.own c)) :
    (flatten (front.take place)).length < (flatten front).length := by
  obtain ⟨inside, same⟩ := List.getElem?_eq_some_iff.mp here
  have split : front = front.take place ++ .own c :: front.drop (place + 1) := by
    rw [← same, ← List.drop_eq_getElem_cons inside, List.take_append_drop]
  conv_rhs => rw [split]
  rw [flatten_append, List.length_append, flatten, List.length_cons]
  omega

theorem flatten_value (front : List Item) (key between old : CString) (back : List Item) :
    flatten (front ++ (key ++ between ++ '"' :: (old ++ ['"'])).map Item.own ++ back) =
      flatten front ++ (key ++ (between ++ '"' :: (old ++ '"' :: flatten back))) := by
  rw [flatten_append, flatten_append, flatten_own]
  simp only [List.append_assoc, List.cons_append, List.nil_append]

/-- The values are set in the text where they are set in the content. -/
theorem setValues_eq {items : List Item} {propValues : NameMap}
    (properties : PropertiesFirst items propValues) :
    ∃ items', setOwnValues items propValues = .ok items' ∧
      setValues (flatten items) propValues = .ok (flatten items') := by
  induction propValues generalizing items with
  | nil => exact ⟨items, rfl, rfl⟩
  | cons property rest ih =>
      obtain ⟨name, value⟩ := property
      obtain ⟨front, between, old, back, rfl, plain, plain_old, first, later⟩ := properties
      obtain ⟨items', own, set⟩ := ih later
      refine ⟨items', ?_, ?_⟩
      · have own_plain {gap : CString} (plain : '"' ∉ gap) :
            Item.own '"' ∉ gap.map Item.own := by
          intro member
          obtain ⟨c, member, same⟩ := List.mem_map.mp member
          exact plain (Item.own.inj same ▸ member)
        have spread : front ++ (quoted name ++ between ++ '"' :: (old ++ ['"'])).map Item.own ++
            back = front ++ ((quoted name).map Item.own ++ (between.map Item.own ++
              .own '"' :: (old.map Item.own ++ .own '"' :: back))) := by
          simp only [List.map_append, List.map_cons, List.map_nil, List.append_assoc,
            List.cons_append, List.nil_append]
        have own_first : ∀ j < front.length, ¬ Text.StandsAt ((quoted name).map Item.own)
            (front ++ ((quoted name).map Item.own ++ (between.map Item.own ++
              .own '"' :: (old.map Item.own ++ .own '"' :: back)))) j := by
          intro j small stands
          have some_key : 0 < ((quoted name).map Item.own).length := by
            rw [List.length_map]
            exact Nat.succ_pos _
          have here := stands.get some_key
          rw [Nat.add_zero, List.getElem?_append_left small] at here
          have before := standsAt_flatten stands
          rw [List.take_append_of_le_length small.le, ← spread] at before
          exact first _ (flatten_take_lt here) before
        have replaced := @replaceValue_eq _ _ _ _ [Item.block value] _ _ _ _ own_first
          (own_plain plain) (own_plain plain_old)
        rw [setOwnValues, spread, replaced, Outcome.ok_bind, ← own, List.map_append,
          List.append_assoc, List.append_assoc]
        rfl
      · rw [flatten_value] at first ⊢
        rw [setValues, replaceValue_eq first plain plain_old, Outcome.ok_bind, ← set,
          flatten_append, flatten_append, flatten_own, flatten, List.append_assoc,
          List.append_assoc]

/-! ## Children -/

theorem filterMap_single {α β : Type} {items : List α} (nodup : items.Nodup) {f : α → Option β}
    (item : α) (member : item ∈ items) {value : β} (here : f item = some value)
    (others : ∀ other ∈ items, other ≠ item → f other = none) : items.filterMap f = [value] := by
  obtain ⟨front, back, rfl⟩ := List.append_of_mem member
  rw [List.nodup_middle, List.nodup_cons, List.mem_append, not_or] at nodup
  have front_none : front.filterMap f = [] := List.filterMap_eq_nil_iff.mpr fun other among =>
    others other (List.mem_append_left _ among) fun same => nodup.1.1 (same ▸ among)
  have back_none : back.filterMap f = [] := List.filterMap_eq_nil_iff.mpr fun other among =>
    others other (List.mem_append_right _ (List.mem_cons_of_mem _ among))
      fun same => nodup.1.2 (same ▸ among)
  rw [List.filterMap_append, List.filterMap_cons_some here, front_none, back_none,
    List.nil_append]

theorem mem_of_findChild {cls child : JsonClass} {className : CString}
    (found : cls.findChild className = some child) :
    child ∈ cls.children ∧ child.name = className := by
  rw [findChild] at found
  have is := List.find?_some found
  exact ⟨List.mem_of_find?_eq_some found, of_decide_eq_true is⟩

/-- The place of the class with a name. -/
def placeOf (cls : JsonClass) (className : CString) : Nat :=
  ((cls.findChild className).map parentPos).getD 0

/-- The texts at a place, in the order in which they were added. -/
def textsAt (cls : JsonClass) (texts : List (CString × CString)) (place : Nat) : List CString :=
  (texts.filter fun text => placeOf cls text.1 = place).map (·.2)

/-- Texts of children that have their classes, at different places. -/
structure Known (cls : JsonClass) (texts : List (CString × CString)) : Prop where
  named : ∀ text ∈ texts, ∃ child, cls.findChild text.1 = some child
  apart : ∀ text ∈ texts, ∀ other ∈ texts, placeOf cls text.1 = placeOf cls other.1 →
    text.1 = other.1

theorem Known.tail {cls : JsonClass} {text : CString × CString} {texts : List (CString × CString)}
    (known : Known cls (text :: texts)) : Known cls texts :=
  ⟨fun text member => known.named text (List.mem_cons_of_mem _ member), fun text member other among =>
    known.apart text (List.mem_cons_of_mem _ member) other (List.mem_cons_of_mem _ among)⟩

theorem placeOf_eq {cls child : JsonClass} {className : CString}
    (found : cls.findChild className = some child) : placeOf cls className = child.parentPos := by
  rw [placeOf, found]
  rfl

variable {cls : JsonClass} {texts : List (CString × CString)}

/-- At a place there are the texts of its class, with commas between them. -/
theorem Known.blocksAt_eq (known : Known cls texts) (place : Nat) :
    flatten (blocksAt cls texts place) = joined (textsAt cls texts place) := by
  -- A class with an instance at the place has all the texts there.
  have instance_of {className : CString}
      (here : (cls.findChild className).map parentPos = some place ∧
        (texts.filter (·.1 = className)).map (·.2) ≠ []) :
      ∃ text ∈ texts, text.1 = className ∧ placeOf cls text.1 = place := by
    obtain ⟨text, member⟩ := List.exists_mem_of_ne_nil _ (mt List.map_eq_nil_iff.mpr here.2)
    obtain ⟨member, same⟩ := List.mem_filter.mp member
    have same := of_decide_eq_true same
    exact ⟨text, member, same, by rw [same, placeOf, here.1, Option.getD_some]⟩
  by_cases none : textsAt cls texts place = []
  · have empty : blocksAt cls texts place = [] := by
      refine List.filterMap_eq_nil_iff.mpr fun className _ => if_neg fun here => ?_
      obtain ⟨text, member, -, at_place⟩ := instance_of here
      have among : text ∈ texts.filter fun text => placeOf cls text.1 = place :=
        List.mem_filter.mpr ⟨member, decide_eq_true at_place⟩
      rw [List.map_eq_nil_iff.mp none] at among
      cases among
    rw [empty, none]
    rfl
  · obtain ⟨text, member⟩ := List.exists_mem_of_ne_nil _ (mt List.map_eq_nil_iff.mpr none)
    obtain ⟨member, at_place⟩ := List.mem_filter.mp member
    have at_place := of_decide_eq_true at_place
    obtain ⟨child, found⟩ := known.named text member
    have same : (texts.filter fun other => placeOf cls other.1 = place) =
        texts.filter (·.1 = text.1) := by
      refine List.filter_congr fun other among => ?_
      rw [decide_eq_decide, ← at_place]
      exact ⟨fun same => known.apart other among text member same, fun same => by rw [same]⟩
    have single : blocksAt cls texts place = [.block (joined (textsAt cls texts place))] := by
      refine filterMap_single (List.nodup_dedup _) text.1 ?_ ?_ ?_
      · rw [List.mem_dedup]
        obtain ⟨there, is⟩ := mem_of_findChild found
        exact is ▸ List.mem_map_of_mem there
      · rw [textsAt, same]
        refine if_pos ⟨?_, ?_⟩
        · rw [found, Option.map_some, ← placeOf_eq found, at_place]
        · rw [← same]
          exact none
      · intro className _ other
        refine if_neg fun here => other ?_
        obtain ⟨text', member', is, at_place'⟩ := instance_of here
        rw [← is]
        exact known.apart text' member' text member (at_place'.trans at_place.symm)
    rw [single, flatten, flatten, List.append_nil]

/-- What the loop of `MakeText` makes of the content that is left. -/
def walk (cls : JsonClass) : CString → Nat → List (CString × CString) → CString
  | left, _, [] => left
  | left, last, (className, text) :: texts =>
      if last = placeOf cls className then ',' :: text ++ walk cls left last texts
      else
        left.take (placeOf cls className - last) ++ text ++
          walk cls (left.drop (placeOf cls className - last)) (placeOf cls className) texts

/-- The content behind a place, with the children. -/
def behind (cls : JsonClass) (texts : List (CString × CString)) (place : Nat) : CString → CString
  | [] => []
  | c :: rest => c :: flatten (placed cls texts (place + 1) rest)

theorem flatten_placed (place : Nat) (content : CString) :
    flatten (placed cls texts place content) =
      flatten (blocksAt cls texts place) ++ behind cls texts place content := by
  cases content with
  | nil => rw [placed, behind, List.append_nil]
  | cons c rest => rw [placed, flatten_append, flatten, behind]

/-- Places without children are passed over. -/
theorem behind_eq {last gap : Nat} {left : CString} (positive : 0 < gap) (inside : gap ≤ left.length)
    (empty : ∀ place, last < place → place < last + gap →
      flatten (blocksAt cls texts place) = []) :
    behind cls texts last left =
      left.take gap ++ flatten (placed cls texts (last + gap) (left.drop gap)) := by
  induction gap generalizing last left with
  | zero => cases positive
  | succ gap ih =>
      cases left with
      | nil => cases inside
      | cons c left =>
          rw [behind, List.take_succ_cons, List.drop_succ_cons, List.cons_append]
          congr 1
          rcases Nat.eq_zero_or_pos gap with rfl | positive
          · rfl
          · rw [flatten_placed, empty (last + 1) (by omega) (by omega), List.nil_append,
              ih positive (Nat.le_of_succ_le_succ inside)
                fun place above below => empty place (by omega) (by omega), Nat.add_assoc,
              Nat.add_comm 1]

theorem behind_plain {last : Nat} {left : CString}
    (empty : ∀ place, last < place → flatten (blocksAt cls texts place) = []) :
    behind cls texts last left = left := by
  induction left generalizing last with
  | nil => rfl
  | cons c left ih =>
      rw [behind, flatten_placed, empty (last + 1) (by omega), List.nil_append,
        ih fun place above => empty place (by omega)]

theorem textsAt_cons_self {className text : CString} {place : Nat}
    (here : placeOf cls className = place) :
    textsAt cls ((className, text) :: texts) place = text :: textsAt cls texts place := by
  rw [textsAt, List.filter_cons, if_pos (decide_eq_true here), List.map_cons]
  rfl

theorem textsAt_cons_ne {className text : CString} {place : Nat}
    (other : placeOf cls className ≠ place) :
    textsAt cls ((className, text) :: texts) place = textsAt cls texts place := by
  rw [textsAt, List.filter_cons, if_neg (by rw [decide_eq_true_eq]; exact other)]
  rfl

theorem textsAt_eq_nil {place : Nat} (none : ∀ text ∈ texts, placeOf cls text.1 ≠ place) :
    textsAt cls texts place = [] := by
  rw [textsAt, List.map_eq_nil_iff, List.filter_eq_nil_iff]
  intro text member here
  exact none text member (of_decide_eq_true here)

/-- The loop puts texts in the order of their places where they belong. -/
theorem walk_eq {all rest : List (CString × CString)} {left : CString} {last : Nat}
    (sorted : (rest.map fun text => placeOf cls text.1).Pairwise (· ≤ ·))
    (inside : ∀ text ∈ rest, last ≤ placeOf cls text.1 ∧ placeOf cls text.1 ≤ last + left.length)
    (later : ∀ place, last < place →
      flatten (blocksAt cls all place) = joined (textsAt cls rest place)) :
    walk cls left last rest =
      (textsAt cls rest last).flatMap (',' :: ·) ++ behind cls all last left := by
  induction rest generalizing left last with
  | nil =>
      rw [walk, behind_plain later]
      rfl
  | cons head rest ih =>
      obtain ⟨className, text⟩ := head
      rw [List.map_cons, List.pairwise_cons] at sorted
      obtain ⟨after, within⟩ : last ≤ placeOf cls className ∧
          placeOf cls className ≤ last + left.length := inside _ List.mem_cons_self
      have above : ∀ other ∈ rest, placeOf cls className ≤ placeOf cls other.1 :=
        fun other member => sorted.1 _ (List.mem_map_of_mem member)
      have others : ∀ other ∈ rest, placeOf cls other.1 ≤ last + left.length :=
        fun other member => (inside other (List.mem_cons_of_mem _ member)).2
      have passed {place : Nat} (before : placeOf cls className ≠ place) :
          textsAt cls ((className, text) :: rest) place = textsAt cls rest place :=
        textsAt_cons_ne before
      by_cases same : last = placeOf cls className
      · have following := ih sorted.2 (fun other member => ⟨same ▸ above other member,
          others other member⟩) fun place behind => by rw [later place behind, passed (by omega)]
        rw [walk, if_pos same, following, textsAt_cons_self same.symm, List.flatMap_cons,
          List.append_assoc]
      · have positive : 0 < placeOf cls className - last := by omega
        have gap : last + (placeOf cls className - last) = placeOf cls className := by omega
        have none_before {place : Nat} (before : place < placeOf cls className) :
            textsAt cls ((className, text) :: rest) place = [] := by
          refine textsAt_eq_nil fun other member => ?_
          rcases List.mem_cons.mp member with rfl | member
          · exact Nat.ne_of_gt before
          · exact Nat.ne_of_gt (before.trans_le (above other member))
        have following := @ih (left.drop (placeOf cls className - last)) _ sorted.2
          (fun other member => ⟨above other member, by
            have := others other member
            rw [List.length_drop]
            omega⟩)
          fun place behind => by rw [later place (by omega), passed (by omega)]
        have apart := @behind_eq cls all _ _ left positive (by omega)
          fun place behind before => by
            rw [later place behind, none_before (by omega)]
            rfl
        rw [walk, if_neg same, following, none_before (by omega), apart, gap, flatten_placed,
          later _ (by omega), textsAt_cons_self rfl, joined]
        simp only [List.flatMap_nil, List.nil_append, List.append_assoc]

/-- A child with its text, at the place of its class. -/
structure Made (width : Nat) (cls : JsonClass) (child : JsonObject) (text : CString × CString) :
    Prop where
  text_eq : child.makeText width = .ok text.2
  name_eq : text.1 = child.cls.name
  place_eq : placeOf cls text.1 = child.cls.parentPos

theorem placeChildren_eq {width : Nat} {children : List JsonObject} {front left : CString}
    {last : Nat} (made : List.Forall₂ (Made width cls) children texts)
    (sorted : (texts.map fun text => placeOf cls text.1).Pairwise (· ≤ ·))
    (inside : ∀ text ∈ texts, last ≤ placeOf cls text.1 ∧
      placeOf cls text.1 ≤ last + left.length) :
    placeChildren width children (front ++ left) last front.length =
      .ok (front ++ walk cls left last texts) := by
  induction made generalizing front left last with
  | nil => rw [placeChildren, walk]
  | @cons child head children rest here _ ih =>
      obtain ⟨className, text⟩ := head
      obtain ⟨text_eq, -, place_eq⟩ := here
      rw [List.map_cons, List.pairwise_cons] at sorted
      obtain ⟨after, within⟩ : last ≤ placeOf cls className ∧
          placeOf cls className ≤ last + left.length := inside _ List.mem_cons_self
      have others : ∀ other ∈ rest, placeOf cls className ≤ placeOf cls other.1 ∧
          placeOf cls other.1 ≤ last + left.length := fun other member =>
        ⟨sorted.1 _ (List.mem_map_of_mem member), (inside other (List.mem_cons_of_mem _ member)).2⟩
      dsimp only at text_eq place_eq
      rw [placeChildren, ← place_eq, text_eq, walk]
      by_cases same : last = placeOf cls className
      · subst same
        have placed := @ih (front ++ ',' :: text) left _ sorted.2 others
        rw [if_pos rfl, if_pos rfl, Outcome.ok_bind]
        dsimp only
        rw [Text.insert_append]
        simp only [Outcome.mapReject, Outcome.ok_bind, ← List.length_append]
        rw [placed, List.append_assoc]
      · have split : front ++ left = front ++ left.take (placeOf cls className - last) ++
            left.drop (placeOf cls className - last) := by
          rw [List.append_assoc, List.take_append_drop]
        have length : (front ++ left.take (placeOf cls className - last)).length =
            sizeSub width (front.length + placeOf cls className) last := by
          rw [sizeSub, if_pos (by omega), List.length_append, List.length_take]
          omega
        have placed := @ih (front ++ left.take (placeOf cls className - last) ++ text)
          (left.drop (placeOf cls className - last)) (placeOf cls className)
          sorted.2 fun other member => by
            have := others other member
            rw [List.length_drop]
            omega
        rw [if_neg same, if_neg same]
        simp only [Outcome.ok_bind]
        rw [← length, split, Text.insert_append]
        simp only [Outcome.mapReject, Outcome.ok_bind, ← List.length_append]
        rw [placed]
        simp only [List.append_assoc]

theorem mem_of_made {width : Nat} {children : List JsonObject}
    (made : List.Forall₂ (Made width cls) children texts) {text : CString × CString}
    (member : text ∈ texts) : ∃ child ∈ children, Made width cls child text := by
  induction made with
  | nil => cases member
  | @cons child head children rest here _ ih =>
      rcases List.mem_cons.mp member with rfl | member
      · exact ⟨child, List.mem_cons_self, here⟩
      · obtain ⟨other, among, made⟩ := ih member
        exact ⟨other, List.mem_cons_of_mem _ among, made⟩

theorem places_of_made {width : Nat} {children : List JsonObject}
    (made : List.Forall₂ (Made width cls) children texts) :
    texts.map (fun text => placeOf cls text.1) = children.map fun child => child.cls.parentPos := by
  induction made with
  | nil => rfl
  | cons here _ ih => rw [List.map_cons, List.map_cons, here.place_eq, ih]

/-- Children that were added in order come to their places. -/
theorem placeChildren_placed {width : Nat} {children : List JsonObject} {content : CString}
    (named : ∀ child ∈ children, cls.findChild child.cls.name = some child.cls)
    (order : InOrder content children) (made : List.Forall₂ (Made width cls) children texts) :
    placeChildren width children content 0 0 = .ok (flatten (placed cls texts 0 content)) := by
  have known : Known cls texts := by
    refine ⟨fun text member => ?_, fun text member other among same => ?_⟩
    · obtain ⟨child, there, here⟩ := mem_of_made made member
      exact ⟨child.cls, here.name_eq ▸ named child there⟩
    · obtain ⟨child, there, here⟩ := mem_of_made made member
      obtain ⟨child', there', here'⟩ := mem_of_made made among
      rw [here.place_eq, here'.place_eq] at same
      rw [here.name_eq, here'.name_eq]
      exact order.apart child there child' there' same
  have inside : ∀ text ∈ texts, 0 < placeOf cls text.1 ∧
      placeOf cls text.1 ≤ content.length := by
    intro text member
    obtain ⟨child, there, here⟩ := mem_of_made made member
    rw [here.place_eq]
    exact order.inside child there
  have none_first : textsAt cls texts 0 = [] :=
    textsAt_eq_nil fun text member => Nat.ne_of_gt (inside text member).1
  have walked := @walk_eq cls _ _ content 0 (places_of_made made ▸ order.sorted)
    (fun text member => ⟨Nat.zero_le _, by have := (inside text member).2; omega⟩)
    fun place _ => known.blocksAt_eq place
  have placed := @placeChildren_eq _ _ _ _ [] content 0 made
    (places_of_made made ▸ order.sorted)
    fun text member => ⟨Nat.zero_le _, by have := (inside text member).2; omega⟩
  rw [List.nil_append, List.nil_append, List.length_nil] at placed
  rw [placed, walked, flatten_placed, known.blocksAt_eq, none_first]
  rfl

mutual

/-- An orderly object makes the text that it should have. -/
theorem makeText_eq (width : Nat) : ∀ o : JsonObject, o.Built → o.Orderly →
    ∃ text, o.expected = .ok text ∧ o.makeText width = .ok text
  | .mk cls objNames propValues children, built, orderly => by
      obtain ⟨visible, order, below, properties⟩ := orderly
      obtain ⟨texts, expects, made⟩ :=
        childrenTexts_eq width cls children built.1 built.2 below
      obtain ⟨items, own, set⟩ := setValues_eq (properties texts expects)
      have content : cls.getContent = cls.content :=
        List.takeWhile_eq_self_iff.mpr fun c member => decide_eq_true (visible c member)
      refine ⟨replaceNames (flatten items) objNames, ?_, ?_⟩
      · rw [expected, expects, Outcome.ok_bind, own, Outcome.ok_bind]
      · rw [makeText, content, placeChildren_placed built.1 order made, Outcome.ok_bind, set,
          Outcome.ok_bind]

theorem childrenTexts_eq (width : Nat) (cls : JsonClass) : ∀ children : List JsonObject,
    (∀ child ∈ children, cls.findChild child.cls.name = some child.cls) → AllBuilt children →
      AllOrderly children → ∃ texts, expectedTexts children = .ok texts ∧
        List.Forall₂ (Made width cls) children texts
  | [], _, _, _ => ⟨[], rfl, .nil⟩
  | child :: rest, named, built, orderly => by
      obtain ⟨text, expects, made⟩ := makeText_eq width child built.1 orderly.1
      obtain ⟨texts, others, rest_made⟩ := childrenTexts_eq width cls rest
        (fun other member => named other (List.mem_cons_of_mem _ member)) built.2 orderly.2
      refine ⟨(child.cls.name, text) :: texts, ?_, .cons ⟨made, rfl, ?_⟩ rest_made⟩
      · rw [expectedTexts, expects, Outcome.ok_bind, others, Outcome.ok_bind]
      · exact placeOf_eq (named child List.mem_cons_self)

end

/-- The expected places of children depend on the order in each class only. -/
theorem placed_order {texts' : List (CString × CString)}
    (same : ∀ className, texts.filter (·.1 = className) = texts'.filter (·.1 = className)) :
    placed cls texts = placed cls texts' := by
  have blocks (place : Nat) : blocksAt cls texts place = blocksAt cls texts' place := by
    simp only [blocksAt, same]
  funext place content
  induction content generalizing place with
  | nil => exact blocks place
  | cons c rest ih => rw [placed, placed, blocks, ih]

end Cube.Eco.JsonObject
