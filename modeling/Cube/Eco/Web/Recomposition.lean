import Cube.Eco.Web.HtmlInstances

/-! # Whether a document comes together again

A document is cut into classes, and the text of one instance of each class is the document without
the attributes that were found, if every element is cut out behind the place of the one before it.
-/

namespace Cube.Eco

open HtmlClassFinder

namespace HtmlClass

mutual

/-- The attributes of the classes below, in the order of the document. -/
def attributes : HtmlClass → List CString
  | mk _ _ _ children => childAttributes children

def childAttributes : List HtmlClass → List CString
  | [] => []
  | child :: rest =>
      classAttribute child.name :: (child.attributes ++ childAttributes rest)

end

end HtmlClass

namespace HtmlClassFinder

variable {content : CString} {findStart : Nat} {places : Places}

/-- An attribute behind `find_start` and a brace, with its end inside its element. -/
structure InOrder (content : CString) (findStart : Nat) (places : Places) : Prop where
  behind : findStart ≤ places.findPos
  stands : Text.StandsAt classStart content places.findPos
  opened : ∃ brace, findStart ≤ brace ∧ brace < places.findPos ∧ content[brace]? = some '<'
  within : places.classNameEndPos + classEnd.length ≤ places.endPos

/-- The character in front of a place is one that an element does not start with. -/
def Fresh (content : CString) (place : Nat) : Prop :=
  ∃ c, content[place - 1]? = some c ∧ ¬ Leading c

/-- No element that starts at a place or later has an attribute in front of another one. -/
def Kept (content : CString) (findStart place : Nat) : Prop :=
  ∀ findPos startPos, getObjectStart content (findPos + 1) false = .ok (some startPos) →
    findStart ≤ startPos → place ≤ findPos

theorem kept_self (content : CString) (findStart : Nat) : Kept content findStart findStart := by
  intro findPos startPos starts behind
  obtain ⟨brace, start⟩ := elementStart starts
  exact behind.trans (start.start_le.trans start.brace_le)

theorem getObjectStart_fresh {count startPos : Nat} (inside : count ≤ content.length)
    (found : getObjectStart content count true = .ok (some startPos)) :
    0 < startPos ∧ Fresh content startPos := by
  induction count with
  | zero => cases found
  | succ i ih =>
      rw [getObjectStart, strAt_of_lt inside, Outcome.ok_bind] at found
      split at found
      · exact ih (Nat.le_of_succ_le inside) found
      · next brace =>
          split at found
          · next stop =>
              cases found
              refine ⟨Nat.succ_pos i, content[i], List.getElem?_eq_getElem inside, ?_⟩
              exact fun leading => leading.elim brace fun blank => blank.elim stop.1 stop.2.1
          · exact ih (Nat.le_of_succ_le inside) found

/-- An element starts behind a character of the text. -/
theorem elementStart_fresh {findPos startPos : Nat}
    (starts : getObjectStart content (findPos + 1) false = .ok (some startPos)) :
    0 < startPos ∧ Fresh content startPos := by
  induction findPos with
  | zero =>
      rw [getObjectStart] at starts
      obtain ⟨c, -, starts⟩ := Outcome.bind_eq_ok.mp starts
      simp only [Bool.false_eq_true, and_false, ↓reduceIte, getObjectStart, ite_self] at starts
      cases starts
  | succ i ih =>
      rw [getObjectStart] at starts
      obtain ⟨c, read, starts⟩ := Outcome.bind_eq_ok.mp starts
      simp only [Bool.false_eq_true, and_false, ↓reduceIte] at starts
      split at starts
      · next brace =>
          have here := getElem?_of_strAt read (brace ▸ by decide)
          have inside := (List.getElem?_eq_some_iff.mp here).1
          exact getObjectStart_fresh (Nat.le_of_lt inside) starts
      · exact ih starts

/-- The element of an attribute in order starts behind `find_start`. -/
theorem InOrder.start_ge (order : InOrder content findStart places)
    (fresh : findStart = 0 ∨ Fresh content findStart)
    (starts : getObjectStart content (places.findPos + 1) false = .ok (some places.startPos)) :
    findStart ≤ places.startPos := by
  obtain ⟨brace, start⟩ := elementStart starts
  obtain ⟨other, behind, before, here⟩ := order.opened
  by_contra small
  rcases fresh with rfl | ⟨c, read, different⟩
  · exact small (Nat.zero_le _)
  · have reach : findStart ≤ brace := by
      by_contra far
      exact start.last other (by omega) (by omega) here
    obtain ⟨c', read', leading⟩ := start.leading (findStart - 1) (by omega) (by omega)
    rw [read] at read'
    exact different (Option.some.inj read' ▸ leading)

/-- In a class the element's own start has no attribute any more. -/
theorem kept_front {startPos brace findPos : Nat} (start : ElementStart content startPos brace findPos)
    {front back : CString} (length : front.length = findPos - startPos)
    (same : ∀ k < front.length, front[k]? = content[startPos + k]?) :
    Kept (front ++ back) 0 front.length := by
  intro findPos' startPos' starts _
  obtain ⟨brace', start'⟩ := elementStart starts
  obtain ⟨positive, c, read, different⟩ := elementStart_fresh starts
  by_contra small
  have start_le := start'.start_le
  have brace_le := start'.brace_le
  have opened := start'.brace_at
  rw [List.getElem?_append_left (by omega), same brace' (by omega)] at opened
  have reach : startPos + brace' ≤ brace := by
    by_contra far
    exact start.last (startPos + brace') (by omega) (by omega) opened
  rw [List.getElem?_append_left (by omega), same _ (by omega)] at read
  obtain ⟨c', read', leading⟩ := start.leading (startPos + (startPos' - 1)) (by omega) (by omega)
  rw [read] at read'
  exact different (Option.some.inj read' ▸ leading)

/-- A text that is cut at an attribute in order. -/
structure Parts (pre content : CString) (found : Found) (gap front back after : CString) :
    Prop where
  split : content =
    pre ++ (gap ++ (front ++ (classAttribute found.className ++ back)) ++ after)
  content_eq : found.content = pre ++ gap ++ after
  parentPos_eq : found.parentPos = (pre ++ gap).length
  classContent_eq : found.classContent = front ++ back
  fresh : Fresh found.content found.parentPos
  kept : Kept found.classContent 0 front.length

theorem Cut.parts {width : Nat} {found : Found} (cut : Cut width content places found)
    (order : InOrder content findStart places) (fresh : findStart = 0 ∨ Fresh content findStart) :
    ∃ gap back, Parts (content.take findStart) content found gap (places.front content) back
      (content.drop places.endPos) ∧
        places.findPos = findStart + (gap ++ places.front content).length := by
  obtain ⟨brace, start⟩ := elementStart cut.starts
  obtain ⟨positive, c, read, different⟩ := elementStart_fresh cut.starts
  have behind := order.start_ge fresh cut.starts
  obtain ⟨start_le, lt_end, end_le⟩ := cut.ordered
  have attribute_eq : (places.tail content).take (classAttribute found.className).length =
      classAttribute found.className := by
    refine (cut.taken order.stands).eq_of_length ?_
    have place := (cut.classAttribute_stands order.stands).2
    have within := order.within
    rw [List.length_take, cut.ordered.length_tail]
    omega
  have before : content.take findStart ++
      (content.drop findStart).take (places.startPos - findStart) = content.take places.startPos := by
    rw [← List.take_add, Nat.add_sub_cancel' behind]
  have length : (content.take places.startPos).length = places.startPos :=
    List.length_take_of_le (by omega)
  refine ⟨(content.drop findStart).take (places.startPos - findStart),
    (places.tail content).drop (classAttribute found.className).length, ⟨?_, ?_, ?_,
      cut.classContent_eq, ?_, ?_⟩, ?_⟩
  · have whole : classAttribute found.className ++
        (places.tail content).drop (classAttribute found.className).length = places.tail content :=
      (congrArg (· ++ _) attribute_eq).symm.trans (List.take_append_drop ..)
    rw [whole, ← List.append_assoc, ← List.append_assoc, before, List.append_assoc]
    exact cut.ordered.split
  · rw [before, cut.content_eq]
  · rw [before, cut.parentPos_eq, length]
  · refine ⟨c, ?_, different⟩
    rw [cut.content_eq, cut.parentPos_eq, List.getElem?_append_left (by omega),
      List.getElem?_take_of_lt (by omega)]
    exact read
  · rw [cut.classContent_eq]
    refine kept_front start cut.ordered.length_front fun k small => ?_
    rw [cut.ordered.length_front] at small
    rw [Places.front, List.getElem?_take_of_lt small, List.getElem?_drop]
  · rw [List.length_append, List.length_take, List.length_drop, cut.ordered.length_front]
    omega

end HtmlClassFinder

namespace HtmlClass

variable {width findStart : Nat} {content : CString}

/-- Every element that `LoadClass` cuts out from a call on is cut out at an attribute in order. -/
def Orderly (width : Nat) (content : CString) (findStart : Nat) : Prop :=
  ∀ content' findStart', Calls width content findStart content' findStart' →
    ∀ found, HtmlClassFinder.find width content' findStart' = .ok (some found) →
      ∃ places, Cut width content' places found ∧ InOrder content' findStart' places

/-- The classes that are cut out of a text behind `pre`, with `kept` at its start, give the text
back without their attributes. -/
structure Recomposes (pre kept tail left : CString) (classes : List HtmlClass)
    (leftTail rest : CString) : Prop where
  left_eq : left = pre ++ leftTail
  visible : ∀ c ∈ left, c ≠ nul
  fits : Text.Fits leftTail pre.length (pieces classes)
  placed : AllPlaced classes
  woven : Text.weave leftTail pre.length (pieces classes) = kept ++ rest
  without : Text.Without tail (childAttributes classes) rest

/-- One element, its class and what is loaded behind it. -/
theorem recomposes_step {pre kept tail gap front back after childLeft restLeft leftTail restTail
      childRest rest : CString} {found : Found} {grandchildren classes : List HtmlClass}
    (parts : Parts pre (pre ++ (kept ++ tail)) found gap front back after)
    (reach : kept.length ≤ (gap ++ front).length)
    (child : Recomposes [] front back childLeft grandchildren leftTail childRest)
    (later : Recomposes (pre ++ gap) [] after restLeft classes restTail rest) :
    ∃ between, Recomposes pre kept tail restLeft
      (mk found.className childLeft found.parentPos grandchildren :: classes) (gap ++ restTail)
      (between ++ childRest ++ rest) := by
  have whole : kept ++ tail =
      gap ++ front ++ (classAttribute found.className ++ back ++ after) := by
    have same := List.append_cancel_left parts.split
    rw [same]
    simp only [List.append_assoc]
  obtain ⟨between, keeps⟩ : kept <+: gap ++ front :=
    List.prefix_of_prefix_length_le ⟨tail, rfl⟩ ⟨_, whole.symm⟩ reach
  have behind : tail = between ++ (classAttribute found.className ++ (back ++ after)) := by
    rw [← keeps, List.append_assoc] at whole
    rw [List.append_cancel_left whole, List.append_assoc]
  have text : (mk found.className childLeft found.parentPos grandchildren).fullText =
      front ++ childRest := by
    rw [fullText, child.left_eq]
    exact child.woven
  have gap_length : found.parentPos - pre.length = gap.length := by
    rw [parts.parentPos_eq, List.length_append, Nat.add_sub_cancel_left]
  refine ⟨between, ?_, later.visible, ⟨?_, ?_, ?_⟩, ⟨?_, later.placed⟩, ?_, ?_⟩
  · rw [later.left_eq, List.append_assoc]
  · change pre.length ≤ found.parentPos
    rw [parts.parentPos_eq, List.length_append]
    exact Nat.le_add_right ..
  · change found.parentPos - pre.length ≤ _
    rw [gap_length, List.length_append]
    exact Nat.le_add_right ..
  · change Text.Fits ((gap ++ restTail).drop (found.parentPos - pre.length)) found.parentPos _
    rw [gap_length, List.drop_left, parts.parentPos_eq]
    exact later.fits
  · refine ⟨child.visible, ?_, child.placed⟩
    rw [child.left_eq]
    exact child.fits
  · rw [pieces, Text.weave, text]
    change (gap ++ restTail).take (found.parentPos - pre.length) ++ _ ++
      Text.weave ((gap ++ restTail).drop (found.parentPos - pre.length)) found.parentPos _ = _
    rw [gap_length, List.take_left, List.drop_left, parts.parentPos_eq, later.woven,
      List.nil_append, ← List.append_assoc gap, ← keeps]
    simp only [List.append_assoc]
  · rw [behind, childAttributes, List.append_assoc]
    exact .keep_all between (.drop _ (child.without.append later.without))

theorem loadFrom_recomposes {pre kept tail left : CString} {classes : List HtmlClass}
    (loaded : loadFrom width (pre ++ (kept ++ tail)) pre.length = .ok (left, classes))
    (orderly : Orderly width (pre ++ (kept ++ tail)) pre.length)
    (fresh : pre.length = 0 ∨ Fresh (pre ++ (kept ++ tail)) pre.length)
    (keeps : Kept (pre ++ (kept ++ tail)) pre.length (pre.length + kept.length))
    (visible : ∀ c ∈ pre ++ (kept ++ tail), c ≠ nul) :
    ∃ leftTail rest, Recomposes pre kept tail left classes leftTail rest := by
  induction size : (pre ++ (kept ++ tail)).length using Nat.strongRecOn
    generalizing pre kept tail left classes with
  | ind size' ih =>
      obtain ⟨result, called⟩ := loadFrom_called loaded
      cases result with
      | none =>
          rw [loadFrom_none called] at loaded
          obtain ⟨rfl, rfl⟩ := Prod.mk.inj (Outcome.ok.inj loaded)
          exact ⟨kept ++ tail, tail, rfl, visible, trivial, trivial, rfl, .refl tail⟩
      | some found =>
          have shorter := find_shrinks called
          rw [size] at shorter
          obtain ⟨places, cut, order⟩ := orderly _ _ (.here _ _) found called
          obtain ⟨gap, back, parts, place⟩ := cut.parts order fresh
          rw [List.take_left] at parts
          rw [loadFrom_some called] at loaded
          obtain ⟨⟨childLeft, grandchildren⟩, inner, loaded⟩ := Outcome.bind_eq_ok.mp loaded
          obtain ⟨⟨restLeft, others⟩, later, loaded⟩ := Outcome.bind_eq_ok.mp loaded
          obtain ⟨rfl, rfl⟩ := Prod.mk.inj (Outcome.ok.inj loaded)
          have reach := keeps places.findPos places.startPos cut.starts
            (order.start_ge fresh cut.starts)
          rw [place] at reach
          have among : ∀ c, c ∈ places.front (pre ++ (kept ++ tail)) ++ back ∨
              c ∈ pre ++ gap ++ (pre ++ (kept ++ tail)).drop places.endPos →
              c ∈ pre ++ (kept ++ tail) := by
            intro c member
            rw [parts.split]
            simp only [List.mem_append] at member ⊢
            tauto
          have orderly_child : Orderly width found.classContent 0 :=
            fun content' findStart' call => orderly content' findStart' (.child called call)
          have orderly_rest : Orderly width found.content found.parentPos :=
            fun content' findStart' call => orderly content' findStart' (.next called call)
          have kept_child := parts.kept
          have fresh_rest := parts.fresh
          rw [parts.classContent_eq] at inner orderly_child shorter kept_child
          rw [parts.content_eq, parts.parentPos_eq] at later orderly_rest fresh_rest
          rw [parts.content_eq] at shorter
          obtain ⟨leftTail, childRest, child⟩ := @ih _ shorter.1 [] _ _ _ _ inner orderly_child
            (.inl rfl) (by rw [List.length_nil, Nat.zero_add]; exact kept_child)
            (fun c member => visible c (among c (.inl member))) rfl
          obtain ⟨restTail, rest, following⟩ := @ih _ shorter.2 _ [] _ _ _ later orderly_rest
            (.inr fresh_rest) (kept_self _ _)
            (fun c member => visible c (among c (.inr member))) rfl
          obtain ⟨between, recomposes⟩ :=
            recomposes_step parts (by omega) child following
          exact ⟨_, _, recomposes⟩

/-- **Recomposition.** A document that is cut at attributes in order comes together again, without
these attributes, whatever the order of the calls of `AddChild`. -/
theorem recomposition {document : CString} {cls : HtmlClass}
    {calls : List (List CString × CString)} (loaded : load width document = .ok cls)
    (visible : ∀ c ∈ document, c ≠ nul) (orderly : Orderly width document 0)
    (distinct : cls.DistinctNames) (once : HtmlObject.OnceEach cls calls) :
    ∃ o text, HtmlObject.addAll calls (HtmlObject.root cls) = .ok o ∧
      o.makeText width = .ok text ∧ Text.Without document cls.attributes text := by
  obtain ⟨⟨left, classes⟩, from_start, made⟩ := Outcome.bind_eq_ok.mp loaded
  obtain rfl := Outcome.ok.inj made
  obtain ⟨leftTail, rest, recomposes⟩ := @loadFrom_recomposes _ [] [] _ _ _
    from_start orderly (.inl rfl) (kept_self _ _) visible
  obtain rfl : left = leftTail := recomposes.left_eq
  have placed : (mk ['r', 'o', 'o', 't'] left 0 classes).Placed :=
    ⟨recomposes.visible, recomposes.fits, recomposes.placed⟩
  obtain ⟨o, added, text⟩ := once.makeText distinct placed width
  refine ⟨o, _, added, text, ?_⟩
  rw [fullText]
  exact recomposes.woven ▸ recomposes.without

/-! ## A document that comes together, and one that does not -/

/-- The text is `<p></p>`. -/
def emptyParagraph : CString := ['<', 'p', '>', '<', '/', 'p', '>']

/-- The text is `x<p class="$(a)"></p>`. -/
def whole : CString :=
  ['x', '<', 'p'] ++ classAttribute ['a'] ++ ['>', '<', '/', 'p', '>']

theorem find_whole :
    HtmlClassFinder.find 32 whole 0 = .ok (some ⟨['a'], emptyParagraph, 1, ['x']⟩) := by
  decide +kernel

theorem find_emptyParagraph : HtmlClassFinder.find 32 emptyParagraph 0 = .ok none := by
  decide +kernel

theorem find_x (findStart : Nat) (small : findStart = 1) :
    HtmlClassFinder.find 32 ['x'] findStart = .ok none := by
  subst small
  decide +kernel

def wholeClass : HtmlClass := mk ['r', 'o', 'o', 't'] ['x'] 0 [mk ['a'] emptyParagraph 1 []]

theorem load_whole : load 32 whole = .ok wholeClass := by
  rw [load, loadFrom_some find_whole, loadFrom_none find_emptyParagraph, Outcome.ok_bind,
    loadFrom_none (find_x 1 rfl)]
  rfl

/-- Nothing is found in any call from one that finds nothing. -/
theorem orderly_none (called : HtmlClassFinder.find width content findStart = .ok none) :
    ∀ content' findStart', Calls width content findStart content' findStart' →
      ∀ found, HtmlClassFinder.find width content' findStart' = .ok (some found) → False := by
  intro content' findStart' call found returned
  cases call with
  | here => cases called.symm.trans returned
  | child other => cases called.symm.trans other
  | next other => cases called.symm.trans other

theorem orderly_whole : Orderly 32 whole 0 := by
  intro content' findStart' call found returned
  cases call with
  | here =>
      obtain rfl := Option.some.inj (Outcome.ok.inj (find_whole.symm.trans returned))
      refine ⟨⟨3, 1, 21, 14⟩, ⟨⟨by decide, by decide, by decide⟩, by decide, by decide +kernel,
        by decide +kernel, by decide +kernel⟩, ⟨by decide, by decide, ⟨1, by decide⟩, by decide⟩⟩
  | child called inner =>
      obtain rfl := Option.some.inj (Outcome.ok.inj (find_whole.symm.trans called))
      exact (orderly_none find_emptyParagraph _ _ inner found returned).elim
  | next called later =>
      obtain rfl := Option.some.inj (Outcome.ok.inj (find_whole.symm.trans called))
      exact (orderly_none (find_x 1 rfl) _ _ later found returned).elim

/-- Calls on the root object alone need no parent. -/
theorem onceEach_root {cls : HtmlClass} (names : List CString) (nodup : names.Nodup)
    (all : cls.paths = names.map fun name => [name]) :
    HtmlObject.OnceEach cls (names.map fun name => ([], name)) := by
  have made : (names.map fun name => ([], name)).map HtmlObject.callPath =
      names.map fun name => [name] := by
    rw [List.map_map]
    rfl
  refine ⟨?_, fun path => by rw [made, all], fun before call after split => .inl ?_⟩
  · rw [made]
    exact nodup.map fun _ _ same => (List.cons.inj same).1
  · have member : call ∈ names.map fun name => (([] : List CString), name) := by
      rw [split]
      exact List.mem_append_right _ List.mem_cons_self
    obtain ⟨name, -, rfl⟩ := List.mem_map.mp member
    rfl

theorem recomposition_whole : ∃ o text,
    HtmlObject.addAll [([], ['a'])] (HtmlObject.root wholeClass) = .ok o ∧
      o.makeText 32 = .ok text ∧ Text.Without whole wholeClass.attributes text :=
  recomposition load_whole (ne_nul_of_all rfl) orderly_whole ⟨by decide, ⟨by decide, trivial⟩, trivial⟩
    (onceEach_root [['a']] (by decide) rfl)

/-- The text is `x<p t='<b class="$(a)"></b>' class="$(c)"></p>`. -/
def torn : CString :=
  ['x', '<', 'p', ' ', 't', '=', Char.ofNat 39, '<', 'b'] ++ classAttribute ['a'] ++
    ['>', '<', '/', 'b', '>', Char.ofNat 39] ++ classAttribute ['c'] ++ ['>', '<', '/', 'p', '>']

def tornElement : CString := ['<', 'b', '>', '<', '/', 'b', '>']

def tornParagraph : CString :=
  ['<', 'p', ' ', 't', '=', Char.ofNat 39, Char.ofNat 39, '>', '<', '/', 'p', '>']

def tornClass : HtmlClass :=
  mk ['r', 'o', 'o', 't'] ['x'] 0 [mk ['a'] tornElement 7 [], mk ['c'] tornParagraph 1 []]

theorem load_torn : load 32 torn = .ok tornClass := by
  have first : HtmlClassFinder.find 32 torn 0 = .ok (some ⟨['a'], tornElement, 7,
      ['x', '<', 'p', ' ', 't', '=', Char.ofNat 39, Char.ofNat 39] ++ classAttribute ['c'] ++
        ['>', '<', '/', 'p', '>']⟩) := by decide +kernel
  have second : HtmlClassFinder.find 32
      (['x', '<', 'p', ' ', 't', '=', Char.ofNat 39, Char.ofNat 39] ++ classAttribute ['c'] ++
        ['>', '<', '/', 'p', '>']) 7 =
        .ok (some ⟨['c'], tornParagraph, 1, ['x']⟩) := by decide +kernel
  rw [load, loadFrom_some first, loadFrom_none (by decide +kernel), Outcome.ok_bind,
    loadFrom_some second, loadFrom_none (by decide +kernel), Outcome.ok_bind,
    loadFrom_none (find_x 1 rfl)]
  rfl

/-- The element of `c` is cut out around the place of the one of `a`, which is behind the end of the
content then. -/
theorem recomposition_torn : load 32 torn = .ok tornClass ∧ tornClass.DistinctNames ∧
    HtmlObject.OnceEach tornClass [([], ['a']), ([], ['c'])] ∧
      ¬ ∃ o text, HtmlObject.addAll [([], ['a']), ([], ['c'])] (HtmlObject.root tornClass) = .ok o ∧
        o.makeText 32 = .ok text ∧ Text.Without torn tornClass.attributes text := by
  refine ⟨load_torn, ⟨by decide, ⟨by decide, trivial⟩, ⟨by decide, trivial⟩, trivial⟩,
    onceEach_root [['a'], ['c']] (by decide) rfl, ?_⟩
  rintro ⟨o, text, added, made, -⟩
  have thrown : (HtmlObject.addAll [([], ['a']), ([], ['c'])] (HtmlObject.root tornClass) >>=
      fun o => match o.makeText 32 with
        | .ok text => .ok text
        | .reject _ => .fault
        | .fault => .fault) = .fault := by decide +kernel
  rw [added, Outcome.ok_bind, made] at thrown
  cases thrown

end HtmlClass

end Cube.Eco
