import Cube.Eco.Web.HtmlClassFinder

/-! # What a search for a class reads and removes

The element that `Find` cuts out starts with braces and blanks, and no other brace stands in front
of the class attribute. So the tag that closes the element stands behind the attribute.
-/

namespace Cube.Eco.HtmlClassFinder

variable {content : CString}

/-! ## The start of the element -/

/-- A character that an element may start with. -/
def Leading (c : Char) : Prop := c = '<' ∨ c = ' ' ∨ c = tab

theorem Leading.ne {c d : Char} (leading : Leading c)
    (other : d ≠ '<' ∧ d ≠ ' ' ∧ d ≠ tab) : c ≠ d := by
  rintro rfl
  rcases leading with is | is | is
  · exact other.1 is
  · exact other.2.1 is
  · exact other.2.2 is

/-- The places from `first` to `last` hold braces and blanks. -/
def LeadingFrom (content : CString) (first last : Nat) : Prop :=
  ∀ k, first ≤ k → k ≤ last → ∃ c, content[k]? = some c ∧ Leading c

theorem getObjectStart_returns {count : Nat} (inside : count ≤ content.length + 1)
    (hasStartBrace : Bool) :
    ∃ startPos, getObjectStart content count hasStartBrace = .ok startPos := by
  induction count generalizing hasStartBrace with
  | zero => exact ⟨none, rfl⟩
  | succ i ih =>
      obtain ⟨c, read⟩ := strAt_returns (Nat.le_of_succ_le_succ inside)
      rw [getObjectStart, read, Outcome.ok_bind]
      split
      · exact ih (Nat.le_of_succ_le inside) true
      · split
        · exact ⟨_, rfl⟩
        · exact ih (Nat.le_of_succ_le inside) hasStartBrace

/-- Behind a brace the scan goes back over braces and blanks only. -/
theorem getObjectStart_leading {count startPos : Nat}
    (found : getObjectStart content count true = .ok (some startPos)) :
    startPos ≤ count ∧ ∀ k, startPos ≤ k → k < count → ∃ c, content[k]? = some c ∧ Leading c := by
  induction count with
  | zero => cases found
  | succ i ih =>
      rw [getObjectStart] at found
      obtain ⟨c, read, found⟩ := Outcome.bind_eq_ok.mp found
      -- One more character at `i`, which is not the terminator.
      have extend (leading : Leading c) (visible : c ≠ nul)
          (found : getObjectStart content i true = .ok (some startPos)) :
          startPos ≤ i + 1 ∧
            ∀ k, startPos ≤ k → k < i + 1 → ∃ c, content[k]? = some c ∧ Leading c := by
        obtain ⟨before, run⟩ := ih found
        refine ⟨Nat.le_succ_of_le before, fun k behind small => ?_⟩
        rcases Nat.lt_or_eq_of_le (Nat.le_of_lt_succ small) with small | rfl
        · exact run k behind small
        · exact ⟨c, getElem?_of_strAt read visible, leading⟩
      split at found
      · next brace => exact extend (.inl brace) (brace ▸ by decide) found
      · next other =>
          split at found
          · cases found
            exact ⟨le_rfl, fun k behind small => absurd (behind.trans_lt small) (lt_irrefl _)⟩
          · next blank =>
              have blank : c = ' ' ∨ c = tab := by
                by_contra neither
                exact blank ⟨fun is => neither (.inl is), fun is => neither (.inr is), rfl⟩
              refine extend (.inr blank) ?_ found
              rcases blank with is | is
              · exact is ▸ by decide
              · exact is ▸ by decide

/-- Where the element of an attribute starts: its last brace is at `brace`. -/
structure ElementStart (content : CString) (startPos brace findPos : Nat) : Prop where
  start_le : startPos ≤ brace
  brace_le : brace ≤ findPos
  brace_at : content[brace]? = some '<'
  leading : LeadingFrom content startPos brace
  last : ∀ k, brace < k → k ≤ findPos → content[k]? ≠ some '<'

theorem elementStart {findPos startPos : Nat}
    (found : getObjectStart content (findPos + 1) false = .ok (some startPos)) :
    ∃ brace, ElementStart content startPos brace findPos := by
  induction findPos with
  | zero =>
      rw [getObjectStart] at found
      obtain ⟨c, -, found⟩ := Outcome.bind_eq_ok.mp found
      simp only [Bool.false_eq_true, and_false, ↓reduceIte, getObjectStart, ite_self] at found
      cases found
  | succ i ih =>
      rw [getObjectStart] at found
      obtain ⟨c, read, found⟩ := Outcome.bind_eq_ok.mp found
      simp only [Bool.false_eq_true, and_false, ↓reduceIte] at found
      split at found
      · next brace =>
          obtain ⟨before, run⟩ := getObjectStart_leading found
          have here := getElem?_of_strAt read (brace ▸ by decide)
          refine ⟨i + 1, before, le_rfl, brace ▸ here, fun k behind small => ?_, fun k later small =>
            absurd (later.trans_le small) (lt_irrefl _)⟩
          rcases Nat.lt_or_eq_of_le small with small | rfl
          · exact run k behind small
          · exact ⟨c, here, .inl brace⟩
      · next other =>
          obtain ⟨brace, start⟩ := ih found
          refine ⟨brace, start.start_le, Nat.le_succ_of_le start.brace_le, start.brace_at,
            start.leading, fun k later small => ?_⟩
          rcases Nat.lt_or_eq_of_le small with small | rfl
          · exact start.last k later (Nat.le_of_lt_succ small)
          · intro here
            obtain ⟨inside, same⟩ := List.getElem?_eq_some_iff.mp here
            rw [strAt_of_lt inside] at read
            exact other (Outcome.ok.inj read ▸ same)

/-! ## The end of the element -/

theorem scanTag_none {first : Char} {rest : CString} {j endPos : Nat} {hasBackslash : Bool}
    (scanned : scanTag first rest j endPos hasBackslash = none) : '>' ∉ rest := by
  induction rest generalizing j endPos hasBackslash with
  | nil => exact List.not_mem_nil
  | cons c rest ih =>
      rw [scanTag] at scanned
      split at scanned
      · cases scanned
      · next other =>
          rw [List.mem_cons, not_or]
          exact ⟨Ne.symm other, ih scanned⟩

theorem scanTag_some {first : Char} {rest : CString} {j endPos : Nat} {hasBackslash : Bool} {tag : Tag}
    (scanned : scanTag first rest j endPos hasBackslash = some tag) :
    ∃ k, tag.closePos = j + k ∧ rest[k]? = some '>' := by
  induction rest generalizing j endPos hasBackslash with
  | nil => cases scanned
  | cons c rest ih =>
      rw [scanTag] at scanned
      split at scanned
      · next close =>
          cases scanned
          exact ⟨0, rfl, close ▸ rfl⟩
      · obtain ⟨k, place, here⟩ := ih scanned
        exact ⟨k + 1, by omega, here⟩

/-- The scan returns at a `>` behind its place. -/
theorem scanAt_stop {i endPos : Nat} {htmlElements : List CString}
    (scanned : scanAt content i htmlElements = .stop (some endPos)) :
    ∃ close, endPos = close + 1 ∧ i < close ∧ content[close]? = some '>' := by
  rw [scanAt] at scanned
  split at scanned
  · cases scanned
  · next c here =>
      split at scanned
      · cases scanned
      · next brace =>
          split at scanned
          · split at scanned
            · cases scanned
            · cases scanned
          · split at scanned
            · rw [pushElement] at scanned
              split at scanned
              · cases scanned
              · cases scanned
            · split at scanned
              · rw [popElement] at scanned
                split at scanned
                · cases scanned
                · next close found =>
                    split at scanned
                    · cases scanned
                      obtain ⟨behind, -, stands, -⟩ := Text.findFrom_eq_some.mp found
                      have shut : content[close]? = some '>' :=
                        stands.get (by decide : 0 < ['>'].length)
                      refine ⟨close, rfl, Nat.lt_of_le_of_ne behind ?_, shut⟩
                      rintro rfl
                      rw [here, not_not.mp brace] at shut
                      cases shut
                    · cases scanned
              · rw [pushElement] at scanned
                split at scanned
                · cases scanned
                · cases scanned

theorem getObjectEnd_stop {i : Nat} {htmlElements : List CString} {endPos : Option Nat}
    (scanned : scanAt content i htmlElements = .stop endPos) :
    getObjectEnd content i htmlElements = endPos := by
  rw [getObjectEnd]
  split
  · next stopped =>
      rw [scanned] at stopped
      cases stopped
      rfl
  · next gone =>
      rw [scanned] at gone
      cases gone

theorem getObjectEnd_next {i i' : Nat} {htmlElements htmlElements' : List CString}
    (scanned : scanAt content i htmlElements = .next i' htmlElements') :
    getObjectEnd content i htmlElements = getObjectEnd content i' htmlElements' := by
  rw [getObjectEnd]
  split
  · next stopped =>
      rw [scanned] at stopped
      cases stopped
  · next gone =>
      rw [scanned] at gone
      cases gone
      rfl

/-- The end of an element stands right behind a `>`, behind where the scan for it began. -/
theorem getObjectEnd_close {i endPos : Nat} {htmlElements : List CString}
    (found : getObjectEnd content i htmlElements = some endPos) :
    ∃ close, endPos = close + 1 ∧ i < close ∧ content[close]? = some '>' := by
  induction i, htmlElements using getObjectEnd.induct content with
  | case1 i htmlElements stopped scanned =>
      rw [getObjectEnd_stop scanned] at found
      exact scanAt_stop (found ▸ scanned)
  | case2 i htmlElements i' htmlElements' scanned ih =>
      rw [getObjectEnd_next scanned] at found
      obtain ⟨close, is, behind, here⟩ := ih found
      exact ⟨close, is, (scanAt_next scanned).2.trans behind, here⟩

theorem scanAt_other {i : Nat} {c : Char} (here : content[i]? = some c) (other : c ≠ '<')
    (htmlElements : List CString) : scanAt content i htmlElements = .next (i + 1) htmlElements := by
  rw [scanAt, here]
  exact if_pos other

/-- An element does not end in front of a brace that is still to come. -/
theorem getObjectEnd_behind {i endPos findPos : Nat} {htmlElements : List CString}
    (plain : ∀ k, i ≤ k → k ≤ findPos → content[k]? ≠ some '<')
    (found : getObjectEnd content i htmlElements = some endPos) : findPos < endPos := by
  induction i, htmlElements using getObjectEnd.induct content with
  | case1 i htmlElements stopped scanned =>
      obtain ⟨close, is, behind, -⟩ := getObjectEnd_close found
      by_contra small
      rw [getObjectEnd_stop scanned] at found
      subst found
      cases here : content[i]? with
      | none =>
          rw [scanAt, here] at scanned
          cases scanned
      | some c =>
          have other : c ≠ '<' := fun brace => plain i le_rfl (by omega) (brace ▸ here)
          rw [scanAt_other here other] at scanned
          cases scanned
  | case2 i htmlElements i' htmlElements' scanned ih =>
      rw [getObjectEnd_next scanned] at found
      refine ih (fun k behind small => plain k ?_ small) found
      exact (Nat.le_of_lt (scanAt_next scanned).2).trans behind

theorem isAnnotation_blank {i : Nat} {c : Char} (here : content[i]? = some c)
    (blank : c = ' ' ∨ c = tab) : isAnnotation content (i + 1) = isAnnotation content i := by
  obtain ⟨inside, same⟩ := List.getElem?_eq_some_iff.mp here
  rw [ isAnnotation, isAnnotation, if_pos (Nat.succ_le_of_lt inside), if_pos (Nat.le_of_lt inside),
    List.drop_eq_getElem_cons inside,
    List.dropWhile_cons_of_pos (by rw [same]; exact decide_eq_true blank)]

theorem isAnnotation_brace {i : Nat} (here : content[i]? = some '<') :
    isAnnotation content i =
      .ok (strncmpZero (content.drop i) annStart annStart.length) := by
  obtain ⟨inside, same⟩ := List.getElem?_eq_some_iff.mp here
  rw [ isAnnotation, if_pos (Nat.le_of_lt inside), List.drop_eq_getElem_cons inside, same]
  rfl

/-- The tag that opens at the first brace ends behind the last one. -/
theorem getObjectEnd_brace {i brace endPos findPos : Nat} (here : content[i]? = some '<')
    (start : ElementStart content i brace findPos) (element : isAnnotation content i = .ok false)
    (found : getObjectEnd content i [] = some endPos) : findPos < endPos := by
  have pushed : scanAt content i [] = pushElement content '<' i [] := by
    rw [isAnnotation_brace here] at element
    rw [scanAt, here]
    simp only [ne_eq, not_true_eq_false, ↓reduceIte, Outcome.ok.inj element, Bool.false_eq_true]
  cases scanned : scanTag '<' (content.drop (i + 1)) (i + 1) 0 false with
  | none =>
      rw [getObjectEnd_next (pushed.trans (by rw [pushElement, scanned]))] at found
      obtain ⟨close, -, behind, shut⟩ := getObjectEnd_close found
      refine absurd ?_ (scanTag_none scanned)
      refine List.mem_of_getElem? (i := close - (i + 1)) ?_
      rw [List.getElem?_drop, Nat.add_sub_cancel' (Nat.le_of_lt behind)]
      exact shut
  | some tag =>
      rw [getObjectEnd_next (pushed.trans (by rw [pushElement, scanned]))] at found
      obtain ⟨k, place, shut⟩ := scanTag_some scanned
      rw [List.getElem?_drop, ← place] at shut
      have behind : brace < tag.closePos := by
        by_contra small
        obtain ⟨c, read, leading⟩ := start.leading tag.closePos (by omega) (Nat.le_of_not_lt small)
        rw [shut] at read
        cases read
        exact leading.ne (d := '>') (by decide) rfl
      exact getObjectEnd_behind (fun k later small => start.last k (by omega) small) found

/-- The element of an attribute ends behind the attribute's place. -/
theorem getObjectEnd_attribute {i brace endPos findPos : Nat}
    (start : ElementStart content i brace findPos)
    (element : isAnnotation content i = .ok false)
    (found : getObjectEnd content i [] = some endPos) : findPos < endPos := by
  induction gap : brace - i generalizing i with
  | zero =>
      obtain rfl : i = brace := Nat.le_antisymm start.start_le (Nat.sub_eq_zero_iff_le.mp gap)
      exact getObjectEnd_brace start.brace_at start element found
  | succ gap' ih =>
      obtain ⟨c, here, leading⟩ := start.leading i le_rfl start.start_le
      rcases leading with rfl | blank
      · exact getObjectEnd_brace here start element found
      · rw [← isAnnotation_blank here blank] at element
        have other : c ≠ '<' := by
          rcases blank with rfl | rfl
          · decide
          · decide
        rw [getObjectEnd_next (scanAt_other here other [])] at found
        exact ih ⟨by omega, start.brace_le, start.brace_at,
          fun k behind small => start.leading k (Nat.le_of_succ_le behind) small, start.last⟩
          element found (by omega)

/-! ## What is cut out -/

/-- The places of an attribute that is found: of its element, and of the end of its name. -/
structure Places where
  findPos : Nat
  startPos : Nat
  endPos : Nat
  classNameEndPos : Nat

/-- The places stand in this order inside the text. -/
structure Places.Ordered (places : Places) (content : CString) : Prop where
  start_le : places.startPos ≤ places.findPos
  lt_end : places.findPos < places.endPos
  end_le : places.endPos ≤ content.length

/-- What is reported for these places. -/
def Places.found (places : Places) (width : Nat) (content : CString) : Found :=
  let findNext := places.findPos + classStart.length
  let className := (content.drop findNext).take (sizeSub width places.classNameEndPos findNext)
  let element := (content.drop places.startPos).take (places.endPos - places.startPos)
  let before := places.findPos - places.startPos
  ⟨className,
    element.take before ++
      element.drop (before + (classStart.length + className.length + classEnd.length)),
    places.startPos, content.take places.startPos ++ content.drop places.endPos⟩

theorem Places.cutOut_eq {places : Places} (ordered : places.Ordered content) (width : Nat)
    (inside : places.findPos + classStart.length ≤ content.length) :
    cutOut width content places.findPos places.startPos places.classNameEndPos places.endPos =
      .ok (places.found width content) := by
  obtain ⟨start_le, lt_end, end_le⟩ := ordered
  have within : places.findPos - places.startPos ≤
      ((content.drop places.startPos).take (places.endPos - places.startPos)).length := by
    rw [List.length_take, List.length_drop]
    omega
  have start_le_end := start_le.trans lt_end.le
  rw [cutOut, sizeSub_of_le start_le_end, sizeSub_of_le start_le, Text.substr, if_pos inside,
    Outcome.ok_bind, Text.substr, if_pos (start_le_end.trans end_le), Outcome.ok_bind, Text.erase,
    if_pos within, Outcome.ok_bind, Text.erase, if_pos (start_le_end.trans end_le),
    Outcome.ok_bind, Nat.add_sub_cancel' start_le_end, Places.found]

theorem Places.cutOut_ok {places : Places} (ordered : places.Ordered content) {width : Nat}
    {found : Found}
    (cut : cutOut width content places.findPos places.startPos places.classNameEndPos
      places.endPos = .ok found) : found = places.found width content := by
  by_cases inside : places.findPos + classStart.length ≤ content.length
  · rw [places.cutOut_eq ordered width inside] at cut
    exact (Outcome.ok.inj cut).symm
  · rw [cutOut, Text.substr, if_neg inside] at cut
    cases cut

/-- The attribute at `findPos` is cut out of its element, and the element out of the text. -/
structure Cut (width : Nat) (content : CString) (places : Places) (found : Found) : Prop where
  ordered : places.Ordered content
  named : Text.findFrom classEnd content places.findPos = some places.classNameEndPos
  starts : getObjectStart content (places.findPos + 1) false = .ok (some places.startPos)
  ends : getObjectEnd content places.startPos [] = some places.endPos
  found_eq : found = places.found width content

theorem ends_ordered {findPos startPos endPos : Nat} (classNameEndPos : Nat)
    (starts : getObjectStart content (findPos + 1) false = .ok (some startPos))
    (element : isAnnotation content startPos = .ok false)
    (ends : getObjectEnd content startPos [] = some endPos) :
    (Places.mk findPos startPos endPos classNameEndPos).Ordered content := by
  obtain ⟨brace, start⟩ := elementStart starts
  obtain ⟨close, is, -, here⟩ := getObjectEnd_close ends
  have inside := (List.getElem?_eq_some_iff.mp here).1
  exact ⟨start.start_le.trans start.brace_le, getObjectEnd_attribute start element ends,
    is ▸ Nat.succ_le_of_lt inside⟩

theorem findAt_found {width findPos : Nat} {found : Found}
    (returned : findAt width content findPos = .ok (some found)) :
    ∃ places : Places, places.findPos = findPos ∧ Cut width content places found := by
  rw [findAt] at returned
  obtain ⟨startPos, starts, returned⟩ := Outcome.bind_eq_ok.mp returned
  cases startPos with
  | none => cases returned
  | some startPos =>
      obtain ⟨comment, element, returned⟩ := Outcome.bind_eq_ok.mp returned
      cases comment with
      | true => cases returned
      | false =>
          simp only [Bool.false_eq_true, ↓reduceIte] at returned
          split at returned
          · next classNameEndPos endPos named ends =>
              obtain ⟨cut, is, made⟩ := Outcome.bind_eq_ok.mp returned
              obtain rfl := Option.some.inj (Outcome.ok.inj made)
              have ordered := ends_ordered classNameEndPos starts element ends
              exact ⟨⟨findPos, startPos, endPos, classNameEndPos⟩, rfl, ordered, named, starts,
                ends, Places.cutOut_ok ordered is⟩
          · cases returned

/-- At an attribute every access is inside the text. -/
theorem findAt_returns {findPos : Nat} (stands : Text.StandsAt classStart content findPos)
    (width : Nat) : ∃ result, findAt width content findPos = .ok result := by
  have inside := stands.within (stands.lt (by decide)).le
  have within : findPos + 1 ≤ content.length + 1 := by omega
  obtain ⟨startPos, starts⟩ := getObjectStart_returns within false
  rw [findAt, starts, Outcome.ok_bind]
  cases startPos with
  | none => exact ⟨none, rfl⟩
  | some startPos =>
      obtain ⟨brace, start⟩ := elementStart starts
      have before : startPos ≤ content.length := by
        have := start.start_le
        have := start.brace_le
        omega
      have comment : ∃ is, isAnnotation content startPos = .ok is :=
        ⟨_, if_pos before⟩
      obtain ⟨is, element⟩ := comment
      simp only [element, Outcome.ok_bind]
      cases is with
      | true => exact ⟨none, rfl⟩
      | false =>
          simp only [Bool.false_eq_true, ↓reduceIte]
          split
          · next classNameEndPos endPos named ends =>
              have ordered := ends_ordered classNameEndPos starts element ends
              rw [Places.cutOut_eq ordered width inside]
              exact ⟨_, rfl⟩
          · exact ⟨none, rfl⟩

/-! ## The search -/

theorem search_eq (width : Nat) (content : CString) (findPos : Nat) :
    search width content findPos = findAt width content findPos >>= fun
      | some found => .ok (some found)
      | none =>
          match Text.findFrom classStart content (findPos + classStart.length) with
          | none => .ok none
          | some next => search width content next := by
  rw [search]
  congr 1
  funext result
  cases result with
  | some found => rfl
  | none =>
      dsimp only
      split
      · next again => rw [again]
      · next again => rw [again]

theorem search_returns {findPos : Nat} (stands : Text.StandsAt classStart content findPos)
    (width : Nat) : ∃ result, search width content findPos = .ok result := by
  induction findPos using search.induct content with
  | case1 findPos ih =>
      obtain ⟨result, returned⟩ := findAt_returns stands width
      rw [search_eq, returned, Outcome.ok_bind]
      cases result with
      | some found => exact ⟨_, rfl⟩
      | none =>
          cases again : Text.findFrom classStart content (findPos + classStart.length) with
          | none => exact ⟨_, rfl⟩
          | some next => exact ih next again (Text.findFrom_eq_some.mp again).2.2.1

/-- What a search finds is cut out at an attribute from its place on. -/
theorem search_found {width findPos : Nat} {found : Found}
    (returned : search width content findPos = .ok (some found)) :
    ∃ places : Places, Cut width content places found ∧ (places.findPos = findPos ∨
      findPos ≤ places.findPos ∧ Text.StandsAt classStart content places.findPos) := by
  induction findPos using search.induct content with
  | case1 findPos ih =>
      rw [search_eq] at returned
      obtain ⟨result, here, returned⟩ := Outcome.bind_eq_ok.mp returned
      cases result with
      | some other =>
          obtain rfl := Option.some.inj (Outcome.ok.inj returned)
          obtain ⟨places, place, cut⟩ := findAt_found here
          exact ⟨places, cut, .inl place⟩
      | none =>
          cases again : Text.findFrom classStart content (findPos + classStart.length) with
          | none =>
              rw [again] at returned
              cases returned
          | some next =>
              rw [again] at returned
              obtain ⟨behind, -, stands, -⟩ := Text.findFrom_eq_some.mp again
              obtain ⟨places, cut, place⟩ := ih next again returned
              refine ⟨places, cut, .inr ?_⟩
              rcases place with rfl | ⟨later, stands⟩
              · exact ⟨by omega, stands⟩
              · exact ⟨by omega, stands⟩

/-! ## The text that is removed -/

/-- The attribute of a class. -/
def classAttribute (className : CString) : CString := classStart ++ className ++ classEnd

namespace Places

variable (places : Places) (content)

/-- The element up to the attribute. -/
def front : CString := (content.drop places.startPos).take (places.findPos - places.startPos)

/-- The element from the attribute on. -/
def tail : CString := (content.drop places.findPos).take (places.endPos - places.findPos)

end Places

variable {places : Places} {width : Nat} {found : Found}

theorem Places.Ordered.front_tail (ordered : places.Ordered content) :
    (content.drop places.startPos).take (places.endPos - places.startPos) =
      places.front content ++ places.tail content := by
  obtain ⟨start_le, lt_end, -⟩ := ordered
  have length : places.endPos - places.startPos =
      (places.findPos - places.startPos) + (places.endPos - places.findPos) := by omega
  rw [length, List.take_add, List.drop_drop, Nat.add_sub_cancel' start_le]
  rfl

theorem Places.Ordered.length_front (ordered : places.Ordered content) :
    (places.front content).length = places.findPos - places.startPos := by
  obtain ⟨start_le, lt_end, end_le⟩ := ordered
  rw [Places.front, List.length_take, List.length_drop]
  omega

theorem Places.Ordered.length_tail (ordered : places.Ordered content) :
    (places.tail content).length = places.endPos - places.findPos := by
  obtain ⟨start_le, lt_end, end_le⟩ := ordered
  rw [Places.tail, List.length_take, List.length_drop]
  omega

/-- The text, cut at the places. -/
theorem Places.Ordered.split (ordered : places.Ordered content) :
    content = content.take places.startPos ++
      (places.front content ++ places.tail content ++ content.drop places.endPos) := by
  have start_le_end := ordered.start_le.trans ordered.lt_end.le
  have behind : content.drop places.endPos =
      (content.drop places.startPos).drop (places.endPos - places.startPos) := by
    rw [List.drop_drop, Nat.add_sub_cancel' start_le_end]
  rw [← ordered.front_tail, behind, List.take_append_drop, List.take_append_drop]

/-- The class keeps its element without the attribute. -/
theorem Cut.classContent_eq (cut : Cut width content places found) :
    found.classContent = places.front content ++
      (places.tail content).drop (classAttribute found.className).length := by
  have length : (classAttribute found.className).length =
      classStart.length + found.className.length + classEnd.length := by
    rw [classAttribute, List.length_append, List.length_append]
  obtain ⟨ordered, -, -, -, rfl⟩ := cut
  rw [length]
  simp only [Places.found]
  rw [ordered.front_tail, ← ordered.length_front, List.take_left, List.drop_append,
    List.drop_of_length_le (Nat.le_add_right ..), List.nil_append, Nat.add_sub_cancel_left]

theorem Cut.content_eq (cut : Cut width content places found) :
    found.content = content.take places.startPos ++ content.drop places.endPos := by
  rw [cut.found_eq, Places.found]

theorem Cut.parentPos_eq (cut : Cut width content places found) :
    found.parentPos = places.startPos := by
  rw [cut.found_eq, Places.found]

/-- Whatever is cut out, the text and the class are shorter than the text was. -/
theorem Cut.shrinks (cut : Cut width content places found) :
    found.classContent.length < content.length ∧ found.content.length < content.length := by
  obtain ⟨start_le, lt_end, end_le⟩ := cut.ordered
  constructor
  · have length : 0 < (classAttribute found.className).length := by
      rw [classAttribute, List.append_assoc, List.length_append]
      exact Nat.add_pos_left (by decide) _
    rw [cut.classContent_eq, List.length_append, List.length_drop, cut.ordered.length_front,
      cut.ordered.length_tail]
    omega
  · rw [cut.content_eq, List.length_append, List.length_take, List.length_drop]
    omega

/-- The end of a class name does not begin inside ` class="$(`. -/
theorem classEnd_behind {findPos classNameEndPos : Nat}
    (stands : Text.StandsAt classStart content findPos)
    (named : Text.findFrom classEnd content findPos = some classNameEndPos) :
    findPos + classStart.length ≤ classNameEndPos := by
  obtain ⟨behind, -, ends, -⟩ := Text.findFrom_eq_some.mp named
  by_contra inside
  have offset : classNameEndPos - findPos < classStart.length := by omega
  have opens := stands.get offset
  rw [Nat.add_sub_cancel' behind] at opens
  have shuts := ends.get (by decide : 0 < classEnd.length)
  have never : ∀ k < classStart.length, classStart[k]? ≠ classEnd[0]? := by decide
  exact never _ offset (opens.symm.trans shuts)

/-- From its place on the text goes on with the attribute. -/
theorem Cut.classAttribute_stands (cut : Cut width content places found)
    (stands : Text.StandsAt classStart content places.findPos) :
    Text.StandsAt (classAttribute found.className) content places.findPos ∧
      places.findPos + (classAttribute found.className).length =
        places.classNameEndPos + classEnd.length := by
  obtain ⟨-, within, ends, -⟩ := Text.findFrom_eq_some.mp cut.named
  have behind := classEnd_behind stands cut.named
  have name : found.className = (content.drop (places.findPos + classStart.length)).take
      (places.classNameEndPos - (places.findPos + classStart.length)) := by
    rw [cut.found_eq, Places.found, sizeSub_of_le behind]
  have rest : content.drop (places.findPos + classStart.length) =
      found.className ++ content.drop places.classNameEndPos := by
    rw [name]
    conv_lhs => rw [← List.take_append_drop
      (places.classNameEndPos - (places.findPos + classStart.length)) (content.drop _)]
    rw [List.drop_drop, Nat.add_sub_cancel' behind]
  have length : found.className.length =
      places.classNameEndPos - (places.findPos + classStart.length) := by
    rw [name, List.length_take, List.length_drop]
    omega
  constructor
  · refine ⟨content.drop (places.classNameEndPos + classEnd.length), ?_⟩
    rw [stands.split, rest, ends.split, classAttribute, List.append_assoc, List.append_assoc]
  · rw [classAttribute, List.length_append, List.length_append, length]
    omega

/-- What the element loses is the attribute, as far as the element goes. -/
theorem Cut.taken (cut : Cut width content places found)
    (stands : Text.StandsAt classStart content places.findPos) :
    (places.tail content).take (classAttribute found.className).length <+:
      classAttribute found.className := by
  have whole := (cut.classAttribute_stands stands).1
  have here : places.tail content <+: content.drop places.findPos := List.take_prefix ..
  refine List.prefix_of_prefix_length_le ((List.take_prefix ..).trans here) whole ?_
  exact List.length_take_le ..

/-- A text from which an element was removed, with its attribute. -/
def Removes (content : CString) (found : Found) : Prop :=
  ∃ before front removed back after,
    content = before ++ (front ++ removed ++ back) ++ after ∧
    found.content = before ++ after ∧ found.parentPos = before.length ∧
    found.classContent = front ++ back ∧
    removed ≠ [] ∧ removed <+: classAttribute found.className

theorem Cut.removes (cut : Cut width content places found)
    (stands : Text.StandsAt classStart content places.findPos) : Removes content found := by
  obtain ⟨start_le, lt_end, end_le⟩ := cut.ordered
  refine ⟨content.take places.startPos, places.front content,
    (places.tail content).take (classAttribute found.className).length,
    (places.tail content).drop (classAttribute found.className).length, content.drop places.endPos,
    ?_, cut.content_eq, ?_, cut.classContent_eq, ?_, cut.taken stands⟩
  · rw [List.append_assoc (places.front content), List.take_append_drop, List.append_assoc]
    exact cut.ordered.split
  · rw [cut.parentPos_eq, List.length_take]
    omega
  · refine List.ne_nil_of_length_pos ?_
    have length : 0 < (classAttribute found.className).length := by
      rw [classAttribute, List.append_assoc, List.length_append]
      exact Nat.add_pos_left (by decide) _
    rw [List.length_take, cut.ordered.length_tail]
    omega

/-! ## Find -/

theorem find_shrinks {findStart : Nat} (returned : find width content findStart = .ok (some found)) :
    found.classContent.length < content.length ∧ found.content.length < content.length := by
  rw [find] at returned
  split at returned
  · cases returned
  · obtain ⟨places, cut, -⟩ := search_found returned
    exact cut.shrinks

end Cube.Eco.HtmlClassFinder
