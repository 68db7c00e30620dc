import Cube.Eco.StdString
import Cube.Lib.Text

/-! # Classes in HTML

`HtmlClassFinder` looks for ` class="$(name)"`, goes back to the element that the attribute is in
and cuts this element out. A `size_t` has `width` bits.
-/

namespace Cube.Eco

namespace HtmlClassFinder

def tab : Char := Char.ofNat 9

def classStart : CString := [' ', 'c', 'l', 'a', 's', 's', '=', '"', '$', '(']

def classEnd : CString := [')', '"']

def annStart : CString := ['<', '!', '-', '-']

def annEnd : CString := ['-', '-', '>']

/-- What `Find` leaves behind: the members, and `content`; `find_start` is `parentPos`. -/
structure Found where
  className : CString
  classContent : CString
  parentPos : Nat
  content : CString
  deriving DecidableEq

/-- The loop of `GetObjectStart`, with `count - 1` as its `i`. -/
def getObjectStart (content : CString) : Nat → Bool → Outcome Text.Error (Option Nat)
  | 0, _ => .ok none
  | i + 1, hasStartBrace => do
      let c ← strAt content i
      if c = '<' then getObjectStart content i true
      else if c ≠ ' ' ∧ c ≠ tab ∧ hasStartBrace = true then .ok (some (i + 1))
      else getObjectStart content i hasStartBrace

/-- `IsAnnotation`, with the blanks from `pos` on left out. -/
def isAnnotation (content : CString) (pos : Nat) : Outcome Text.Error Bool :=
  if pos ≤ content.length then
    .ok (strncmpZero ((content.drop pos).dropWhile fun c => c = ' ' ∨ c = tab) annStart
      annStart.length)
  else .fault

/-- Where the tag's name and the tag end, and whether a `/` stands before its end. -/
structure Tag where
  endPos : Nat
  closePos : Nat
  hasBackslash : Bool

/-- The loop over `j` of `GetObjectEnd`; `first` is `content[i]`. -/
def scanTag (first : Char) : CString → Nat → Nat → Bool → Option Tag
  | [], _, _, _ => none
  | c :: rest, j, endPos, hasBackslash =>
      let ends : Bool := c = ' ' ∨ first = tab ∨ c = Char.ofNat 13 ∨ c = Char.ofNat 10 ∨ c = '>'
      let endPos := if ends ∧ endPos = 0 then j else endPos
      let hasBackslash := if ends then hasBackslash else c == '/'
      if c = '>' then some ⟨endPos, j, hasBackslash⟩
      else scanTag first rest (j + 1) endPos hasBackslash

/-- How the loop of `GetObjectEnd` goes on: it returns, or comes to the next `i`. -/
inductive Scan where
  | stop (endPos : Option Nat)
  | next (i : Nat) (htmlElements : List CString)

/-- `</` and the tag's name. -/
def closing (content : CString) (i endPos : Nat) : CString :=
  '<' :: '/' :: (content.drop (i + 1)).take (endPos - (i + 1))

/-- A start tag. -/
def pushElement (content : CString) (first : Char) (i : Nat) (htmlElements : List CString) : Scan :=
  match scanTag first (content.drop (i + 1)) (i + 1) 0 false with
  | none => .next (i + 1) htmlElements
  | some tag =>
      .next (tag.closePos + 1)
        (if tag.hasBackslash then htmlElements else closing content i tag.endPos :: htmlElements)

/-- The end tag of the last element. -/
def popElement (content : CString) (i : Nat) (htmlElements : List CString) : Scan :=
  match Text.findFrom ['>'] content i with
  | none => .stop none
  | some eleEndPos =>
      if htmlElements = [] then .stop (some (eleEndPos + 1)) else .next (eleEndPos + 1) htmlElements

/-- One turn of the loop of `GetObjectEnd`; the last element comes first. -/
def scanAt (content : CString) (i : Nat) (htmlElements : List CString) : Scan :=
  match content[i]? with
  | none => .stop none
  | some c =>
      if c ≠ '<' then .next (i + 1) htmlElements
      else if strncmpZero (content.drop i) annStart annStart.length then
        match Text.findFrom annEnd content (i + annStart.length) with
        | none => .stop none
        | some annEndPos => .next (annEndPos + annEnd.length - 1 + 1) htmlElements
      else
        match htmlElements with
        | [] => pushElement content c i []
        | back :: others =>
            if strncmpZero (content.drop i) back back.length then popElement content i others
            else pushElement content c i (back :: others)

theorem scanTag_closePos {first : Char} {rest : CString} {j endPos : Nat} {hasBackslash : Bool}
    {tag : Tag} (scanned : scanTag first rest j endPos hasBackslash = some tag) :
    j ≤ tag.closePos := by
  induction rest generalizing j endPos hasBackslash with
  | nil => cases scanned
  | cons c rest ih =>
      rw [scanTag] at scanned
      split at scanned
      · cases scanned
        exact le_rfl
      · exact Nat.le_of_succ_le (ih scanned)

theorem pushElement_next {content : CString} {first : Char} {i i' : Nat}
    {htmlElements htmlElements' : List CString}
    (scanned : pushElement content first i htmlElements = .next i' htmlElements') : i < i' := by
  rw [pushElement] at scanned
  split at scanned
  · cases scanned
    exact Nat.lt_succ_self i
  · next tag found =>
      cases scanned
      exact Nat.lt_succ_of_lt (scanTag_closePos found)

/-- Every turn of the loop goes on. -/
theorem scanAt_next {content : CString} {i i' : Nat} {htmlElements htmlElements' : List CString}
    (scanned : scanAt content i htmlElements = .next i' htmlElements') :
    i < content.length ∧ i < i' := by
  rw [scanAt] at scanned
  split at scanned
  · cases scanned
  · next c here =>
      refine ⟨(List.getElem?_eq_some_iff.mp here).1, ?_⟩
      split at scanned
      · cases scanned
        exact Nat.lt_succ_self i
      · split at scanned
        · split at scanned
          · cases scanned
          · next annEndPos found =>
              cases scanned
              have behind := (Text.findFrom_eq_some.mp found).1
              simp only [annStart, annEnd, List.length_cons, List.length_nil] at behind ⊢
              omega
        · split at scanned
          · exact pushElement_next scanned
          · split at scanned
            · rw [popElement] at scanned
              split at scanned
              · cases scanned
              · next eleEndPos found =>
                  split at scanned
                  · cases scanned
                  · cases scanned
                    exact Nat.lt_succ_of_le (Text.findFrom_eq_some.mp found).1
            · exact pushElement_next scanned

/-- `GetObjectEnd`, from `i` on. -/
def getObjectEnd (content : CString) (i : Nat) (htmlElements : List CString) : Option Nat :=
  match _scanned : scanAt content i htmlElements with
  | .stop endPos => endPos
  | .next i' htmlElements' => getObjectEnd content i' htmlElements'
termination_by content.length - i
decreasing_by
  have := scanAt_next _scanned
  omega

/-- The result of `Find`. -/
def cutOut (width : Nat) (content : CString) (findPos startPos classNameEndPos endPos : Nat) :
    Outcome Text.Error Found := do
  let findNext := findPos + classStart.length
  let className ← Text.substr content findNext (sizeSub width classNameEndPos findNext)
  let element ← Text.substr content startPos (sizeSub width endPos startPos)
  let classContent ← Text.erase element (sizeSub width findPos startPos)
    (classStart.length + className.length + classEnd.length)
  let rest ← Text.erase content startPos (sizeSub width endPos startPos)
  .ok ⟨className, classContent, startPos, rest⟩

/-- The body of the loop of `Find`; nothing is found when it continues. -/
def findAt (width : Nat) (content : CString) (findPos : Nat) :
    Outcome Text.Error (Option Found) := do
  match ← getObjectStart content (findPos + 1) false with
  | none => .ok none
  | some startPos =>
      if ← isAnnotation content startPos then .ok none
      else
        match Text.findFrom classEnd content findPos, getObjectEnd content startPos [] with
        | some classNameEndPos, some endPos => do
            .ok (some (← cutOut width content findPos startPos classNameEndPos endPos))
        | _, _ => .ok none

/-- The loop of `Find`. -/
def search (width : Nat) (content : CString) (findPos : Nat) :
    Outcome Text.Error (Option Found) := do
  match ← findAt width content findPos with
  | some found => .ok (some found)
  | none =>
      match _again : Text.findFrom classStart content (findPos + classStart.length) with
      | none => .ok none
      | some next => search width content next
termination_by content.length - findPos
decreasing_by
  have later := Text.findFrom_eq_some.mp _again
  have := later.2.2.1.lt (by decide)
  simp only [classStart, List.length_cons, List.length_nil] at later
  omega

/-- `static_cast<uint32_t>(content.find(class_start, find_start))`, as a `size_t`. -/
def narrowedFind (width : Nat) (content : CString) (findStart : Nat) : Option Nat :=
  let findPos :=
    ((Text.findFrom classStart content findStart).getD (npos width)) % 2 ^ 32
  if findPos ≠ npos width then some findPos else none

/-- `Find`. -/
def find (width : Nat) (content : CString) (findStart : Nat) :
    Outcome Text.Error (Option Found) :=
  match narrowedFind width content findStart with
  | none => .ok none
  | some findPos => search width content findPos

end HtmlClassFinder

end Cube.Eco
