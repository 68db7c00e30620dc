import Cube.Eco.Web.Html

/-! # Whether scanning for classes is total

`Find` narrows the place of the first attribute to 32 bits before it asks whether there is one. With
a `size_t` of 64 bits a text without an attribute then looks like one with an attribute at
`0xFFFFFFFF`.
-/

namespace Cube.Eco.HtmlClassFinder

open HtmlClass

variable {content : CString} {findStart : Nat}

/-- A call of `Find` that is total: its first search is recognised as what it is, every access is
inside the text, and an element that is found was removed. -/
structure FindTotal (content : CString) (findStart : Nat) : Prop where
  recognised : narrowedFind 64 content findStart = Text.findFrom classStart content findStart
  inside : ∃ result, find 64 content findStart = .ok result
  removes : ∀ found, find 64 content findStart = .ok (some found) →
    Removes content found ∧ found.content.length < content.length

/-- There is an attribute from a place on, and the first one is at a place of 32 bits. -/
def AttributeAhead (content : CString) (findStart : Nat) : Prop :=
  ∃ findPos < 2 ^ 32, Text.findFrom classStart content findStart = some findPos

theorem narrowedFind_none (absent : Text.findFrom classStart content findStart = none) :
    narrowedFind 64 content findStart = some (2 ^ 32 - 1) := by
  rw [narrowedFind, absent]
  rfl

theorem narrowedFind_some {findPos : Nat} (small : findPos < 2 ^ 32)
    (first : Text.findFrom classStart content findStart = some findPos) :
    narrowedFind 64 content findStart = some findPos := by
  have other : findPos ≠ npos 64 := by
    rw [npos]
    omega
  rw [narrowedFind, first, Option.getD_some, Nat.mod_eq_of_lt small, if_pos other]

/-- A search is recognised only if it has found something at a place of 32 bits. -/
theorem attributeAhead_of_recognised
    (recognised : narrowedFind 64 content findStart = Text.findFrom classStart content findStart) :
    AttributeAhead content findStart := by
  cases first : Text.findFrom classStart content findStart with
  | none =>
      rw [narrowedFind_none first, first] at recognised
      cases recognised
  | some findPos =>
      refine ⟨findPos, ?_, first⟩
      rw [narrowedFind, first, Option.getD_some] at recognised
      split at recognised
      · rw [← Option.some.inj recognised]
        exact Nat.mod_lt _ (by decide)
      · cases recognised

theorem find_ahead {findPos : Nat} (small : findPos < 2 ^ 32)
    (first : Text.findFrom classStart content findStart = some findPos) :
    find 64 content findStart = search 64 content findPos := by
  rw [find, narrowedFind_some small first]

theorem findTotal_iff : FindTotal content findStart ↔ AttributeAhead content findStart := by
  constructor
  · exact fun total => attributeAhead_of_recognised total.recognised
  · rintro ⟨findPos, small, first⟩
    have stands := (Text.findFrom_eq_some.mp first).2.2.1
    refine ⟨(narrowedFind_some small first).trans first.symm, ?_, fun found returned => ?_⟩
    · rw [find_ahead small first]
      exact search_returns stands 64
    · refine ⟨?_, (find_shrinks returned).2⟩
      rw [find_ahead small first] at returned
      obtain ⟨places, cut, place⟩ := search_found returned
      rcases place with rfl | ⟨-, stands⟩
      · exact cut.removes stands
      · exact cut.removes stands

/-- A text of 32 bits without an attribute is read behind its end. -/
theorem find_fault (absent : Text.findFrom classStart content findStart = none)
    (small : content.length < 2 ^ 32 - 1) : find 64 content findStart = .fault := by
  have outside : (strAt content (2 ^ 32 - 1) : Outcome Text.Error Char) = .fault := by
    rw [strAt, dif_neg (by omega), if_neg (by omega)]
  rw [find, narrowedFind_none absent]
  change search 64 content (2 ^ 32 - 1) = .fault
  rw [search_eq, findAt, getObjectStart, outside]
  rfl

/-- `LoadClass` is total: it returns, and so does every call of `Find` that it makes. -/
structure LoadTotal (content : CString) (findStart : Nat) : Prop where
  returns : ∃ loaded, HtmlClass.loadFrom 64 content findStart = .ok loaded
  calls : ∀ content' findStart', Calls 64 content findStart content' findStart' →
    FindTotal content' findStart'

/-- `LoadClass` returns when `Find` does in each of its calls. -/
theorem loadFrom_returns
    (calls : ∀ content' findStart', Calls 64 content findStart content' findStart' →
      ∃ result, find 64 content' findStart' = .ok result) :
    ∃ loaded, HtmlClass.loadFrom 64 content findStart = .ok loaded := by
  induction size : content.length using Nat.strongRecOn generalizing content findStart with
  | ind size' ih =>
      obtain ⟨result, called⟩ := calls content findStart (.here content findStart)
      cases result with
      | none => exact ⟨_, HtmlClass.loadFrom_none called⟩
      | some found =>
          have shorter := find_shrinks called
          rw [size] at shorter
          obtain ⟨child, inner⟩ := ih _ shorter.1
            (fun content' findStart' inner => calls content' findStart' (.child called inner)) rfl
          obtain ⟨rest, later⟩ := ih _ shorter.2
            (fun content' findStart' later => calls content' findStart' (.next called later)) rfl
          rw [HtmlClass.loadFrom_some called, inner, Outcome.ok_bind, later, Outcome.ok_bind]
          exact ⟨_, rfl⟩

theorem loadTotal_iff : LoadTotal content findStart ↔
    ∀ content' findStart', Calls 64 content findStart content' findStart' →
      AttributeAhead content' findStart' := by
  constructor
  · exact fun total content' findStart' call => findTotal_iff.mp (total.calls _ _ call)
  · intro ahead
    have calls := fun content' findStart' (call : Calls 64 content findStart content' findStart') =>
      findTotal_iff.mpr (ahead content' findStart' call)
    exact ⟨loadFrom_returns fun content' findStart' call => (calls _ _ call).inside, calls⟩

/-- **Total scanning.** With a `size_t` of 64 bits a call of `Find` is total if and only if there is
an attribute ahead of it, and `LoadClass` is if and only if that holds in each of its calls. -/
theorem scanning_total_iff (content : CString) (findStart : Nat) :
    (FindTotal content findStart ↔ AttributeAhead content findStart) ∧
      (LoadTotal content 0 ↔
        ∀ content' findStart', Calls 64 content 0 content' findStart' →
          AttributeAhead content' findStart') :=
  ⟨findTotal_iff, loadTotal_iff⟩

/-- The text is `<p></p>`. -/
theorem scanned_outside : ¬ FindTotal ['<', 'p', '>', '<', '/', 'p', '>'] 0 := by
  intro total
  obtain ⟨result, returned⟩ := total.inside
  rw [find_fault (by decide) (by decide)] at returned
  cases returned

end Cube.Eco.HtmlClassFinder
