import Cube.Eco.StdString

/-! # Formatting paths

`filepath_format` goes over a path once and edits its output: two dots take the last part of the
output away, a dot and a separator are left out, and so is a separator behind another one.
-/

namespace Cube.Eco

/-- The backslash. -/
def separator : Char := Char.ofNat 92

/-- `std::replace(p.begin(), p.end(), '/', '\\')`. -/
def replaceSlashes (p : CString) : CString := p.map fun c => if c = '/' then separator else c

/-- The loop that removes a parent, with `count - 1` as its `i`. -/
def cutAtSeparator (newP : CString) : Nat → CString
  | 0 => newP
  | i + 1 => if newP[i]? = some separator then newP.take i else cutAtSeparator newP i

/-- The removal of a parent. -/
def removeParent (newP : CString) : CString :=
  if 1 < newP.length ∧ newP.getLast? = some separator then cutAtSeparator newP (newP.length - 1)
  else newP

/-- The loop of `filepath_format` from `pos` on, and the last character; `bound` is
`p.size() - 1`. -/
def formatFrom (p : CString) (bound pos : Nat) (newP : CString) : Outcome Empty CString :=
  if pos < bound then do
    let c ← strAt p pos
    if c = '.' then do
      let d ← strAt p (pos + 1)
      if d = '.' then formatFrom p bound (pos + 2) (removeParent newP)
      else if d = separator then formatFrom p bound (pos + 2) newP
      else formatFrom p bound (pos + 1) (newP ++ [c])
    else if c = separator ∧ newP.getLast? = some separator then
      formatFrom p bound (pos + 1) newP
    else formatFrom p bound (pos + 1) (newP ++ [c])
  else if pos = bound then do
    let c ← strAt p pos
    .ok (newP ++ [c])
  else .ok newP
termination_by bound - pos

/-- `filepath_format`. -/
def filepathFormat (width : Nat) (p : CString) : Outcome Empty CString :=
  formatFrom (replaceSlashes p) (sizeSub width (replaceSlashes p).length 1) 0 []

/-- `boost::algorithm::iequals`. -/
def iequals (cmp1 cmp2 : CString) : Bool := cmp1.map Char.toUpper = cmp2.map Char.toUpper

/-- `filepath_equal`. -/
def filepathEqual (width : Nat) (p1 p2 : CString) : Outcome Empty Bool := do
  let cmp1 ← filepathFormat width p1
  let cmp2 ← filepathFormat width p2
  .ok (iequals cmp1 cmp2)

/-! ## The loop over what is left of a path -/

/-- What `filepath_format` makes of the rest of a path. -/
def formatRest : CString → CString → CString
  | [], newP => newP
  | [c], newP => newP ++ [c]
  | c :: d :: rest, newP =>
      if c = '.' ∧ d = '.' then formatRest rest (removeParent newP)
      else if c = '.' ∧ d = separator then formatRest rest newP
      else if c = separator ∧ newP.getLast? = some separator then formatRest (d :: rest) newP
      else formatRest (d :: rest) (newP ++ [c])

theorem strAt_of_drop {p rest : CString} {pos : Nat} {c : Char} (split : p.drop pos = c :: rest) :
    pos < p.length ∧ strAt p pos = (.ok c : Outcome Empty Char) ∧ p.drop (pos + 1) = rest := by
  have inside : pos < p.length := by
    by_contra outside
    rw [List.drop_of_length_le (Nat.le_of_not_lt outside)] at split
    cases split
  rw [List.drop_eq_getElem_cons inside] at split
  obtain ⟨here, behind⟩ := List.cons.inj split
  exact ⟨inside, here ▸ strAt_of_lt inside, behind⟩

/-- In a path with characters every index is inside. -/
theorem formatFrom_eq {p : CString} (nonempty : p ≠ []) {pos : Nat} (inside : pos ≤ p.length)
    (newP : CString) :
    formatFrom p (p.length - 1) pos newP = .ok (formatRest (p.drop pos) newP) := by
  have positive := List.length_pos_of_ne_nil nonempty
  induction rest : p.drop pos, newP using formatRest.induct generalizing pos with
  | case1 newP =>
      have done := List.drop_eq_nil_iff.mp rest
      rw [formatFrom, if_neg (by omega), if_neg (by omega), formatRest]
  | case2 c newP =>
      obtain ⟨small, read, behind⟩ := strAt_of_drop rest
      have done := List.drop_eq_nil_iff.mp behind
      rw [formatFrom, if_neg (by omega), if_pos (by omega), read, formatRest]
      rfl
  | case3 c d rest' newP dots ih =>
      obtain ⟨rfl, rfl⟩ := dots
      obtain ⟨small, read, behind⟩ := strAt_of_drop rest
      obtain ⟨small', read', behind'⟩ := strAt_of_drop behind
      rw [formatFrom, if_pos (by omega), read, Outcome.ok_bind, if_pos rfl, read',
        Outcome.ok_bind, if_pos rfl, formatRest, if_pos ⟨rfl, rfl⟩]
      exact ih small' behind'
  | case4 c d rest' newP other dot ih =>
      obtain ⟨rfl, rfl⟩ := dot
      obtain ⟨small, read, behind⟩ := strAt_of_drop rest
      obtain ⟨small', read', behind'⟩ := strAt_of_drop behind
      rw [formatFrom, if_pos (by omega), read, Outcome.ok_bind, if_pos rfl, read',
        Outcome.ok_bind, if_neg (by decide), if_pos rfl, formatRest, if_neg other,
        if_pos ⟨rfl, rfl⟩]
      exact ih small' behind'
  | case5 c d rest' newP other other' again ih =>
      obtain ⟨rfl, last⟩ := again
      obtain ⟨small, read, behind⟩ := strAt_of_drop rest
      obtain ⟨small', -, -⟩ := strAt_of_drop behind
      rw [formatFrom, if_pos (by omega), read, Outcome.ok_bind, if_neg (by decide),
        if_pos ⟨rfl, last⟩, formatRest, if_neg other, if_neg other', if_pos ⟨rfl, last⟩]
      exact ih (by omega) behind
  | case6 c d rest' newP other other' new ih =>
      obtain ⟨small, read, behind⟩ := strAt_of_drop rest
      obtain ⟨small', read', -⟩ := strAt_of_drop behind
      have following := ih (by omega) behind
      have step : formatRest (c :: d :: rest') newP = formatRest (d :: rest') (newP ++ [c]) := by
        rw [formatRest, if_neg other, if_neg other', if_neg new]
      rw [formatFrom, if_pos (by omega), read, Outcome.ok_bind, step, ← following]
      by_cases dot : c = '.'
      · rw [if_pos dot, read', Outcome.ok_bind, if_neg fun is => other ⟨dot, is⟩,
          if_neg fun is => other' ⟨dot, is⟩]
      · rw [if_neg dot, if_neg new]

theorem filepathFormat_eq (width : Nat) {p : CString} (nonempty : p ≠ []) :
    filepathFormat width p = .ok (formatRest (replaceSlashes p) []) := by
  have replaced : replaceSlashes p ≠ [] := fun empty => nonempty (List.map_eq_nil_iff.mp empty)
  rw [filepathFormat, sizeSub_of_le (List.length_pos_of_ne_nil replaced),
    formatFrom_eq replaced (Nat.zero_le _), List.drop_zero]

/-- An empty path is read behind its end. -/
theorem filepathFormat_nil {width : Nat} (wide : 2 ≤ width) : filepathFormat width [] = .fault := by
  have bound : 2 ^ 2 ≤ 2 ^ width := Nat.pow_le_pow_right (by decide) wide
  have size : sizeSub width (replaceSlashes []).length 1 = 0 + 2 ^ width - 1 := if_neg (by decide)
  rw [filepathFormat, size, formatFrom, if_pos (by omega)]
  change formatFrom [] (0 + 2 ^ width - 1) 1 [nul] = .fault
  rw [formatFrom, if_pos (by omega)]
  rfl

/-! ## Characters -/

theorem mem_of_mem_cutAtSeparator {newP : CString} {count : Nat} {c : Char}
    (member : c ∈ cutAtSeparator newP count) : c ∈ newP := by
  induction count with
  | zero => exact member
  | succ i ih =>
      rw [cutAtSeparator] at member
      split at member
      · exact List.mem_of_mem_take member
      · exact ih member

theorem mem_of_mem_removeParent {newP : CString} {c : Char} (member : c ∈ removeParent newP) :
    c ∈ newP := by
  rw [removeParent] at member
  split at member
  · exact mem_of_mem_cutAtSeparator member
  · exact member

/-- Formatting makes up no characters. -/
theorem mem_of_mem_formatRest {rest newP : CString} {c : Char}
    (member : c ∈ formatRest rest newP) : c ∈ rest ∨ c ∈ newP := by
  induction rest, newP using formatRest.induct with
  | case1 newP => exact .inr member
  | case2 d newP =>
      rw [formatRest, List.mem_append] at member
      exact member.symm
  | case3 x d rest newP dots ih =>
      rw [formatRest, if_pos dots] at member
      exact (ih member).imp (fun among => List.mem_cons_of_mem _ (List.mem_cons_of_mem _ among))
        mem_of_mem_removeParent
  | case4 x d rest newP other dot ih =>
      rw [formatRest, if_neg other, if_pos dot] at member
      exact (ih member).imp_left
        fun among => List.mem_cons_of_mem _ (List.mem_cons_of_mem _ among)
  | case5 x d rest newP other other' again ih =>
      rw [formatRest, if_neg other, if_neg other', if_pos again] at member
      exact (ih member).imp_left fun among => List.mem_cons_of_mem _ among
  | case6 x d rest newP other other' new ih =>
      rw [formatRest, if_neg other, if_neg other', if_neg new] at member
      rcases ih member with among | among
      · exact .inl (List.mem_cons_of_mem _ among)
      · rcases List.mem_append.mp among with among | among
        · exact .inr among
        · exact .inl (List.mem_singleton.mp among ▸ List.mem_cons_self)

theorem slash_not_mem_replaceSlashes (p : CString) : '/' ∉ replaceSlashes p := by
  intro member
  obtain ⟨c, -, is⟩ := List.mem_map.mp member
  split at is
  · exact absurd is (by decide)
  · next other => exact other is

theorem replaceSlashes_eq_self {p : CString} (plain : '/' ∉ p) : replaceSlashes p = p := by
  refine (List.map_congr_left fun c member => ?_).trans (List.map_id p)
  rw [if_neg (by rintro rfl; exact plain member), id]

end Cube.Eco
