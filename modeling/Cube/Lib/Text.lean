import Cube.Lib.Outcome
import Mathlib.Data.List.Infix

/-! # Texts and positions

Searching, cutting and joining texts by positions. A search gives the first place of a key; an
operation at a position behind the end of a text is rejected.
-/

namespace Text

variable {α : Type}

/-- The key stands in the text at a position. -/
def StandsAt (key text : List α) (pos : Nat) : Prop := key <+: text.drop pos

instance [DecidableEq α] (key text : List α) (pos : Nat) : Decidable (StandsAt key text pos) :=
  inferInstanceAs (Decidable (key <+: text.drop pos))

/-- The first place of a key. -/
def find [DecidableEq α] (key : List α) : List α → Option Nat
  | [] => if key = [] then some 0 else none
  | c :: text => if key <+: c :: text then some 0 else (find key text).map (· + 1)

/-- The first place of a key from a position on. -/
def findFrom [DecidableEq α] (key text : List α) (pos : Nat) : Option Nat :=
  if pos ≤ text.length then (find key (text.drop pos)).map (pos + ·) else none

/-- An operation at a position behind the end of its text. -/
inductive Error where
  | outOfRange
  deriving DecidableEq, Repr

/-- At most `count` items from a position on. -/
def substr (text : List α) (pos count : Nat) : Outcome Error (List α) :=
  if pos ≤ text.length then .ok ((text.drop pos).take count) else .reject .outOfRange

/-- The text without at most `count` items from a position on. -/
def erase (text : List α) (pos count : Nat) : Outcome Error (List α) :=
  if pos ≤ text.length then .ok (text.take pos ++ text.drop (pos + count))
  else .reject .outOfRange

/-- The text with a piece put in at a position. -/
def insert (text : List α) (pos : Nat) (piece : List α) : Outcome Error (List α) :=
  if pos ≤ text.length then .ok (text.take pos ++ piece ++ text.drop pos)
  else .reject .outOfRange

/-- The text with a piece in the place of at most `count` items from a position on. -/
def replace (text : List α) (pos count : Nat) (piece : List α) : Outcome Error (List α) :=
  if pos ≤ text.length then .ok (text.take pos ++ piece ++ text.drop (pos + count))
  else .reject .outOfRange

/-- Every place of a key, from the left on, is taken by a value. A key without items has no place. -/
def replaceAll [DecidableEq α] (key value : List α) (text : List α) : List α :=
  if _empty : key = [] then text
  else
    match _found : find key text with
    | none => text
    | some place =>
        text.take place ++ value ++ replaceAll key value (text.drop (place + key.length))
termination_by text.length
decreasing_by
  have some := List.length_pos_of_ne_nil _empty
  have text_ne : text ≠ [] := by
    rintro rfl
    rw [find, if_neg _empty] at _found
    cases _found
  have := List.length_pos_of_ne_nil text_ne
  rw [List.length_drop]
  omega

/-- Pieces put in at positions of a text, counted in the text itself from `last` on. -/
def weave : List α → Nat → List (Nat × List α) → List α
  | text, _, [] => text
  | text, last, (pos, piece) :: pieces =>
      text.take (pos - last) ++ piece ++ weave (text.drop (pos - last)) pos pieces

/-- The positions of pieces follow each other inside the text. -/
def Fits : List α → Nat → List (Nat × List α) → Prop
  | _, _, [] => True
  | text, last, (pos, _) :: pieces =>
      last ≤ pos ∧ pos - last ≤ text.length ∧ Fits (text.drop (pos - last)) pos pieces

/-- The segments stand in the first text, one behind the other, and the second is what is left. -/
inductive Without : List α → List (List α) → List α → Prop where
  | nil : Without [] [] []
  | keep (item : α) {text left : List α} {segments : List (List α)}
      (rest : Without text segments left) : Without (item :: text) segments (item :: left)
  | drop (segment : List α) {text left : List α} {segments : List (List α)}
      (rest : Without text segments left) : Without (segment ++ text) (segment :: segments) left

theorem Without.keep_all {text left : List α} {segments : List (List α)} (front : List α)
    (rest : Without text segments left) : Without (front ++ text) segments (front ++ left) := by
  induction front with
  | nil => exact rest
  | cons item front ih => exact .keep item ih

theorem Without.refl (text : List α) : Without text [] text := by
  have kept := Without.nil.keep_all text
  rwa [List.append_nil] at kept

theorem Without.append {first left second left' : List α} {segments segments' : List (List α)}
    (here : Without first segments left) (behind : Without second segments' left') :
    Without (first ++ second) (segments ++ segments') (left ++ left') := by
  induction here with
  | nil => exact behind
  | keep item _ ih => exact .keep item ih
  | drop segment _ ih =>
      rw [List.append_assoc]
      exact .drop segment ih

/-! ## Places -/

theorem StandsAt.split {key text : List α} {pos : Nat} (stands : StandsAt key text pos) :
    text.drop pos = key ++ text.drop (pos + key.length) := by
  obtain ⟨rest, split⟩ := stands
  rw [← List.drop_drop, ← split, List.drop_left]

theorem StandsAt.within {key text : List α} {pos : Nat} (stands : StandsAt key text pos)
    (inside : pos ≤ text.length) : pos + key.length ≤ text.length := by
  have length := List.IsPrefix.length_le stands
  rw [List.length_drop] at length
  omega

/-- An item of the key stands at its distance from the key's place. -/
theorem StandsAt.get {key text : List α} {pos offset : Nat} (stands : StandsAt key text pos)
    (inside : offset < key.length) : text[pos + offset]? = key[offset]? := by
  rw [← List.getElem?_drop, stands.split, List.getElem?_append_left inside]

/-- A key with items in it stands inside the text only. -/
theorem StandsAt.lt {key text : List α} {pos : Nat} (stands : StandsAt key text pos)
    (nonempty : key ≠ []) : pos < text.length := by
  have length := List.IsPrefix.length_le stands
  have some := List.length_pos_of_ne_nil nonempty
  rw [List.length_drop] at length
  omega

theorem standsAt_append {key front back : List α} {pos : Nat} :
    StandsAt key (front ++ back) (front.length + pos) ↔ StandsAt key back pos := by
  rw [StandsAt, StandsAt, List.drop_append, List.drop_of_length_le (Nat.le_add_right ..),
    List.nil_append, Nat.add_sub_cancel_left]

/-- A key stands behind the text in front of it. -/
theorem standsAt_here (front key back : List α) :
    StandsAt key (front ++ (key ++ back)) front.length := by
  rw [StandsAt, List.drop_left]
  exact List.prefix_append key back

section Search

variable [DecidableEq α] {key text : List α} {pos place : Nat}

theorem find_eq_some : find key text = some place ↔
    place ≤ text.length ∧ StandsAt key text place ∧ ∀ q < place, ¬ StandsAt key text q := by
  induction text generalizing place with
  | nil =>
      rw [find]
      by_cases empty : key = []
      · subst empty
        simp only [↓reduceIte, Option.some.injEq, List.length_nil, Nat.le_zero]
        constructor
        · rintro rfl
          exact ⟨rfl, List.nil_prefix, fun q small => absurd small (Nat.not_lt_zero q)⟩
        · rintro ⟨rfl, -, -⟩
          rfl
      · rw [if_neg empty]
        refine iff_of_false nofun fun ⟨_, stands, _⟩ => ?_
        exact absurd (stands.lt empty) (Nat.not_lt_zero _)
  | cons c text ih =>
      rw [find]
      by_cases here : key <+: c :: text
      · rw [if_pos here, Option.some.injEq]
        constructor
        · rintro rfl
          exact ⟨Nat.zero_le _, here, fun q small => absurd small (Nat.not_lt_zero q)⟩
        · rintro ⟨-, -, least⟩
          exact (Nat.eq_zero_or_pos place).elim Eq.symm fun later => absurd here (least 0 later)
      · rw [if_neg here, Option.map_eq_some_iff]
        constructor
        · rintro ⟨place, found, rfl⟩
          obtain ⟨inside, stands, least⟩ := ih.mp found
          refine ⟨Nat.succ_le_succ inside, stands, fun q small => ?_⟩
          cases q with
          | zero => exact here
          | succ q => exact least q (Nat.lt_of_succ_lt_succ small)
        · rintro ⟨inside, stands, least⟩
          cases place with
          | zero => exact absurd stands here
          | succ place =>
              refine ⟨place, ih.mpr ⟨Nat.le_of_succ_le_succ inside, stands, fun q small => ?_⟩, rfl⟩
              exact least (q + 1) (Nat.succ_lt_succ small)

theorem findFrom_eq_some : findFrom key text pos = some place ↔
    pos ≤ place ∧ place ≤ text.length ∧ StandsAt key text place ∧
      ∀ q, pos ≤ q → q < place → ¬ StandsAt key text q := by
  rw [findFrom]
  by_cases inside : pos ≤ text.length
  · rw [if_pos inside, Option.map_eq_some_iff]
    constructor
    · rintro ⟨offset, found, rfl⟩
      obtain ⟨within, stands, least⟩ := find_eq_some.mp found
      rw [List.length_drop] at within
      rw [StandsAt, List.drop_drop] at stands
      refine ⟨Nat.le_add_right .., by omega, stands, fun q behind small before => ?_⟩
      refine least (q - pos) (by omega) ?_
      rw [StandsAt, List.drop_drop, Nat.add_sub_cancel' behind]
      exact before
    · rintro ⟨behind, within, stands, least⟩
      refine ⟨place - pos, find_eq_some.mpr ⟨?_, ?_, fun q small before => ?_⟩,
        Nat.add_sub_cancel' behind⟩
      · rw [List.length_drop]
        omega
      · rw [StandsAt, List.drop_drop, Nat.add_sub_cancel' behind]
        exact stands
      · rw [StandsAt, List.drop_drop] at before
        exact least (pos + q) (Nat.le_add_right ..) (by omega) before
  · rw [if_neg inside]
    exact iff_of_false nofun fun ⟨behind, within, _⟩ => inside (behind.trans within)

end Search

/-! ## Operations inside the text -/

theorem insert_append (front back piece : List α) :
    insert (front ++ back) front.length piece = .ok (front ++ piece ++ back) := by
  rw [insert, if_pos (by rw [List.length_append]; exact Nat.le_add_right ..), List.take_left,
    List.drop_left]

theorem replace_append (front old back piece : List α) :
    replace (front ++ old ++ back) front.length old.length piece =
      .ok (front ++ piece ++ back) := by
  have inside : front.length ≤ (front ++ old ++ back).length := by
    rw [List.append_assoc, List.length_append]
    exact Nat.le_add_right ..
  rw [replace, if_pos inside, ← List.length_append, List.drop_left, List.append_assoc front,
    List.take_left]

/-- A key does not reach over an item that is not in it. -/
theorem prefix_append_cons {key front back : List α} {c : α} (absent : c ∉ key) :
    key <+: front ++ c :: back ↔ key <+: front := by
  constructor
  · intro stands
    refine List.prefix_of_prefix_length_le stands (List.prefix_append _ _) ?_
    by_contra longer
    have reached : key[front.length]? = some c := by
      have inside := (List.prefix_iff_getElem?.mp stands) front.length (by omega)
      rw [List.getElem?_append_right (Nat.le_refl _), Nat.sub_self] at inside
      exact (List.getElem?_eq_getElem (by omega)).trans inside.symm
    exact absent (List.mem_of_getElem? reached)
  · exact fun stands => stands.trans (List.prefix_append _ _)

theorem infix_append_cons {key front back : List α} {c : α} (absent : c ∉ key) :
    key <:+: front ++ c :: back ↔ key <:+: front ∨ key <:+: back := by
  induction front with
  | nil =>
      rw [List.nil_append, List.infix_cons_iff, ← List.nil_append (c :: back),
        prefix_append_cons absent, List.infix_nil, List.prefix_nil]
  | cons d front ih =>
      rw [List.cons_append, List.infix_cons_iff, List.infix_cons_iff, ih, ← List.cons_append,
        prefix_append_cons absent, or_assoc]

/-- A key does not reach over a separator of other items. -/
theorem infix_append_separated {key front separator back : List α} (some : separator ≠ [])
    (absent : ∀ c ∈ separator, c ∉ key) :
    key <:+: front ++ (separator ++ back) ↔ key <:+: front ∨ key <:+: back := by
  induction separator generalizing front with
  | nil => exact absurd rfl some
  | cons c separator ih =>
      obtain ⟨first, others⟩ := List.forall_mem_cons.mp absent
      rw [List.cons_append, infix_append_cons first]
      by_cases last : separator = []
      · rw [last, List.nil_append]
      · have behind := @ih [] last others
        rw [List.nil_append] at behind
        have still : key = [] → key <:+: back := by
          rintro rfl
          exact List.nil_infix
        rw [behind, List.infix_nil, or_iff_right_of_imp still]

/-- A key stands in a list of texts if it stands in one of them. -/
theorem infix_intercalate {key separator : List α} (nonempty : key ≠ []) (some : separator ≠ [])
    (absent : ∀ c ∈ separator, c ∉ key) (texts : List (List α)) :
    key <:+: separator.intercalate texts ↔ ∃ text ∈ texts, key <:+: text := by
  induction texts with
  | nil => simpa using nonempty
  | cons first texts ih =>
      cases texts with
      | nil => simp
      | cons second texts =>
          rw [List.intercalate_cons_cons, List.append_assoc, infix_append_separated some absent, ih]
          simp

/-! ## Replacing -/

section Replace

variable [DecidableEq α] {key value text : List α}

/-- A text is empty, begins with the key, or has an item in front at which no key stands. -/
theorem replace_induction (nonempty : key ≠ []) {motive : List α → Prop} (nil : motive [])
    (here : ∀ text, motive text → motive (key ++ text))
    (other : ∀ c text, ¬ key <+: c :: text → motive text → motive (c :: text))
    (text : List α) : motive text := by
  induction size : text.length using Nat.strongRecOn generalizing text with
  | _ n ih =>
      subst size
      cases text with
      | nil => exact nil
      | cons c text =>
          by_cases stands : key <+: c :: text
          · obtain ⟨rest, split⟩ := stands
            have some := List.length_pos_of_ne_nil nonempty
            have length := congrArg List.length split
            rw [List.length_append] at length
            exact split ▸ here rest (ih rest.length (by omega) rest rfl)
          · exact other c text stands (ih text.length (Nat.lt_succ_self _) text rfl)

@[simp] theorem replaceAll_nil : replaceAll key value [] = [] := by
  rw [replaceAll]
  split
  · rfl
  · rename_i nonempty
    split
    · rfl
    · rename_i place found
      rw [find, if_neg nonempty] at found
      exact nomatch found

theorem replaceAll_key (nonempty : key ≠ []) (text : List α) :
    replaceAll key value (key ++ text) = value ++ replaceAll key value text := by
  have found : find key (key ++ text) = some 0 :=
    find_eq_some.mpr ⟨Nat.zero_le _, List.prefix_append key text, nofun⟩
  rw [replaceAll, dif_neg nonempty]
  split
  · rename_i missing
    exact nomatch missing.symm.trans found
  · rename_i place at_place
    obtain rfl := Option.some.inj (at_place.symm.trans found)
    rw [List.take_zero, List.nil_append, Nat.zero_add, List.drop_left]

theorem replaceAll_cons {c : α} (other : ¬ key <+: c :: text) :
    replaceAll key value (c :: text) = c :: replaceAll key value text := by
  have nonempty : key ≠ [] := by
    rintro rfl
    exact other List.nil_prefix
  have found : find key (c :: text) = (find key text).map (· + 1) := by rw [find, if_neg other]
  rw [replaceAll, replaceAll, dif_neg nonempty, dif_neg nonempty]
  split
  · rename_i missing
    rw [found, Option.map_eq_none_iff] at missing
    split
    · rfl
    · rename_i place at_place
      exact nomatch missing.symm.trans at_place
  · rename_i place at_place
    rw [found, Option.map_eq_some_iff] at at_place
    obtain ⟨before, at_before, rfl⟩ := at_place
    split
    · rename_i missing
      exact nomatch missing.symm.trans at_before
    · rename_i place at_place
      obtain rfl := Option.some.inj (at_place.symm.trans at_before)
      rw [Nat.add_right_comm, List.take_succ_cons, List.drop_succ_cons, List.cons_append,
        List.cons_append]

theorem replaceAll_of_absent (nowhere : ¬ key <:+: text) : replaceAll key value text = text := by
  induction text with
  | nil => exact replaceAll_nil
  | cons c text ih =>
      rw [List.infix_cons_iff, not_or] at nowhere
      rw [replaceAll_cons nowhere.1, ih nowhere.2]

/-- The parts of a text around an item that is not in the key. -/
theorem replaceAll_append_cons {front back : List α} {c : α} (nonempty : key ≠ [])
    (absent : c ∉ key) : replaceAll key value (front ++ c :: back) =
      replaceAll key value front ++ c :: replaceAll key value back := by
  induction front using replace_induction nonempty with
  | nil =>
      have none : ¬ key <+: c :: back := fun stands =>
        nonempty (List.prefix_nil.mp ((prefix_append_cons absent).mp stands))
      rw [List.nil_append, replaceAll_cons none, replaceAll_nil, List.nil_append]
  | here front ih =>
      rw [List.append_assoc, replaceAll_key nonempty, replaceAll_key nonempty, ih,
        List.append_assoc]
  | other d front none ih =>
      have still : ¬ key <+: d :: (front ++ c :: back) := fun stands =>
        none ((prefix_append_cons absent).mp stands)
      rw [List.cons_append, replaceAll_cons still, replaceAll_cons none, ih, List.cons_append]

/-- What stands in front after replacing stood there before, if the value does not begin in it. -/
theorem prefix_of_prefix_replaceAll {other : List α} {h : α} (nonempty : key ≠ [])
    (absent : h ∉ other) (stands : other <+: replaceAll key (h :: value) text) : other <+: text := by
  induction text using replace_induction nonempty generalizing other with
  | nil => rwa [replaceAll_nil] at stands
  | here text ih =>
      rw [replaceAll_key nonempty, List.cons_append, ← List.nil_append (h :: _)] at stands
      have none := (prefix_append_cons absent).mp stands
      rw [List.prefix_nil.mp none]
      exact List.nil_prefix
  | other c text none ih =>
      rw [replaceAll_cons none] at stands
      cases other with
      | nil => exact List.nil_prefix
      | cons d other =>
          obtain ⟨rfl, behind⟩ := List.cons_prefix_cons.mp stands
          exact List.cons_prefix_cons.mpr
            ⟨rfl, ih (fun member => absent (List.mem_cons_of_mem _ member)) behind⟩

/-- Two keys are replaced one after the other, by values that do not begin like a key: the text
stays as it is exactly if there is no key in it. -/
theorem replaceAll_twice_eq_iff {k : α} {first second other : List α} {h : α}
    (apart : ∀ text, replaceAll (k :: first) (h :: value) (k :: second ++ text) =
      k :: second ++ replaceAll (k :: first) (h :: value) text)
    (begins : h ≠ k ∧ h ∉ second)
    (begins' : k :: second <:+: text → ∃ d more, other = d :: more ∧ d ≠ k) :
    replaceAll (k :: second) other (replaceAll (k :: first) (h :: value) text) = text ↔
      ¬ k :: first <:+: text ∧ ¬ k :: second <:+: text := by
  have absent : h ∉ k :: second := by simpa using begins
  constructor
  · intro same
    induction text with
    | nil => simp
    | cons c text ih =>
        by_cases one : k :: first <+: c :: text
        · obtain ⟨rest, split⟩ := one
          rw [← split, replaceAll_key (List.cons_ne_nil _ _), List.cons_append] at same
          have none : ¬ k :: second <+: h :: (value ++ replaceAll (k :: first) (h :: value) rest) :=
            fun stands => begins.1 (List.cons_prefix_cons.mp stands).1.symm
          rw [replaceAll_cons none] at same
          exact absurd (List.cons.inj same).1 begins.1
        · by_cases two : k :: second <+: c :: text
          · obtain ⟨d, more, rfl, differs⟩ := begins' two.isInfix
            obtain ⟨rest, split⟩ := two
            rw [← split, apart, replaceAll_key (List.cons_ne_nil _ _)] at same
            exact absurd (List.cons.inj same).1 differs
          · rw [replaceAll_cons one] at same
            have still : ¬ k :: second <+: c :: replaceAll (k :: first) (h :: value) text := by
              intro stands
              rw [← replaceAll_cons one] at stands
              exact two (prefix_of_prefix_replaceAll (List.cons_ne_nil _ _) absent stands)
            rw [replaceAll_cons still] at same
            have behind := ih (fun inside => begins' (List.infix_cons inside)) (List.cons.inj same).2
            rw [List.infix_cons_iff, List.infix_cons_iff]
            exact ⟨not_or.mpr ⟨one, behind.1⟩, not_or.mpr ⟨two, behind.2⟩⟩
  · rintro ⟨none, none'⟩
    rw [replaceAll_of_absent none, replaceAll_of_absent none']

/-- A key is replaced by a value that does not begin like it: the text stays as it is exactly if
the key is not in it. -/
theorem replaceAll_eq_self_iff {k h : α} (begins : h ≠ k) :
    replaceAll (k :: key) (h :: value) text = text ↔ ¬ k :: key <:+: text := by
  constructor
  · intro same
    induction text with
    | nil => simp
    | cons c text ih =>
        by_cases one : k :: key <+: c :: text
        · obtain ⟨rest, split⟩ := one
          rw [← split, replaceAll_key (List.cons_ne_nil _ _)] at same
          exact absurd (List.cons.inj same).1 begins
        · rw [replaceAll_cons one] at same
          rw [List.infix_cons_iff]
          exact not_or.mpr ⟨one, ih (List.cons.inj same).2⟩
  · exact replaceAll_of_absent

/-- A key that is taken out makes the text shorter. -/
theorem length_replaceAll_nil (nonempty : key ≠ []) :
    (replaceAll key [] text).length ≤ text.length ∧
      (key <:+: text → (replaceAll key [] text).length + key.length ≤ text.length) := by
  induction text using replace_induction nonempty with
  | nil =>
      refine ⟨by simp, fun inside => ?_⟩
      exact absurd (List.infix_nil.mp inside) nonempty
  | here text ih =>
      rw [replaceAll_key nonempty, List.nil_append, List.length_append]
      exact ⟨by omega, fun _ => by omega⟩
  | other c text none ih =>
      rw [replaceAll_cons none, List.length_cons, List.length_cons, List.infix_cons_iff,
        or_iff_right none]
      exact ⟨Nat.succ_le_succ ih.1, fun inside => by have := ih.2 inside; omega⟩

/-- The first key in a text is replaced by the value. -/
theorem replaceAll_split (nonempty : key ≠ []) (inside : key <:+: text) :
    ∃ front back, text = front ++ (key ++ back) ∧
      replaceAll key value text = front ++ (value ++ replaceAll key value back) := by
  induction text using replace_induction nonempty with
  | nil => exact absurd (List.infix_nil.mp inside) nonempty
  | here text ih => exact ⟨[], text, rfl, replaceAll_key nonempty text⟩
  | other c text none ih =>
      obtain ⟨front, back, split, replaced⟩ := ih ((List.infix_cons_iff.mp inside).resolve_left none)
      exact ⟨c :: front, back, congrArg (c :: ·) split,
        (replaceAll_cons none).trans (congrArg (c :: ·) replaced)⟩

/-- A key does not reach over a separator of other items. -/
theorem replaceAll_intercalate {c : α} (nonempty : key ≠ []) (absent : c ∉ key)
    (texts : List (List α)) : replaceAll key value ([c].intercalate texts) =
      [c].intercalate (texts.map (replaceAll key value)) := by
  induction texts with
  | nil => exact replaceAll_nil
  | cons first texts ih =>
      cases texts with
      | nil => simp only [List.map_cons, List.map_nil, List.intercalate_singleton]
      | cons second texts =>
          simp only [List.map_cons, List.intercalate_cons_cons, List.append_assoc,
            List.singleton_append] at ih ⊢
          rw [replaceAll_append_cons nonempty absent, ih]

end Replace

end Text
