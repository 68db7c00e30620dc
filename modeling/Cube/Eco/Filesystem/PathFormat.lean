import Mathlib.Data.List.Infix
import Cube.Eco.Filesystem.Operations

/-! # The normal form of a path

A path denotes a place: from the root or not, some parents up, and down through names. Its normal
form is the shortest path to that place. A path is clean if its dots and separators stand where
`filepath_format` reads them right.
-/

namespace Cube.Eco

/-- What a path denotes. -/
structure Location where
  rooted : Bool
  ups : Nat
  names : List CString
  deriving DecidableEq

namespace Location

/-- One component further. -/
def step (place : Location) (component : CString) : Location :=
  if component = [] ∨ component = ['.'] then place
  else if component = ['.', '.'] then
    if place.names ≠ [] then { place with names := place.names.dropLast }
    else if place.rooted then place
    else { place with ups := place.ups + 1 }
  else { place with names := place.names ++ [component] }

/-- The components of the shortest path to a place. -/
def parts (place : Location) : List CString :=
  List.replicate place.ups ['.', '.'] ++ place.names

end Location

/-- The components of a path. -/
def components (p : CString) : List CString := (replaceSlashes p).splitOn separator

/-- The place that a path denotes. -/
def location (p : CString) : Location :=
  (components p).foldl .step ⟨(replaceSlashes p).head? = some separator, 0, []⟩

/-- A path to a part of a tree, with a separator behind every part. -/
def render (rooted : Bool) (parts : List CString) : CString :=
  (if rooted then [separator] else []) ++ parts.flatMap (· ++ [separator])

/-- The shortest path, with or without a separator at its end. -/
def pathText (rooted trailing : Bool) (parts : List CString) : CString :=
  if parts = [] then if rooted then [separator] else ['.']
  else if trailing then render rooted parts
  else (render rooted parts).dropLast

/-- The lexical normal form of a path, which keeps a separator at the end. -/
def normalForm (p : CString) : CString :=
  pathText (location p).rooted ((components p).getLast? = some []) (location p).parts

/-- No slash, no empty component inside, no dot but for the path that is one, and no two dots behind
a name. -/
structure Normal (p : CString) : Prop where
  slashes : '/' ∉ p
  doubled : ∀ component ∈ (components p).dropLast.tail, component ≠ []
  dot : ['.'] ∈ components p → p = ['.']
  parents : ∀ front name back, components p = front ++ name :: ['.', '.'] :: back →
    name = ['.', '.']

/-! ## Clean paths -/

/-- A component in front of a separator, with `count` names before it; the separator may be the last
character. -/
def CleanBefore (rooted final : Bool) (count : Nat) (component : CString) : Prop :=
  if component = [] then final = false ∧ (rooted = true ∨ 0 < count)
  else if component = ['.'] then final = true → rooted = true ∨ 0 < count
  else if component = ['.', '.'] then
    2 ≤ count ∨ rooted = true ∧ (final = true → 0 < count)
  else ¬ ['.', '.'] <:+: component ∧ component.getLast? ≠ some '.'

/-- A last component. -/
def CleanLast (rooted : Bool) (count : Nat) (component : CString) : Prop :=
  if component = [] then rooted = true
  else if component = ['.'] then rooted = false ∧ count = 0
  else if component = ['.', '.'] then 2 ≤ count ∨ rooted = true ∧ count = 0
  else ¬ ['.', '.'] <:+: component

/-- The names behind one more component. -/
def stepNames (names : List CString) (component : CString) : List CString :=
  if component = [] ∨ component = ['.'] then names
  else if component = ['.', '.'] then names.dropLast
  else names ++ [component]

/-- Components behind names that are read right. -/
def CleanFrom (rooted : Bool) : List CString → List CString → Prop
  | _, [] => False
  | names, [component] => CleanLast rooted names.length component
  | names, component :: next :: rest =>
      CleanBefore rooted (next = [] ∧ rest = []) names.length component ∧
        (¬ (next = [] ∧ rest = []) →
          CleanFrom rooted (stepNames names component) (next :: rest))

/-- A path whose components are read right. -/
def Clean (p : CString) : Prop :=
  match components p with
  | [] :: next :: rest => CleanFrom true [] (next :: rest)
  | parts => CleanFrom false [] parts

instance (rooted final : Bool) (count : Nat) (component : CString) :
    Decidable (CleanBefore rooted final count component) := by
  unfold CleanBefore
  infer_instance

instance (rooted : Bool) (count : Nat) (component : CString) :
    Decidable (CleanLast rooted count component) := by
  unfold CleanLast
  infer_instance

instance decidableCleanFrom (rooted : Bool) :
    ∀ names parts : List CString, Decidable (CleanFrom rooted names parts)
  | _, [] => inferInstanceAs (Decidable False)
  | names, [component] => inferInstanceAs (Decidable (CleanLast rooted names.length component))
  | names, component :: next :: rest =>
      have := decidableCleanFrom rooted (stepNames names component) (next :: rest)
      inferInstanceAs (Decidable (CleanBefore rooted (next = [] ∧ rest = []) names.length component ∧
        (¬ (next = [] ∧ rest = []) →
          CleanFrom rooted (stepNames names component) (next :: rest))))

instance (p : CString) : Decidable (Clean p) := by
  unfold Clean
  split
  · infer_instance
  · infer_instance

end Cube.Eco

/-! ## Formatting clean paths

The output of `filepath_format` at the start of a component is the path to the names so far, with a
separator behind every name. One component and its separator take it to the next one.
-/

namespace Cube.Eco

/-! ## One component -/

theorem formatRest_separator {newP : CString} (other : newP.getLast? ≠ some separator)
    (rest : CString) :
    formatRest (separator :: rest) newP = formatRest rest (newP ++ [separator]) := by
  cases rest with
  | nil => rfl
  | cons d rest =>
      rw [formatRest, if_neg fun is => absurd is.1 (by decide),
        if_neg fun is => absurd is.1 (by decide), if_neg fun is => other is.2]

theorem formatRest_again {newP rest : CString} (last : newP.getLast? = some separator)
    (nonempty : rest ≠ []) : formatRest (separator :: rest) newP = formatRest rest newP := by
  obtain ⟨d, rest, rfl⟩ := List.exists_cons_of_ne_nil nonempty
  rw [formatRest, if_neg fun is => absurd is.1 (by decide),
    if_neg fun is => absurd is.1 (by decide), if_pos ⟨rfl, last⟩]

/-- A name without two dots is copied, up to the end or to a separator behind its last character,
which is no dot then. -/
theorem formatRest_name {name tail : CString} (plain : separator ∉ name)
    (dots : ¬ ['.', '.'] <:+: name)
    (ends : tail = [] ∨ name.getLast? ≠ some '.' ∧ ∃ rest, tail = separator :: rest)
    (newP : CString) : formatRest (name ++ tail) newP = formatRest tail (newP ++ name) := by
  induction name generalizing newP with
  | nil => rw [List.nil_append, List.append_nil]
  | cons c name ih =>
      rw [List.mem_cons, not_or] at plain
      have other : ¬ (c = separator ∧ newP.getLast? = some separator) :=
        fun is => plain.1 is.1.symm
      have copied := ih plain.2 (fun inside => dots (List.infix_cons inside))
      cases name with
      | nil =>
          rcases ends with rfl | ⟨last, rest, rfl⟩
          · rfl
          · have visible : c ≠ '.' := fun is => last (congrArg some is)
            rw [List.cons_append, List.nil_append, formatRest, if_neg fun is => visible is.1,
              if_neg fun is => visible is.1, if_neg other]
      | cons d name =>
          have apart : ¬ (c = '.' ∧ d = '.') := by
            rintro ⟨rfl, rfl⟩
            exact dots (List.IsPrefix.isInfix ⟨name, rfl⟩)
          have inside : ¬ (c = '.' ∧ d = separator) :=
            fun is => plain.2 (is.2 ▸ List.mem_cons_self)
          rw [List.getLast?_cons_cons] at ends
          have rest := copied ends (newP ++ [c])
          rw [List.append_assoc, List.singleton_append] at rest
          rw [List.cons_append, List.cons_append, formatRest, if_neg apart, if_neg inside,
            if_neg other]
          exact rest

/-! ## The output in front of a component -/

/-- Names that an output can consist of. -/
def Names (names : List CString) : Prop := ∀ name ∈ names, name ≠ [] ∧ separator ∉ name

theorem render_concat (rooted : Bool) (names : List CString) (name : CString) :
    render rooted (names ++ [name]) = render rooted names ++ name ++ [separator] := by
  rw [render, render, List.flatMap_append, List.flatMap_singleton]
  simp only [List.append_assoc]

theorem render_split {rooted : Bool} {names : List CString} (some : rooted = true ∨ names ≠ []) :
    render rooted names = (render rooted names).dropLast ++ [separator] := by
  rcases List.eq_nil_or_concat' names with rfl | ⟨init, name, rfl⟩
  · obtain rfl := some.resolve_right fun nonempty => nonempty rfl
    rfl
  · rw [render_concat, List.dropLast_concat]

theorem render_getLast {rooted : Bool} {names : List CString} (some : rooted = true ∨ names ≠ []) :
    (render rooted names).getLast? = .some separator := by
  rw [render_split some, List.getLast?_concat]

/-- Without its last separator the output ends in a name. -/
theorem dropLast_getLast {rooted : Bool} {names : List CString} (good : Names names) :
    (render rooted names).dropLast.getLast? ≠ some separator := by
  rcases List.eq_nil_or_concat' names with rfl | ⟨init, name, rfl⟩
  · cases rooted <;> exact nofun
  · obtain ⟨nonempty, plain⟩ := good name (List.mem_append_right _ List.mem_cons_self)
    rw [render_concat, List.dropLast_concat, List.getLast?_append_of_ne_nil _ nonempty]
    exact fun last => plain (List.mem_of_getLast? last)

theorem cutAtSeparator_eq (base : CString) {name : CString} (plain : separator ∉ name)
    (tail : CString) {count : Nat} (inside : count ≤ name.length) :
    cutAtSeparator (base ++ separator :: (name ++ tail)) (base.length + 1 + count) = base := by
  induction count with
  | zero =>
      rw [Nat.add_zero, cutAtSeparator, List.getElem?_append_right (le_refl _), Nat.sub_self,
        List.getElem?_cons_zero, if_pos rfl, List.take_left]
  | succ count ih =>
      have here : (base ++ separator :: (name ++ tail))[base.length + 1 + count]? =
          name[count]? := by
        rw [List.getElem?_append_right (by omega),
          show base.length + 1 + count - base.length = count + 1 by omega, List.getElem?_cons_succ,
          List.getElem?_append_left inside]
      have other : name[count]? ≠ some separator :=
        fun same => plain (List.mem_of_getElem? same)
      rw [← Nat.add_assoc, cutAtSeparator, here, if_neg other, ih (Nat.le_of_succ_le inside)]

/-- A parent is removed with the separator in front of it. -/
theorem removeParent_render {rooted : Bool} {names : List CString} {name : CString}
    (nonempty : name ≠ []) (plain : separator ∉ name) (some : rooted = true ∨ names ≠ []) :
    removeParent (render rooted (names ++ [name])) = (render rooted names).dropLast := by
  have split : render rooted (names ++ [name]) =
      (render rooted names).dropLast ++ separator :: (name ++ [separator]) := by
    rw [render_concat, render_split some, List.dropLast_concat]
    simp only [List.append_assoc, List.cons_append, List.nil_append]
  have positive := List.length_pos_of_ne_nil nonempty
  have length : (render rooted (names ++ [name])).length =
      (render rooted names).dropLast.length + 1 + name.length + 1 := by
    rw [split, List.length_append, List.length_cons, List.length_append, List.length_singleton]
    omega
  rw [removeParent, if_pos ⟨by omega, render_getLast (.inr (List.append_ne_nil_of_right_ne_nil _
    (List.cons_ne_nil _ _)))⟩, length, Nat.add_sub_cancel, split,
    cutAtSeparator_eq _ plain _ le_rfl]

theorem Names.concat {names : List CString} (good : Names names) {name : CString}
    (nonempty : name ≠ []) (plain : separator ∉ name) : Names (names ++ [name]) := by
  intro other member
  rcases List.mem_append.mp member with member | member
  · exact good other member
  · exact List.mem_singleton.mp member ▸ ⟨nonempty, plain⟩

theorem Names.dropLast {names : List CString} (good : Names names) : Names names.dropLast :=
  fun name member => good name (List.dropLast_subset _ member)

theorem stepNames_name (names : List CString) {component : CString} (nonempty : component ≠ [])
    (no_dot : component ≠ ['.']) (no_dots : component ≠ ['.', '.']) :
    stepNames names component = names ++ [component] := by
  rw [stepNames, if_neg (not_or.mpr ⟨nonempty, no_dot⟩), if_neg no_dots]

theorem Names.step {names : List CString} (good : Names names) {component : CString}
    (plain : separator ∉ component) : Names (stepNames names component) := by
  rw [stepNames]
  split
  · exact good
  · next other =>
      split
      · exact good.dropLast
      · exact good.concat (fun empty => other (.inl empty)) plain

/-- Two dots take the last name away, but for the separator in front of it. -/
theorem removeParent_names {rooted : Bool} {names : List CString} (good : Names names)
    (some : names ≠ []) (above : 2 ≤ names.length ∨ rooted = true) :
    removeParent (render rooted names) = (render rooted names.dropLast).dropLast ∧
      (rooted = true ∨ names.dropLast ≠ []) := by
  rcases List.eq_nil_or_concat' names with rfl | ⟨init, name, rfl⟩
  · exact absurd rfl some
  · obtain ⟨nonempty, plain⟩ := good name (List.mem_append_right _ List.mem_cons_self)
    rw [List.length_append, List.length_singleton] at above
    rw [List.dropLast_concat]
    have above' : rooted = true ∨ init ≠ [] :=
      above.symm.imp_right fun two => List.ne_nil_of_length_pos (by omega)
    exact ⟨removeParent_render nonempty plain above', above'⟩

/-- Two dots and a separator lead to the names without the last one. -/
theorem formatRest_parent {rooted final : Bool} {names : List CString} (good : Names names)
    (clean : 2 ≤ names.length ∨ rooted = true ∧ (final = true → 0 < names.length))
    {rest : CString} (more : final = false → rest ≠ []) :
    formatRest ('.' :: '.' :: separator :: rest) (render rooted names) =
      formatRest rest (render rooted names.dropLast) := by
  rw [formatRest, if_pos ⟨rfl, rfl⟩]
  by_cases some : names = []
  · -- At the root there is no parent.
    subst some
    obtain ⟨root, more_names⟩ := clean.resolve_left (by decide)
    subst root
    have open_end : final = false :=
      Bool.eq_false_iff.mpr fun is => absurd (more_names is) (Nat.lt_irrefl 0)
    exact formatRest_again rfl (more open_end)
  · obtain ⟨removed, above⟩ := removeParent_names good some (clean.imp_right And.left)
    rw [removed, formatRest_separator (dropLast_getLast good.dropLast), ← render_split above]

/-- A component and its separator lead to the names behind it. -/
theorem formatRest_before {rooted final : Bool} {names : List CString} (good : Names names)
    {component : CString} (plain : separator ∉ component)
    (clean : CleanBefore rooted final names.length component) {rest : CString}
    (more : final = false → rest ≠ []) :
    formatRest (component ++ separator :: rest) (render rooted names) =
      formatRest rest (render rooted (stepNames names component)) := by
  rw [CleanBefore] at clean
  split at clean
  · next empty =>
      subst empty
      have some : rooted = true ∨ names ≠ [] :=
        clean.2.imp_right List.ne_nil_of_length_pos
      rw [List.nil_append, formatRest_again (render_getLast some) (more clean.1)]
      rfl
  · next nonempty =>
      split at clean
      · next dot =>
          subst dot
          rw [List.singleton_append, formatRest, if_neg fun is => absurd is.2 (by decide),
            if_pos ⟨rfl, rfl⟩]
          rfl
      · next no_dot =>
          split at clean
          · next dots =>
              subst dots
              exact formatRest_parent good clean more
          · next no_dots =>
              have stepped := stepNames_name names nonempty no_dot no_dots
              have ends : (render rooted names ++ component).getLast? ≠ some separator := by
                rw [List.getLast?_append_of_ne_nil _ nonempty]
                exact fun last => plain (List.mem_of_getLast? last)
              rw [formatRest_name plain clean.1 (.inr ⟨clean.2, rest, rfl⟩),
                formatRest_separator ends, stepped, render_concat]

/-- The last component. -/
theorem formatRest_last {rooted : Bool} {names : List CString} (good : Names names)
    {component : CString} (plain : separator ∉ component)
    (clean : CleanLast rooted names.length component) :
    formatRest component (render rooted names) =
      pathText rooted (component = []) (stepNames names component) := by
  rw [CleanLast] at clean
  split at clean
  · next empty =>
      subst empty clean
      have stepped : stepNames names [] = names := rfl
      rw [stepped, pathText, formatRest]
      split
      · next none => rw [none]; rfl
      · rfl
  · next nonempty =>
      have open_end : decide (component = []) = false := decide_eq_false nonempty
      split at clean
      · next dot =>
          obtain ⟨rfl, none⟩ := clean
          obtain rfl := List.eq_nil_of_length_eq_zero none
          subst dot
          rfl
      · next no_dot =>
          split at clean
          · next dots =>
              subst dots
              have stepped : stepNames names ['.', '.'] = names.dropLast := rfl
              have removed : formatRest ['.', '.'] (render rooted names) =
                  removeParent (render rooted names) := by
                rw [formatRest, if_pos ⟨rfl, rfl⟩, formatRest]
              rw [stepped, removed, open_end, pathText]
              rcases clean with two | ⟨root, none⟩
              · have some : names ≠ [] :=
                  List.ne_nil_of_length_pos (Nat.lt_of_lt_of_le Nat.zero_lt_two two)
                have below : names.dropLast ≠ [] :=
                  List.ne_nil_of_length_pos (by rw [List.length_dropLast]; omega)
                rw [if_neg below, if_neg Bool.false_ne_true,
                  (removeParent_names good some (.inl two)).1]
              · obtain rfl := List.eq_nil_of_length_eq_zero none
                subst root
                rfl
          · next no_dots =>
              have stepped := stepNames_name names nonempty no_dot no_dots
              have copied := formatRest_name plain clean (.inl rfl) (render rooted names)
              rw [List.append_nil, formatRest] at copied
              rw [copied, stepped, open_end, pathText, if_neg (List.append_ne_nil_of_right_ne_nil _
                (List.cons_ne_nil _ _)), if_neg Bool.false_ne_true, render_concat,
                List.dropLast_concat]

/-- Only the root has a separator at the end and no names. -/
theorem rooted_of_final {rooted : Bool} {names : List CString} {component : CString}
    (clean : CleanBefore rooted true names.length component)
    (none : stepNames names component = []) : rooted = true := by
  rw [CleanBefore] at clean
  rw [stepNames] at none
  split at clean
  · exact absurd clean.1 (by decide)
  · next nonempty =>
      split at clean
      · next dot =>
          rw [if_pos (.inr dot)] at none
          subst none
          exact (clean rfl).resolve_right (Nat.lt_irrefl 0)
      · next no_dot =>
          rw [if_neg (not_or.mpr ⟨nonempty, no_dot⟩)] at none
          split at clean
          · next dots =>
              rw [if_pos dots] at none
              rcases clean with two | ⟨root, -⟩
              · have length := congrArg List.length none
                rw [List.length_dropLast, List.length_nil] at length
                omega
              · exact root
          · next no_dots =>
              rw [if_neg no_dots] at none
              exact absurd none (List.append_ne_nil_of_right_ne_nil _ (List.cons_ne_nil _ _))

/-- Components that are read right make the path to the names behind them. -/
theorem formatRest_clean {rooted : Bool} : ∀ {names parts : List CString}, Names names →
    (∀ part ∈ parts, separator ∉ part) → CleanFrom rooted names parts →
    formatRest ([separator].intercalate parts) (render rooted names) =
      pathText rooted (parts.getLast? = some []) (parts.foldl stepNames names)
  | _, [], _, _, clean => clean.elim
  | names, [component], good, plain, clean => by
      rw [List.intercalate_singleton, formatRest_last good (plain _ List.mem_cons_self) clean]
      simp only [List.getLast?_singleton, Option.some.injEq, List.foldl_cons, List.foldl_nil]
  | names, component :: next :: rest, good, plain, ⟨before, behind⟩ => by
      have component_plain := plain component List.mem_cons_self
      have stepped := good.step component_plain
      have others : ∀ part ∈ next :: rest, separator ∉ part :=
        fun part member => plain part (List.mem_cons_of_mem _ member)
      rw [List.intercalate_cons_cons, List.append_assoc, List.singleton_append,
        List.getLast?_cons_cons, List.foldl_cons]
      by_cases final : next = [] ∧ rest = []
      · obtain ⟨rfl, rfl⟩ := final
        have none : [separator].intercalate [[]] = ([] : CString) := List.intercalate_singleton
        rw [formatRest_before good component_plain before (by simp), none, formatRest]
        change render rooted (stepNames names component) =
          pathText rooted true (stepNames names component)
        rw [pathText]
        split
        · next empty =>
            rw [empty, rooted_of_final before empty]
            rfl
        · rfl
      · have more : [separator].intercalate (next :: rest) ≠ [] := by
          intro empty
          have back := List.splitOn_intercalate separator others (List.cons_ne_nil _ _)
          rw [empty, List.splitOn_nil] at back
          obtain ⟨rfl, rfl⟩ := List.cons.inj back
          exact final ⟨rfl, rfl⟩
        rw [formatRest_before good component_plain before fun _ => more]
        exact formatRest_clean stepped others (behind final)

/-! ## The place -/

/-- Components that are read right never lead up in front of the names. -/
theorem location_step {rooted : Bool} {names : List CString} {component : CString}
    (inside : component = ['.', '.'] → rooted = true ∨ names ≠ []) :
    Location.step ⟨rooted, 0, names⟩ component = ⟨rooted, 0, stepNames names component⟩ := by
  rw [Location.step, stepNames]
  split
  · rfl
  · split
    · next dots =>
        by_cases some : names = []
        · subst some
          rcases inside dots with rfl | nonempty
          · rfl
          · exact absurd rfl nonempty
        · exact if_pos some
    · rfl

theorem CleanBefore.inside {rooted final : Bool} {names : List CString}
    (clean : CleanBefore rooted final names.length ['.', '.']) : rooted = true ∨ names ≠ [] := by
  rcases (clean : 2 ≤ names.length ∨ rooted = true ∧ (final = true → 0 < names.length))
    with two | ⟨root, -⟩
  · exact .inr (List.ne_nil_of_length_pos (by omega))
  · exact .inl root

theorem CleanLast.inside {rooted : Bool} {names : List CString}
    (clean : CleanLast rooted names.length ['.', '.']) : rooted = true ∨ names ≠ [] := by
  rcases (clean : 2 ≤ names.length ∨ rooted = true ∧ names.length = 0) with two | ⟨root, -⟩
  · exact .inr (List.ne_nil_of_length_pos (by omega))
  · exact .inl root

theorem location_clean {rooted : Bool} : ∀ {names parts : List CString},
    CleanFrom rooted names parts →
    parts.foldl Location.step ⟨rooted, 0, names⟩ = ⟨rooted, 0, parts.foldl stepNames names⟩
  | _, [], clean => clean.elim
  | names, [component], clean => by
      rw [List.foldl_cons, List.foldl_nil, List.foldl_cons, List.foldl_nil]
      exact location_step fun dots => by subst dots; exact CleanLast.inside clean
  | names, component :: next :: rest, ⟨before, behind⟩ => by
      have stepped : Location.step ⟨rooted, 0, names⟩ component =
          ⟨rooted, 0, stepNames names component⟩ :=
        location_step fun dots => by subst dots; exact before.inside
      rw [List.foldl_cons, List.foldl_cons, stepped]
      by_cases final : next = [] ∧ rest = []
      · obtain ⟨rfl, rfl⟩ := final
        rfl
      · exact location_clean (behind final)

/-! ## The whole path -/

theorem splitOn_plain (text : CString) : ∀ part ∈ text.splitOn separator, separator ∉ part := by
  induction text with
  | nil =>
      intro part member
      rw [List.splitOn_nil, List.mem_singleton] at member
      exact member ▸ List.not_mem_nil
  | cons c text ih =>
      intro part member
      rw [List.splitOn_cons_eq_if_modifyHead] at member
      split at member
      · rcases List.mem_cons.mp member with rfl | member
        · exact List.not_mem_nil
        · exact ih part member
      · next other =>
          obtain ⟨first, rest, split⟩ :=
            List.exists_cons_of_ne_nil (List.splitOn_ne_nil separator text)
          rw [split] at member ih
          rcases List.mem_cons.mp member with rfl | member
          · rw [List.mem_cons, not_or]
            exact ⟨fun same => other (beq_iff_eq.mpr same.symm), ih first List.mem_cons_self⟩
          · exact ih part (List.mem_cons_of_mem _ member)

/-- The parts of a path behind its root, or all of them if it starts at no root. -/
structure From (p : CString) (rooted : Bool) (parts : List CString) : Prop where
  clean : CleanFrom rooted [] parts
  plain : ∀ part ∈ parts, separator ∉ part
  format_eq : formatRest (replaceSlashes p) [] =
    formatRest ([separator].intercalate parts) (render rooted [])
  location_eq : location p = parts.foldl Location.step ⟨rooted, 0, []⟩
  last_eq : (components p).getLast? = parts.getLast?

theorem Clean.from {p : CString} (clean : Clean p) : ∃ rooted parts, From p rooted parts := by
  have plain : ∀ part ∈ components p, separator ∉ part := splitOn_plain _
  have text : [separator].intercalate (components p) = replaceSlashes p :=
    List.intercalate_splitOn separator
  rw [Clean] at clean
  split at clean
  · next next rest split =>
      rw [split] at plain text
      rw [List.intercalate_cons_cons, List.nil_append, List.singleton_append] at text
      refine ⟨true, next :: rest, clean, fun part member => plain part
        (List.mem_cons_of_mem _ member), ?_, ?_, ?_⟩
      · rw [← text]
        exact formatRest_separator (by decide) _
      · rw [location, split, ← text, List.foldl_cons]
        simp only [List.head?_cons, decide_true]
        rfl
      · rw [split, List.getLast?_cons_cons]
  · next other =>
      have head : (replaceSlashes p).head? ≠ some separator := by
        rw [← text]
        cases split : components p with
        | nil => exact nofun
        | cons first rest =>
            rw [split] at plain
            cases first with
            | nil =>
                cases rest with
                | nil => exact nofun
                | cons next rest => exact absurd split (other next rest)
            | cons c first =>
                have visible : c ≠ separator := fun same =>
                  plain _ List.mem_cons_self (same ▸ List.mem_cons_self)
                cases rest with
                | nil =>
                    rw [List.intercalate_singleton]
                    exact fun same => visible (Option.some.inj same)
                | cons next rest =>
                    rw [List.intercalate_cons_cons, List.append_assoc, List.cons_append]
                    exact fun same => visible (Option.some.inj same)
      refine ⟨false, components p, clean, plain, ?_, ?_, rfl⟩
      · rw [text]
        rfl
      · rw [location, decide_eq_false head]

/-- A clean path is formatted to its normal form. -/
theorem Clean.format_eq {p : CString} (clean : Clean p) :
    formatRest (replaceSlashes p) [] = normalForm p := by
  obtain ⟨rooted, parts, all⟩ := clean.from
  have place := all.location_eq.trans (location_clean all.clean)
  rw [all.format_eq, formatRest_clean (List.forall_mem_nil _) all.plain all.clean, normalForm, place,
    all.last_eq]
  rfl

/-! ## The names of a normal form -/

/-- A name that may stand in front of a separator. -/
structure PlainName (name : CString) : Prop where
  nonempty : name ≠ []
  plain : separator ∉ name
  no_dots : ¬ ['.', '.'] <:+: name
  last : name.getLast? ≠ some '.'

/-- A name that may stand at the end. -/
structure LastName (name : CString) : Prop where
  nonempty : name ≠ []
  plain : separator ∉ name
  no_dots : ¬ ['.', '.'] <:+: name
  no_dot : name ≠ ['.']

theorem PlainName.lastName {name : CString} (good : PlainName name) : LastName name :=
  ⟨good.nonempty, good.plain, good.no_dots, by rintro rfl; exact good.last rfl⟩

theorem LastName.ne_dots {name : CString} (good : LastName name) : name ≠ ['.', '.'] := by
  rintro rfl
  exact good.no_dots (List.infix_refl _)

/-- The names of a normal form; the last one may end in a dot if no separator follows. -/
structure Shaped (trailing : Bool) (names : List CString) : Prop where
  before : ∀ name ∈ names.dropLast, PlainName name
  last : ∀ name, names.getLast? = some name → LastName name ∧ (trailing = true → PlainName name)

theorem shaped_of_plain {names : List CString} (good : ∀ name ∈ names, PlainName name)
    (trailing : Bool) : Shaped trailing names :=
  ⟨fun name member => good name (List.dropLast_subset _ member), fun name last =>
    have plain := good name (List.mem_of_getLast? last)
    ⟨plain.lastName, fun _ => plain⟩⟩

theorem plainNames_step {rooted final : Bool} {names : List CString} {component : CString}
    (good : ∀ name ∈ names, PlainName name) (plain : separator ∉ component)
    (clean : CleanBefore rooted final names.length component) :
    ∀ name ∈ stepNames names component, PlainName name := by
  intro name member
  rw [stepNames] at member
  rw [CleanBefore] at clean
  split at member
  · exact good name member
  · next other =>
      split at member
      · exact good name (List.dropLast_subset _ member)
      · next no_dots =>
          rw [not_or] at other
          rw [if_neg other.1, if_neg other.2, if_neg no_dots] at clean
          rcases List.mem_append.mp member with member | member
          · exact good name member
          · rw [List.mem_singleton.mp member]
            exact ⟨other.1, plain, clean.1, clean.2⟩

theorem shaped_last {rooted : Bool} {names : List CString} {component : CString}
    (good : ∀ name ∈ names, PlainName name) (plain : separator ∉ component)
    (clean : CleanLast rooted names.length component) :
    Shaped (component = []) (stepNames names component) := by
  rw [stepNames]
  split
  · exact shaped_of_plain good _
  · next other =>
      split
      · exact shaped_of_plain (fun name member => good name (List.dropLast_subset _ member)) _
      · next no_dots =>
          rw [not_or] at other
          rw [CleanLast, if_neg other.1, if_neg other.2, if_neg no_dots] at clean
          refine ⟨by rw [List.dropLast_concat]; exact good, fun name last => ?_⟩
          rw [List.getLast?_concat] at last
          rw [← Option.some.inj last]
          exact ⟨⟨other.1, plain, clean, other.2⟩, fun empty => absurd (of_decide_eq_true empty)
            other.1⟩

/-- The names that clean components lead to can be read again. -/
theorem shaped_clean {rooted : Bool} : ∀ {names parts : List CString},
    (∀ name ∈ names, PlainName name) → (∀ part ∈ parts, separator ∉ part) →
    CleanFrom rooted names parts →
    Shaped (parts.getLast? = some []) (parts.foldl stepNames names)
  | _, [], _, _, clean => clean.elim
  | names, [component], good, plain, clean => by
      have shaped := shaped_last good (plain _ List.mem_cons_self) clean
      simpa only [List.getLast?_singleton, Option.some.injEq, List.foldl_cons, List.foldl_nil]
        using shaped
  | names, component :: next :: rest, good, plain, ⟨before, behind⟩ => by
      have stepped := plainNames_step good (plain component List.mem_cons_self) before
      rw [List.getLast?_cons_cons, List.foldl_cons]
      by_cases final : next = [] ∧ rest = []
      · obtain ⟨rfl, rfl⟩ := final
        exact shaped_of_plain stepped _
      · exact shaped_clean stepped (fun part member => plain part (List.mem_cons_of_mem _ member))
          (behind final)

/-! ## Reading a normal form -/

/-- The components of a shortest path behind its root. -/
def normalParts (trailing : Bool) (names : List CString) : List CString :=
  names ++ if trailing then [[]] else []

theorem intercalate_flatMap (names : List CString) :
    [separator].intercalate (names ++ [[]]) = names.flatMap (· ++ [separator]) := by
  induction names with
  | nil => rfl
  | cons name names ih =>
      rw [List.cons_append, List.intercalate_cons_of_ne_nil (List.append_ne_nil_of_right_ne_nil _
        (List.cons_ne_nil _ _)), ih, List.flatMap_cons]

theorem intercalate_concat {names : List CString} (nonempty : names ≠ []) :
    [separator].intercalate names ++ [separator] = names.flatMap (· ++ [separator]) := by
  induction names with
  | nil => exact absurd rfl nonempty
  | cons name names ih =>
      by_cases rest : names = []
      · subst rest
        rw [List.intercalate_singleton]
        exact (List.append_nil _).symm
      · rw [List.intercalate_cons_of_ne_nil rest, List.append_assoc, List.append_assoc, ih rest,
          List.flatMap_cons, List.append_assoc]

theorem pathText_eq {rooted trailing : Bool} {names : List CString} (nonempty : names ≠ []) :
    pathText rooted trailing names = (if rooted then [separator] else []) ++
      [separator].intercalate (normalParts trailing names) := by
  rw [pathText, if_neg nonempty, render, normalParts]
  cases trailing with
  | true => rw [if_pos rfl, if_pos rfl, intercalate_flatMap]
  | false =>
      rw [if_neg Bool.false_ne_true, if_neg Bool.false_ne_true, List.append_nil,
        ← intercalate_concat nonempty, ← List.append_assoc, List.dropLast_concat]

theorem cleanFrom_normal {rooted trailing : Bool} : ∀ {names before : List CString}, names ≠ [] →
    Shaped trailing names → CleanFrom rooted before (normalParts trailing names)
  | [], _, nonempty, _ => absurd rfl nonempty
  | [name], before, _, shaped => by
      obtain ⟨good, plain⟩ := shaped.last name rfl
      cases trailing with
      | true =>
          refine ⟨?_, fun more => absurd ⟨rfl, rfl⟩ more⟩
          rw [CleanBefore, if_neg good.nonempty, if_neg good.no_dot, if_neg good.ne_dots]
          exact ⟨good.no_dots, (plain rfl).last⟩
      | false =>
          change CleanLast rooted before.length name
          rw [CleanLast, if_neg good.nonempty, if_neg good.no_dot, if_neg good.ne_dots]
          exact good.no_dots
  | name :: next :: rest, before, _, shaped => by
      have plain : PlainName name := shaped.before name List.mem_cons_self
      have good := plain.lastName
      refine ⟨?_, fun _ => cleanFrom_normal (List.cons_ne_nil _ _) ⟨fun other member =>
        shaped.before other (List.mem_cons_of_mem _ member), fun other last => shaped.last other
          ((List.getLast?_cons_cons).trans last)⟩⟩
      rw [CleanBefore, if_neg good.nonempty, if_neg good.no_dot, if_neg good.ne_dots]
      exact ⟨plain.no_dots, plain.last⟩

theorem Shaped.lastName {trailing : Bool} {names : List CString} (shaped : Shaped trailing names)
    {name : CString} (member : name ∈ names) : LastName name := by
  rcases List.eq_nil_or_concat' names with rfl | ⟨init, last, rfl⟩
  · cases member
  · rcases List.mem_append.mp member with member | member
    · exact (shaped.before name (by rw [List.dropLast_concat]; exact member)).lastName
    · rw [List.mem_singleton.mp member]
      exact (shaped.last last List.getLast?_concat).1

theorem foldl_stepNames {names : List CString} (good : ∀ name ∈ names, LastName name)
    (before : List CString) (trailing : Bool) :
    (normalParts trailing names).foldl stepNames before = before ++ names := by
  induction names generalizing before with
  | nil =>
      cases trailing
      · exact (List.append_nil _).symm
      · exact (List.append_nil _).symm
  | cons name names ih =>
      obtain ⟨nonempty, -, no_dots, no_dot⟩ := good name List.mem_cons_self
      have stepped := stepNames_name before nonempty no_dot (good name List.mem_cons_self).ne_dots
      have rest := ih (fun other member => good other (List.mem_cons_of_mem _ member))
        (stepNames before name)
      rw [stepped, List.append_assoc, List.singleton_append] at rest
      rw [normalParts, List.cons_append, List.foldl_cons, stepped]
      exact rest

end Cube.Eco
