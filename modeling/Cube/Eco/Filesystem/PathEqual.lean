import Cube.Eco.Filesystem.PathFormat

/-! # Normal forms as representatives

A normal form is clean and its own normal form, so formatting stops after one pass and
`filepath_equal` compares places.
-/

namespace Cube.Eco

/-! ## The components of a normal form -/

theorem normalParts_ne_nil {names : List CString} (nonempty : names ≠ []) (trailing : Bool) :
    normalParts trailing names ≠ [] := List.append_ne_nil_of_left_ne_nil nonempty _

theorem components_pathText {rooted trailing : Bool} {names : List CString} (nonempty : names ≠ [])
    (good : ∀ name ∈ names, LastName name) (slashless : '/' ∉ pathText rooted trailing names) :
    components (pathText rooted trailing names) =
      (if rooted then [[]] else []) ++ normalParts trailing names := by
  have some_parts := normalParts_ne_nil nonempty trailing
  have plain : ∀ part ∈ normalParts trailing names, separator ∉ part := by
    intro part member
    rcases List.mem_append.mp member with member | member
    · exact (good part member).plain
    · split at member
      · exact List.mem_singleton.mp member ▸ List.not_mem_nil
      · cases member
  rw [components, replaceSlashes_eq_self slashless, pathText_eq nonempty]
  cases rooted with
  | true =>
      rw [if_pos rfl, if_pos rfl, List.singleton_append, List.singleton_append,
        ← List.splitOn_intercalate separator (List.forall_mem_cons.mpr ⟨List.not_mem_nil, plain⟩)
          (List.cons_ne_nil _ _), List.intercalate_cons_of_ne_nil some_parts]
      rfl
  | false =>
      exact List.splitOn_intercalate separator plain some_parts

theorem head_pathText {rooted trailing : Bool} {names : List CString} (nonempty : names ≠ [])
    (good : ∀ name ∈ names, LastName name) :
    decide ((pathText rooted trailing names).head? = some separator) = rooted := by
  rw [pathText_eq nonempty]
  cases rooted with
  | true => rfl
  | false =>
      obtain ⟨first, rest, rfl⟩ := List.exists_cons_of_ne_nil nonempty
      have named := good first List.mem_cons_self
      obtain ⟨c, tail, rfl⟩ := List.exists_cons_of_ne_nil named.nonempty
      have visible : c ≠ separator := fun same => named.plain (same ▸ List.mem_cons_self)
      refine decide_eq_false fun same => visible ?_
      rw [normalParts, List.cons_append] at same
      generalize rest ++ (if trailing = true then [[]] else []) = others at same
      cases others with
      | nil => exact Option.some.inj same
      | cons next others =>
          rw [List.intercalate_cons_cons, List.append_assoc] at same
          exact Option.some.inj same

theorem getLast_normalParts {names : List CString} (trailing : Bool)
    (good : ∀ name ∈ names, LastName name) :
    decide ((normalParts trailing names).getLast? = some []) = trailing := by
  cases trailing with
  | true => exact decide_eq_true List.getLast?_concat
  | false =>
      rw [normalParts, if_neg Bool.false_ne_true, List.append_nil]
      exact decide_eq_false fun last => (good [] (List.mem_of_getLast? last)).nonempty rfl

theorem mem_of_mem_dropLast_normalParts {trailing : Bool} {names : List CString}
    {component : CString} (member : component ∈ (normalParts trailing names).dropLast) :
    component ∈ names := by
  cases trailing with
  | true =>
      rw [normalParts, if_pos rfl, List.dropLast_concat] at member
      exact member
  | false =>
      rw [normalParts, if_neg Bool.false_ne_true, List.append_nil] at member
      exact List.dropLast_subset _ member

/-! ## Paths that are their own normal form -/

/-- A text that formatting leaves as it is. -/
structure Formatted (p : CString) (place : Location) : Prop where
  clean : Clean p
  location : location p = place
  same : normalForm p = p
  normal : Normal p

theorem normal_of_components {p : CString} (slashes : '/' ∉ p)
    (doubled : ∀ component ∈ (components p).dropLast.tail, component ≠ [])
    (dot : ['.'] ∈ components p → p = ['.']) (no_dots : ['.', '.'] ∉ components p) : Normal p :=
  ⟨slashes, doubled, dot, fun front name back split => by
    rw [split] at no_dots
    exact absurd (List.mem_append_right front (List.mem_cons_of_mem _ List.mem_cons_self)) no_dots⟩

theorem formatted_separator : Formatted [separator] ⟨true, 0, []⟩ :=
  have parts : components [separator] = [[], []] := by decide
  { clean := by rw [Clean, parts]; exact rfl
    location := by decide
    same := by decide
    normal := normal_of_components (by decide) (by rw [parts]; exact List.forall_mem_nil _)
      (by rw [parts]; decide) (by rw [parts]; decide) }

theorem formatted_dot : Formatted ['.'] ⟨false, 0, []⟩ :=
  have parts : components ['.'] = [['.']] := by decide
  { clean := by rw [Clean, parts]; exact ⟨rfl, rfl⟩
    location := by decide
    same := by decide
    normal := normal_of_components (by decide) (by rw [parts]; exact List.forall_mem_nil _)
      (fun _ => rfl) (by rw [parts]; decide) }

theorem lastName_of_mem_components {rooted trailing : Bool} {names : List CString}
    (good : ∀ name ∈ names, LastName name) {component : CString}
    (member : component ∈ (if rooted then [[]] else []) ++ normalParts trailing names)
    (some : component ≠ []) : LastName component := by
  rw [normalParts, List.mem_append, List.mem_append] at member
  rcases member with member | member | member
  · split at member
    · exact absurd (List.mem_singleton.mp member) some
    · cases member
  · exact good component member
  · split at member
    · exact absurd (List.mem_singleton.mp member) some
    · cases member

theorem location_pathText {rooted trailing : Bool} {names : List CString} (nonempty : names ≠ [])
    (shaped : Shaped trailing names) (slashless : '/' ∉ pathText rooted trailing names) :
    location (pathText rooted trailing names) = ⟨rooted, 0, names⟩ := by
  have good : ∀ name ∈ names, LastName name := fun name => shaped.lastName
  have located : (normalParts trailing names).foldl Location.step ⟨rooted, 0, []⟩ =
      ⟨rooted, 0, names⟩ := by
    rw [location_clean (cleanFrom_normal nonempty shaped), foldl_stepNames good, List.nil_append]
  rw [location, components_pathText nonempty good slashless, replaceSlashes_eq_self slashless,
    head_pathText nonempty good]
  cases rooted with
  | true => exact located
  | false => exact located

theorem clean_pathText {rooted trailing : Bool} {names : List CString} (nonempty : names ≠ [])
    (shaped : Shaped trailing names) (slashless : '/' ∉ pathText rooted trailing names) :
    Clean (pathText rooted trailing names) := by
  have good : ∀ name ∈ names, LastName name := fun name => shaped.lastName
  have clean : CleanFrom rooted [] (normalParts trailing names) := cleanFrom_normal nonempty shaped
  rw [Clean, components_pathText nonempty good slashless]
  obtain ⟨first, rest, rfl⟩ := List.exists_cons_of_ne_nil nonempty
  cases rooted with
  | true => exact clean
  | false =>
      rw [if_neg Bool.false_ne_true, List.nil_append, normalParts, List.cons_append]
      split
      · next next others split =>
          exact absurd (List.cons.inj split).1 (good first List.mem_cons_self).nonempty
      · exact clean

theorem normalForm_pathText {rooted trailing : Bool} {names : List CString} (nonempty : names ≠ [])
    (shaped : Shaped trailing names) (slashless : '/' ∉ pathText rooted trailing names) :
    normalForm (pathText rooted trailing names) = pathText rooted trailing names := by
  have good : ∀ name ∈ names, LastName name := fun name => shaped.lastName
  have final : decide ((components (pathText rooted trailing names)).getLast? = some []) =
      trailing := by
    obtain ⟨init, last, split⟩ := (List.eq_nil_or_concat' (normalParts trailing names)).resolve_left
      (normalParts_ne_nil nonempty trailing)
    refine Eq.trans ?_ (getLast_normalParts trailing good)
    rw [components_pathText nonempty good slashless, split, ← List.append_assoc,
      List.getLast?_concat, List.getLast?_concat]
  rw [normalForm, location_pathText nonempty shaped slashless, final]
  rfl

theorem normal_pathText {rooted trailing : Bool} {names : List CString} (nonempty : names ≠ [])
    (shaped : Shaped trailing names) (slashless : '/' ∉ pathText rooted trailing names) :
    Normal (pathText rooted trailing names) := by
  have good : ∀ name ∈ names, LastName name := fun name => shaped.lastName
  refine normal_of_components slashless ?_ ?_ ?_
  all_goals rw [components_pathText nonempty good slashless]
  · intro component member
    have among : component ∈ (normalParts trailing names).dropLast := by
      cases rooted with
      | true =>
          rw [if_pos rfl, List.singleton_append, List.dropLast_cons_of_ne_nil
            (normalParts_ne_nil nonempty trailing), List.tail_cons] at member
          exact member
      | false => exact List.mem_of_mem_tail member
    exact (good component (mem_of_mem_dropLast_normalParts among)).nonempty
  · intro dot
    exact absurd rfl (lastName_of_mem_components good dot (List.cons_ne_nil _ _)).no_dot
  · intro dots
    exact (lastName_of_mem_components good dots (List.cons_ne_nil _ _)).ne_dots rfl

theorem formatted_names {rooted trailing : Bool} {names : List CString} (nonempty : names ≠ [])
    (shaped : Shaped trailing names) (slashless : '/' ∉ pathText rooted trailing names) :
    Formatted (pathText rooted trailing names) ⟨rooted, 0, names⟩ where
  clean := clean_pathText nonempty shaped slashless
  location := location_pathText nonempty shaped slashless
  same := normalForm_pathText nonempty shaped slashless
  normal := normal_pathText nonempty shaped slashless

/-! ## The normal form of a clean path -/

theorem not_clean_nil : ¬ Clean [] := by
  change ¬ CleanLast false 0 []
  decide

theorem Clean.nonempty {p : CString} (clean : Clean p) : p ≠ [] := by
  rintro rfl
  exact not_clean_nil clean

theorem Clean.filepathFormat_eq (width : Nat) {p : CString} (clean : Clean p) :
    filepathFormat width p = .ok (normalForm p) := by
  rw [Cube.Eco.filepathFormat_eq width clean.nonempty, clean.format_eq]

theorem Clean.slash_not_mem {p : CString} (clean : Clean p) : '/' ∉ normalForm p := by
  intro member
  rw [← clean.format_eq] at member
  rcases mem_of_mem_formatRest member with member | member
  · exact slash_not_mem_replaceSlashes p member
  · cases member

/-- The normal form of a clean path is a clean path to the same place, and its own normal form. -/
theorem Clean.formatted {p : CString} (clean : Clean p) :
    Formatted (normalForm p) (location p) := by
  obtain ⟨rooted, parts, all⟩ := clean.from
  have place : location p = ⟨rooted, 0, parts.foldl stepNames []⟩ :=
    all.location_eq.trans (location_clean all.clean)
  have shaped := shaped_clean (List.forall_mem_nil _) all.plain all.clean
  have text : normalForm p = pathText rooted (parts.getLast? = some [])
      (parts.foldl stepNames []) := by
    rw [normalForm, place, all.last_eq]
    rfl
  have slashless := clean.slash_not_mem
  rw [place]
  rw [text] at slashless ⊢
  by_cases nonempty : parts.foldl stepNames [] = []
  · rw [nonempty]
    cases rooted with
    | true => exact formatted_separator
    | false => exact formatted_dot
  · exact formatted_names nonempty shaped slashless

/-! ## Equal paths -/

/-- What `filepath_format` makes of every path with characters. -/
theorem filepathFormat_slash (width : Nat) {p : CString} (nonempty : p ≠ []) :
    ∃ newP, filepathFormat width p = .ok newP ∧ '/' ∉ newP := by
  refine ⟨_, filepathFormat_eq width nonempty, fun member => ?_⟩
  rcases mem_of_mem_formatRest member with member | member
  · exact slash_not_mem_replaceSlashes p member
  · cases member

theorem filepathEqual_iff {width : Nat} {p1 p2 cmp1 cmp2 : CString}
    (first : filepathFormat width p1 = .ok cmp1) (second : filepathFormat width p2 = .ok cmp2) :
    filepathEqual width p1 p2 = .ok true ↔ cmp1.map Char.toUpper = cmp2.map Char.toUpper := by
  rw [filepathEqual, first, Outcome.ok_bind, second, Outcome.ok_bind, iequals]
  constructor
  · intro same
    exact of_decide_eq_true (Outcome.ok.inj same)
  · intro same
    rw [decide_eq_true same]

/-- `filepath_equal` compares texts that formatting assigns to the paths. -/
theorem filepathEqual_equivalence (width : Nat) :
    Equivalence fun p1 p2 : {p : CString // p ≠ []} => filepathEqual width p1 p2 = .ok true := by
  have formatted (p : {p : CString // p ≠ []}) := filepathFormat_eq width p.2
  exact {
    refl := fun p => (filepathEqual_iff (formatted p) (formatted p)).mpr rfl
    symm := fun {p q} same => (filepathEqual_iff (formatted q) (formatted p)).mpr
      ((filepathEqual_iff (formatted p) (formatted q)).mp same).symm
    trans := fun {p q r} same same' => (filepathEqual_iff (formatted p) (formatted r)).mpr
      (((filepathEqual_iff (formatted p) (formatted q)).mp same).trans
        ((filepathEqual_iff (formatted q) (formatted r)).mp same')) }

/-- `filepath_format` gives clean paths their normal forms, and `filepath_equal` compares these up
to the case of letters. -/
theorem filepath_normal (width : Nat) :
    (∀ p ≠ [], ∃ newP, filepathFormat width p = .ok newP ∧ '/' ∉ newP) ∧
    (Equivalence fun p1 p2 : {p : CString // p ≠ []} => filepathEqual width p1 p2 = .ok true) ∧
    (∀ p, Clean p → filepathFormat width p = .ok (normalForm p) ∧ Normal (normalForm p) ∧
      location (normalForm p) = location p ∧
      filepathFormat width (normalForm p) = .ok (normalForm p)) ∧
    ∀ p1 p2, Clean p1 → Clean p2 → (filepathEqual width p1 p2 = .ok true ↔
      (normalForm p1).map Char.toUpper = (normalForm p2).map Char.toUpper) := by
  refine ⟨fun p nonempty => filepathFormat_slash width nonempty, filepathEqual_equivalence width,
    fun p clean => ?_, fun p1 p2 clean1 clean2 => ?_⟩
  · have formatted := clean.formatted
    refine ⟨clean.filepathFormat_eq width, formatted.normal, formatted.location, ?_⟩
    rw [formatted.clean.filepathFormat_eq width, formatted.same]
  · exact filepathEqual_iff (clean1.filepathFormat_eq width) (clean2.filepathFormat_eq width)

/-- `\a.b\./c\` and `\A.b//C\.\` lead to one place up to the case of letters. -/
theorem filepath_normal_example :
    let p1 := separator :: ['a', '.', 'b', separator, '.', '/', 'c', separator]
    let p2 := separator :: ['A', '.', 'b', '/', '/', 'C', separator, '.', separator]
    filepathFormat 64 p1 = .ok (separator :: ['a', '.', 'b', separator, 'c', separator]) ∧
      filepathEqual 64 p1 p2 = .ok true := by
  have clean1 : Clean (separator :: ['a', '.', 'b', separator, '.', '/', 'c', separator]) := by
    decide
  have clean2 : Clean (separator :: ['A', '.', 'b', '/', '/', 'C', separator, '.', separator]) := by
    decide
  obtain ⟨-, -, format, equal⟩ := filepath_normal 64
  refine ⟨(format _ clean1).1.trans (congrArg _ (by decide)), (equal _ _ clean1 clean2).mpr ?_⟩
  decide

/-- Paths whose normal forms differ in the case of a letter are equal. The empty path is read behind
its end, and the parent in front of `..\a` is lost. -/
theorem equal_of_case :
    ¬ (filepathEqual 64 ['A'] ['a'] = .ok true ↔ normalForm ['A'] = normalForm ['a']) ∧
      filepathFormat 64 [] = .fault ∧
        filepathFormat 64 ['.', '.', separator, 'a'] = .ok [separator, 'a'] ∧
          location [separator, 'a'] ≠ location ['.', '.', separator, 'a'] := by
  have same : filepathEqual 64 ['A'] ['a'] = .ok true :=
    (filepathEqual_iff (filepathFormat_eq 64 (List.cons_ne_nil _ _))
      (filepathFormat_eq 64 (List.cons_ne_nil _ _))).mpr (by decide)
  have differ : normalForm ['A'] ≠ normalForm ['a'] := by decide
  refine ⟨fun identifies => differ (identifies.mp same), filepathFormat_nil (by decide), ?_,
    by decide⟩
  rw [filepathFormat_eq 64 (List.cons_ne_nil _ _)]
  exact congrArg _ (by decide)

end Cube.Eco
