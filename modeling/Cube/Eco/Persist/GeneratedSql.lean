import Cube.Lib.SqlStatement
import Cube.Eco.Persist.ObjectMapping

/-! # What the generated SQL says

The statements that a mapping is to write for an object, and when the texts that it writes
are read as these statements: nothing in a value is escaped.
-/

namespace Cube.Eco.Persist

open SqlText

/-! ## The texts as pieces -/

namespace Written

def comma : Piece := .fixed [','] [.symbol ',']

def equation (eq : Equation) : List Piece :=
  [.name eq.column, .fixed ['='] [.symbol '='], .literal eq.value]

def condition (equations : List Equation) : List Piece :=
  if equations = [] then []
  else .fixed " where ".toList [keyword "where"] ::
    listed (.fixed " and ".toList [keyword "and"]) (equations.map equation)

def insert (table : Text) (values : List Equation) : List Piece :=
  .fixed "insert into ".toList [keyword "insert", keyword "into"] :: .name table ::
    .fixed " (".toList [.symbol '('] ::
    (listed comma (values.map fun eq => [.name eq.column]) ++
      .fixed ") values(".toList [.symbol ')', keyword "values", .symbol '('] ::
      (listed comma (values.map fun eq => [.literal eq.value]) ++
        [.fixed [')'] [.symbol ')']]))

def update (table : Text) (assigned equations : List Equation) : List Piece :=
  .fixed "update ".toList [keyword "update"] :: .name table ::
    .fixed " set ".toList [keyword "set"] ::
    (listed comma (assigned.map equation) ++ condition equations)

def delete (table : Text) (equations : List Equation) : List Piece :=
  .fixed "delete from ".toList [keyword "delete", keyword "from"] :: .name table ::
    .fixed [' '] [] :: condition equations

variable {dialect : Dialect}

theorem fits_equation (eq : Equation) {rest : List Piece} (breaks : Breaks (textOf rest))
    (fits : Fits dialect rest) : Fits dialect (equation eq ++ rest) :=
  ⟨breaks_cons (by decide) _, rfl, breaks, fits⟩

theorem breaks_condition (equations : List Equation) : Breaks (textOf (condition equations)) := by
  unfold condition
  split
  · exact nofun
  · exact breaks_cons (by decide) _

theorem fits_condition (equations : List Equation) : Fits dialect (condition equations) := by
  unfold condition
  split
  · trivial
  · refine ⟨rfl, ?_⟩
    rw [← List.append_nil (listed _ _)]
    refine fits_listed rfl (fun more => breaks_cons (by decide) _) ?_ nofun trivial
    intro pieces member rest breaks fits
    obtain ⟨eq, -, rfl⟩ := List.mem_map.mp member
    exact fits_equation eq breaks fits

theorem fits_insert (table : Text) (values : List Equation) :
    Fits dialect (insert table values) := by
  refine ⟨rfl, breaks_cons (by decide) _, rfl, ?_⟩
  refine fits_listed rfl (fun more => breaks_cons (by decide) _) ?_ (breaks_cons (by decide) _)
    ⟨rfl, fits_listed rfl (fun more => breaks_cons (by decide) _) ?_
      (breaks_cons (by decide) _) ⟨rfl, trivial⟩⟩
  · intro pieces member rest breaks fits
    obtain ⟨eq, -, rfl⟩ := List.mem_map.mp member
    exact ⟨breaks, fits⟩
  · intro pieces member rest breaks fits
    obtain ⟨eq, -, rfl⟩ := List.mem_map.mp member
    exact ⟨breaks, fits⟩

theorem fits_update (table : Text) (assigned equations : List Equation) :
    Fits dialect (update table assigned equations) := by
  refine ⟨rfl, breaks_cons (by decide) _, rfl, ?_⟩
  refine fits_listed rfl (fun more => breaks_cons (by decide) _) ?_
    (breaks_condition equations) (fits_condition equations)
  intro pieces member rest breaks fits
  obtain ⟨eq, -, rfl⟩ := List.mem_map.mp member
  exact fits_equation eq breaks fits

theorem fits_delete (table : Text) (equations : List Equation) :
    Fits dialect (delete table equations) :=
  ⟨rfl, breaks_cons (by decide) _, rfl, fits_condition equations⟩

/-! ### Their tokens -/

theorem tokensOf_condition (equations : List Equation) :
    tokensOf (condition equations) = whereTokens equations := by
  unfold condition whereTokens
  split
  · rfl
  · rw [tokensOf_cons, tokensOf_listed, List.map_map]
    rfl

theorem tokensOf_insert (table : Text) (values : List Equation) :
    tokensOf (insert table values) = (Statement.insert table values).tokens := by
  simp only [insert, comma, Statement.tokens, tokensOf_cons, tokensOf_append, tokensOf_listed,
    List.map_map, tokensOf_nil, Piece.tokens, List.append_nil, List.cons_append,
    List.nil_append, List.append_assoc]
  rfl

theorem tokensOf_update (table : Text) (assigned equations : List Equation) :
    tokensOf (update table assigned equations) =
      (Statement.update table assigned equations).tokens := by
  simp only [update, comma, Statement.tokens, tokensOf_cons, tokensOf_append, tokensOf_listed,
    tokensOf_condition, List.map_map, Piece.tokens, List.cons_append, List.nil_append]
  rfl

theorem tokensOf_delete (table : Text) (equations : List Equation) :
    tokensOf (delete table equations) = (Statement.delete table equations).tokens := by
  rw [delete, tokensOf_cons, tokensOf_cons, tokensOf_cons, tokensOf_condition]
  rfl

/-! ### When they are sound -/

/-- The column is a name, and the value is plain. -/
def Sound (dialect : Dialect) (eq : Equation) : Prop :=
  IsName eq.column ∧ plain dialect eq.value = true

theorem sound_equation (eq : Equation) :
    (∀ piece ∈ equation eq, piece.Sound dialect) ↔ Sound dialect eq := by
  simp [equation, Piece.Sound, Sound]

theorem sound_equations (separator : Piece) (fixed : separator.Sound dialect)
    (equations : List Equation) :
    (∀ piece ∈ listed separator (equations.map equation), piece.Sound dialect) ↔
      ∀ eq ∈ equations, Sound dialect eq := by
  rw [listed, forall_mem_intercalate (List.forall_mem_singleton.mpr fixed), List.forall_mem_map]
  simp only [sound_equation]

theorem sound_condition (equations : List Equation) :
    (∀ piece ∈ condition equations, piece.Sound dialect) ↔
      ∀ eq ∈ equations, Sound dialect eq := by
  unfold condition
  split
  next none => simp [none]
  next =>
    rw [List.forall_mem_cons, sound_equations _ (Piece.sound_fixed _ _ _),
      and_iff_right (Piece.sound_fixed _ _ _)]

theorem sound_insert (table : Text) (values : List Equation) :
    (∀ piece ∈ insert table values, piece.Sound dialect) ↔
      IsName table ∧ ∀ eq ∈ values, Sound dialect eq := by
  have fixed : comma.Sound dialect := Piece.sound_fixed _ _ _
  have columns : (∀ piece ∈ listed comma (values.map fun eq => [Piece.name eq.column]),
      piece.Sound dialect) ↔ ∀ eq ∈ values, IsName eq.column := by
    rw [listed, forall_mem_intercalate (List.forall_mem_singleton.mpr fixed),
      List.forall_mem_map]
    simp only [List.forall_mem_singleton, Piece.sound_name]
  have literals : (∀ piece ∈ listed comma (values.map fun eq => [Piece.literal eq.value]),
      piece.Sound dialect) ↔ ∀ eq ∈ values, plain dialect eq.value = true := by
    rw [listed, forall_mem_intercalate (List.forall_mem_singleton.mpr fixed),
      List.forall_mem_map]
    simp only [List.forall_mem_singleton, Piece.sound_literal]
  simp only [insert, List.forall_mem_cons, List.forall_mem_append, columns, literals,
    Piece.sound_fixed, Piece.sound_name, Sound, true_and, List.not_mem_nil, false_implies,
    implies_true, and_true, forall_and]

theorem sound_update (table : Text) (assigned equations : List Equation) :
    (∀ piece ∈ update table assigned equations, piece.Sound dialect) ↔
      IsName table ∧ (∀ eq ∈ assigned, Sound dialect eq) ∧
        ∀ eq ∈ equations, Sound dialect eq := by
  have fixed : comma.Sound dialect := Piece.sound_fixed _ _ _
  simp only [update, List.forall_mem_cons, List.forall_mem_append, sound_condition,
    sound_equations comma fixed, Piece.sound_fixed, Piece.sound_name, true_and]

theorem sound_delete (table : Text) (equations : List Equation) :
    (∀ piece ∈ delete table equations, piece.Sound dialect) ↔
      IsName table ∧ ∀ eq ∈ equations, Sound dialect eq := by
  simp only [delete, List.forall_mem_cons, sound_condition, Piece.sound_fixed,
    Piece.sound_name, true_and]

end Written

/-! ## The texts of a mapping -/

namespace ObjectMapping

variable (mapping : ObjectMapping) (getValue : Text → Text)

def keys : List PropertyMapping := mapping.propMap.filter PropertyMapping.isPk

def others : List PropertyMapping := mapping.propMap.filter fun it => !it.isPk

/-- The fields of some properties with the values of their own properties. -/
def equations (properties : List PropertyMapping) : List Equation :=
  properties.map fun it => ⟨it.field, getValue it.property⟩

variable {mapping getValue}

theorem assignment_eq (it : PropertyMapping) : assignment getValue it =
    textOf (Written.equation ⟨it.field, getValue it.property⟩) := by
  simp [assignment, Written.equation, Piece.text]

/-- Once the condition has begun, the further keys are joined by `and`. -/
theorem foldl_addCondition (properties : List PropertyMapping) {begun : Text}
    (notEmpty : begun ≠ []) : properties.foldl (addCondition getValue) begun =
      begun ++ (properties.filter PropertyMapping.isPk).flatMap fun it =>
        " and ".toList ++ assignment getValue it := by
  induction properties generalizing begun with
  | nil => exact (List.append_nil begun).symm
  | cons it properties ih =>
      rw [List.foldl_cons, addCondition]
      split
      next isPk =>
        rw [List.isEmpty_eq_false_iff.mpr notEmpty, if_neg Bool.false_ne_true,
          ih (by simp [notEmpty]), List.filter_cons_of_pos isPk, List.flatMap_cons]
        simp only [List.append_assoc]
      next notPk => rw [ih notEmpty, List.filter_cons_of_neg notPk]

theorem map_textOf_equation (properties : List PropertyMapping) :
    ((equations getValue properties).map Written.equation).map textOf =
      properties.map (assignment getValue) := by
  rw [equations, List.map_map, List.map_map]
  exact List.map_congr_left fun it _ => (assignment_eq it).symm

theorem textOf_condition_cons (it : PropertyMapping) (properties : List PropertyMapping) :
    textOf (Written.condition (equations getValue (it :: properties))) =
      " where ".toList ++ assignment getValue it ++
        properties.flatMap fun it => " and ".toList ++ assignment getValue it := by
  have some_equations : equations getValue (it :: properties) ≠ [] := List.cons_ne_nil _ _
  rw [Written.condition, if_neg some_equations, textOf_cons, textOf_listed, map_textOf_equation,
    List.map_cons, intercalate_cons_eq, List.flatMap_map, ← List.append_assoc]
  rfl

theorem foldl_addCondition_nil (properties : List PropertyMapping) :
    properties.foldl (addCondition getValue) [] =
      textOf (Written.condition (equations getValue (properties.filter PropertyMapping.isPk))) := by
  induction properties with
  | nil => rfl
  | cons it properties ih =>
      rw [List.foldl_cons, addCondition]
      split
      next isPk =>
        rw [List.filter_cons_of_pos isPk, List.nil_append, List.isEmpty_nil, if_pos rfl,
          foldl_addCondition properties (by simp), textOf_condition_cons]
      next notPk => rw [ih, List.filter_cons_of_neg notPk]

theorem getConditionSql_eq (keyed : mapping.keys ≠ []) : mapping.getConditionSql getValue =
    .ok (textOf (Written.condition (equations getValue mapping.keys))) := by
  obtain ⟨it, properties, isKeys⟩ := List.exists_cons_of_ne_nil keyed
  rw [getConditionSql, foldl_addCondition_nil, ← keys, isKeys]
  exact if_neg (by simp [textOf_condition_cons])

theorem getInsertSql_eq (mapped : mapping.propMap ≠ []) : mapping.getInsertSql getValue =
    .ok (textOf (Written.insert mapping.table (equations getValue mapping.propMap))) := by
  have columns : (mapping.propMap.flatMap fun it => it.field ++ [',']).dropLast =
      textOf (listed Written.comma
        ((equations getValue mapping.propMap).map fun eq => [.name eq.column])) := by
    rw [dropLast_flatMap, Written.comma, textOf_listed, equations, List.map_map, List.map_map]
    congr 2
    funext it
    simp [Piece.text]
  have literals : (mapping.propMap.flatMap fun it =>
      quoteMark :: getValue it.property ++ [quoteMark, ',']).dropLast =
      textOf (listed Written.comma
        ((equations getValue mapping.propMap).map fun eq => [.literal eq.value])) := by
    have entries (it : PropertyMapping) : quoteMark :: getValue it.property ++ [quoteMark, ','] =
        (quoteMark :: (getValue it.property ++ [quoteMark])) ++ [','] := by simp
    simp only [entries]
    rw [dropLast_flatMap, Written.comma, textOf_listed, equations, List.map_map, List.map_map]
    congr 2
    funext it
    simp [Piece.text]
  rw [getInsertSql, if_neg (by simpa using mapped)]
  simp only [columns, literals, Written.insert, textOf_cons, textOf_append, textOf_nil,
    Piece.text, List.append_assoc, List.append_nil]

theorem textOf_assigned (properties : List PropertyMapping) :
    textOf (listed Written.comma ((equations getValue properties).map Written.equation)) =
      (properties.flatMap fun it => assignment getValue it ++ [',']).dropLast := by
  rw [dropLast_flatMap, Written.comma, textOf_listed, map_textOf_equation]

theorem getUpdateSql_eq (keyed : mapping.keys ≠ []) (more : mapping.others ≠ []) :
    mapping.getUpdateSql getValue = .ok (textOf (Written.update mapping.table
      (equations getValue mapping.others) (equations getValue mapping.keys))) := by
  have mapped : mapping.propMap ≠ [] := by
    intro none
    rw [keys, none] at keyed
    exact keyed rfl
  have assigned : (mapping.others.flatMap fun it => assignment getValue it ++ [',']) ≠ [] := by
    obtain ⟨it, properties, isOthers⟩ := List.exists_cons_of_ne_nil more
    simp [isOthers]
  have loop := flatMap_filter (fun it : PropertyMapping => !it.isPk)
    (fun it => assignment getValue it ++ [',']) mapping.propMap
  rw [← others] at loop
  rw [getUpdateSql, if_neg (by simpa using mapped), getConditionSql_eq keyed]
  change Except.ok _ = _
  rw [← loop, List.dropLast_append_of_ne_nil assigned, ← textOf_assigned]
  simp only [Written.update, textOf_cons, textOf_append, Piece.text, List.append_assoc]

theorem getDeleteSql_eq (keyed : mapping.keys ≠ []) : mapping.getDeleteSql getValue =
    .ok (textOf (Written.delete mapping.table (equations getValue mapping.keys))) := by
  rw [getDeleteSql, getConditionSql_eq keyed]
  simp only [Written.delete, textOf_cons, Piece.text, ← List.append_assoc]
  rfl

theorem updateSql_eq {prop : Text} {p : PropertyMapping}
    (found : mapping.findProperty prop 0 = some p) (keyed : mapping.keys ≠ []) (value : Text) :
    Database.updateSql mapping getValue prop value = .ok (textOf (Written.update mapping.table
      [⟨p.field, value⟩] (equations getValue mapping.keys))) := by
  rw [Database.updateSql, found, getConditionSql_eq keyed]
  change Except.ok _ = _
  simp [Written.update, Written.equation, listed, Piece.text]

end ObjectMapping

/-! ## What they are to say -/

namespace ObjectMapping

section Statements

variable (mapping : ObjectMapping) (getValue : Text → Text)

/-- What `get_insert_sql` is to write: each column with the value of its own property. -/
def insertion : Statement := .insert mapping.table (equations getValue mapping.propMap)

/-- What `get_update_sql` is to write. -/
def updating : Statement :=
  .update mapping.table (equations getValue mapping.others) (equations getValue mapping.keys)

/-- What `get_delete_sql` is to write. -/
def deletion : Statement := .delete mapping.table (equations getValue mapping.keys)

/-- What `Database::update` is to execute for a property. -/
def setting (p : PropertyMapping) (value : Text) : Statement :=
  .update mapping.table [⟨p.field, value⟩] (equations getValue mapping.keys)

/-- A statement leaves every row as it is that differs from the object on a primary key. -/
def Guarded (statement : Statement) : Prop :=
  ∀ row, statement.onRow row ≠ some row → ∀ it ∈ mapping.propMap, it.isPk = true →
    row it.field = getValue it.property

end Statements

/-- The text was written, and it reads as the statement and as no other. -/
def Says (dialect : Dialect) (sql : Except Text Text) (statement : Statement) : Prop :=
  ∃ text, sql = .ok text ∧ lex dialect text = some statement.tokens ∧
    ∀ other : Statement, lex dialect text = some other.tokens → other = statement

/-- The generated SQL denotes the object, and for a property the new value. -/
structure Denotes (dialect : Dialect) (mapping : ObjectMapping) (getValue : Text → Text)
    (prop value : Text) (p : PropertyMapping) : Prop where
  insert : Says dialect (mapping.getInsertSql getValue) (mapping.insertion getValue)
  update : Says dialect (mapping.getUpdateSql getValue) (mapping.updating getValue)
  delete : Says dialect (mapping.getDeleteSql getValue) (mapping.deletion getValue)
  condition : ∃ text, mapping.getConditionSql getValue = .ok text ∧
    lex dialect text = some (whereTokens (equations getValue mapping.keys))
  set : Says dialect (Database.updateSql mapping getValue prop value)
    (mapping.setting getValue p value)
  guarded : mapping.Guarded getValue (mapping.insertion getValue) ∧
    mapping.Guarded getValue (mapping.updating getValue) ∧
    mapping.Guarded getValue (mapping.deletion getValue) ∧
    mapping.Guarded getValue (mapping.setting getValue p value)

variable {dialect : Dialect} {mapping : ObjectMapping} {getValue : Text → Text}

/-- A statement whose condition are the keys is guarded. -/
theorem guarded_of_asks {statement : Statement}
    (asks : statement.asks = equations getValue mapping.keys) :
    mapping.Guarded getValue statement := by
  intro row touched it member isPk
  have meets := Statement.meets_of_onRow touched
  rw [asks] at meets
  exact meets ⟨it.field, getValue it.property⟩
    (List.mem_map.mpr ⟨it, List.mem_filter.mpr ⟨member, isPk⟩, rfl⟩)

theorem says_iff {sql : Except Text Text} {statement : Statement} {pieces : List Piece}
    (written : sql = .ok (textOf pieces)) (fits : Fits dialect pieces)
    (tokens : tokensOf pieces = statement.tokens) :
    Says dialect sql statement ↔ ∀ piece ∈ pieces, piece.Sound dialect := by
  rw [← lex_pieces fits, tokens]
  constructor
  · rintro ⟨text, isText, reads, -⟩
    cases written.symm.trans isText
    exact reads
  · intro reads
    refine ⟨textOf pieces, written, reads, ?_⟩
    intro other readsOther
    exact Statement.tokens_injective (Option.some_inj.mp (readsOther.symm.trans reads))

/-- The property's field is a name, and its value is plain. -/
def Sound (dialect : Dialect) (getValue : Text → Text) (it : PropertyMapping) : Prop :=
  IsName it.field ∧ plain dialect (getValue it.property) = true

theorem sound_equations {properties : List PropertyMapping} :
    (∀ eq ∈ equations getValue properties, Written.Sound dialect eq) ↔
      ∀ it ∈ properties, Sound dialect getValue it := List.forall_mem_map

theorem says_insertion (mapped : mapping.propMap ≠ []) :
    Says dialect (mapping.getInsertSql getValue) (mapping.insertion getValue) ↔
      IsName mapping.table ∧ ∀ it ∈ mapping.propMap, Sound dialect getValue it := by
  rw [insertion, says_iff (getInsertSql_eq mapped) (Written.fits_insert _ _) (Written.tokensOf_insert _ _),
    Written.sound_insert, sound_equations]

theorem says_updating (keyed : mapping.keys ≠ []) (more : mapping.others ≠ []) :
    Says dialect (mapping.getUpdateSql getValue) (mapping.updating getValue) ↔
      IsName mapping.table ∧ (∀ it ∈ mapping.others, Sound dialect getValue it) ∧
        ∀ it ∈ mapping.keys, Sound dialect getValue it := by
  rw [updating, says_iff (getUpdateSql_eq keyed more) (Written.fits_update _ _ _)
    (Written.tokensOf_update _ _ _), Written.sound_update, sound_equations, sound_equations]

theorem says_deletion (keyed : mapping.keys ≠ []) :
    Says dialect (mapping.getDeleteSql getValue) (mapping.deletion getValue) ↔
      IsName mapping.table ∧ ∀ it ∈ mapping.keys, Sound dialect getValue it := by
  rw [deletion, says_iff (getDeleteSql_eq keyed) (Written.fits_delete _ _) (Written.tokensOf_delete _ _),
    Written.sound_delete, sound_equations]

theorem says_setting {prop : Text} {p : PropertyMapping}
    (found : mapping.findProperty prop 0 = some p) (keyed : mapping.keys ≠ []) (value : Text) :
    Says dialect (Database.updateSql mapping getValue prop value)
      (mapping.setting getValue p value) ↔
      IsName mapping.table ∧ (IsName p.field ∧ plain dialect value = true) ∧
        ∀ it ∈ mapping.keys, Sound dialect getValue it := by
  rw [setting, says_iff (updateSql_eq found keyed value) (Written.fits_update _ _ _)
    (Written.tokensOf_update _ _ _), Written.sound_update, List.forall_mem_singleton,
    sound_equations]
  rfl

theorem condition_reads (keyed : mapping.keys ≠ [])
    (sound : ∀ it ∈ mapping.keys, Sound dialect getValue it) :
    ∃ text, mapping.getConditionSql getValue = .ok text ∧
      lex dialect text = some (whereTokens (equations getValue mapping.keys)) := by
  refine ⟨_, getConditionSql_eq keyed, ?_⟩
  rw [← Written.tokensOf_condition, lex_pieces (Written.fits_condition _),
    Written.sound_condition, sound_equations]
  exact sound

end ObjectMapping

open ObjectMapping

variable {dialect : Dialect} {mapping : ObjectMapping} {getValue : Text → Text}

/-- The generated SQL denotes the object if and only if the names of the mapping are names and
no value has a character that a literal does not take as it is. -/
theorem denotes_iff (keyed : ∃ it ∈ mapping.propMap, it.isPk = true)
    (more : ∃ it ∈ mapping.propMap, it.isPk = false) {prop : Text} {p : PropertyMapping}
    (found : mapping.findProperty prop 0 = some p) (value : Text) :
    Denotes dialect mapping getValue prop value p ↔
      mapping.Named ∧ (∀ it ∈ mapping.propMap, plain dialect (getValue it.property) = true) ∧
        plain dialect value = true := by
  have some_keys : mapping.keys ≠ [] := by
    obtain ⟨it, member, isPk⟩ := keyed
    exact List.ne_nil_of_mem (List.mem_filter.mpr ⟨member, isPk⟩)
  have some_others : mapping.others ≠ [] := by
    obtain ⟨it, member, notPk⟩ := more
    exact List.ne_nil_of_mem (List.mem_filter.mpr ⟨member, by rw [notPk]; rfl⟩)
  have mapped : mapping.propMap ≠ [] := by
    obtain ⟨it, member, -⟩ := keyed
    exact List.ne_nil_of_mem member
  constructor
  · intro denotes
    obtain ⟨table, sound⟩ := (says_insertion mapped).mp denotes.insert
    obtain ⟨-, ⟨-, newPlain⟩, -⟩ := (says_setting found some_keys value).mp denotes.set
    exact ⟨⟨table, fun it member => (sound it member).1⟩, fun it member => (sound it member).2,
      newPlain⟩
  · rintro ⟨named, allPlain, newPlain⟩
    have sound : ∀ it ∈ mapping.propMap, Sound dialect getValue it :=
      fun it member => ⟨named.field it member, allPlain it member⟩
    have soundKeys : ∀ it ∈ mapping.keys, Sound dialect getValue it :=
      fun it member => sound it (List.mem_filter.mp member).1
    have soundOthers : ∀ it ∈ mapping.others, Sound dialect getValue it :=
      fun it member => sound it (List.mem_filter.mp member).1
    have field : IsName p.field := named.field p (List.mem_of_find?_eq_some found)
    exact {
      insert := (says_insertion mapped).mpr ⟨named.table, sound⟩
      update := (says_updating some_keys some_others).mpr ⟨named.table, soundOthers, soundKeys⟩
      delete := (says_deletion some_keys).mpr ⟨named.table, soundKeys⟩
      condition := condition_reads some_keys soundKeys
      set := (says_setting found some_keys value).mpr ⟨named.table, ⟨field, newPlain⟩, soundKeys⟩
      guarded := ⟨fun row touched => (touched rfl).elim, guarded_of_asks rfl, guarded_of_asks rfl,
        guarded_of_asks rfl⟩ }

/-! ## A user with a quote in the name -/

def userMapping : ObjectMapping where
  id := "user".toList
  table := "t_user".toList
  propMap :=
    [⟨"id".toList, "f_id".toList, 1⟩, ⟨"name".toList, "f_name".toList, 0⟩]

def userValue (name : Text) (property : Text) : Text :=
  if property = "name".toList then name else "7".toList

/-- The generated SQL of a user without a quote in the name denotes the user. -/
theorem denotes_ann : Denotes ⟨true⟩ userMapping (userValue "Ann".toList) "name".toList
    "Anna".toList ⟨"name".toList, "f_name".toList, 0⟩ :=
  (denotes_iff ⟨_, List.mem_cons_self, rfl⟩
    ⟨_, List.mem_cons_of_mem _ List.mem_cons_self, rfl⟩ rfl _).mpr
    ⟨⟨by decide, by decide⟩, by decide, by decide⟩

/-- A quote in the name is not escaped: in each dialect the text does not read as the insert of
the user. -/
theorem quoted_name_not_denoted :
    (∃ it ∈ userMapping.propMap, it.isPk = true) ∧
    (∃ it ∈ userMapping.propMap, it.isPk = false) ∧
    userMapping.findProperty "name".toList 0 = some ⟨"name".toList, "f_name".toList, 0⟩ ∧
    ∀ dialect, ¬ Denotes dialect userMapping (userValue "O'Neil".toList) "name".toList
      "Anna".toList ⟨"name".toList, "f_name".toList, 0⟩ := by
  refine ⟨⟨_, List.mem_cons_self, rfl⟩, ⟨_, List.mem_cons_of_mem _ List.mem_cons_self, rfl⟩,
    rfl, ?_⟩
  intro dialect denotes
  obtain ⟨-, sound⟩ := (says_insertion (by decide)).mp denotes.insert
  have isPlain := (sound ⟨"name".toList, "f_name".toList, 0⟩ (by decide)).2
  have quoted : ∀ escapes, plain ⟨escapes⟩ "O'Neil".toList = false := by decide
  exact Bool.false_ne_true ((quoted dialect.escapes).symm.trans isPlain)

end Cube.Eco.Persist
