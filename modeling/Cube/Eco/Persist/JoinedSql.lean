import Cube.Lib.SqlSelect
import Cube.Eco.Persist.ObjectMapping

/-! # The SQL of joined tables

`JoinMapping` of `JoinMapping.h` selects from a main table and the tables joined to it by the
keys of the main table. A table's alias is the letter of its position.
-/

namespace Cube.Eco.Persist

open SqlText

structure JoinMapping where
  main : ObjectMapping
  joined : List ObjectMapping
  deriving DecidableEq, Repr

/-- `get_table_alias(i)`: the sum is cut to a `char`. -/
def getTableAlias (i : Nat) : UInt8 := UInt8.ofNat (65 + i)

namespace JoinMapping

variable (mapping : JoinMapping)

/-- The joined tables with their positions. -/
def positioned : List (ObjectMapping × Nat) := mapping.joined.zipIdx 1

/-- The loop over the joined tables in the select list. -/
def addFields (fieldSql : Text) : List (ObjectMapping × Nat) → Except Text Text
  | [] => .ok fieldSql
  | (map, i) :: tables => do
      let fields ← map.getFieldSql (getTableAlias i) (some mapping.main)
      addFields (fieldSql ++ fields) tables

/-- `get_select_join_sql`; `dropLast` removes the end `,`. -/
def getSelectJoinSql (condSql : Text) : Except Text Text := do
  let fields ← mapping.main.getFieldSql (getTableAlias 0) none
  let sql ← mapping.addFields ("select ".toList ++ fields) mapping.positioned
  let sql := sql.dropLast ++ " from ".toList ++ mapping.main.table ++ " as ".toList ++
    [charOf (getTableAlias 0)] ++ " ".toList
  let sql := sql ++ mapping.positioned.flatMap fun (map, i) =>
    map.getJoinSql (getTableAlias i) mapping.main
  .ok (if !condSql.isEmpty then sql ++ ' ' :: condSql else sql)

end JoinMapping

end Cube.Eco.Persist

/-! ## What the SQL of joined tables says

When the text that a join mapping writes reads as a select that is closed. Consecutive joins
are written without a space between them, so that at most one table can be joined.
-/

namespace Cube.Eco.Persist

open SqlText

/-! ## The select that the text is to be -/

namespace JoinMapping

def aliasName (i : Nat) : Text := [charOf (getTableAlias i)]

/-- The fields of a table that are selected. -/
def ownFields (map : ObjectMapping) (i : Nat) (mainTable : Option ObjectMapping) : List Column :=
  (map.propMap.filter fun it =>
    mainTable.all fun main => (main.findKey it.property).isNone).map
      fun it => ⟨aliasName i, it.field⟩

/-- A field and the field of the key that the main table has for its property. -/
def sharedKey (main : ObjectMapping) (i : Nat) (it : PropertyMapping) : Option Match :=
  (main.findKey it.property).map fun mainProp =>
    ⟨⟨aliasName i, it.field⟩, ⟨"A".toList, mainProp.field⟩⟩

def sharedKeys (main map : ObjectMapping) (i : Nat) : List Match :=
  map.propMap.filterMap (sharedKey main i)

def join (main map : ObjectMapping) (i : Nat) : Join :=
  ⟨map.table, aliasName i, sharedKeys main map i⟩

variable (mapping : JoinMapping)

/-- The joins that are written: those of the tables that share a key. -/
def joins : List Join :=
  (mapping.positioned.map fun (map, i) => join mapping.main map i).filter
    fun written => written.on ≠ []

def intended : Select where
  fields := ownFields mapping.main 0 none ++
    mapping.positioned.flatMap fun (map, i) => ownFields map i (some mapping.main)
  table := mapping.main.table
  tableAlias := aliasName 0
  joins := mapping.joins

end JoinMapping

/-! ## The text as pieces -/

namespace Written

def column (column : Column) : List Piece :=
  [.name column.tableAlias, .fixed ['.'] [.symbol '.'], .name column.column]

def equal (equal : Match) : List Piece :=
  column equal.left ++ .fixed ['='] [.symbol '='] :: column equal.right

def joinBody (join : Join) : List Piece :=
  .name join.table :: .fixed " as ".toList [keyword "as"] :: .name join.tableAlias ::
    .fixed " on ".toList [keyword "on"] ::
      listed (.fixed " and ".toList [keyword "and"]) (join.on.map equal)

/-- The last column with the word that is written behind it without a space. -/
def glue : List Match → List Match
  | [] => []
  | [equal] => [{ equal with right.column := equal.right.column ++ "inner".toList }]
  | equal :: next :: on => equal :: glue (next :: on)

/-- The joins behind the first `inner join`. -/
def chain : List Join → List Piece
  | [] => []
  | [join] => joinBody join
  | join :: next :: joins =>
      joinBody { join with on := glue join.on } ++
        .fixed " join ".toList [keyword "join"] :: chain (next :: joins)

def select (select : Select) : List Piece :=
  .fixed "select ".toList [keyword "select"] ::
    (listed (.fixed [','] [.symbol ',']) (select.fields.map column) ++
      .fixed " from ".toList [keyword "from"] :: .name select.table ::
      .fixed " as ".toList [keyword "as"] :: .name select.tableAlias ::
      (if select.joins = [] then [.fixed [' '] []]
        else .fixed " inner join ".toList [keyword "inner", keyword "join"] ::
          chain select.joins))

variable {dialect : Dialect}

/-! ### They fit -/

theorem fits_column (named : Column) {rest : List Piece} (breaks : Breaks (textOf rest))
    (fits : Fits dialect rest) : Fits dialect (column named ++ rest) :=
  ⟨breaks_cons (by decide) _, rfl, breaks, fits⟩

theorem fits_equal (both : Match) {rest : List Piece} (breaks : Breaks (textOf rest))
    (fits : Fits dialect rest) : Fits dialect (equal both ++ rest) := by
  rw [equal, List.append_assoc]
  exact fits_column _ (breaks_cons (by decide) _) ⟨rfl, fits_column _ breaks fits⟩

theorem fits_joinBody (join : Join) {rest : List Piece} (breaks : Breaks (textOf rest))
    (fits : Fits dialect rest) : Fits dialect (joinBody join ++ rest) := by
  refine ⟨breaks_cons (by decide) _, rfl, breaks_cons (by decide) _, rfl, ?_⟩
  refine fits_listed rfl (fun more => breaks_cons (by decide) _) ?_ breaks fits
  intro pieces member rest breaks fits
  obtain ⟨both, -, rfl⟩ := List.mem_map.mp member
  exact fits_equal both breaks fits

theorem fits_chain (joins : List Join) : Fits dialect (chain joins) := by
  induction joins with
  | nil => trivial
  | cons join joins ih =>
      cases joins with
      | nil =>
          rw [chain, ← List.append_nil (joinBody join)]
          exact fits_joinBody join nofun trivial
      | cons next joins => exact fits_joinBody _ (breaks_cons (by decide) _) ⟨rfl, ih⟩

theorem fits_select (written : Select) : Fits dialect (select written) := by
  refine ⟨rfl, ?_⟩
  refine fits_listed rfl (fun more => breaks_cons (by decide) _) ?_
    (breaks_cons (by decide) _) ⟨rfl, breaks_cons (by decide) _, rfl, ?_, ?_⟩
  · intro pieces member rest breaks fits
    obtain ⟨named, -, rfl⟩ := List.mem_map.mp member
    exact fits_column named breaks fits
  · split
    · exact breaks_cons (by decide) _
    · exact breaks_cons (by decide) _
  · split
    · exact ⟨rfl, trivial⟩
    · exact ⟨rfl, fits_chain _⟩

/-! ### Their text -/

def columnText (named : Column) : Text := named.tableAlias ++ '.' :: named.column

def matchText (both : Match) : Text :=
  columnText both.left ++ '=' :: columnText both.right

/-- A join as it is written, with nothing behind it. -/
def joinText (join : Join) : Text := "inner join ".toList ++ textOf (joinBody join)

theorem joinText_eq (join : Join) :
    joinText join = "inner join ".toList ++ textOf (joinBody join) := rfl

theorem textOf_column (named : Column) : textOf (column named) = columnText named := by
  simp [column, columnText, Piece.text]

theorem textOf_equal (both : Match) : textOf (equal both) = matchText both := by
  rw [equal, textOf_append, textOf_cons, textOf_column, textOf_column]
  rfl

theorem textOf_on (on : List Match) :
    textOf (listed (.fixed " and ".toList [keyword "and"]) (on.map equal)) =
      " and ".toList.intercalate (on.map matchText) := by
  rw [textOf_listed, List.map_map]
  congr 1
  exact List.map_congr_left fun both _ => textOf_equal both

theorem textOf_joinBody (join : Join) : textOf (joinBody join) =
    join.table ++ (" as ".toList ++ (join.tableAlias ++ (" on ".toList ++
      " and ".toList.intercalate (join.on.map matchText)))) := by
  rw [joinBody, textOf_cons, textOf_cons, textOf_cons, textOf_cons, textOf_on]
  exact rfl

theorem intercalate_glue {on : List Match} (some_match : on ≠ []) :
    " and ".toList.intercalate ((glue on).map matchText) =
      " and ".toList.intercalate (on.map matchText) ++ "inner".toList := by
  induction on with
  | nil => exact (some_match rfl).elim
  | cons both on ih =>
      cases on with
      | nil => simp [glue, matchText, columnText]
      | cons next on =>
          have glued : (glue (next :: on)).map matchText ≠ [] := by
            cases on with
            | nil => simp [glue]
            | cons => simp [glue]
          have plain : (next :: on).map matchText ≠ [] := List.cons_ne_nil _ _
          rw [glue, List.map_cons, List.map_cons, List.intercalate_cons_of_ne_nil glued,
            List.intercalate_cons_of_ne_nil plain, ih (List.cons_ne_nil _ _),
            ← List.append_assoc]

theorem textOf_glued {join : Join} (some_match : join.on ≠ []) :
    textOf (joinBody { join with on := glue join.on }) =
      textOf (joinBody join) ++ "inner".toList := by
  simp only [joinBody, textOf_cons, textOf_on, intercalate_glue some_match, List.append_assoc]

theorem textOf_chain {join : Join} {joins : List Join}
    (conditions : ∀ written ∈ join :: joins, written.on ≠ []) :
    "inner join ".toList ++ textOf (chain (join :: joins)) =
      (join :: joins).flatMap joinText := by
  induction joins generalizing join with
  | nil =>
      rw [chain, List.flatMap_singleton]
      exact rfl
  | cons next joins ih =>
      have later : ∀ written ∈ next :: joins, written.on ≠ [] :=
        fun written member => conditions written (List.mem_cons_of_mem _ member)
      have glued : textOf (joinBody { join with on := glue join.on }) =
          textOf (joinBody join) ++ "inner".toList :=
        textOf_glued (conditions join List.mem_cons_self)
      have spaced : "inner".toList ++ (Piece.fixed " join ".toList [keyword "join"]).text =
          "inner join ".toList := rfl
      have regroup (a b c d e : Text) : a ++ ((b ++ c) ++ (d ++ e)) = (a ++ b) ++ ((c ++ d) ++ e) := by
        simp only [List.append_assoc]
      have first : (join :: next :: joins).flatMap joinText =
          joinText join ++ (next :: joins).flatMap joinText := List.flatMap_cons
      rw [first, ← ih later, chain, textOf_append, textOf_cons, glued, regroup, spaced]
      exact rfl

theorem textOf_select {written : Select} (conditions : ∀ join ∈ written.joins, join.on ≠ []) :
    textOf (select written) = "select ".toList ++
      ([','].intercalate (written.fields.map columnText) ++ (" from ".toList ++
        (written.table ++ (" as ".toList ++ (written.tableAlias ++ (" ".toList ++
          written.joins.flatMap joinText)))))) := by
  have fields : textOf (listed (.fixed [','] [.symbol ',']) (written.fields.map column)) =
      [','].intercalate (written.fields.map columnText) := by
    rw [textOf_listed, List.map_map]
    congr 1
    exact List.map_congr_left fun named _ => textOf_column named
  have tables : textOf (if written.joins = [] then [.fixed [' '] []]
      else .fixed " inner join ".toList [keyword "inner", keyword "join"] ::
        chain written.joins) = " ".toList ++ written.joins.flatMap joinText := by
    cases joins : written.joins with
    | nil => rfl
    | cons join joins' =>
        rw [joins] at conditions
        rw [if_neg (List.cons_ne_nil _ _), textOf_cons, ← textOf_chain conditions]
        rfl
  rw [select, textOf_cons, textOf_append, fields, textOf_cons, textOf_cons, textOf_cons,
    textOf_cons, tables]
  rfl

/-! ### They are sound -/

def NamedColumn (named : Column) : Prop := IsName named.tableAlias ∧ IsName named.column

def NamedMatch (both : Match) : Prop := NamedColumn both.left ∧ NamedColumn both.right

structure NamedJoin (join : Join) : Prop where
  table : IsName join.table
  tableAlias : IsName join.tableAlias
  on : ∀ both ∈ join.on, NamedMatch both

structure NamedSelect (written : Select) : Prop where
  fields : ∀ named ∈ written.fields, NamedColumn named
  table : IsName written.table
  tableAlias : IsName written.tableAlias
  joins : ∀ join ∈ written.joins, NamedJoin join

/-- A name with a word behind it is a name: no keyword but the word itself ends with it. -/
theorem isName_glued {word : Text} (named : IsName word) : IsName (word ++ "inner".toList) := by
  obtain ⟨nonempty, chars, -, notDigit⟩ := isName_iff.mp named
  have ending : ∀ keyword ∈ keywords, "inner".toList <:+ keyword →
      keyword.length ≤ "inner".toList.length := by decide
  have ending_chars : ∀ c ∈ "inner".toList, isWordChar c = true :=
    List.all_eq_true.mp (by decide)
  refine isName_iff.mpr ⟨by simp, ?_, ?_, ?_⟩
  · intro c member
    rcases List.mem_append.mp member with inWord | behind
    · exact chars c inWord
    · exact ending_chars c behind
  · intro isKeyword
    rw [List.map_append] at isKeyword
    have short := ending _ isKeyword (List.suffix_append _ _)
    rw [List.length_append, List.length_map, List.length_map] at short
    have : 0 < word.length := List.length_pos_of_ne_nil nonempty
    omega
  · rwa [List.head?_append_of_ne_nil _ nonempty]

theorem namedMatch_glue {on : List Match} (named : ∀ both ∈ on, NamedMatch both) :
    ∀ both ∈ glue on, NamedMatch both := by
  induction on with
  | nil => exact named
  | cons both on ih =>
      obtain ⟨first, others⟩ := List.forall_mem_cons.mp named
      cases on with
      | nil =>
          exact List.forall_mem_singleton.mpr ⟨first.1, first.2.1, isName_glued first.2.2⟩
      | cons next on => exact List.forall_mem_cons.mpr ⟨first, ih others⟩

theorem sound_column {named : Column} (isNamed : NamedColumn named) :
    ∀ piece ∈ column named, piece.Sound dialect := by
  simpa [column, NamedColumn] using isNamed

theorem sound_equal {both : Match} (named : NamedMatch both) :
    ∀ piece ∈ equal both, piece.Sound dialect := by
  rw [equal, List.forall_mem_append, List.forall_mem_cons]
  exact ⟨sound_column named.1, Piece.sound_fixed _ _ _, sound_column named.2⟩

theorem sound_joinBody {join : Join} (named : NamedJoin join) :
    ∀ piece ∈ joinBody join, piece.Sound dialect := by
  have on : ∀ piece ∈ listed (.fixed " and ".toList [keyword "and"]) (join.on.map equal),
      piece.Sound dialect := by
    rw [listed, forall_mem_intercalate
      (List.forall_mem_singleton.mpr (Piece.sound_fixed _ _ _)), List.forall_mem_map]
    exact fun both member => sound_equal (named.on both member)
  simp only [joinBody, List.forall_mem_cons]
  exact ⟨named.table, Piece.sound_fixed _ _ _, named.tableAlias, Piece.sound_fixed _ _ _, on⟩

theorem sound_chain {joins : List Join} (named : ∀ join ∈ joins, NamedJoin join) :
    ∀ piece ∈ chain joins, piece.Sound dialect := by
  induction joins with
  | nil => exact fun _ member => (List.not_mem_nil member).elim
  | cons join joins ih =>
      obtain ⟨first, others⟩ := List.forall_mem_cons.mp named
      cases joins with
      | nil => exact sound_joinBody first
      | cons next joins =>
          rw [chain, List.forall_mem_append, List.forall_mem_cons]
          exact ⟨sound_joinBody ⟨first.table, first.tableAlias, namedMatch_glue first.on⟩,
            Piece.sound_fixed _ _ _, ih others⟩

theorem sound_select {written : Select} (named : NamedSelect written) :
    ∀ piece ∈ select written, piece.Sound dialect := by
  have fields : ∀ piece ∈ listed (.fixed [','] [.symbol ',']) (written.fields.map column),
      piece.Sound dialect := by
    rw [listed, forall_mem_intercalate
      (List.forall_mem_singleton.mpr (Piece.sound_fixed _ _ _)), List.forall_mem_map]
    exact fun each member => sound_column (named.fields each member)
  have tables : ∀ piece ∈ (if written.joins = [] then [Piece.fixed [' '] []]
      else .fixed " inner join ".toList [keyword "inner", keyword "join"] ::
        chain written.joins), piece.Sound dialect := by
    split
    · exact List.forall_mem_singleton.mpr (Piece.sound_fixed _ _ _)
    · exact List.forall_mem_cons.mpr ⟨Piece.sound_fixed _ _ _, sound_chain named.joins⟩
  rw [select, List.forall_mem_cons, List.forall_mem_append, List.forall_mem_cons,
    List.forall_mem_cons, List.forall_mem_cons, List.forall_mem_cons]
  exact ⟨Piece.sound_fixed _ _ _, fields, Piece.sound_fixed _ _ _, named.table,
    Piece.sound_fixed _ _ _, named.tableAlias, tables⟩

/-! ### Their tokens -/

theorem tokensOf_on (on : List Match) :
    tokensOf (listed (.fixed " and ".toList [keyword "and"]) (on.map equal)) =
      [keyword "and"].intercalate (on.map Match.tokens) := by
  rw [tokensOf_listed, List.map_map]
  rfl

theorem tokensOf_joinBody (join : Join) : tokensOf (joinBody join) =
    [.name join.table, keyword "as", .name join.tableAlias, keyword "on"] ++
      [keyword "and"].intercalate (join.on.map Match.tokens) := by
  rw [joinBody, tokensOf_cons, tokensOf_cons, tokensOf_cons, tokensOf_cons, tokensOf_on]
  rfl

theorem keyword_not_mem_joinBody {word : String} (isJoin : word = "inner" ∨ word = "join")
    (join : Join) : keyword word ∉ tokensOf (joinBody join) := by
  rw [tokensOf_joinBody, List.mem_append, not_or]
  rcases isJoin with rfl | rfl
  · exact ⟨by simp [keyword], keyword_not_mem_matches (by decide) _⟩
  · exact ⟨by simp [keyword], keyword_not_mem_matches (by decide) _⟩

/-- Behind the first join no `inner` is read: it was written into the name before it. -/
theorem inner_not_mem_chain (joins : List Join) : keyword "inner" ∉ tokensOf (chain joins) := by
  induction joins with
  | nil => exact List.not_mem_nil
  | cons join joins ih =>
      cases joins with
      | nil => exact keyword_not_mem_joinBody (.inl rfl) join
      | cons next joins =>
          rw [chain, tokensOf_append, tokensOf_cons, List.mem_append, List.mem_append, not_or,
            not_or]
          exact ⟨keyword_not_mem_joinBody (.inl rfl) _, by simp [Piece.tokens, keyword], ih⟩

theorem count_join_chain (join : Join) (joins : List Join) :
    (tokensOf (chain (join :: joins))).count (keyword "join") = joins.length := by
  induction joins generalizing join with
  | nil => exact List.count_eq_zero.mpr (keyword_not_mem_joinBody (.inr rfl) join)
  | cons next joins ih =>
      have none := List.count_eq_zero.mpr
        (keyword_not_mem_joinBody (.inr rfl) { join with on := glue join.on })
      rw [chain, tokensOf_append, tokensOf_cons, List.count_append, List.count_append, none, ih]
      simp [Piece.tokens]
      omega

end Written

namespace ObjectMapping

open JoinMapping Written

theorem getFieldSql_eq {map : ObjectMapping} {i : Nat} {mainTable : Option ObjectMapping}
    (mapped : map.propMap ≠ []) (visible : getTableAlias i ≠ 0) :
    map.getFieldSql (getTableAlias i) mainTable =
      .ok ((ownFields map i mainTable).flatMap fun named => columnText named ++ [',']) := by
  rw [getFieldSql, if_neg (by simpa using mapped), ownFields, List.flatMap_map, flatMap_filter]
  simp only [if_pos visible, columnText, aliasName, List.cons_append, List.nil_append]

theorem getFieldSql_mapped {map : ObjectMapping} {tableAlias : UInt8}
    {mainTable : Option ObjectMapping} {fields : Text}
    (written : map.getFieldSql tableAlias mainTable = .ok fields) : map.propMap ≠ [] := by
  intro none
  rw [getFieldSql, if_pos (by rw [none]; rfl)] at written
  cases written

theorem addJoin_eq (main : ObjectMapping) (i : Nat) (begun : Text) (it : PropertyMapping) :
    addJoin (getTableAlias i) main begun it =
      match sharedKey main i it with
      | none => begun
      | some both =>
          begun ++ (if !begun.isEmpty then " and ".toList else []) ++ matchText both := by
  rw [addJoin, sharedKey]
  cases main.findKey it.property with
  | none => rfl
  | some mainProp =>
      have equals : "=A.".toList = '=' :: "A".toList ++ ['.'] := rfl
      simp only [Option.map_some, matchText, columnText, aliasName, equals, List.append_assoc,
        List.cons_append, List.nil_append]

/-- Once the condition has begun, the further matches are joined by `and`. -/
theorem foldl_addJoin (main : ObjectMapping) (i : Nat) (properties : List PropertyMapping)
    {begun : Text} (notEmpty : begun ≠ []) :
    properties.foldl (addJoin (getTableAlias i) main) begun =
      begun ++ ((properties.filterMap (sharedKey main i)).map matchText).flatMap
        (" and ".toList ++ ·) := by
  induction properties generalizing begun with
  | nil => exact (List.append_nil begun).symm
  | cons it properties ih =>
      rw [List.foldl_cons, addJoin_eq]
      cases shared : sharedKey main i it with
      | none => rw [List.filterMap_cons_none shared, ih notEmpty]
      | some both =>
          have joined : (!begun.isEmpty) = true := by simpa using notEmpty
          rw [List.filterMap_cons_some shared, List.map_cons, List.flatMap_cons, if_pos joined,
            ih (by simp [notEmpty])]
          simp only [List.append_assoc]

theorem foldl_addJoin_nil (main : ObjectMapping) (i : Nat) (properties : List PropertyMapping) :
    properties.foldl (addJoin (getTableAlias i) main) [] =
      " and ".toList.intercalate ((properties.filterMap (sharedKey main i)).map matchText) := by
  induction properties with
  | nil => rfl
  | cons it properties ih =>
      rw [List.foldl_cons, addJoin_eq]
      cases shared : sharedKey main i it with
      | none => rw [List.filterMap_cons_none shared, ← ih]
      | some both =>
          have some_text : matchText both ≠ [] := by simp [matchText]
          rw [List.filterMap_cons_some shared, List.map_cons, intercalate_cons_eq,
            ← foldl_addJoin main i properties some_text]
          rfl

theorem getJoinSql_eq (main map : ObjectMapping) (i : Nat) :
    map.getJoinSql (getTableAlias i) main =
      if sharedKeys main map i = [] then [] else joinText (join main map i) := by
  rw [getJoinSql, foldl_addJoin_nil, ← sharedKeys]
  cases shared : sharedKeys main map i with
  | nil => rfl
  | cons both on =>
      have some_text : (!(" and ".toList.intercalate
          ((both :: on).map matchText)).isEmpty) = true := by
        rw [List.map_cons, intercalate_cons_eq]
        simp [matchText]
      rw [if_neg (List.cons_ne_nil _ _)]
      have regroup (a b c d e f : Text) :
          a ++ b ++ c ++ d ++ e ++ f = a ++ (b ++ (c ++ (d ++ (e ++ f)))) := by
        simp only [List.append_assoc]
      rw [if_pos some_text, joinText_eq, textOf_joinBody, regroup, join, shared, aliasName]

end ObjectMapping

namespace JoinMapping

open ObjectMapping Written

variable {mapping : JoinMapping}

/-- A condition as it is appended. -/
def given (condSql : Text) : Text := if condSql.isEmpty then [] else ' ' :: condSql

/-- Every table has properties. -/
def Mapped (mapping : JoinMapping) : Prop :=
  ∀ map ∈ mapping.main :: mapping.joined, map.propMap ≠ []

instance : Decidable mapping.Mapped :=
  inferInstanceAs (Decidable (∀ map ∈ mapping.main :: mapping.joined, map.propMap ≠ []))

/-- Every alias can be seen in the text. -/
def Visible (mapping : JoinMapping) : Prop :=
  ∀ i ≤ mapping.joined.length, getTableAlias i ≠ 0

theorem mem_positioned {map : ObjectMapping} {i : Nat} (member : (map, i) ∈ mapping.positioned) :
    map ∈ mapping.joined ∧ 1 ≤ i ∧ i ≤ mapping.joined.length := by
  have first := List.le_snd_of_mem_zipIdx member
  have last := List.snd_lt_add_of_mem_zipIdx member
  exact ⟨List.fst_mem_of_mem_zipIdx member, first, by simp at last; omega⟩

theorem addFields_eq {tables : List (ObjectMapping × Nat)}
    (mapped : ∀ map i, (map, i) ∈ tables → map.propMap ≠ [])
    (visible : ∀ map i, (map, i) ∈ tables → getTableAlias i ≠ 0) (fieldSql : Text) :
    mapping.addFields fieldSql tables =
      .ok (fieldSql ++ (tables.flatMap fun (map, i) =>
        ownFields map i (some mapping.main)).flatMap fun named =>
          columnText named ++ [',']) := by
  induction tables generalizing fieldSql with
  | nil => rw [addFields, List.flatMap_nil, List.flatMap_nil, List.append_nil]
  | cons table tables ih =>
      obtain ⟨map, i⟩ := table
      rw [addFields, getFieldSql_eq (mapped map i List.mem_cons_self)
        (visible map i List.mem_cons_self)]
      change addFields mapping (fieldSql ++ _) tables = _
      rw [ih (fun map i member => mapped map i (List.mem_cons_of_mem _ member))
        fun map i member => visible map i (List.mem_cons_of_mem _ member),
        List.flatMap_cons, List.flatMap_append, List.append_assoc]

theorem addFields_mapped {tables : List (ObjectMapping × Nat)} {fieldSql sql : Text}
    (written : mapping.addFields fieldSql tables = .ok sql) :
    ∀ table ∈ tables, table.1.propMap ≠ [] := by
  induction tables generalizing fieldSql with
  | nil => exact fun _ member => (List.not_mem_nil member).elim
  | cons table tables ih =>
      obtain ⟨map, i⟩ := table
      rw [addFields] at written
      cases fields : map.getFieldSql (getTableAlias i) (some mapping.main) with
      | error message =>
          rw [fields] at written
          cases written
      | ok text =>
          rw [fields] at written
          exact List.forall_mem_cons.mpr ⟨getFieldSql_mapped fields, ih written⟩

theorem joins_text (mapping : JoinMapping) : (mapping.positioned.flatMap fun (map, i) =>
    map.getJoinSql (getTableAlias i) mapping.main) = mapping.joins.flatMap joinText := by
  rw [joins, flatMap_filter, List.flatMap_map]
  congr 1
  funext table
  obtain ⟨map, i⟩ := table
  dsimp only
  rw [getJoinSql_eq]
  by_cases none : sharedKeys mapping.main map i = []
  · rw [if_pos none, if_neg (by simp [join, none])]
  · rw [if_neg none, if_pos (by simp [join, none])]

theorem joins_conditions (mapping : JoinMapping) : ∀ join ∈ mapping.joins, join.on ≠ [] := by
  intro join member
  simpa using (List.mem_filter.mp member).2

theorem intended_fields (mapped : mapping.Mapped) : mapping.intended.fields ≠ [] := by
  have own : ownFields mapping.main 0 none ≠ [] := by
    simpa [ownFields] using mapped mapping.main List.mem_cons_self
  exact List.append_ne_nil_of_left_ne_nil own _

/-- The text of the intended select is what is written. -/
theorem getSelectJoinSql_eq (mapped : mapping.Mapped) (visible : mapping.Visible)
    (condSql : Text) : mapping.getSelectJoinSql condSql =
      .ok (textOf (Written.select mapping.intended) ++ given condSql) := by
  have mappedTables : ∀ map i, (map, i) ∈ mapping.positioned → map.propMap ≠ [] :=
    fun map i member => mapped map (List.mem_cons_of_mem _ (mem_positioned member).1)
  have visibleTables : ∀ map i, (map, i) ∈ mapping.positioned → getTableAlias i ≠ 0 :=
    fun map i member => visible i (mem_positioned member).2.2
  have listed : mapping.intended.fields.flatMap (fun named => columnText named ++ [',']) ≠ [] := by
    obtain ⟨named, fields, cons⟩ := List.exists_cons_of_ne_nil (intended_fields mapped)
    simp [cons]
  have fields : ∀ opening : Text,
      (opening ++ (ownFields mapping.main 0 none).flatMap (fun named => columnText named ++ [',']) ++
        (mapping.positioned.flatMap fun (map, i) =>
          ownFields map i (some mapping.main)).flatMap fun named => columnText named ++ [',']).dropLast =
        opening ++ [','].intercalate (mapping.intended.fields.map columnText) := by
    intro opening
    rw [List.append_assoc, ← List.flatMap_append, ← dropLast_flatMap,
      ← List.dropLast_append_of_ne_nil listed]
    rfl
  have ended (sql : Text) : (if !condSql.isEmpty then sql ++ ' ' :: condSql else sql) =
      sql ++ given condSql := by
    unfold given
    cases condSql.isEmpty with
    | true => exact (List.append_nil sql).symm
    | false => rfl
  have regroup (a b c d e f g h : Text) : a ++ b ++ c ++ d ++ e ++ f ++ g ++ h =
      a ++ (b ++ (c ++ (d ++ (e ++ (f ++ (g ++ h)))))) := by
    simp only [List.append_assoc]
  rw [getSelectJoinSql, getFieldSql_eq (mapped _ List.mem_cons_self) (visible 0 (Nat.zero_le _))]
  change (mapping.addFields _ mapping.positioned >>= _) = _
  rw [addFields_eq mappedTables visibleTables]
  change Except.ok _ = _
  rw [ended, fields, joins_text, textOf_select (joins_conditions mapping)]
  exact congrArg Except.ok (congrArg (· ++ given condSql) (regroup _ _ _ _ _ _ _ _))

theorem getSelectJoinSql_mapped {condSql sql : Text}
    (written : mapping.getSelectJoinSql condSql = .ok sql) : mapping.Mapped := by
  rw [getSelectJoinSql] at written
  cases fields : mapping.main.getFieldSql (getTableAlias 0) none with
  | error message =>
      rw [fields] at written
      cases written
  | ok text =>
      rw [fields] at written
      change (mapping.addFields _ mapping.positioned >>= _) = _ at written
      cases more : mapping.addFields ("select ".toList ++ text) mapping.positioned with
      | error message =>
          rw [more] at written
          cases written
      | ok all =>
          refine List.forall_mem_cons.mpr ⟨getFieldSql_mapped fields, ?_⟩
          intro map member
          rw [← List.zipIdx_map_fst 1 mapping.joined] at member
          obtain ⟨⟨map, i⟩, inside, rfl⟩ := List.mem_map.mp member
          exact addFields_mapped more _ inside

end JoinMapping

end Cube.Eco.Persist
