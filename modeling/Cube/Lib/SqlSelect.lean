import Cube.Lib.SqlPiece

/-! # Selecting from joined tables in SQL

A `select` over a table and the tables that are joined to it, each under an alias, with its
tokens. It is closed if it uses no alias that it does not introduce once.
-/

namespace SqlText

/-- A column of the table with some alias. -/
structure Column where
  tableAlias : List Char
  column : List Char
  deriving DecidableEq

/-- Two columns that are to be equal. -/
structure Match where
  left : Column
  right : Column
  deriving DecidableEq

structure Join where
  table : List Char
  tableAlias : List Char
  on : List Match
  deriving DecidableEq

structure Select where
  fields : List Column
  table : List Char
  tableAlias : List Char
  joins : List Join
  deriving DecidableEq

def Column.tokens (column : Column) : List Token :=
  [.name column.tableAlias, .symbol '.', .name column.column]

def Match.tokens (equal : Match) : List Token :=
  equal.left.tokens ++ .symbol '=' :: equal.right.tokens

def onTokens (on : List Match) : List Token :=
  if on = [] then [] else keyword "on" :: [keyword "and"].intercalate (on.map Match.tokens)

def Join.tokens (join : Join) : List Token :=
  [keyword "inner", keyword "join", .name join.table, keyword "as", .name join.tableAlias] ++
    onTokens join.on

namespace Select

def front (fields : List Column) : List Token :=
  keyword "select" :: [Token.symbol ','].intercalate (fields.map Column.tokens)

def tokens (select : Select) : List Token :=
  front select.fields ++ keyword "from" ::
    ([.name select.table, keyword "as", .name select.tableAlias] ++
      select.joins.flatMap Join.tokens)

/-- The aliases in the select list and in the conditions. -/
def used (select : Select) : List (List Char) :=
  select.fields.map Column.tableAlias ++
    select.joins.flatMap fun join => join.on.flatMap fun equal =>
      [equal.left.tableAlias, equal.right.tableAlias]

def introduced (select : Select) : List (List Char) :=
  select.tableAlias :: select.joins.map Join.tableAlias

/-- Every alias that is used is introduced once, and every join has a condition. -/
structure Closed (select : Select) : Prop where
  once : ∀ name ∈ select.used, select.introduced.count name = 1
  conditions : ∀ join ∈ select.joins, join.on ≠ []

end Select

/-! ## What the tokens tell -/

theorem keyword_not_mem_columns {word : String} (columns : List Column) :
    keyword word ∉ [Token.symbol ','].intercalate (columns.map Column.tokens) := by
  have notKeyword : ∀ token ∈ [Token.symbol ','].intercalate (columns.map Column.tokens),
      token ≠ keyword word := by
    rw [forall_mem_intercalate (by simp [keyword]), List.forall_mem_map]
    intro column _
    simp [Column.tokens, keyword]
  exact fun member => notKeyword _ member rfl

theorem keyword_ne {word other : String} (apart : word ≠ other) : keyword word ≠ keyword other :=
  fun same => apart (String.toList_injective (Token.keyword.inj same))

theorem keyword_not_mem_matches {word : String} (notAnd : word ≠ "and") (on : List Match) :
    keyword word ∉ [keyword "and"].intercalate (on.map Match.tokens) := by
  have separated : ∀ token ∈ [keyword "and"], token ≠ keyword word :=
    List.forall_mem_singleton.mpr (keyword_ne notAnd.symm)
  have notKeyword : ∀ token ∈ [keyword "and"].intercalate (on.map Match.tokens),
      token ≠ keyword word := by
    rw [forall_mem_intercalate separated, List.forall_mem_map]
    intro equal _
    simp [Match.tokens, Column.tokens, keyword]
  exact fun member => notKeyword _ member rfl

theorem keyword_not_mem_onTokens {word : String} (notOn : word ≠ "on") (notAnd : word ≠ "and")
    (on : List Match) : keyword word ∉ onTokens on := by
  unfold onTokens
  split
  · exact List.not_mem_nil
  · rw [List.mem_cons, not_or]
    exact ⟨keyword_ne notOn, keyword_not_mem_matches notAnd on⟩

/-- Each join brings one `inner` and one `join`. -/
theorem count_joins {word : String} (isJoin : word = "inner" ∨ word = "join")
    (joins : List Join) : (joins.flatMap Join.tokens).count (keyword word) = joins.length := by
  induction joins with
  | nil => rfl
  | cons join joins ih =>
      have none : (onTokens join.on).count (keyword word) = 0 := by
        apply List.count_eq_zero.mpr
        rcases isJoin with rfl | rfl
        · exact keyword_not_mem_onTokens (by decide) (by decide) _
        · exact keyword_not_mem_onTokens (by decide) (by decide) _
      rw [List.flatMap_cons, List.count_append, ih, Join.tokens, List.count_append, none]
      rcases isJoin with rfl | rfl
      · simp [keyword]
        omega
      · simp [keyword]
        omega

theorem Select.count_front {word : String} (isJoin : word = "inner" ∨ word = "join")
    (fields : List Column) : (front fields).count (keyword word) = 0 := by
  apply List.count_eq_zero.mpr
  rw [front, List.mem_cons, not_or]
  refine ⟨?_, keyword_not_mem_columns _⟩
  rcases isJoin with rfl | rfl
  · simp [keyword]
  · simp [keyword]

theorem Select.count_tokens {word : String} (isJoin : word = "inner" ∨ word = "join")
    (select : Select) : select.tokens.count (keyword word) = select.joins.length := by
  rw [tokens, List.count_append, count_front isJoin, List.count_cons, List.count_append,
    count_joins isJoin]
  rcases isJoin with rfl | rfl
  · simp [keyword]
  · simp [keyword]

/-- Lists are cut in one way at a token that the fronts do not have. -/
theorem cut_unique {α : Type} {cut : α} {front front' back back' : List α}
    (notMem : cut ∉ front) (notMem' : cut ∉ front')
    (same : front ++ cut :: back = front' ++ cut :: back') : front = front' ∧ back = back' := by
  induction front generalizing front' with
  | nil =>
      cases front' with
      | nil => exact ⟨rfl, (List.cons.inj same).2⟩
      | cons first front' =>
          obtain ⟨rfl, -⟩ := List.cons.inj same
          exact (notMem' List.mem_cons_self).elim
  | cons first front ih =>
      cases front' with
      | nil =>
          obtain ⟨rfl, -⟩ := List.cons.inj same
          exact (notMem List.mem_cons_self).elim
      | cons other front' =>
          obtain ⟨rfl, later⟩ := List.cons.inj same
          obtain ⟨fronts, backs⟩ := ih (fun member => notMem (List.mem_cons_of_mem _ member))
            (fun member => notMem' (List.mem_cons_of_mem _ member)) later
          exact ⟨congrArg _ fronts, backs⟩

def Token.name? : Token → Option (List Char)
  | name word => some word
  | _ => none

/-- The tokens of a list of columns tell the columns. -/
theorem columns_ext {first second : List Column}
    (same : [Token.symbol ','].intercalate (first.map Column.tokens) =
      [Token.symbol ','].intercalate (second.map Column.tokens)) : first = second := by
  have names (columns : List Column) :
      ([Token.symbol ','].intercalate (columns.map Column.tokens)).filterMap Token.name? =
        columns.flatMap fun column => [column.tableAlias, column.column] := by
    rw [filterMap_intercalate rfl, List.flatMap_map]
    rfl
  have pairs := congrArg (List.filterMap Token.name?) same
  rw [names, names] at pairs
  clear same names
  induction first generalizing second with
  | nil =>
      cases second with
      | nil => rfl
      | cons => cases pairs
  | cons column first ih =>
      cases second with
      | nil => cases pairs
      | cons other second =>
          simp only [List.flatMap_cons, List.cons_append, List.nil_append,
            List.cons.injEq] at pairs
          obtain ⟨alias_eq, column_eq, later⟩ := pairs
          rw [ih later]
          cases column
          cases other
          cases alias_eq
          cases column_eq
          rfl

namespace Select

theorem from_not_mem_front (fields : List Column) : keyword "from" ∉ front fields := by
  rw [front, List.mem_cons, not_or]
  exact ⟨by simp [keyword], keyword_not_mem_columns _⟩

/-- What the tokens of a select tell about it. -/
theorem eq_of_tokens {first second : Select} (same : first.tokens = second.tokens) :
    first.fields = second.fields ∧ first.tableAlias = second.tableAlias ∧
      first.joins.flatMap Join.tokens = second.joins.flatMap Join.tokens := by
  obtain ⟨fronts, backs⟩ := cut_unique (from_not_mem_front _) (from_not_mem_front _) same
  obtain ⟨heads, joins⟩ := List.append_inj backs rfl
  refine ⟨columns_ext (List.cons.inj fronts).2, ?_, joins⟩
  simp only [List.cons.injEq, Token.name.injEq] at heads
  exact heads.2.2.1

end Select

theorem Join.alias_of_tokens {first second : Join} (same : first.tokens = second.tokens) :
    first.tableAlias = second.tableAlias := by
  obtain ⟨heads, -⟩ := List.append_inj same rfl
  simp only [List.cons.injEq, Token.name.injEq] at heads
  exact heads.2.2.2.2.1

end SqlText
