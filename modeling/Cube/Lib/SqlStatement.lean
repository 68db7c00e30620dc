import Cube.Lib.SqlPiece

/-! # Statements in SQL

The statements that change a table, with the tokens that they are written with and what they
do to a row. A text reads as at most one statement.
-/

namespace SqlText

/-- A column and a value. -/
structure Equation where
  column : List Char
  value : List Char
  deriving DecidableEq

def Equation.tokens (equation : Equation) : List Token :=
  [.name equation.column, .symbol '=', .literal equation.value]

inductive Statement where
  | insert (table : List Char) (values : List Equation)
  | update (table : List Char) (assigned condition : List Equation)
  | delete (table : List Char) (condition : List Equation)
  deriving DecidableEq

/-- The `where` clause; without equations there is none. -/
def whereTokens (condition : List Equation) : List Token :=
  if condition = [] then []
  else keyword "where" :: [keyword "and"].intercalate (condition.map Equation.tokens)

namespace Statement

def tokens : Statement → List Token
  | insert table values =>
      [keyword "insert", keyword "into", .name table, .symbol '('] ++
        [Token.symbol ','].intercalate (values.map fun equation => [.name equation.column]) ++
        [.symbol ')', keyword "values", .symbol '('] ++
        [Token.symbol ','].intercalate (values.map fun equation => [.literal equation.value]) ++
        [.symbol ')']
  | update table assigned condition =>
      [keyword "update", .name table, keyword "set"] ++
        [Token.symbol ','].intercalate (assigned.map Equation.tokens) ++ whereTokens condition
  | delete table condition =>
      [keyword "delete", keyword "from", .name table] ++ whereTokens condition

end Statement

/-- The values of a row by their columns. -/
abbrev Row := List Char → List Char

def Row.Meets (row : Row) (condition : List Equation) : Prop :=
  ∀ equation ∈ condition, row equation.column = equation.value

instance (row : Row) (condition : List Equation) : Decidable (row.Meets condition) :=
  inferInstanceAs (Decidable (∀ equation ∈ condition, _))

def Row.assign (row : Row) (assigned : List Equation) : Row :=
  assigned.foldl (fun row equation => Function.update row equation.column equation.value) row

/-- What becomes of a row of the table, none if it is deleted. -/
def Statement.onRow (row : Row) : Statement → Option Row
  | insert _ _ => some row
  | update _ assigned condition =>
      if row.Meets condition then some (row.assign assigned) else some row
  | delete _ condition => if row.Meets condition then none else some row

/-- The equations that a statement asks of a row before it touches it. -/
def Statement.asks : Statement → List Equation
  | insert _ _ => []
  | update _ _ condition => condition
  | delete _ condition => condition

/-- A row that a statement does not leave as it is meets its condition. -/
theorem Statement.meets_of_onRow {statement : Statement} {row : Row}
    (touched : statement.onRow row ≠ some row) : row.Meets statement.asks := by
  cases statement with
  | insert => exact (touched rfl).elim
  | update table assigned condition =>
      by_contra different
      exact touched (if_neg different)
  | delete table condition =>
      by_contra different
      exact touched (if_neg different)

variable {dialect : Dialect}

/-! ## A text reads as at most one statement -/

def Token.column? : Token → Option (List Char)
  | name word => some word
  | _ => none

def Token.value? : Token → Option (List Char)
  | literal value => some value
  | _ => none

theorem equations_ext {first second : List Equation}
    (columns : first.map Equation.column = second.map Equation.column)
    (values : first.map Equation.value = second.map Equation.value) : first = second := by
  induction first generalizing second with
  | nil =>
      cases second with
      | nil => rfl
      | cons => cases columns
  | cons equation first ih =>
      cases second with
      | nil => cases columns
      | cons other second =>
          obtain ⟨column, columns⟩ := List.cons.inj columns
          obtain ⟨value, values⟩ := List.cons.inj values
          rw [ih columns values]
          cases equation
          cases other
          cases column
          cases value
          rfl

/-- What the tokens of equations tell about them. -/
theorem columns_equations (separator : Token) (skipped : separator.column? = none)
    (equations : List Equation) :
    ([separator].intercalate (equations.map Equation.tokens)).filterMap Token.column? =
      equations.map Equation.column := by
  rw [filterMap_intercalate (List.filterMap_cons_none skipped), List.flatMap_map]
  exact List.flatMap_pure_eq_map Equation.column equations

theorem values_equations (separator : Token) (skipped : separator.value? = none)
    (equations : List Equation) :
    ([separator].intercalate (equations.map Equation.tokens)).filterMap Token.value? =
      equations.map Equation.value := by
  rw [filterMap_intercalate (List.filterMap_cons_none skipped), List.flatMap_map]
  exact List.flatMap_pure_eq_map Equation.value equations

theorem columns_where (condition : List Equation) :
    (whereTokens condition).filterMap Token.column? = condition.map Equation.column := by
  unfold whereTokens
  split
  next empty => rw [empty]; rfl
  next =>
    rw [List.filterMap_cons_none rfl]
    exact columns_equations _ rfl condition

theorem values_where (condition : List Equation) :
    (whereTokens condition).filterMap Token.value? = condition.map Equation.value := by
  unfold whereTokens
  split
  next empty => rw [empty]; rfl
  next =>
    rw [List.filterMap_cons_none rfl]
    exact values_equations _ rfl condition

theorem whereTokens_injective {first second : List Equation}
    (same : whereTokens first = whereTokens second) : first = second := by
  apply equations_ext
  · rw [← columns_where, ← columns_where, same]
  · rw [← values_where, ← values_where, same]

/-- The tokens in front of the `where` clause. -/
def beforeWhere (tokens : List Token) : List Token := tokens.takeWhile (· ≠ keyword "where")

theorem beforeWhere_append {tokens : List Token} (noWhere : ∀ token ∈ tokens, token ≠ keyword "where")
    (condition : List Equation) : beforeWhere (tokens ++ whereTokens condition) = tokens := by
  rw [beforeWhere, List.takeWhile_append_of_pos (by simpa using noWhere)]
  have stops : (whereTokens condition).takeWhile (· ≠ keyword "where") = [] := by
    unfold whereTokens
    split
    · rfl
    · exact List.takeWhile_cons_of_neg (by simp)
  rw [stops, List.append_nil]

namespace Statement

/-- The first word. -/
def verb : Statement → Token
  | insert _ _ => keyword "insert"
  | update _ _ _ => keyword "update"
  | delete _ _ => keyword "delete"

theorem tokens_head (statement : Statement) : statement.tokens.head? = some statement.verb := by
  cases statement with
  | insert => rfl
  | update => rfl
  | delete => rfl

theorem columns_insert (table : List Char) (values : List Equation) :
    (insert table values).tokens.filterMap Token.column? =
      table :: values.map Equation.column := by
  have columns : ([Token.symbol ','].intercalate
      (values.map fun equation => [Token.name equation.column])).filterMap Token.column? =
        values.map Equation.column := by
    rw [filterMap_intercalate rfl, List.flatMap_map]
    exact List.flatMap_pure_eq_map Equation.column values
  have literals : ([Token.symbol ','].intercalate
      (values.map fun equation => [Token.literal equation.value])).filterMap Token.column? =
        [] := by
    rw [filterMap_intercalate rfl, List.flatMap_map]
    exact List.flatMap_eq_nil_iff.mpr fun _ _ => rfl
  simp only [tokens, List.filterMap_append, columns, literals]
  simp [List.filterMap_cons, Token.column?, keyword]

theorem values_insert (table : List Char) (values : List Equation) :
    (insert table values).tokens.filterMap Token.value? = values.map Equation.value := by
  have columns : ([Token.symbol ','].intercalate
      (values.map fun equation => [Token.name equation.column])).filterMap Token.value? =
        [] := by
    rw [filterMap_intercalate rfl, List.flatMap_map]
    exact List.flatMap_eq_nil_iff.mpr fun _ _ => rfl
  have literals : ([Token.symbol ','].intercalate
      (values.map fun equation => [Token.literal equation.value])).filterMap Token.value? =
        values.map Equation.value := by
    rw [filterMap_intercalate rfl, List.flatMap_map]
    exact List.flatMap_pure_eq_map Equation.value values
  simp only [tokens, List.filterMap_append, columns, literals]
  simp [List.filterMap_cons, Token.value?, keyword]

/-- What stands before the `where` clause of an update. -/
def updateFront (table : List Char) (assigned : List Equation) : List Token :=
  [keyword "update", .name table, keyword "set"] ++
    [Token.symbol ','].intercalate (assigned.map Equation.tokens)

theorem updateFront_noWhere (table : List Char) (assigned : List Equation) :
    ∀ token ∈ updateFront table assigned, token ≠ keyword "where" := by
  rw [updateFront, List.forall_mem_append,
    forall_mem_intercalate (by simp [keyword])]
  refine ⟨by simp [keyword], ?_⟩
  intro tokens member
  obtain ⟨equation, -, rfl⟩ := List.mem_map.mp member
  simp [Equation.tokens, keyword]

theorem updateFront_injective {table other : List Char} {assigned otherAssigned : List Equation}
    (same : updateFront table assigned = updateFront other otherAssigned) :
    table = other ∧ assigned = otherAssigned := by
  obtain ⟨heads, equations⟩ := List.append_inj same rfl
  refine ⟨by simpa using heads, equations_ext ?_ ?_⟩
  · rw [← columns_equations (.symbol ',') rfl, equations, columns_equations _ rfl]
  · rw [← values_equations (.symbol ',') rfl, equations, values_equations _ rfl]

theorem tokens_injective {first second : Statement} (same : first.tokens = second.tokens) :
    first = second := by
  have verbs : first.verb = second.verb := by
    rw [← Option.some_inj, ← tokens_head, ← tokens_head, same]
  cases first with
  | insert table columnValues =>
      cases second with
      | insert other otherValues =>
          have columns := congrArg (List.filterMap Token.column?) same
          have values := congrArg (List.filterMap Token.value?) same
          rw [columns_insert, columns_insert, List.cons.injEq] at columns
          rw [values_insert, values_insert] at values
          rw [columns.1, equations_ext columns.2 values]
      | update => exact absurd verbs (by simp [verb, keyword])
      | delete => exact absurd verbs (by simp [verb, keyword])
  | update table assigned condition =>
      cases second with
      | insert => exact absurd verbs (by simp [verb, keyword])
      | update other otherAssigned otherCondition =>
          have fronts := congrArg beforeWhere same
          rw [tokens, tokens, ← updateFront, ← updateFront,
            beforeWhere_append (updateFront_noWhere _ _),
            beforeWhere_append (updateFront_noWhere _ _)] at fronts
          obtain ⟨rfl, rfl⟩ := updateFront_injective fronts
          rw [whereTokens_injective (List.append_cancel_left same)]
      | delete => exact absurd verbs (by simp [verb, keyword])
  | delete table condition =>
      cases second with
      | insert => exact absurd verbs (by simp [verb, keyword])
      | update => exact absurd verbs (by simp [verb, keyword])
      | delete other otherCondition =>
          obtain ⟨heads, clauses⟩ := List.append_inj same rfl
          obtain rfl : table = other := by simpa using heads
          rw [whereTokens_injective clauses]

end Statement

end SqlText
