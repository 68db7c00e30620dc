import Cube.Alpha.SqlMaker
import Cube.Lib.SqlReads

/-! # When a statement that is put together is right

Its text is read as the statement that the calls say exactly if each value is plain and no condition
was put into an assignment; and it stays as it is exactly if no mark stands in it.
-/

namespace Cube.Alpha

open SqlText

variable {dialect : Dialect} {mark : List Char}

/-! ## How the parts are read -/

theorem reads_value (value : Value) :
    Reads dialect value.text value.tokens (value.Plain dialect) := by
  cases value with
  | given value =>
      cases value with
      | string value => exact reads_literal value
      | int n =>
          have number : Reads dialect (Nat.toDigits 10 n.toInt.natAbs)
              [.number (Nat.toDigits 10 n.toInt.natAbs)] True := by
            rw [← ofWord_digits Nat.toDigits_ne_nil (digits_isDigit _)]
            exact reads_word Nat.toDigits_ne_nil (digits_word _)
          change Reads dialect (itos n) (intTokens n) True
          rw [itos, intTokens]
          split
          · exact number.behind rfl
          · exact number
  | clock type =>
      cases type with
      | datetime => exact reads_fixed rfl
      | date => exact reads_fixed rfl
      | time => exact reads_fixed rfl

theorem reads_pair {pair : Pair} (named : IsName pair.column) :
    Reads dialect pair.text pair.tokens (pair.value.Plain dialect) := by
  have equals : scan dialect .between ['='] = ([.symbol '='], .between) := rfl
  have breaks : isBreak '=' = true := by decide
  exact ((reads_name named).append ((reads_value pair.value).behind equals)
    fun _ _ => breaks_cons breaks _).congr (and_iff_right trivial)

theorem scan_comma : scan dialect .between [','] = ([.symbol ','], .between) := rfl

theorem scan_and : scan dialect .between " and ".toList = ([keyword "and"], .between) := rfl

theorem break_comma : isBreak ',' = true := by decide

theorem break_blank : isBreak ' ' = true := by decide

theorem reads_condition {condition : List Pair} (named : ∀ pair ∈ condition, IsName pair.column) :
    Reads dialect (conditionText condition) (conditionTokens condition)
      (∀ pair ∈ condition, pair.value.Plain dialect) := by
  rw [conditionText, conditionTokens]
  split
  · rename_i none
    exact reads_nil.congr (by simp [none])
  · have where_clause : scan dialect .between " where ".toList =
      ([keyword "where"], .between) := rfl
    exact (reads_intercalate break_blank scan_and
      fun pair member => reads_pair (named pair member)).behind where_clause

/-! ## How the texts are read -/

theorem scan_values : scan dialect .between ") values(".toList =
    ([.symbol ')', keyword "values", .symbol '('], .between) := rfl

theorem break_close : isBreak ')' = true := by decide

theorem reads_names {fields : List (List Char)} (names : ∀ field ∈ fields, IsName field) :
    Reads dialect ([','].intercalate fields)
      ([Token.symbol ','].intercalate (fields.map fun field => [.name field])) True := by
  have each : ∀ field ∈ fields, Reads dialect (id field) [.name field] True :=
    fun field member => reads_name (names field member)
  have reads := reads_intercalate break_comma scan_comma each
  rw [List.map_id] at reads
  exact reads.congr (iff_of_true (fun _ _ => trivial) trivial)

theorem reads_insert {table : List Char} (named : IsName table) {fields : List (List Char)}
    (names : ∀ field ∈ fields, IsName field) (added : List Pair) :
    Reads dialect (insertText table ([','].intercalate fields)
        ([','].intercalate (added.map fun pair => pair.value.text)))
      ([keyword "insert", keyword "into"] ++ ([.name table] ++ ([.symbol '('] ++
        ([Token.symbol ','].intercalate (fields.map fun field => [.name field]) ++
          ([.symbol ')', keyword "values", .symbol '('] ++
            ([Token.symbol ','].intercalate (added.map fun pair => pair.value.tokens) ++
              [.symbol ')', .symbol ';']))))))
      (∀ pair ∈ added, pair.value.Plain dialect) := by
  have each : ∀ pair ∈ added,
      Reads dialect pair.value.text pair.value.tokens (pair.value.Plain dialect) :=
    fun pair _ => reads_value pair.value
  have values := reads_intercalate break_comma scan_comma each
  have last : Reads dialect ");".toList [.symbol ')', .symbol ';'] True := reads_fixed rfl
  have opening : scan dialect .between ['('] = ([.symbol '('], .between) := rfl
  have verb : scan dialect .between "insert into ".toList =
    ([keyword "insert", keyword "into"], .between) := rfl
  have bracket : isBreak '(' = true := by decide
  have behind := (values.append last fun _ _ => breaks_cons break_close _).behind scan_values
  have inside := ((reads_names names).append behind fun _ _ => breaks_cons break_close _).behind
    opening
  have whole := ((reads_name named).append inside fun _ _ => breaks_cons bracket _).behind verb
  exact whole.congr (by simp)

/-- What stands behind the table of an update. -/
def assignedTokens (assigned condition : List Pair) : List Token :=
  [Token.symbol ','].intercalate (assigned.map Pair.tokens) ++ conditionTokens condition

theorem scan_blank : scan dialect .between [' '] = ([], .between) := rfl

theorem reads_assigned {assigned condition : List Pair}
    (named : ∀ pair ∈ assigned ++ condition, IsName pair.column) :
    Reads dialect ([','].intercalate (assigned.map Pair.text) ++ ([' '] ++ conditionText condition))
      (assignedTokens assigned condition)
      (∀ pair ∈ assigned ++ condition, pair.value.Plain dialect) := by
  rw [List.forall_mem_append] at named
  have each : ∀ pair ∈ assigned, Reads dialect pair.text pair.tokens (pair.value.Plain dialect) :=
    fun pair member => reads_pair (named.1 pair member)
  have equations := reads_intercalate break_comma scan_comma each
  have behind : Reads dialect ([' '] ++ conditionText condition) ([] ++ conditionTokens condition)
      (∀ pair ∈ condition, pair.value.Plain dialect) :=
    (reads_condition named.2).behind scan_blank
  exact (equations.append behind fun _ _ => breaks_cons break_blank _).congr
    List.forall_mem_append.symm

/-- The front of an update, up to what is assigned. -/
theorem lex_update {table : List Char} (named : IsName table) (assigned condition : List Char)
    (later : List Token) :
    lex dialect (updateText table assigned condition) =
        some ([keyword "update"] ++ ([.name table] ++ ([keyword "set"] ++ later))) ↔
      lexFrom dialect .between (assigned ++ ([' '] ++ condition)) = some later := by
  have verb : scan dialect .between "update ".toList = ([keyword "update"], .between) := rfl
  have set : scan dialect .between " set ".toList = ([keyword "set"], .between) := rfl
  have breaks : Breaks (" set ".toList ++ (assigned ++ ([' '] ++ condition))) :=
    breaks_cons break_blank _
  have name := (reads_name named : Reads dialect table [.name table] True).read trivial breaks
  delta updateText
  rw [lex, lexFrom_append, verb, map_append_eq_some, name, map_append_eq_some, lexFrom_append, set,
    map_append_eq_some]

theorem lex_delete {table : List Char} (named : IsName table) {condition : List Pair}
    (names : ∀ pair ∈ condition, IsName pair.column) :
    lex dialect (deleteText table (conditionText condition)) =
        some (Statement.delete table condition).tokens ↔
      ∀ pair ∈ condition, pair.value.Plain dialect := by
  have verb : scan dialect .between "delete from ".toList =
    ([keyword "delete", keyword "from"], .between) := rfl
  have behind : Reads dialect ([' '] ++ conditionText condition) ([] ++ conditionTokens condition)
      (∀ pair ∈ condition, pair.value.Plain dialect) :=
    (reads_condition names).behind scan_blank
  have whole := ((reads_name named).append behind fun _ _ => breaks_cons break_blank _).behind verb
  exact (whole.congr (and_iff_right trivial)).lex_iff

/-! ### The names of an insert -/

/-- Names behind commas, up to the bracket behind them. -/
theorem more_names_unique {names others : List (List Char)} {later later' : List Token}
    (same : (names.flatMap fun name => [Token.symbol ',', .name name]) ++ .symbol ')' :: later =
      (others.flatMap fun name => [Token.symbol ',', .name name]) ++ .symbol ')' :: later') :
    names = others := by
  induction names generalizing others with
  | nil =>
      cases others with
      | nil => rfl
      | cons other others => simp at same
  | cons name names ih =>
      cases others with
      | nil => simp at same
      | cons other others =>
          simp only [List.flatMap_cons, List.cons_append, List.nil_append, List.cons.injEq,
            Token.name.injEq, true_and] at same
          rw [same.1, ih same.2]

/-- Names up to the bracket behind them are read as no other names. -/
theorem names_unique {names others : List (List Char)} {later later' : List Token}
    (same : [Token.symbol ','].intercalate (names.map fun name => [.name name]) ++
        .symbol ')' :: later =
      [Token.symbol ','].intercalate (others.map fun name => [.name name]) ++
        .symbol ')' :: later') : names = others := by
  cases names with
  | nil =>
      cases others with
      | nil => rfl
      | cons other others => simp [intercalate_cons_eq] at same
  | cons name names =>
      cases others with
      | nil => simp [intercalate_cons_eq] at same
      | cons other others =>
          simp only [List.map_cons, intercalate_cons_eq, List.cons_append, List.nil_append,
            List.cons.injEq, Token.name.injEq, List.flatMap_map] at same
          rw [same.1, more_names_unique same.2]

/-- The front of an insert, up to its columns. -/
theorem lex_insert_front {table : List Char} (named : IsName table) (fields values : List Char)
    (later : List Token) :
    lex dialect (insertText table fields values) =
        some ([keyword "insert", keyword "into"] ++ ([.name table] ++ ([.symbol '('] ++ later))) ↔
      lexFrom dialect .between (fields ++ (") values(".toList ++ (values ++ ");".toList))) =
        some later := by
  have verb : scan dialect .between "insert into ".toList =
    ([keyword "insert", keyword "into"], .between) := rfl
  have opening : scan dialect .between ['('] = ([.symbol '('], .between) := rfl
  have bracket : isBreak '(' = true := by decide
  have breaks : Breaks (['('] ++ (fields ++ (") values(".toList ++ (values ++ ");".toList)))) :=
    breaks_cons bracket _
  have name := (reads_name named : Reads dialect table [.name table] True).read trivial breaks
  delta insertText
  rw [lex, lexFrom_append, verb, map_append_eq_some, name, map_append_eq_some, lexFrom_append,
    opening, map_append_eq_some]

/-- The text of an insert says the columns and values exactly if its fields are these columns and
each value is plain. -/
theorem lex_insert {table : List Char} (named : IsName table) {fields : List (List Char)}
    (names : ∀ field ∈ fields, IsName field) (added : List Pair) :
    lex dialect (insertText table ([','].intercalate fields)
        ([','].intercalate (added.map fun pair => pair.value.text))) =
        some (Statement.insert table added).tokens ↔
      fields = added.map Pair.column ∧ ∀ pair ∈ added, pair.value.Plain dialect := by
  have reads : Reads dialect _ _ (∀ pair ∈ added, pair.value.Plain dialect) :=
    reads_insert named names added
  constructor
  · intro read
    have same : fields = added.map Pair.column := by
      have breaks : Breaks (") values(".toList ++
          ([','].intercalate (added.map fun pair => pair.value.text) ++ ");".toList)) :=
        breaks_cons break_close _
      have front := (lex_insert_front named _ _ _).mp read
      rw [(reads_names names).read trivial breaks, lexFrom_append, scan_values] at front
      obtain ⟨later, found, whole⟩ := Option.map_eq_some_iff.mp front
      obtain ⟨more, _, rfl⟩ := Option.map_eq_some_iff.mp found
      have columns : added.map (fun pair => [Token.name pair.column]) =
          (added.map Pair.column).map fun column => [.name column] := by rw [List.map_map]; rfl
      rw [columns] at whole
      exact names_unique whole
    subst same
    rw [List.map_map] at reads
    exact ⟨rfl, reads.lex_iff.mp read⟩
  · rintro ⟨rfl, plain⟩
    rw [List.map_map] at reads
    exact reads.lex_iff.mpr plain

/-! ### The assignments of an update -/

theorem replaceAll_pair (isMark : IsMark mark) {pair : Pair} (named : IsName pair.column)
    (none : ¬ pair.value.Holds mark) (value : List Char) :
    Text.replaceAll mark value pair.text = pair.text :=
  Text.replaceAll_of_absent (mt (isMark.infix_pair named).mp none)

/-- Assignments in which a mark does not stand stay as they are. -/
theorem replaceAll_pairs (isMark : IsMark mark) {pairs : List Pair}
    (named : ∀ pair ∈ pairs, IsName pair.column) (none : ∀ pair ∈ pairs, ¬ pair.value.Holds mark)
    (value : List Char) :
    Text.replaceAll mark value ([','].intercalate (pairs.map Pair.text)) =
      [','].intercalate (pairs.map Pair.text) := by
  refine Text.replaceAll_of_absent fun inside => ?_
  obtain ⟨pair, member, holds⟩ := (isMark.infix_pairs named).mp inside
  exact none pair member holds

/-- Conditions begin with a blank. -/
theorem conditionText_blank {condition : List Pair} (some_condition : condition ≠ []) :
    ∃ more, conditionText condition = ' ' :: more := by
  rw [conditionText, if_neg some_condition]
  exact ⟨_, rfl⟩

/-- The column of an assignment. -/
theorem lex_pair_front {column : List Char} (named : IsName column) (text : List Char)
    (later : List Token) :
    lexFrom dialect .between (column ++ (['='] ++ text)) =
        some ([.name column] ++ ([.symbol '='] ++ later)) ↔
      lexFrom dialect .between text = some later := by
  have equals : isBreak '=' = true := by decide
  have scanned : scan dialect .between ['='] = ([.symbol '='], .between) := rfl
  have breaks : Breaks (['='] ++ text) := breaks_cons equals _
  have name := (reads_name named : Reads dialect column [.name column] True).read trivial breaks
  rw [name, map_append_eq_some, lexFrom_append, scanned, map_append_eq_some]

/-- An assignment into whose value a condition was put is not read as its own. -/
theorem free_of_read {pair : Pair} (named : IsName pair.column) {more rest : List Char}
    {later : List Token} (read : lexFrom dialect .between
      (Text.replaceAll secondMark (' ' :: more) pair.text ++ rest) = some (pair.tokens ++ later)) :
    ¬ pair.value.Holds secondMark := by
  obtain ⟨column, value⟩ := pair
  cases value with
  | clock type => exact id
  | given value =>
      cases value with
      | int n => exact id
      | string value =>
          intro inside
          have equals : '{' ∉ ['='] := by decide
          have opening : '{' ∉ [quoteMark] := by decide
          have quote : quoteMark ∉ secondMark := isMark_second.absent (by decide)
          have text : Text.replaceAll secondMark (' ' :: more) (column ++ '=' :: quoteMark ::
                (value ++ [quoteMark])) = column ++ (['='] ++ ([quoteMark] ++
              (Text.replaceAll secondMark (' ' :: more) value ++ [quoteMark]))) := by
            change Text.replaceAll secondMark (' ' :: more) (column ++ (['='] ++ ([quoteMark] ++
              (value ++ quoteMark :: [])))) = _
            rw [isMark_second.replaceAll_append (brace_notMem named.chars),
              isMark_second.replaceAll_append equals, isMark_second.replaceAll_append opening,
              Text.replaceAll_append_cons isMark_second.nonempty quote, Text.replaceAll_nil]
          have read' : lexFrom dialect .between (column ++ (['='] ++ ([quoteMark] ++
              (Text.replaceAll secondMark (' ' :: more) value ++ quoteMark :: rest)))) =
              some ([.name column] ++ ([.symbol '='] ++ (.literal value :: later))) := by
            rw [Pair.text, Value.text, FieldValue.text, text] at read
            simpa only [List.append_assoc, List.singleton_append, List.cons_append, List.nil_append,
              Pair.tokens, Value.tokens] using read
          obtain ⟨front, back, split, replaced⟩ :=
            Text.replaceAll_split isMark_second.nonempty inside
          have started : step dialect .between quoteMark = ([], .quoted []) := rfl
          rw [lex_pair_front named, List.singleton_append, lexFrom, started, replaced] at read'
          have begins : Begins (lexFrom dialect (.quoted []) (front ++ ' ' ::
              (more ++ (Text.replaceAll secondMark (' ' :: more) back ++ quoteMark :: rest))))
              ([] ++ (front ++ '{' :: (['%', '2', '}'] ++ back))) := by
            refine ⟨later, ?_⟩
            simpa [split, secondMark] using read'
          exact misread_of_blank (by decide) [] begins

/-- Assignments into which a condition was put are not read as their own. -/
theorem all_free_of_read {pairs : List Pair} (named : ∀ pair ∈ pairs, IsName pair.column)
    {more rest : List Char} {later : List Token}
    (read : lexFrom dialect .between ([','].intercalate (pairs.map fun pair =>
        Text.replaceAll secondMark (' ' :: more) pair.text) ++ rest) =
      some ([Token.symbol ','].intercalate (pairs.map Pair.tokens) ++ later)) :
    ∀ pair ∈ pairs, ¬ pair.value.Holds secondMark := by
  induction pairs with
  | nil => exact nofun
  | cons first pairs ih =>
      obtain ⟨one, others⟩ := List.forall_mem_cons.mp named
      cases pairs with
      | nil =>
          simp only [List.map_cons, List.map_nil, List.intercalate_singleton] at read
          exact List.forall_mem_singleton.mpr (free_of_read one read)
      | cons second pairs =>
          simp only [List.map_cons, List.intercalate_cons_cons, List.append_assoc] at read
          have comma : ∀ text, Breaks ([','] ++ text) := fun _ => breaks_cons break_comma _
          have free := free_of_read one read
          have pair : Reads dialect first.text first.tokens (first.value.Plain dialect) :=
            reads_pair one
          rw [replaceAll_pair isMark_second one free] at read
          have plain := pair.holds (comma _) read
          rw [pair.read plain (comma _), map_append_eq_some, lexFrom_append, scan_comma,
            map_append_eq_some] at read
          exact List.forall_mem_cons.mpr ⟨free, ih others read⟩

/-! ### How long the tokens are -/

theorem size_value (value : Value) : tokensSize value.tokens = value.text.length := by
  cases value with
  | given value =>
      cases value with
      | string value => simp [Value.tokens, Value.text, FieldValue.text, Token.size]
      | int n =>
          rw [Value.tokens, Value.text, FieldValue.text, itos, intTokens, tokensSize_append,
            List.length_append]
          split <;> simp [Token.size]
  | clock type => cases type <;> rfl

theorem size_pair (pair : Pair) : tokensSize pair.tokens = pair.text.length := by
  simp [Pair.tokens, Pair.text, Token.size, size_value]
  omega

theorem size_pairs (pairs : List Pair) :
    tokensSize ([Token.symbol ','].intercalate (pairs.map Pair.tokens)) =
      ([','].intercalate (pairs.map Pair.text)).length := by
  induction pairs with
  | nil => rfl
  | cons first pairs ih =>
      cases pairs with
      | nil => simp [size_pair]
      | cons second pairs =>
          simp only [List.map_cons, List.intercalate_cons_cons, tokensSize_append, size_pair,
            List.length_append] at ih ⊢
          rw [ih]
          rfl

/-- An update into whose assignments the condition was put does not say what it is to. -/
theorem update_free {assigned condition : List Pair}
    (named : ∀ pair ∈ assigned, IsName pair.column)
    (read : lexFrom dialect .between (Text.replaceAll secondMark (conditionText condition)
        ([','].intercalate (assigned.map Pair.text)) ++ ([' '] ++ conditionText condition)) =
      some (assignedTokens assigned condition)) :
    ∀ pair ∈ assigned, ¬ pair.value.Holds secondMark := by
  by_cases none : condition = []
  · -- the text has become shorter than the tokens
    subst none
    have size := size_lexFrom read
    intro pair member inside
    have stands := (isMark_second.infix_pairs named).mpr ⟨pair, member, inside⟩
    have less := (Text.length_replaceAll_nil isMark_second.nonempty).2 stands
    have four : secondMark.length = 4 := rfl
    rw [assignedTokens, tokensSize_append, size_pairs] at size
    simp only [conditionText, if_true, List.length_append, List.length_cons, List.length_nil,
      Mode.size] at size
    omega
  · obtain ⟨more, blank⟩ := conditionText_blank none
    have comma : ',' ∉ secondMark := isMark_second.absent (by decide)
    rw [blank, Text.replaceAll_intercalate isMark_second.nonempty comma, List.map_map] at read
    exact all_free_of_read named read

/-- The text of an update says the assignments and conditions exactly if each value is plain and the
second mark stands in none that is assigned. -/
theorem lex_update_iff {table : List Char} (named : IsName table) {assigned condition : List Pair}
    (names : ∀ pair ∈ assigned ++ condition, IsName pair.column) :
    lex dialect (updateText table (Text.replaceAll secondMark (conditionText condition)
        ([','].intercalate (assigned.map Pair.text))) (conditionText condition)) =
        some (Statement.update table assigned condition).tokens ↔
      (∀ pair ∈ assigned ++ condition, pair.value.Plain dialect) ∧
        ∀ pair ∈ assigned, ¬ pair.value.Holds secondMark := by
  have front := (List.forall_mem_append.mp names).1
  have whole : ∀ {assigned' : List Char},
      lex dialect (updateText table assigned' (conditionText condition)) =
          some (Statement.update table assigned condition).tokens ↔
        lexFrom dialect .between (assigned' ++ ([' '] ++ conditionText condition)) =
          some (assignedTokens assigned condition) := lex_update named _ _ _
  rw [whole]
  have reads : Reads dialect _ _ (∀ pair ∈ assigned ++ condition, pair.value.Plain dialect) :=
    reads_assigned names
  constructor
  · intro read
    have free := update_free front read
    rw [replaceAll_pairs isMark_second front free] at read
    exact ⟨reads.lex_iff.mp read, free⟩
  · rintro ⟨plain, free⟩
    rw [replaceAll_pairs isMark_second front free]
    exact reads.lex_iff.mpr plain

/-! ## The second text -/

/-- The first character of a name is not one of a mark. -/
theorem name_head {word : List Char} (named : IsName word) :
    ∃ h more, word = h :: more ∧ h ≠ '{' ∧ h ∉ ['%', '2', '}'] := by
  obtain ⟨nonempty, chars, -, digit⟩ := isName_iff.mp named
  obtain ⟨h, more, rfl⟩ := List.exists_cons_of_ne_nil nonempty
  have front := chars h List.mem_cons_self
  refine ⟨h, more, rfl, ?_, ?_⟩
  · rintro rfl
    exact absurd front (by decide)
  · intro inside
    simp only [List.mem_cons, List.not_mem_nil, or_false] at inside
    rcases inside with rfl | rfl | rfl
    · exact absurd front (by decide)
    · exact digit rfl
    · exact absurd front (by decide)

/-- What is written for a value does not begin with a brace. -/
theorem value_head (value : Value) : ∃ d more, value.text = d :: more ∧ d ≠ '{' := by
  obtain ⟨d, more, split⟩ := List.exists_cons_of_ne_nil value.text_ne_nil
  refine ⟨d, more, split, ?_⟩
  rintro rfl
  cases value with
  | given value =>
      cases value with
      | string value => exact absurd (List.cons.inj split).1 (by decide)
      | int n =>
          have inside : '{' ∈ itos n := by
            change itos n = '{' :: more at split
            rw [split]
            exact List.mem_cons_self
          rw [itos, List.mem_append] at inside
          rcases inside with sign | digit
          · split at sign <;> simp at sign
          · exact brace_notMem (digits_word _) digit
  | clock type => cases type <;> exact absurd (List.cons.inj split).1 (by decide)

/-- The marks are put in again: the text stays as it is exactly if there is no mark in it. -/
theorem replaced_twice_iff {text first second : List Char}
    (head : ∃ h more, first = h :: more ∧ h ≠ '{' ∧ h ∉ ['%', '2', '}'])
    (head' : secondMark <:+: text → ∃ d more, second = d :: more ∧ d ≠ '{') :
    Text.replaceAll secondMark second (Text.replaceAll firstMark first text) = text ↔
      ¬ firstMark <:+: text ∧ ¬ secondMark <:+: text := by
  obtain ⟨h, more, rfl, begins⟩ := head
  exact Text.replaceAll_twice_eq_iff (replaceAll_first_second (h :: more)) begins head'

theorem brace_notMem_names {names : List (List Char)} (named : ∀ name ∈ names, IsName name) :
    '{' ∉ [','].intercalate names := by
  have each : ∀ c ∈ [','].intercalate names, c ≠ '{' := by
    rw [forall_mem_intercalate (List.forall_mem_singleton.mpr (by decide))]
    intro name member c inside
    rintro rfl
    exact brace_notMem (named name member).chars inside
  exact fun inside => each '{' inside rfl

theorem IsMark.infix_insert (isMark : IsMark mark) {table fields : List Char}
    (plain_table : '{' ∉ table) (plain_fields : '{' ∉ fields) (values : List Char) :
    mark <:+: insertText table fields values ↔ mark <:+: values := by
  have into : '{' ∉ "insert into ".toList := by simp
  have bracket : '{' ∉ ['('] := by decide
  have between : '{' ∉ ") values(".toList := by simp
  have last : ");".toList = ')' :: [';'] := rfl
  have close : ')' ∉ mark := isMark.absent (by decide)
  have semicolon : '{' ∉ [';'] := by decide
  delta insertText
  rw [isMark.infix_append into, isMark.infix_append plain_table, isMark.infix_append bracket,
    isMark.infix_append plain_fields, isMark.infix_append between, last,
    Text.infix_append_cons close, or_iff_left (isMark.not_within semicolon)]

theorem IsMark.infix_update (isMark : IsMark mark) {table : List Char} (plain_table : '{' ∉ table)
    (assigned condition : List Char) :
    mark <:+: updateText table assigned condition ↔ mark <:+: assigned ∨ mark <:+: condition := by
  have verb : '{' ∉ "update ".toList := by simp
  have set : '{' ∉ " set ".toList := by simp
  have blank : ∀ c ∈ [' '], c ∉ mark := List.forall_mem_singleton.mpr (isMark.absent (by decide))
  delta updateText
  rw [isMark.infix_append verb, isMark.infix_append plain_table, isMark.infix_append set,
    Text.infix_append_separated (List.cons_ne_nil _ _) blank]

theorem IsMark.infix_delete (isMark : IsMark mark) {table : List Char} (plain_table : '{' ∉ table)
    (condition : List Char) :
    mark <:+: deleteText table condition ↔ mark <:+: condition := by
  have verb : '{' ∉ "delete from ".toList := by simp
  have blank : '{' ∉ [' '] := by decide
  delta deleteText
  rw [isMark.infix_append verb, isMark.infix_append plain_table, isMark.infix_append blank]

/-- The second text of an insert. -/
theorem second_insert {table : List Char} (named : IsName table) {added : List Pair}
    (names : ∀ pair ∈ added, IsName pair.column) (fields values : List Char)
    (isFields : fields = [','].intercalate (added.map Pair.column))
    (isValues : values = [','].intercalate (added.map fun pair => pair.value.text)) :
    Text.replaceAll secondMark values (Text.replaceAll firstMark fields
        (insertText table fields values)) = insertText table fields values ↔
      ∀ pair ∈ added, ¬ pair.value.Holds firstMark ∧ ¬ pair.value.Holds secondMark := by
  have plain_fields : '{' ∉ fields :=
    isFields ▸ brace_notMem_names (List.forall_mem_map.mpr names)
  have stands : ∀ {mark : List Char}, IsMark mark →
      (mark <:+: insertText table fields values ↔ ∃ pair ∈ added, pair.value.Holds mark) :=
    fun isMark => (isMark.infix_insert (brace_notMem named.chars) plain_fields values).trans
      (isValues ▸ isMark.infix_values added)
  cases added with
  | nil =>
      refine iff_of_true ?_ nofun
      rw [Text.replaceAll_of_absent (mt (stands isMark_first).mp (by simp)),
        Text.replaceAll_of_absent (mt (stands isMark_second).mp (by simp))]
  | cons first added =>
      obtain ⟨h, more, split, begins⟩ := name_head (names first List.mem_cons_self)
      have head : ∃ h more, fields = h :: more ∧ h ≠ '{' ∧ h ∉ ['%', '2', '}'] := by
        rw [isFields, List.map_cons, intercalate_cons_eq, split]
        exact ⟨h, _, rfl, begins⟩
      obtain ⟨d, more', split', differs⟩ := value_head first.value
      have head' : ∃ d more, values = d :: more ∧ d ≠ '{' := by
        rw [isValues, List.map_cons, intercalate_cons_eq, split']
        exact ⟨d, _, rfl, differs⟩
      rw [replaced_twice_iff head fun _ => head', stands isMark_first, stands isMark_second]
      simp only [not_exists, not_and, ← forall_and]

/-- The second text of an update in whose assignments the second mark does not stand. -/
theorem second_update {table : List Char} (named : IsName table) {assigned condition : List Pair}
    (some_assigned : assigned ≠ []) (names : ∀ pair ∈ assigned ++ condition, IsName pair.column)
    (free : ∀ pair ∈ assigned, ¬ pair.value.Holds secondMark) {first second : List Char}
    (isFirst : first = [','].intercalate (assigned.map Pair.text))
    (isSecond : second = conditionText condition) :
    Text.replaceAll secondMark second (Text.replaceAll firstMark first
        (updateText table first second)) = updateText table first second ↔
      ∀ pair ∈ assigned ++ condition,
        ¬ pair.value.Holds firstMark ∧ ¬ pair.value.Holds secondMark := by
  obtain ⟨front, back⟩ := List.forall_mem_append.mp names
  have stands : ∀ {mark : List Char}, IsMark mark →
      (mark <:+: updateText table first second ↔
        ∃ pair ∈ assigned ++ condition, pair.value.Holds mark) := by
    intro mark isMark
    rw [isMark.infix_update (brace_notMem named.chars), isFirst, isSecond,
      isMark.infix_pairs front, isMark.infix_condition back]
    simp only [List.mem_append, or_and_right, exists_or]
  obtain ⟨pair, assigned', rfl⟩ := List.exists_cons_of_ne_nil some_assigned
  obtain ⟨h, more, split, begins⟩ := name_head (front pair List.mem_cons_self)
  have head : ∃ h more, first = h :: more ∧ h ≠ '{' ∧ h ∉ ['%', '2', '}'] := by
    rw [isFirst, List.map_cons, intercalate_cons_eq, Pair.text, split]
    exact ⟨h, _, rfl, begins⟩
  have head' : secondMark <:+: updateText table first second →
      ∃ d more, second = d :: more ∧ d ≠ '{' := by
    intro inside
    obtain ⟨other, member, holds⟩ := (stands isMark_second).mp inside
    have some_condition : condition ≠ [] := by
      rintro rfl
      rw [List.append_nil] at member
      exact free other member holds
    obtain ⟨more, blank⟩ := conditionText_blank some_condition
    exact ⟨' ', more, isSecond.trans blank, by decide⟩
  rw [replaced_twice_iff head head', stands isMark_first, stands isMark_second]
  simp only [not_exists, not_and, ← forall_and]

/-- The second text of a delete. -/
theorem second_delete {table : List Char} (named : IsName table) {condition : List Pair}
    (names : ∀ pair ∈ condition, IsName pair.column) :
    Text.replaceAll firstMark (conditionText condition)
        (deleteText table (conditionText condition)) = deleteText table (conditionText condition) ↔
      ∀ pair ∈ condition, ¬ pair.value.Holds firstMark := by
  have stands : firstMark <:+: deleteText table (conditionText condition) ↔
      ∃ pair ∈ condition, pair.value.Holds firstMark :=
    (isMark_first.infix_delete (brace_notMem named.chars) _).trans
      (isMark_first.infix_condition names)
  by_cases none : condition = []
  · refine iff_of_true (Text.replaceAll_of_absent (mt stands.mp ?_)) ?_
    · simp [none]
    · simp [none]
  · obtain ⟨more, blank⟩ := conditionText_blank none
    have same : ∀ text, Text.replaceAll firstMark (' ' :: more) text = text ↔
        ¬ firstMark <:+: text := fun text => Text.replaceAll_eq_self_iff (by decide)
    rw [← blank] at same
    rw [same, stands]
    simp only [not_exists, not_and]

/-! ## When the text is right -/

theorem isName_of_mem {calls : List Call} (names : ∀ call ∈ calls, IsName call.fieldname)
    {part : Call → List Pair}
    (columns : ∀ call, ∀ pair ∈ part call, pair.column = call.fieldname) :
    ∀ pair ∈ calls.flatMap part, IsName pair.column := by
  intro pair member
  obtain ⟨call, inside, said⟩ := List.mem_flatMap.mp member
  rw [columns call pair said]
  exact names call inside

theorem column_added (call : Call) : ∀ pair ∈ call.added, pair.column = call.fieldname := by
  cases call <;> simp [Call.added, Call.fieldname]

theorem column_updated (call : Call) : ∀ pair ∈ call.updated, pair.column = call.fieldname := by
  cases call <;> simp [Call.updated, Call.fieldname]

theorem column_conditioned (call : Call) :
    ∀ pair ∈ call.conditioned, pair.column = call.fieldname := by
  cases call <;> simp [Call.conditioned, Call.fieldname]

theorem isName_fields {calls : List Call} (names : ∀ call ∈ calls, IsName call.fieldname) :
    ∀ field ∈ calls.flatMap Call.fields, IsName field := by
  intro field member
  obtain ⟨call, inside, said⟩ := List.mem_flatMap.mp member
  have same : field = call.fieldname := by
    cases call <;> simp_all [Call.fields, Call.fieldname]
  exact same ▸ names call inside

theorem length_fields (calls : List Call) :
    (calls.flatMap Call.added).length ≤ (calls.flatMap Call.fields).length := by
  induction calls with
  | nil => exact Nat.le_refl 0
  | cons call calls ih =>
      have one : call.added.length ≤ call.fields.length := by
        cases call <;> simp [Call.added, Call.fields]
      simp only [List.flatMap_cons, List.length_append]
      omega

/-- The fields are the columns of what was added exactly if no time was put into an update. -/
theorem fields_eq_iff (calls : List Call) :
    calls.flatMap Call.fields = (calls.flatMap Call.added).map Pair.column ↔
      ∀ call ∈ calls, ∀ fieldname type, call ≠ .updateFieldDateTime fieldname type := by
  induction calls with
  | nil => simp
  | cons call calls ih =>
      rw [List.forall_mem_cons, ← ih, List.flatMap_cons, List.flatMap_cons, List.map_append]
      cases call with
      | updateFieldDateTime fieldname type =>
          refine iff_of_false (fun same => ?_) fun both => both.1 fieldname type rfl
          have size := congrArg List.length same
          have less := length_fields calls
          simp only [Call.fields, Call.added, List.length_append, List.length_map, List.length_cons,
            List.length_nil, List.map_nil] at size
          omega
      | addField | updateField | conditionField | addFieldDateTime =>
          simp [Call.fields, Call.added]

/-- The two texts of an insert. -/
theorem insert_right_iff {table : List Char} (named : IsName table) {fields : List (List Char)}
    (names : ∀ field ∈ fields, IsName field) {added : List Pair}
    (columns : ∀ pair ∈ added, IsName pair.column) {values : List Char}
    (isValues : values = [','].intercalate (added.map fun pair => pair.value.text)) :
    (lex dialect (insertText table ([','].intercalate fields) values) =
        some (Statement.insert table added).tokens ∧
      Text.replaceAll secondMark values (Text.replaceAll firstMark ([','].intercalate fields)
          (insertText table ([','].intercalate fields) values)) =
        insertText table ([','].intercalate fields) values) ↔
      fields = added.map Pair.column ∧ ∀ pair ∈ added, pair.value.Plain dialect ∧
        ¬ pair.value.Holds firstMark ∧ ¬ pair.value.Holds secondMark := by
  have lexed : lex dialect (insertText table ([','].intercalate fields) values) =
      some (Statement.insert table added).tokens ↔ _ := isValues ▸ lex_insert named names added
  rw [lexed, and_assoc]
  refine and_congr_right fun same => ?_
  rw [second_insert named columns _ _ (congrArg _ same) isValues]
  exact forall₂_and.symm

/-- The two texts of an update. -/
theorem update_right_iff {table : List Char} (named : IsName table) {assigned condition : List Pair}
    (names : ∀ pair ∈ assigned ++ condition, IsName pair.column) (some_assigned : assigned ≠ [])
    {first second : List Char} (isFirst : first = [','].intercalate (assigned.map Pair.text))
    (isSecond : second = conditionText condition) :
    (lex dialect (updateText table (Text.replaceAll secondMark second first) second) =
        some (Statement.update table assigned condition).tokens ∧
      Text.replaceAll secondMark second (Text.replaceAll firstMark first
          (updateText table (Text.replaceAll secondMark second first) second)) =
        updateText table (Text.replaceAll secondMark second first) second) ↔
      ∀ pair ∈ assigned ++ condition, pair.value.Plain dialect ∧
        ¬ pair.value.Holds firstMark ∧ ¬ pair.value.Holds secondMark := by
  have lexed : lex dialect (updateText table (Text.replaceAll secondMark second first) second) =
      some (Statement.update table assigned condition).tokens ↔ _ :=
    isFirst ▸ isSecond ▸ lex_update_iff named names
  rw [lexed, forall₂_and, and_assoc]
  refine and_congr_right fun _ => ?_
  have front := (List.forall_mem_append.mp names).1
  have kept : (∀ pair ∈ assigned, ¬ pair.value.Holds secondMark) →
      Text.replaceAll secondMark second first = first :=
    fun free => isFirst ▸ replaceAll_pairs isMark_second front free second
  constructor
  · rintro ⟨free, same⟩
    rw [kept free] at same
    exact (second_update named some_assigned names free isFirst isSecond).mp same
  · intro each
    have free : ∀ pair ∈ assigned, ¬ pair.value.Holds secondMark := fun pair member =>
      (each pair (List.mem_append_left _ member)).2
    rw [kept free]
    exact ⟨free, (second_update named some_assigned names free isFirst isSecond).mpr each⟩

/-- The two texts of a delete. -/
theorem delete_right_iff {table : List Char} (named : IsName table) {condition : List Pair}
    (names : ∀ pair ∈ condition, IsName pair.column) :
    (lex dialect (deleteText table (conditionText condition)) =
        some (Statement.delete table condition).tokens ∧
      Text.replaceAll firstMark (conditionText condition)
          (deleteText table (conditionText condition)) =
        deleteText table (conditionText condition)) ↔
      ∀ pair ∈ condition, pair.value.Plain dialect ∧ ¬ pair.value.Holds firstMark := by
  rw [lex_delete named names, second_delete named names, forall₂_and]

/-! ### The texts of `sql` -/

theorem sql_delete {table : List Char} (plain_table : '{' ∉ table)
    (field value condition update : List Char) :
    let maker : SqlMaker :=
      ⟨.mtdelete, SqlMaker.template table .mtdelete, field, value, condition, update⟩
    maker.sql.1 = deleteText table condition ∧
      maker.sql.2.sql.1 = Text.replaceAll firstMark condition (deleteText table condition) := by
  intro maker
  have first : maker.sql.1 = deleteText table condition := replaced_delete plain_table condition
  exact ⟨first, congrArg (Text.replaceAll firstMark condition) first⟩

theorem sql_insert {table field : List Char} (plain_table : '{' ∉ table) (plain_field : '{' ∉ field)
    (value condition update : List Char) :
    let maker : SqlMaker :=
      ⟨.mtinsert, SqlMaker.template table .mtinsert, field, value, condition, update⟩
    maker.sql.1 = insertText table field value ∧
      maker.sql.2.sql.1 = Text.replaceAll secondMark value
        (Text.replaceAll firstMark field (insertText table field value)) := by
  intro maker
  have first : maker.sql.1 = insertText table field value :=
    replaced_insert plain_table plain_field value
  exact ⟨first, congrArg (fun text => Text.replaceAll secondMark value
    (Text.replaceAll firstMark field text)) first⟩

theorem sql_update {table : List Char} (plain_table : '{' ∉ table)
    (field value condition update : List Char) :
    let maker : SqlMaker :=
      ⟨.mtupdate, SqlMaker.template table .mtupdate, field, value, condition, update⟩
    maker.sql.1 = updateText table (Text.replaceAll secondMark condition update) condition ∧
      maker.sql.2.sql.1 = Text.replaceAll secondMark condition (Text.replaceAll firstMark update
        (updateText table (Text.replaceAll secondMark condition update) condition)) := by
  intro maker
  have first : maker.sql.1 =
      updateText table (Text.replaceAll secondMark condition update) condition :=
    replaced_update plain_table update condition
  exact ⟨first, congrArg (fun text => Text.replaceAll secondMark condition
    (Text.replaceAll firstMark update text)) first⟩

/-- The text of `sql` is the statement that the calls say, and the second text is the same, exactly
if the values are plain and have no marks in them, no time was put into the update of an insert, and
an update assigns something. -/
theorem sql_right_iff {table : List Char} (named : IsName table) {calls : List Call}
    (names : ∀ call ∈ calls, IsName call.fieldname) (type : MakerType) :
    Right dialect table calls type ↔ Good dialect calls type := by
  obtain ⟨⟨field, value, update, conditions, _⟩, isType, isSql⟩ :=
    collected_after names table type
  have added := isName_of_mem names column_added
  have updated := isName_of_mem names column_updated
  have conditioned := isName_of_mem names column_conditioned
  have fields := isName_fields names
  have plain_table := brace_notMem named.chars
  rw [Right]
  generalize SqlMaker.after table type calls = maker at *
  obtain ⟨mMaketype, mSql, mField, mValue, mCondition, mUpdate⟩ := maker
  dsimp only at field value update conditions isType isSql
  subst isType isSql
  cases mMaketype with
  | mtselect => exact iff_of_false (fun ⟨_, select, _⟩ => nomatch select) id
  | mtdelete =>
      obtain ⟨first, second⟩ := sql_delete plain_table mField mValue mCondition mUpdate
      rw [first, second, conditions]
      simp only [intended, Option.some.injEq, exists_eq_left', Statement.WellFormed, true_and]
      exact delete_right_iff named conditioned
  | mtinsert =>
      obtain ⟨first, second⟩ := sql_insert plain_table (field ▸ brace_notMem_names fields) mValue
        mCondition mUpdate
      rw [first, second, field]
      simp only [intended, Option.some.injEq, exists_eq_left', Statement.WellFormed, true_and]
      rw [insert_right_iff named fields added value, fields_eq_iff]
      exact Iff.rfl
  | mtupdate =>
      obtain ⟨first, second⟩ := sql_update plain_table mField mValue mCondition mUpdate
      rw [first, second]
      simp only [intended, Option.some.injEq, exists_eq_left', Statement.WellFormed]
      exact and_congr_right fun some_assigned => update_right_iff named
        (List.forall_mem_append.mpr ⟨updated, conditioned⟩) some_assigned update conditions

/-- An insert of a text and of a negative number. -/
theorem sql_right_two : Right ⟨true⟩ ['t'] [.addField ['a'] (.string ['x']),
    .addField ['b'] (.int (-5))] .mtinsert := by
  have names : ∀ call ∈ [Call.addField ['a'] (.string ['x']), .addField ['b'] (.int (-5))],
      IsName call.fieldname := by
    simp only [List.forall_mem_cons, Call.fieldname]
    exact ⟨by decide, by decide, List.forall_mem_nil _⟩
  refine (sql_right_iff (by decide) names .mtinsert).mpr ⟨by simp, ?_⟩
  simp only [List.flatMap_cons, List.flatMap_nil, Call.added, List.append_nil,
    List.singleton_append, List.forall_mem_cons]
  have unmarked : '{' ∉ ['x'] := by decide
  exact ⟨⟨rfl, isMark_first.not_within unmarked, isMark_second.not_within unmarked⟩,
    ⟨trivial, id, id⟩, List.forall_mem_nil _⟩

/-- A condition whose value has quotes: `delete from t  where a='' or '1'='1'`. -/
theorem sql_not_right_quotes : ¬ Right ⟨true⟩ ['t']
    [.conditionField ['a'] (.string (quoteMark :: " or '1'='1".toList))] .mtdelete := by
  rintro ⟨statement, said, -, read, -⟩
  obtain rfl := Option.some.inj said
  have text : (SqlMaker.after ['t'] .mtdelete
      [.conditionField ['a'] (.string (quoteMark :: " or '1'='1".toList))]).sql.1 =
        deleteText ['t'] (conditionText
          [⟨['a'], .given (.string (quoteMark :: " or '1'='1".toList))⟩]) :=
    replaced_delete (by decide) _
  rw [text] at read
  have named : ∀ pair ∈ [Pair.mk ['a'] (.given (.string (quoteMark :: " or '1'='1".toList)))],
      IsName pair.column := List.forall_mem_singleton.mpr (by decide)
  have isPlain : plain ⟨true⟩ (quoteMark :: " or '1'='1".toList) = true :=
    (lex_delete (by decide) named).mp read _ (List.mem_singleton_self _)
  exact absurd isPlain (by decide)

end Cube.Alpha
