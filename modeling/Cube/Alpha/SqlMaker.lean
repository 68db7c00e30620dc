import Cube.Lib.SqlPiece
import Cube.Lib.Text

/-! # Statements that are put together by calls

`sqlmaker` collects fields, values, updates and conditions as texts, and puts them into a statement
in the place of two marks.
-/

namespace Cube.Alpha

open SqlText

/-! ## The code -/

/-- `comm::itos`. -/
def itos (n : Int32) : List Char :=
  (if n.toInt < 0 then ['-'] else []) ++ Nat.toDigits 10 n.toInt.natAbs

/-- `sqlmaker::makertype`. -/
inductive MakerType where
  | mtinsert
  | mtupdate
  | mtselect
  | mtdelete

/-- `sqlmaker::datetimetype`. -/
inductive DateTimeType where
  | datetime
  | date
  | time

/-- The function of the time that is now. -/
def DateTimeType.function : DateTimeType → List Char
  | datetime => "now".toList
  | date => "curdate".toList
  | time => "curtime".toList

/-- A value for which the calls that take a field are overloaded. -/
inductive FieldValue where
  | string (value : List Char)
  | int (value : Int32)

/-- A value as it is written. -/
def FieldValue.text : FieldValue → List Char
  | string value => quoteMark :: (value ++ [quoteMark])
  | int value => itos value

/-- A call of a function without arguments. -/
def DateTimeType.text (type : DateTimeType) : List Char := type.function ++ ['(', ')']

/-- The mark `{%1}`. -/
def firstMark : List Char := ['{', '%', '1', '}']

/-- The mark `{%2}`. -/
def secondMark : List Char := ['{', '%', '2', '}']

/-- `sqlmaker`. -/
structure SqlMaker where
  mMaketype : MakerType
  mSql : List Char
  mField : List Char
  mValue : List Char
  mCondition : List Char
  mUpdate : List Char

/-- `append_element`. -/
def appendElement (current append : List Char) : List Char :=
  if current = [] then current ++ append else current ++ ',' :: append

/-- `make_sqlcondition`. -/
def makeSqlcondition (current append : List Char) : List Char :=
  if current = [] then " where ".toList ++ append else current ++ (" and ".toList ++ append)

/-- The text of an insert, with what stands for its marks. -/
def insertText (tablename fields values : List Char) : List Char :=
  "insert into ".toList ++ (tablename ++ (['('] ++ (fields ++ (") values(".toList ++
    (values ++ ");".toList)))))

/-- The text of an update, with what stands for its marks. -/
def updateText (tablename assigned condition : List Char) : List Char :=
  "update ".toList ++ (tablename ++ (" set ".toList ++ (assigned ++ ([' '] ++ condition))))

/-- The text of a delete, with what stands for its mark. -/
def deleteText (tablename condition : List Char) : List Char :=
  "delete from ".toList ++ (tablename ++ ([' '] ++ condition))

namespace SqlMaker

/-- The text of a statement with its marks. -/
def template (tablename : List Char) : MakerType → List Char
  | .mtinsert => insertText tablename firstMark secondMark
  | .mtupdate => updateText tablename firstMark secondMark
  | .mtselect => []
  | .mtdelete => deleteText tablename firstMark

/-- The constructor. -/
def new (tablename : List Char) (maketype : MakerType) : SqlMaker where
  mMaketype := maketype
  mSql := template tablename maketype
  mField := []
  mValue := []
  mCondition := []
  mUpdate := []

/-- `sql`: its text, and what becomes of the object. -/
def sql (maker : SqlMaker) : List Char × SqlMaker :=
  let mSql := match maker.mMaketype with
    | .mtinsert => Text.replaceAll secondMark maker.mValue
        (Text.replaceAll firstMark maker.mField maker.mSql)
    | .mtupdate => Text.replaceAll secondMark maker.mCondition
        (Text.replaceAll firstMark maker.mUpdate maker.mSql)
    | .mtdelete => Text.replaceAll firstMark maker.mCondition maker.mSql
    | .mtselect => maker.mSql
  (mSql, { maker with mSql })

/-- `add_field`. -/
def addField (maker : SqlMaker) (fieldname : List Char) (value : FieldValue) : SqlMaker :=
  { maker with
    mField := appendElement maker.mField fieldname
    mValue := appendElement maker.mValue value.text }

/-- `update_field`. -/
def updateField (maker : SqlMaker) (fieldname : List Char) (value : FieldValue) : SqlMaker :=
  { maker with mUpdate := appendElement maker.mUpdate (fieldname ++ '=' :: value.text) }

/-- `condition_field`. -/
def conditionField (maker : SqlMaker) (fieldname : List Char) (value : FieldValue) : SqlMaker :=
  { maker with mCondition := makeSqlcondition maker.mCondition (fieldname ++ '=' :: value.text) }

/-- `add_field_date_time`. -/
def addFieldDateTime (maker : SqlMaker) (fieldname : List Char) (type : DateTimeType) : SqlMaker :=
  { maker with
    mField := appendElement maker.mField fieldname
    mValue := appendElement maker.mValue type.text }

/-- `update_field_date_time`. The name goes to the fields of an insert, too. -/
def updateFieldDateTime (maker : SqlMaker) (fieldname : List Char) (type : DateTimeType) :
    SqlMaker :=
  { maker with
    mField := appendElement maker.mField fieldname
    mUpdate := appendElement maker.mUpdate (fieldname ++ '=' :: type.text) }

end SqlMaker

/-- A call of the object before its text is taken. -/
inductive Call where
  | addField (fieldname : List Char) (value : FieldValue)
  | updateField (fieldname : List Char) (value : FieldValue)
  | conditionField (fieldname : List Char) (value : FieldValue)
  | addFieldDateTime (fieldname : List Char) (type : DateTimeType)
  | updateFieldDateTime (fieldname : List Char) (type : DateTimeType)

def SqlMaker.apply (maker : SqlMaker) : Call → SqlMaker
  | .addField fieldname value => maker.addField fieldname value
  | .updateField fieldname value => maker.updateField fieldname value
  | .conditionField fieldname value => maker.conditionField fieldname value
  | .addFieldDateTime fieldname type => maker.addFieldDateTime fieldname type
  | .updateFieldDateTime fieldname type => maker.updateFieldDateTime fieldname type

def Call.fieldname : Call → List Char
  | addField fieldname _ => fieldname
  | updateField fieldname _ => fieldname
  | conditionField fieldname _ => fieldname
  | addFieldDateTime fieldname _ => fieldname
  | updateFieldDateTime fieldname _ => fieldname

/-! ## What the calls say -/

/-- What stands for a column: a value, or the time that is now. -/
inductive Value where
  | given (value : FieldValue)
  | clock (type : DateTimeType)

def Value.text : Value → List Char
  | given value => value.text
  | clock type => type.text

/-- The tokens of an integer: a sign and a number. -/
def intTokens (n : Int32) : List Token :=
  (if n.toInt < 0 then [.symbol '-'] else []) ++ [.number (Nat.toDigits 10 n.toInt.natAbs)]

def Value.tokens : Value → List Token
  | given (.string value) => [.literal value]
  | given (.int value) => intTokens value
  | clock type => [.name type.function, .symbol '(', .symbol ')']

/-- A column with what stands for it. -/
structure Pair where
  column : List Char
  value : Value

def Pair.text (pair : Pair) : List Char := pair.column ++ '=' :: pair.value.text

def Pair.tokens (pair : Pair) : List Token :=
  [.name pair.column] ++ ([.symbol '='] ++ pair.value.tokens)

inductive Statement where
  | insert (table : List Char) (values : List Pair)
  | update (table : List Char) (assigned condition : List Pair)
  | delete (table : List Char) (condition : List Pair)

/-- The conditions in one `where` clause; without conditions there is none. -/
def conditionTokens (condition : List Pair) : List Token :=
  if condition = [] then []
  else [keyword "where"] ++ [keyword "and"].intercalate (condition.map Pair.tokens)

namespace Statement

def tokens : Statement → List Token
  | insert table values =>
      [keyword "insert", keyword "into"] ++ ([.name table] ++ ([.symbol '('] ++
        ([Token.symbol ','].intercalate (values.map fun pair => [.name pair.column]) ++
          ([.symbol ')', keyword "values", .symbol '('] ++
            ([Token.symbol ','].intercalate (values.map fun pair => pair.value.tokens) ++
              [.symbol ')', .symbol ';'])))))
  | update table assigned condition =>
      [keyword "update"] ++ ([.name table] ++ ([keyword "set"] ++
        ([Token.symbol ','].intercalate (assigned.map Pair.tokens) ++ conditionTokens condition)))
  | delete table condition =>
      [keyword "delete", keyword "from"] ++ ([.name table] ++ conditionTokens condition)

/-- An update assigns something. -/
def WellFormed : Statement → Prop
  | update _ assigned _ => assigned ≠ []
  | _ => True

end Statement

namespace Call

/-- What a call adds to an insert. -/
def added : Call → List Pair
  | addField fieldname value => [⟨fieldname, .given value⟩]
  | addFieldDateTime fieldname type => [⟨fieldname, .clock type⟩]
  | _ => []

/-- What a call adds to the assignments of an update. -/
def updated : Call → List Pair
  | updateField fieldname value => [⟨fieldname, .given value⟩]
  | updateFieldDateTime fieldname type => [⟨fieldname, .clock type⟩]
  | _ => []

/-- What a call adds to the condition. -/
def conditioned : Call → List Pair
  | conditionField fieldname value => [⟨fieldname, .given value⟩]
  | _ => []

end Call

/-- The statement that the calls say. -/
def intended (table : List Char) (calls : List Call) : MakerType → Option Statement
  | .mtinsert => some (.insert table (calls.flatMap Call.added))
  | .mtupdate => some (.update table (calls.flatMap Call.updated) (calls.flatMap Call.conditioned))
  | .mtselect => none
  | .mtdelete => some (.delete table (calls.flatMap Call.conditioned))

/-- The object after some calls. -/
def SqlMaker.after (table : List Char) (type : MakerType) (calls : List Call) : SqlMaker :=
  calls.foldl SqlMaker.apply (.new table type)

/-- The text is the statement that the calls say, and the second text is the same. -/
def Right (dialect : Dialect) (table : List Char) (calls : List Call) (type : MakerType) : Prop :=
  ∃ statement, intended table calls type = some statement ∧ statement.WellFormed ∧
    lex dialect (SqlMaker.after table type calls).sql.1 = some statement.tokens ∧
    (SqlMaker.after table type calls).sql.2.sql.1 = (SqlMaker.after table type calls).sql.1

/-- A value that is plain if it is a literal. -/
def Value.Plain (dialect : Dialect) : Value → Prop
  | given (.string value) => plain dialect value = true
  | _ => True

/-- A mark stands in a value. -/
def Value.Holds (mark : List Char) : Value → Prop
  | given (.string value) => mark <:+: value
  | _ => False

/-- The values for which the text is right. -/
def Good (dialect : Dialect) (calls : List Call) : MakerType → Prop
  | .mtinsert => (∀ call ∈ calls, ∀ fieldname type, call ≠ .updateFieldDateTime fieldname type) ∧
      ∀ pair ∈ calls.flatMap Call.added, pair.value.Plain dialect ∧
        ¬ pair.value.Holds firstMark ∧ ¬ pair.value.Holds secondMark
  | .mtupdate => calls.flatMap Call.updated ≠ [] ∧
      ∀ pair ∈ calls.flatMap Call.updated ++ calls.flatMap Call.conditioned,
        pair.value.Plain dialect ∧ ¬ pair.value.Holds firstMark ∧ ¬ pair.value.Holds secondMark
  | .mtselect => False
  | .mtdelete => ∀ pair ∈ calls.flatMap Call.conditioned,
      pair.value.Plain dialect ∧ ¬ pair.value.Holds firstMark

/-! ## What the calls collect -/

/-- The names that a call adds to the fields. -/
def Call.fields : Call → List (List Char)
  | addField fieldname _ => [fieldname]
  | addFieldDateTime fieldname _ => [fieldname]
  | updateFieldDateTime fieldname _ => [fieldname]
  | _ => []

/-- The conditions as a text. -/
def conditionText (condition : List Pair) : List Char :=
  if condition = [] then []
  else " where ".toList ++ " and ".toList.intercalate (condition.map Pair.text)

theorem appendElement_intercalate {texts : List (List Char)} (nonempty : ∀ text ∈ texts, text ≠ [])
    (append : List Char) :
    appendElement ([','].intercalate texts) append = [','].intercalate (texts ++ [append]) := by
  cases texts with
  | nil => simp [appendElement]
  | cons first texts =>
      have some : [','].intercalate (first :: texts) ≠ [] := by
        rw [intercalate_cons_eq]
        exact fun none => nonempty first List.mem_cons_self (List.append_eq_nil_iff.mp none).1
      rw [appendElement, if_neg some, intercalate_cons_eq, List.cons_append, intercalate_cons_eq,
        List.flatMap_append, List.flatMap_singleton, List.append_assoc]
      rfl

theorem appendElement_texts {pairs : List Pair} {text : Pair → List Char}
    (nonempty : ∀ pair, text pair ≠ []) (pair : Pair) :
    appendElement ([','].intercalate (pairs.map text)) (text pair) =
      [','].intercalate ((pairs ++ [pair]).map text) := by
  rw [appendElement_intercalate (List.forall_mem_map.mpr fun pair _ => nonempty pair),
    List.map_append, List.map_singleton]

theorem makeSqlcondition_text (condition : List Pair) (pair : Pair) :
    makeSqlcondition (conditionText condition) pair.text = conditionText (condition ++ [pair]) := by
  cases condition with
  | nil => simp [makeSqlcondition, conditionText]
  | cons first condition =>
      have some : conditionText (first :: condition) ≠ [] := by simp [conditionText]
      rw [makeSqlcondition, if_neg some, conditionText, conditionText,
        if_neg (List.cons_ne_nil _ _), if_neg (by simp), List.cons_append, List.map_cons,
        List.map_cons, List.map_append, intercalate_cons_eq, intercalate_cons_eq,
        List.flatMap_append]
      simp only [List.map_cons, List.map_nil, List.flatMap_singleton, List.append_assoc]

/-- The texts of the object are those of what was added, updated and asked for. -/
structure Collected (maker : SqlMaker) (fields : List (List Char))
    (added updated condition : List Pair) : Prop where
  field : maker.mField = [','].intercalate fields
  value : maker.mValue = [','].intercalate (added.map fun pair => pair.value.text)
  update : maker.mUpdate = [','].intercalate (updated.map Pair.text)
  conditions : maker.mCondition = conditionText condition
  named : ∀ field ∈ fields, field ≠ []

theorem Value.text_ne_nil (value : Value) : value.text ≠ [] := by
  cases value with
  | given value =>
      cases value with
      | string value => exact List.cons_ne_nil _ _
      | int n => simp [Value.text, FieldValue.text, itos]
  | clock type => simp [Value.text, DateTimeType.text]

theorem Pair.text_ne_nil (pair : Pair) : pair.text ≠ [] := by simp [Pair.text]

/-- One call adds what it says to the texts. -/
theorem Collected.apply {maker : SqlMaker} {fields : List (List Char)}
    {added updated condition : List Pair}
    (collected : Collected maker fields added updated condition)
    {call : Call} (named : IsName call.fieldname) :
    Collected (maker.apply call) (fields ++ call.fields) (added ++ call.added)
      (updated ++ call.updated) (condition ++ call.conditioned) := by
  obtain ⟨field, value, update, conditions, nonempty⟩ := collected
  have name := named.nonempty
  have fields_next : ∀ fieldname, appendElement maker.mField fieldname =
      [','].intercalate (fields ++ [fieldname]) := fun fieldname =>
    field ▸ appendElement_intercalate nonempty fieldname
  have values_next : ∀ pair : Pair, appendElement maker.mValue pair.value.text =
      [','].intercalate ((added ++ [pair]).map fun pair => pair.value.text) :=
    value ▸ appendElement_texts fun pair => pair.value.text_ne_nil
  have updates_next : ∀ pair : Pair, appendElement maker.mUpdate pair.text =
      [','].intercalate ((updated ++ [pair]).map Pair.text) :=
    update ▸ appendElement_texts Pair.text_ne_nil
  have nonempty_next : ∀ field ∈ fields ++ [call.fieldname], field ≠ [] := by
    rw [List.forall_mem_append, List.forall_mem_singleton]
    exact ⟨nonempty, name⟩
  cases call with
  | addField fieldname given =>
      have next : Collected (maker.addField fieldname given) (fields ++ [fieldname])
          (added ++ [⟨fieldname, .given given⟩]) updated condition :=
        ⟨fields_next fieldname, values_next ⟨fieldname, .given given⟩, update, conditions,
          nonempty_next⟩
      simpa only [SqlMaker.apply, Call.fields, Call.added, Call.updated, Call.conditioned,
        List.append_nil] using next
  | updateField fieldname given =>
      have next : Collected (maker.updateField fieldname given) fields added
          (updated ++ [⟨fieldname, .given given⟩]) condition :=
        ⟨field, value, updates_next ⟨fieldname, .given given⟩, conditions, nonempty⟩
      simpa only [SqlMaker.apply, Call.fields, Call.added, Call.updated, Call.conditioned,
        List.append_nil] using next
  | conditionField fieldname given =>
      have asked : makeSqlcondition maker.mCondition (fieldname ++ '=' :: given.text) =
          conditionText (condition ++ [⟨fieldname, .given given⟩]) :=
        conditions ▸ makeSqlcondition_text condition ⟨fieldname, .given given⟩
      have next : Collected (maker.conditionField fieldname given) fields added updated
          (condition ++ [⟨fieldname, .given given⟩]) :=
        ⟨field, value, update, asked, nonempty⟩
      simpa only [SqlMaker.apply, Call.fields, Call.added, Call.updated, Call.conditioned,
        List.append_nil] using next
  | addFieldDateTime fieldname type =>
      have next : Collected (maker.addFieldDateTime fieldname type) (fields ++ [fieldname])
          (added ++ [⟨fieldname, .clock type⟩]) updated condition :=
        ⟨fields_next fieldname, values_next ⟨fieldname, .clock type⟩, update, conditions,
          nonempty_next⟩
      simpa only [SqlMaker.apply, Call.fields, Call.added, Call.updated, Call.conditioned,
        List.append_nil] using next
  | updateFieldDateTime fieldname type =>
      have next : Collected (maker.updateFieldDateTime fieldname type) (fields ++ [fieldname]) added
          (updated ++ [⟨fieldname, .clock type⟩]) condition :=
        ⟨fields_next fieldname, value, updates_next ⟨fieldname, .clock type⟩, conditions,
          nonempty_next⟩
      simpa only [SqlMaker.apply, Call.fields, Call.added, Call.updated, Call.conditioned,
        List.append_nil] using next

/-- The calls add what they say, and the statement with its marks stays. -/
theorem collected_after {calls : List Call} (named : ∀ call ∈ calls, IsName call.fieldname)
    (table : List Char) (type : MakerType) :
    Collected (.after table type calls) (calls.flatMap Call.fields) (calls.flatMap Call.added)
        (calls.flatMap Call.updated) (calls.flatMap Call.conditioned) ∧
      (SqlMaker.after table type calls).mMaketype = type ∧
      (SqlMaker.after table type calls).mSql = SqlMaker.template table type := by
  have run : ∀ {maker : SqlMaker} {fields : List (List Char)} {added updated condition : List Pair},
      Collected maker fields added updated condition →
      Collected (calls.foldl SqlMaker.apply maker) (fields ++ calls.flatMap Call.fields)
          (added ++ calls.flatMap Call.added) (updated ++ calls.flatMap Call.updated)
          (condition ++ calls.flatMap Call.conditioned) ∧
        (calls.foldl SqlMaker.apply maker).mMaketype = maker.mMaketype ∧
        (calls.foldl SqlMaker.apply maker).mSql = maker.mSql := by
    induction calls with
    | nil =>
        intro maker fields added updated condition collected
        simpa using collected
    | cons call calls ih =>
        intro maker fields added updated condition collected
        obtain ⟨one, others⟩ := List.forall_mem_cons.mp named
        obtain ⟨behind, type, text⟩ := ih others (collected.apply one)
        have kept : (maker.apply call).mMaketype = maker.mMaketype ∧
            (maker.apply call).mSql = maker.mSql := by
          cases call <;> exact ⟨rfl, rfl⟩
        simp only [List.flatMap_cons, ← List.append_assoc]
        exact ⟨behind, type.trans kept.1, text.trans kept.2⟩
  have start : Collected (.new table type) [] [] [] [] := ⟨rfl, rfl, rfl, rfl, nofun⟩
  exact run start

/-! ## Where marks stand -/

/-- One of the two marks. -/
def IsMark (mark : List Char) : Prop := mark = firstMark ∨ mark = secondMark

theorem isMark_first : IsMark firstMark := Or.inl rfl

theorem isMark_second : IsMark secondMark := Or.inr rfl

variable {mark : List Char}

theorem IsMark.nonempty (isMark : IsMark mark) : mark ≠ [] := by
  rcases isMark with rfl | rfl <;> exact List.cons_ne_nil _ _

theorem IsMark.head (isMark : IsMark mark) : ∃ more, mark = '{' :: more := by
  rcases isMark with rfl | rfl
  · exact ⟨_, rfl⟩
  · exact ⟨_, rfl⟩

theorem IsMark.absent (isMark : IsMark mark) {c : Char}
    (other : c ≠ '{' ∧ c ≠ '%' ∧ c ≠ '1' ∧ c ≠ '2' ∧ c ≠ '}') : c ∉ mark := by
  rcases isMark with rfl | rfl <;> simp [firstMark, secondMark, other]

/-- A text without a brace has no mark. -/
theorem IsMark.not_within (isMark : IsMark mark) {text : List Char} (none : '{' ∉ text) :
    ¬ mark <:+: text := by
  intro inside
  have brace : '{' ∈ mark := by
    rcases isMark with rfl | rfl <;> exact List.mem_cons_self
  exact none (inside.subset brace)

theorem brace_notMem {word : List Char} (chars : ∀ c ∈ word, isWordChar c = true) :
    '{' ∉ word := fun inside => absurd (chars '{' inside) (by decide)

theorem digits_isDigit (n : Nat) : ∀ c ∈ Nat.toDigits 10 n, c.isDigit = true := fun _ inside =>
  Nat.isDigit_of_mem_toDigits (by decide) (by decide) inside

theorem digits_word (n : Nat) : ∀ c ∈ Nat.toDigits 10 n, isWordChar c = true := by
  intro c inside
  simp [isWordChar, Char.isAlphanum, digits_isDigit n c inside]

theorem brace_notMem_clock (type : DateTimeType) : '{' ∉ type.text := by
  have function : '{' ∉ type.function := by
    delta DateTimeType.function
    cases type <;> simp
  rw [DateTimeType.text, List.mem_append, not_or]
  exact ⟨function, by decide⟩

/-- A mark stands in what is written for a value exactly if it stands in the value. -/
theorem IsMark.infix_text (isMark : IsMark mark) (value : Value) :
    mark <:+: value.text ↔ value.Holds mark := by
  cases value with
  | given value =>
      cases value with
      | string value =>
          have quote : quoteMark ∉ mark := isMark.absent (by decide)
          have ends : value ++ [quoteMark] = value ++ quoteMark :: [] := rfl
          rw [Value.text, FieldValue.text, ← List.nil_append (quoteMark :: _),
            Text.infix_append_cons quote, ends, Text.infix_append_cons quote]
          simp [isMark.nonempty, Value.Holds]
      | int n =>
          refine iff_of_false (isMark.not_within ?_) id
          rw [Value.text, FieldValue.text, itos, List.mem_append, not_or]
          refine ⟨?_, brace_notMem (digits_word _)⟩
          split <;> simp
  | clock type => exact iff_of_false (isMark.not_within (brace_notMem_clock type)) id

theorem IsMark.infix_pair (isMark : IsMark mark) {pair : Pair} (named : IsName pair.column) :
    mark <:+: pair.text ↔ pair.value.Holds mark := by
  have equals : '=' ∉ mark := isMark.absent (by decide)
  rw [Pair.text, Text.infix_append_cons equals, isMark.infix_text,
    or_iff_right (isMark.not_within (brace_notMem named.chars))]

theorem IsMark.absent_comma (isMark : IsMark mark) : ∀ c ∈ [','], c ∉ mark :=
  List.forall_mem_singleton.mpr (isMark.absent (by decide))

theorem IsMark.infix_pairs (isMark : IsMark mark) {pairs : List Pair}
    (named : ∀ pair ∈ pairs, IsName pair.column) :
    mark <:+: [','].intercalate (pairs.map Pair.text) ↔ ∃ pair ∈ pairs, pair.value.Holds mark := by
  rw [Text.infix_intercalate isMark.nonempty (List.cons_ne_nil _ _) isMark.absent_comma]
  simp only [List.mem_map, exists_exists_and_eq_and]
  exact exists_congr fun pair => and_congr_right fun member => isMark.infix_pair (named pair member)

theorem IsMark.infix_values (isMark : IsMark mark) (pairs : List Pair) :
    mark <:+: [','].intercalate (pairs.map fun pair => pair.value.text) ↔
      ∃ pair ∈ pairs, pair.value.Holds mark := by
  rw [Text.infix_intercalate isMark.nonempty (List.cons_ne_nil _ _) isMark.absent_comma]
  simp only [List.mem_map, exists_exists_and_eq_and, isMark.infix_text]

theorem IsMark.infix_condition (isMark : IsMark mark) {condition : List Pair}
    (named : ∀ pair ∈ condition, IsName pair.column) :
    mark <:+: conditionText condition ↔ ∃ pair ∈ condition, pair.value.Holds mark := by
  rw [conditionText]
  split
  · rename_i none
    simp [none, isMark.nonempty]
  · have where_letters : ∀ c ∈ " where ".toList,
        c ≠ '{' ∧ c ≠ '%' ∧ c ≠ '1' ∧ c ≠ '2' ∧ c ≠ '}' := by simp
    have and_letters : ∀ c ∈ " and ".toList,
        c ≠ '{' ∧ c ≠ '%' ∧ c ≠ '1' ∧ c ≠ '2' ∧ c ≠ '}' := by simp
    have begins : ∀ c ∈ " where ".toList, c ∉ mark := fun c inside =>
      isMark.absent (where_letters c inside)
    have between : ∀ c ∈ " and ".toList, c ∉ mark := fun c inside =>
      isMark.absent (and_letters c inside)
    rw [← List.nil_append (" where ".toList ++ _), Text.infix_append_separated (by simp) begins,
      List.infix_nil, or_iff_right isMark.nonempty,
      Text.infix_intercalate isMark.nonempty (by simp) between]
    simp only [List.mem_map, exists_exists_and_eq_and]
    exact exists_congr fun pair => and_congr_right fun member =>
      isMark.infix_pair (named pair member)

/-- A mark begins with a brace. -/
theorem IsMark.not_prefix (isMark : IsMark mark) {c : Char} (other : c ≠ '{') (text : List Char) :
    ¬ mark <+: c :: text := by
  obtain ⟨more, rfl⟩ := isMark.head
  exact fun stands => other (List.cons_prefix_cons.mp stands).1.symm

/-- A mark does not begin in a text without a brace. -/
theorem IsMark.infix_append (isMark : IsMark mark) {front : List Char} (none : '{' ∉ front)
    (back : List Char) : mark <:+: front ++ back ↔ mark <:+: back := by
  induction front with
  | nil => rfl
  | cons c front ih =>
      rw [List.mem_cons, not_or] at none
      have other := isMark.not_prefix (Ne.symm none.1) (front ++ back)
      rw [List.cons_append, List.infix_cons_iff, or_iff_right other, ih none.2]

/-! ## The texts -/

/-- Text without a brace stays as it is. -/
theorem IsMark.replaceAll_append (isMark : IsMark mark) {front : List Char} (none : '{' ∉ front)
    (value back : List Char) :
    Text.replaceAll mark value (front ++ back) = front ++ Text.replaceAll mark value back := by
  induction front with
  | nil => rfl
  | cons c front ih =>
      rw [List.mem_cons, not_or] at none
      have other := isMark.not_prefix (Ne.symm none.1) (front ++ back)
      rw [List.cons_append, Text.replaceAll_cons other, ih none.2, List.cons_append]

/-- The second mark is not the first. -/
theorem replaceAll_first_second (value text : List Char) :
    Text.replaceAll firstMark value (secondMark ++ text) =
      secondMark ++ Text.replaceAll firstMark value text := by
  have brace : ¬ firstMark <+: secondMark ++ text := by
    simp [firstMark, secondMark, List.cons_prefix_cons]
  have others : '{' ∉ ['%', '2', '}'] := by simp
  have behind := isMark_first.replaceAll_append others value text
  exact (Text.replaceAll_cons brace).trans (congrArg ('{' :: ·) behind)

theorem replaceAll_mark (isMark : IsMark mark) (value text : List Char) :
    Text.replaceAll mark value (mark ++ text) = value ++ Text.replaceAll mark value text :=
  Text.replaceAll_key isMark.nonempty text

theorem replaceAll_mark_self (isMark : IsMark mark) (value : List Char) :
    Text.replaceAll mark value mark = value := by
  have whole := replaceAll_mark isMark value []
  rwa [Text.replaceAll_nil, List.append_nil, List.append_nil] at whole

theorem replaced_insert {table fields : List Char} (plain_table : '{' ∉ table)
    (plain_fields : '{' ∉ fields) (values : List Char) :
    Text.replaceAll secondMark values
        (Text.replaceAll firstMark fields (insertText table firstMark secondMark)) =
      insertText table fields values := by
  have into : '{' ∉ "insert into ".toList := by simp
  have bracket : '{' ∉ ['('] := by decide
  have between : '{' ∉ ") values(".toList := by simp
  have last : '{' ∉ ");".toList := by simp
  have first : Text.replaceAll firstMark fields (insertText table firstMark secondMark) =
      insertText table fields secondMark := by
    delta insertText
    rw [isMark_first.replaceAll_append into, isMark_first.replaceAll_append plain_table,
      isMark_first.replaceAll_append bracket, replaceAll_mark isMark_first,
      isMark_first.replaceAll_append between, replaceAll_first_second,
      Text.replaceAll_of_absent (isMark_first.not_within last)]
  rw [first]
  delta insertText
  rw [isMark_second.replaceAll_append into, isMark_second.replaceAll_append plain_table,
    isMark_second.replaceAll_append bracket, isMark_second.replaceAll_append plain_fields,
    isMark_second.replaceAll_append between, replaceAll_mark isMark_second,
    Text.replaceAll_of_absent (isMark_second.not_within last)]

/-- The condition is put in for the second mark in the assignments, too. -/
theorem replaced_update {table : List Char} (plain_table : '{' ∉ table)
    (assigned condition : List Char) :
    Text.replaceAll secondMark condition
        (Text.replaceAll firstMark assigned (updateText table firstMark secondMark)) =
      updateText table (Text.replaceAll secondMark condition assigned) condition := by
  have verb : '{' ∉ "update ".toList := by simp
  have set : '{' ∉ " set ".toList := by simp
  have blank : '{' ∉ [' '] := by decide
  have second_end : ∀ value, Text.replaceAll firstMark value secondMark = secondMark := by
    intro value
    have whole := replaceAll_first_second value []
    rwa [Text.replaceAll_nil, List.append_nil] at whole
  have first : Text.replaceAll firstMark assigned (updateText table firstMark secondMark) =
      updateText table assigned secondMark := by
    delta updateText
    rw [isMark_first.replaceAll_append verb, isMark_first.replaceAll_append plain_table,
      isMark_first.replaceAll_append set, replaceAll_mark isMark_first,
      isMark_first.replaceAll_append blank, second_end]
  have absent : ' ' ∉ secondMark := isMark_second.absent (by decide)
  rw [first]
  delta updateText
  rw [isMark_second.replaceAll_append verb, isMark_second.replaceAll_append plain_table,
    isMark_second.replaceAll_append set, List.singleton_append,
    Text.replaceAll_append_cons isMark_second.nonempty absent,
    replaceAll_mark_self isMark_second, List.singleton_append]

theorem replaced_delete {table : List Char} (plain_table : '{' ∉ table) (condition : List Char) :
    Text.replaceAll firstMark condition (deleteText table firstMark) =
      deleteText table condition := by
  have verb : '{' ∉ "delete from ".toList := by simp
  have blank : '{' ∉ [' '] := by decide
  delta deleteText
  rw [isMark_first.replaceAll_append verb, isMark_first.replaceAll_append plain_table,
    isMark_first.replaceAll_append blank, replaceAll_mark_self isMark_first]

end Cube.Alpha
