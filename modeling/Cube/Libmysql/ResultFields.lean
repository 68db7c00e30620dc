import Mathlib.Data.List.Forall2
import Mathlib.Data.List.Nodup
import Mathlib.Data.List.ReduceOption
import Mathlib.Tactic.Common
import Cube.Lib.Assoc
import Cube.Lib.Outcome
import Cube.Lib.Run

/-! # The fields of a result set

Reading a record of `db_mysql_conn`: the map from column names to column numbers, and the accessors
by number and by name. The map is keyed by pointers to characters, compared by the texts they point
to, so the texts are kept in a memory that callers change between two calls.
-/

namespace Cube.Libmysql

/-- The characters of a C string. -/
abbrev Chars := List UInt8

abbrev Pointer := Nat

/-- The C strings, by their addresses. -/
abbrev Memory := Pointer → Option Chars

/-- `string_hash`. -/
def stringHash (str : Chars) : UInt64 :=
  (str.foldl (fun (hash : UInt64) c =>
    hash ^^^ ((hash <<< 5) + c.toInt8.toInt64.toUInt64 + (hash >>> 2))) (1315423911 : UInt64)) &&&
      0x7FFFFFFF

/-- An entry of `map_fields_`, with the hash that the map keeps of its key. -/
structure Entry where
  key : Pointer
  hash : UInt64
  index : Int
  deriving DecidableEq

/-- A result as the server library stores it: for each column its name and where that stands,
unless it has none, and the rows. -/
structure StoredResult where
  fields : List (Option (Pointer × Chars))
  rows : List (List (Option Chars))
  apart : (fields.reduceOption.map Prod.fst).Nodup
  whole : ∀ row ∈ rows, row.length = fields.length

/-- The columns that have a name. -/
def StoredResult.named (result : StoredResult) : List (Pointer × Chars) :=
  result.fields.reduceOption

/-- The members of `db_mysql_conn` that reading a record uses, the rows that are not fetched yet and
the memory. -/
structure Reader where
  memory : Memory
  result : Option StoredResult
  rest : List (List (Option Chars))
  row : Option (List (Option Chars))
  mapFields : List Entry
  numCols : Nat

/-! ## The map -/

/-- `map_fields_[name]` as a value: 0 for a name without an entry. -/
def value (memory : Memory) (name : Chars) : List Entry → Outcome Empty Int
  | [] => .ok 0
  | entry :: entries =>
      if entry.hash = stringHash name then
        match memory entry.key with
        | none => .fault
        | some text => if text = name then .ok entry.index else value memory name entries
      else value memory name entries

/-- `map_fields_[name]` as a place: the index of the entry is changed by `change`, and a name
without an entry gets one, with the index 0 to start from. -/
def update (change : Int → Int) (memory : Memory) (key : Pointer) (name : Chars) :
    List Entry → Outcome Empty (List Entry)
  | [] => .ok [⟨key, stringHash name, change 0⟩]
  | entry :: entries =>
      if entry.hash = stringHash name then
        match memory entry.key with
        | none => .fault
        | some text =>
            if text = name then .ok ({ entry with index := change entry.index } :: entries)
            else do return entry :: (← update change memory key name entries)
      else do return entry :: (← update change memory key name entries)

/-- The loop of `query` over the columns of a result. -/
def mapNames (memory : Memory) : List (Option (Pointer × Chars)) → Int → List Entry →
    Outcome Empty (List Entry)
  | [], _, entries => .ok entries
  | none :: fields, i, entries => mapNames memory fields (i + 1) entries
  | some (pointer, name) :: fields, i, entries => do
      mapNames memory fields (i + 1) (← update (fun _ => i) memory pointer name entries)

/-- The loop of `get_fields` over the map. -/
def vfields (memory : Memory) : List Entry → Outcome Empty (List Chars)
  | [] => .ok []
  | entry :: entries =>
      match memory entry.key with
      | none => .fault
      | some text => do return text :: (← vfields memory entries)

namespace Reader

/-! ## Queries -/

/-- What a query comes to. -/
inductive Queried where
  | failed
  | noResult
  | result (result : StoredResult)

/-- `free_result`. -/
def freeResult (reader : Reader) : Reader :=
  match reader.result with
  | some result =>
      { memory := fun pointer =>
          if pointer ∈ result.named.map Prod.fst then none else reader.memory pointer
        result := none
        rest := []
        row := none
        mapFields := []
        numCols := 0 }
  | none => { reader with numCols := 0 }

/-- The memory with the names of a stored result. -/
def store (memory : Memory) (result : StoredResult) : Memory :=
  fun pointer => (result.named.lookup pointer).or (memory pointer)

/-- `query`. -/
def query (reader : Reader) (queried : Queried) : Outcome Empty Reader :=
  let reader := reader.freeResult
  match queried with
  | .failed => .ok reader
  | .noResult => .ok reader
  | .result result => do
      let memory := store reader.memory result
      let mapFields ← mapNames memory result.fields 1 reader.mapFields
      return { reader with
        memory := memory
        result := some result
        rest := result.rows
        mapFields := mapFields
        numCols := result.fields.length }

/-- `fetch_row`. -/
def fetchRow (reader : Reader) : Reader :=
  match reader.result with
  | none => reader
  | some _ => { reader with row := reader.rest.head?, rest := reader.rest.tail }

/-- `get_fields`. -/
def getFields (reader : Reader) : Outcome Empty (List Chars) :=
  vfields reader.memory reader.mapFields

/-! ## Accessors -/

/-- The conversions of the C library, to numbers of type `δ` and to integers. -/
structure Conversions (δ : Type) where
  zero : δ
  atof : Chars → δ
  atol : Chars → Int
  atoll : Chars → Int

inductive Accessor where
  | isNull
  | getString
  | getDouble
  | getLong
  | getInt64
  deriving DecidableEq

/-- The answer of an accessor. -/
inductive Answer (δ : Type) where
  | truth (value : Bool)
  | text (value : Chars)
  | double (value : δ)
  | integer (value : Int)

/-- `mysql_null_string`. -/
def mysqlNullString : Chars := []

variable {δ : Type} (library : Conversions δ) (os32 : Bool)

/-- The answer for a name that the map does not have. -/
def Accessor.null : Accessor → Answer δ
  | .isNull => .truth true
  | .getString => .text mysqlNullString
  | .getDouble => .double library.zero
  | .getLong => .integer 0
  | .getInt64 => .integer 0

/-- The answer for a value of the row, or for none. -/
def Accessor.answer : Accessor → Option Chars → Answer δ
  | .isNull, cell => .truth (if cell.isSome then false else true)
  | .getString, cell => .text (cell.getD mysqlNullString)
  | .getDouble, cell => .double ((cell.map library.atof).getD library.zero)
  | .getLong, cell => .integer ((cell.map library.atol).getD 0)
  | .getInt64, cell => .integer ((cell.map (if os32 then library.atoll else library.atol)).getD 0)

/-- `row_[id]`, where there are a result and a row. -/
def cell (reader : Reader) (id : Nat) : Option Chars :=
  match reader.result, reader.row with
  | some _, some row => (row[id]?).join
  | _, _ => none

/-- An accessor by the number of a column. -/
def byIndex (reader : Reader) (accessor : Accessor) (id : Nat) : Answer δ :=
  accessor.answer library os32 (reader.cell id)

/-- An accessor by the name that a pointer points to. -/
def byName (reader : Reader) (accessor : Accessor) (fieldName : Pointer) :
    Outcome Empty (Answer δ × Reader) :=
  match reader.memory fieldName with
  | none => .fault
  | some name => do
      let index ← value reader.memory name reader.mapFields
      let mapFields ← update id reader.memory fieldName name reader.mapFields
      let answer := if 0 ≤ index - 1 then reader.byIndex library os32 accessor (index - 1).toNat
        else accessor.null library
      return (answer, { reader with mapFields := mapFields })

/-! ## Runs -/

/-- A call, or what becomes of the memory between two calls. The names of a stored result stay. -/
inductive Input where
  | query (queried : Queried)
  | fetchRow
  | byName (accessor : Accessor) (fieldName : Pointer)
  | buffers (memory : Memory)

/-- The state after a call. Nothing is said about a connection behind an undefined access. -/
def step (reader : Reader) : Input → Reader
  | .query queried =>
      match reader.query queried with
      | .ok next => next
      | _ => reader
  | .fetchRow => reader.fetchRow
  | .byName accessor fieldName =>
      match reader.byName library os32 accessor fieldName with
      | .ok (_, next) => next
      | _ => reader
  | .buffers memory => { reader with
      memory := fun pointer =>
        if pointer ∈ (reader.result.elim [] StoredResult.named).map Prod.fst
          then reader.memory pointer else memory pointer }

/-- A new connection. -/
def initial (memory : Memory) : Reader := ⟨memory, none, [], none, [], 0⟩

/-- The columns of the last query. -/
def fields (reader : Reader) : List (Option (Pointer × Chars)) :=
  reader.result.elim [] StoredResult.fields

/-- The column names of the last query. -/
def columnNames (reader : Reader) : List Chars := reader.fields.reduceOption.map Prod.snd

/-- Reading shows the last query: its column names, by name what stands in the column of that name,
and the null answer for any other name. -/
structure Faithful (reader : Reader) : Prop where
  names : ∃ names, reader.getFields = .ok names ∧ names.Perm reader.columnNames
  known : ∀ (accessor : Accessor) (fieldName : Pointer) (name : Chars) (place : Pointer) (id : Nat),
    reader.memory fieldName = some name → reader.fields[id]? = some (some (place, name)) →
      ∃ next, reader.byName library os32 accessor fieldName =
        .ok (reader.byIndex library os32 accessor id, next)
  unknown : ∀ (accessor : Accessor) (fieldName : Pointer) (name : Chars),
    reader.memory fieldName = some name → name ∉ reader.columnNames →
      ∃ next, reader.byName library os32 accessor fieldName = .ok (accessor.null library, next)

/-- The columns have different names, and only names of columns are looked up. -/
def Good (reader : Reader) : Input → Prop
  | .query (.result result) => (result.named.map Prod.snd).Nodup
  | .byName _ fieldName => ∀ name, reader.memory fieldName = some name → name ∈ reader.columnNames
  | _ => True

end Reader

/-! ## What the map holds -/

/-- The entries stand for some texts: their keys point to them, and their hashes were taken of
them. -/
def Holds (memory : Memory) (entries : List Entry) (texts : List Chars) : Prop :=
  List.Forall₂ (fun entry text => memory entry.key = some text ∧ entry.hash = stringHash text)
    entries texts

/-- The entries of columns that are numbered from `i` on. -/
def entriesOf : List (Option (Pointer × Chars)) → Int → List Entry
  | [], _ => []
  | none :: fields, i => entriesOf fields (i + 1)
  | some (pointer, name) :: fields, i =>
      ⟨pointer, stringHash name, i⟩ :: entriesOf fields (i + 1)

/-- The names of the columns stand where they should. -/
def Stored (memory : Memory) (fields : List (Option (Pointer × Chars))) : Prop :=
  ∀ pointer name, (pointer, name) ∈ fields.reduceOption → memory pointer = some name

section Map

variable {memory : Memory} {entries : List Entry} {texts : List Chars} {name : Chars}
  {fields : List (Option (Pointer × Chars))}

theorem Stored.tail {field : Option (Pointer × Chars)} (stored : Stored memory (field :: fields)) :
    Stored memory fields := by
  intro pointer name member
  apply stored
  cases field with
  | none => exact member
  | some field => exact List.mem_cons_of_mem _ member

theorem holds_entriesOf (stored : Stored memory fields) (i : Int) :
    Holds memory (entriesOf fields i) (fields.reduceOption.map Prod.snd) := by
  induction fields generalizing i with
  | nil => exact .nil
  | cons field fields ih =>
      cases field with
      | none => exact ih stored.tail (i + 1)
      | some field =>
          obtain ⟨pointer, name⟩ := field
          exact .cons ⟨stored pointer name List.mem_cons_self, rfl⟩ (ih stored.tail (i + 1))

/-- An update keeps the texts of the entries, and a text without an entry is added. -/
theorem Holds.update (holds : Holds memory entries texts) {pointer : Pointer}
    (points : memory pointer = some name) (change : Int → Int) :
    ∃ updated, Libmysql.update change memory pointer name entries = .ok updated ∧
      Holds memory updated (if name ∈ texts then texts else texts ++ [name]) := by
  induction holds with
  | nil => exact ⟨_, rfl, .cons ⟨points, rfl⟩ .nil⟩
  | @cons entry text entries texts head rest ih =>
      obtain ⟨updated, result, later⟩ := ih
      rw [Libmysql.update]
      by_cases same : text = name
      · subst same
        rw [if_pos head.2, head.1]
        refine ⟨_, if_pos rfl, ?_⟩
        rw [if_pos List.mem_cons_self]
        exact .cons head rest
      · have next : (if name ∈ text :: texts then text :: texts else text :: texts ++ [name]) =
            text :: (if name ∈ texts then texts else texts ++ [name]) := by
          by_cases inside : name ∈ texts
          · simp [inside]
          · simp [inside, Ne.symm same]
        rw [head.1, result, next]
        refine ⟨entry :: updated, ?_, .cons head later⟩
        simp [same]

/-- A name without an entry gets one behind the others. -/
theorem Holds.update_fresh (holds : Holds memory entries texts) (fresh : name ∉ texts)
    (pointer : Pointer) (change : Int → Int) :
    Libmysql.update change memory pointer name entries =
      .ok (entries ++ [⟨pointer, stringHash name, change 0⟩]) := by
  induction holds with
  | nil => rfl
  | @cons entry text entries texts head rest ih =>
      have differs : text ≠ name := fun same => fresh (same ▸ List.mem_cons_self)
      rw [Libmysql.update, head.1, ih fun member => fresh (List.mem_cons_of_mem _ member)]
      simp [differs]

/-- A name without an entry has the value 0. -/
theorem Holds.value_fresh (holds : Holds memory entries texts) (fresh : name ∉ texts) :
    value memory name entries = .ok 0 := by
  induction holds with
  | nil => rfl
  | @cons entry text entries texts head rest ih =>
      have differs : text ≠ name := fun same => fresh (same ▸ List.mem_cons_self)
      rw [value, head.1, ih fun member => fresh (List.mem_cons_of_mem _ member)]
      simp [differs]

/-- An update that changes no index changes no entry, where the name has one. -/
theorem Holds.update_id (holds : Holds memory entries texts) (known : name ∈ texts)
    (pointer : Pointer) : Libmysql.update id memory pointer name entries = .ok entries := by
  induction holds with
  | nil => simp at known
  | @cons entry text entries texts head rest ih =>
      rw [Libmysql.update, head.1]
      by_cases same : text = name
      · subst same
        rw [if_pos head.2]
        exact if_pos rfl
      · rw [ih ((List.mem_cons.mp known).resolve_left (Ne.symm same))]
        simp [same]

/-- The texts of the entries are read. -/
theorem Holds.vfields_eq (holds : Holds memory entries texts) :
    vfields memory entries = .ok texts := by
  induction holds with
  | nil => rfl
  | @cons entry text entries texts head rest ih =>
      rw [vfields, head.1, ih]
      rfl

/-- The name of a column has the number of the column, where the names are different. -/
theorem value_entriesOf (stored : Stored memory fields)
    (distinct : (fields.reduceOption.map Prod.snd).Nodup) {id : Nat} {place : Pointer}
    (found : fields[id]? = some (some (place, name))) (i : Int) :
    value memory name (entriesOf fields i) = .ok (i + id) := by
  induction fields generalizing i id with
  | nil => simp at found
  | cons field fields ih =>
      cases id with
      | zero =>
          obtain rfl : field = some (place, name) := by simpa using found
          rw [entriesOf, value, stored place name List.mem_cons_self]
          simp
      | succ id =>
          have later : fields[id]? = some (some (place, name)) := by simpa using found
          cases field with
          | none =>
              rw [entriesOf, ih stored.tail distinct later]
              congr 1
              omega
          | some field =>
              obtain ⟨pointer, text⟩ := field
              obtain ⟨fresh, rest⟩ := List.nodup_cons.mp distinct
              have inside : name ∈ fields.reduceOption.map Prod.snd :=
                List.mem_map.mpr ⟨(place, name),
                  List.reduceOption_mem_iff.mpr (List.mem_of_getElem? later), rfl⟩
              have differs : text ≠ name := fun same => fresh (same ▸ inside)
              rw [entriesOf, value, stored pointer text List.mem_cons_self,
                ih stored.tail rest later]
              simp only [differs, ↓reduceIte]
              split <;> (congr 1; omega)

/-- The loop over columns with new and different names adds their entries. -/
theorem mapNames_fresh (stored : Stored memory fields) (holds : Holds memory entries texts)
    (distinct : (texts ++ fields.reduceOption.map Prod.snd).Nodup) (i : Int) :
    mapNames memory fields i entries = .ok (entries ++ entriesOf fields i) := by
  induction fields generalizing entries texts i with
  | nil => simp [mapNames, entriesOf]
  | cons field fields ih =>
      cases field with
      | none => exact ih stored.tail holds distinct (i + 1)
      | some field =>
          obtain ⟨pointer, name⟩ := field
          have fresh : name ∉ texts := fun member =>
            (List.nodup_append.mp distinct).2.2 name member name List.mem_cons_self rfl
          have added :
              Holds memory (entries ++ [⟨pointer, stringHash name, i⟩]) (texts ++ [name]) :=
            List.rel_append holds (.cons ⟨stored pointer name List.mem_cons_self, rfl⟩ .nil)
          have order : texts ++ (some (pointer, name) :: fields).reduceOption.map Prod.snd =
              texts ++ [name] ++ fields.reduceOption.map Prod.snd := by
            rw [List.reduceOption_cons_of_some, List.map_cons, List.append_assoc]
            rfl
          rw [mapNames, holds.update_fresh fresh, Outcome.ok_bind,
            ih stored.tail added (order ▸ distinct), entriesOf, List.append_assoc]
          rfl

/-- The loop over columns leaves entries for different texts. -/
theorem mapNames_distinct (stored : Stored memory fields) (holds : Holds memory entries texts)
    (distinct : texts.Nodup) (i : Int) :
    ∃ mapped all, mapNames memory fields i entries = .ok mapped ∧ Holds memory mapped all ∧
      all.Nodup := by
  induction fields generalizing entries texts i with
  | nil => exact ⟨entries, texts, rfl, holds, distinct⟩
  | cons field fields ih =>
      cases field with
      | none => exact ih stored.tail holds distinct (i + 1)
      | some field =>
          obtain ⟨pointer, name⟩ := field
          obtain ⟨updated, result, later⟩ :=
            holds.update (stored pointer name List.mem_cons_self) fun _ => i
          rw [mapNames, result, Outcome.ok_bind]
          refine ih stored.tail later ?_ (i + 1)
          split
          · exact distinct
          · next fresh =>
              exact List.nodup_append.mpr ⟨distinct, List.nodup_singleton _,
                fun text member other single same =>
                  fresh (List.mem_singleton.mp single ▸ same ▸ member)⟩

end Map

/-! ## Runs -/

namespace Reader

variable {δ : Type} {library : Conversions δ} {os32 : Bool} {reader : Reader}

/-- The map has the columns of the last query and nothing else. -/
structure Mapped (reader : Reader) : Prop where
  entries : reader.mapFields = entriesOf reader.fields 1
  stored : Stored reader.memory reader.fields
  distinct : reader.columnNames.Nodup

theorem Mapped.holds (mapped : Mapped reader) :
    Holds reader.memory reader.mapFields reader.columnNames :=
  mapped.entries ▸ holds_entriesOf mapped.stored 1

/-- Looking up a column's name by an accessor leaves the map as it is. -/
theorem Mapped.byName_known (mapped : Mapped reader) (accessor : Accessor) {fieldName : Pointer}
    {name : Chars} (points : reader.memory fieldName = some name) {id : Nat} {place : Pointer}
    (found : reader.fields[id]? = some (some (place, name))) :
    reader.byName library os32 accessor fieldName =
      .ok (reader.byIndex library os32 accessor id, reader) := by
  have known : name ∈ reader.columnNames :=
    List.mem_map.mpr ⟨(place, name),
      List.reduceOption_mem_iff.mpr (List.mem_of_getElem? found), rfl⟩
  have number := value_entriesOf mapped.stored mapped.distinct found 1
  have nonnegative : (0 : Int) ≤ 1 + id - 1 := by omega
  have column : ((1 : Int) + id - 1).toNat = id := by omega
  rw [byName, points]
  simp only [mapped.entries, number, Outcome.ok_bind, nonnegative, ↓reduceIte, column]
  rw [← mapped.entries, mapped.holds.update_id known fieldName]
  rfl

/-- Looking up any other name gives the null answer and adds an entry for it. -/
theorem Mapped.byName_unknown (mapped : Mapped reader) (accessor : Accessor) {fieldName : Pointer}
    {name : Chars} (points : reader.memory fieldName = some name)
    (fresh : name ∉ reader.columnNames) :
    reader.byName library os32 accessor fieldName = .ok (accessor.null library, { reader with
      mapFields := reader.mapFields ++ [⟨fieldName, stringHash name, 0⟩] }) := by
  rw [byName, points]
  simp only [mapped.holds.value_fresh fresh, mapped.holds.update_fresh fresh, Outcome.ok_bind]
  rfl

theorem Mapped.faithful (mapped : Mapped reader) : Faithful library os32 reader where
  names := ⟨_, mapped.holds.vfields_eq, .refl _⟩
  known accessor _ _ _ _ points found := ⟨reader, mapped.byName_known accessor points found⟩
  unknown accessor _ _ points fresh := ⟨_, mapped.byName_unknown accessor points fresh⟩

theorem mapped_initial (memory : Memory) : Mapped (initial memory) where
  entries := rfl
  stored := nofun
  distinct := List.nodup_nil

/-- Behind `free_result` the map is empty, whatever the last query was. -/
theorem Mapped.freeResult (mapped : Mapped reader) :
    reader.freeResult.mapFields = [] ∧ reader.freeResult.result = none := by
  cases stored : reader.result with
  | some result => simp [Reader.freeResult, stored]
  | none =>
      have entries := mapped.entries
      simp only [fields, stored, Option.elim_none, entriesOf] at entries
      simp [Reader.freeResult, stored, entries]

/-- The names of a stored result stand where it put them. -/
theorem stored_store (memory : Memory) (result : StoredResult) :
    Stored (store memory result) result.fields := by
  intro pointer name member
  have found : result.named.lookup pointer = some name :=
    Assoc.lookup_of_mem result.apart member
  simp only [store, found, Option.some_or]

/-- A query with a result maps the names of its columns from an empty map on. -/
theorem Mapped.step_result (mapped : Mapped reader) {result : StoredResult} {entries : List Entry}
    (all : mapNames (store reader.freeResult.memory result) result.fields 1 [] = .ok entries) :
    reader.step library os32 (.query (.result result)) = { reader.freeResult with
      memory := store reader.freeResult.memory result
      result := some result
      rest := result.rows
      mapFields := entries
      numCols := result.fields.length } := by
  simp only [Reader.step, query, mapped.freeResult.1, all, Outcome.ok_bind, Outcome.pure_eq]

/-- A column name stands in some column. -/
theorem exists_column {name : Chars} (known : name ∈ reader.columnNames) :
    ∃ (id : Nat) (place : Pointer), reader.fields[id]? = some (some (place, name)) := by
  obtain ⟨⟨place, text⟩, member, rfl⟩ := List.mem_map.mp known
  obtain ⟨id, found⟩ := List.mem_iff_getElem?.mp (List.reduceOption_mem_iff.mp member)
  exact ⟨id, place, found⟩

/-- A good step keeps the map to the columns of the last query. -/
theorem Mapped.step (mapped : Mapped reader) {input : Input} (good : Good reader input) :
    Mapped (reader.step library os32 input) := by
  obtain ⟨empty, gone⟩ := mapped.freeResult
  cases input with
  | query queried =>
      cases queried with
      | failed | noResult =>
          refine ⟨?_, ?_, ?_⟩ <;>
            simp [Reader.step, query, fields, columnNames, empty, gone, entriesOf, Stored]
      | result result =>
          have stored := stored_store reader.freeResult.memory result
          have all := mapNames_fresh stored .nil (List.nil_append _ ▸ good) 1
          rw [List.nil_append] at all
          rw [mapped.step_result all]
          exact ⟨rfl, stored, good⟩
  | fetchRow =>
      have next : (reader.step library os32 .fetchRow).mapFields = reader.mapFields ∧
          (reader.step library os32 .fetchRow).fields = reader.fields ∧
          (reader.step library os32 .fetchRow).memory = reader.memory := by
        cases stored : reader.result with
        | none => simp [Reader.step, Reader.fetchRow, stored]
        | some result => simp [Reader.step, Reader.fetchRow, fields, stored]
      obtain ⟨map, columns, memory⟩ := next
      refine ⟨?_, ?_, ?_⟩
      · rw [map, columns, mapped.entries]
      · rw [columns, memory]
        exact mapped.stored
      · rw [columnNames, columns]
        exact mapped.distinct
  | byName accessor fieldName =>
      have next : reader.step library os32 (.byName accessor fieldName) = reader := by
        cases points : reader.memory fieldName with
        | none => simp [Reader.step, byName, points]
        | some name =>
            obtain ⟨id, place, found⟩ := exists_column (good name points)
            simp only [Reader.step, mapped.byName_known accessor points found]
      rw [next]
      exact mapped
  | buffers memory =>
      refine ⟨mapped.entries, ?_, mapped.distinct⟩
      intro pointer name member
      have owned : pointer ∈ (reader.result.elim [] StoredResult.named).map Prod.fst := by
        refine List.mem_map.mpr ⟨(pointer, name), ?_, rfl⟩
        cases stored : reader.result with
        | none => simp [Reader.step, fields, stored] at member
        | some result => simpa [Reader.step, fields, stored, StoredResult.named] using member
      simp only [Reader.step, owned, ↓reduceIte]
      exact mapped.stored pointer name member

/-- A step that is not good leaves names in the map that are not those of the columns. -/
theorem Mapped.broken (mapped : Mapped reader) {input : Input} (bad : ¬ Good reader input) :
    ¬ Faithful library os32 (reader.step library os32 input) := by
  rintro ⟨⟨names, read, same⟩, _, _⟩
  cases input with
  | query queried =>
      cases queried with
      | failed | noResult => exact bad trivial
      | result result =>
          obtain ⟨entries, texts, all, holds, distinct⟩ := mapNames_distinct
            (stored_store reader.freeResult.memory result) .nil List.nodup_nil 1
          rw [mapped.step_result all] at read same
          obtain rfl := Outcome.ok.inj (holds.vfields_eq.symm.trans read)
          exact bad (same.nodup_iff.mp distinct)
  | fetchRow => exact bad trivial
  | byName accessor fieldName =>
      obtain ⟨name, points, fresh⟩ : ∃ name, reader.memory fieldName = some name ∧
          name ∉ reader.columnNames := by
        simpa [Good] using bad
      have next : reader.step library os32 (.byName accessor fieldName) = { reader with
          mapFields := reader.mapFields ++ [⟨fieldName, stringHash name, 0⟩] } := by
        simp only [Reader.step, mapped.byName_unknown accessor points fresh]
      have added : Holds reader.memory (reader.mapFields ++ [⟨fieldName, stringHash name, 0⟩])
          (reader.columnNames ++ [name]) :=
        List.rel_append mapped.holds (.cons ⟨points, rfl⟩ .nil)
      rw [next] at read same
      obtain rfl := Outcome.ok.inj (added.vfields_eq.symm.trans read)
      have longer := same.length_eq
      rw [List.length_append, List.length_singleton] at longer
      exact absurd longer (Nat.succ_ne_self _)
  | buffers memory => exact bad trivial

/-- Reading shows the last query in every state of a run exactly if its results have different
column names and only names of columns are looked up. -/
theorem faithful_iff (library : Conversions δ) (os32 : Bool) (memory : Memory)
    (inputs : List Input) :
    Run.Always (step library os32) (Faithful library os32) (fun _ _ => True) (initial memory)
        inputs ↔ Run.Steps (step library os32) Good (initial memory) inputs :=
  Run.always_iff_steps Mapped (fun _ mapped => mapped.faithful)
    (fun _ _ mapped good => ⟨trivial, mapped.step good⟩)
    (fun _ _ mapped bad both => mapped.broken bad both.2) (mapped_initial memory) inputs

/-- A result with one column `a` and one row with `7` in it, its name at address 1. -/
def oneColumn : StoredResult where
  fields := [some (1, [97])]
  rows := [[some [55]]]
  apart := by simp
  whole := by simp

/-- The caller's names: `a` at address 2 and `b` at address 3. -/
def callerNames : Memory
  | 2 => some [97]
  | 3 => some [98]
  | _ => none

/-- The integers, in place of numbers of the C library, with one digit each. -/
def digits : Conversions Int where
  zero := 0
  atof text := text.foldl (fun _ c => c.toNat - 48) 0
  atol text := text.foldl (fun _ c => c.toNat - 48) 0
  atoll text := text.foldl (fun _ c => c.toNat - 48) 0

/-- A new connection that has read the row. -/
def oneRow : Reader :=
  ((initial callerNames).step digits false (.query (.result oneColumn))).step digits false .fetchRow

/-- A record is read by the name of its column. -/
theorem faithful_column :
    Run.Always (step digits false) (Faithful digits false) (fun _ _ => True) (initial callerNames)
      [.query (.result oneColumn), .fetchRow, .byName .getLong 2] := by
  refine (faithful_iff digits false callerNames _).mpr ⟨?_, trivial, ?_, trivial⟩
  · simp [Good, oneColumn, StoredResult.named, List.reduceOption]
  · intro name points
    have here : oneRow.memory 2 = some [97] := by decide +kernel
    obtain rfl := Option.some.inj (here.symm.trans points)
    show [97] ∈ oneRow.columnNames
    decide +kernel

/-- Looking up `b` makes it a field of the result. -/
theorem unfaithful_unknown :
    ¬ Run.Always (step digits false) (Faithful digits false) (fun _ _ => True)
      (initial callerNames) [.query (.result oneColumn), .fetchRow, .byName .isNull 3] := by
  rintro ⟨-, -, -, -, -, -, ⟨names, read, same⟩, -, -⟩
  have fields : (oneRow.step digits false (.byName .isNull 3)).getFields = .ok [[97], [98]] := by
    decide +kernel
  have columns : (oneRow.step digits false (.byName .isNull 3)).columnNames = [[97]] := by
    decide +kernel
  obtain rfl := Outcome.ok.inj (fields.symm.trans read)
  have lengths := (columns ▸ same).length_eq
  simp at lengths

end Reader

end Cube.Libmysql
