import Cube.Eco.Persist.JoinedSql

/-! # Decoding the records of joined tables

`decode_join` of `JoinMapping.h`. The properties of the main table are set from the first
columns of a record and those of each joined table from the columns behind them; `Item` names
the properties behind the select list, and the decoding is to follow them column by column.
-/

namespace Cube.Eco.Persist

open SqlText (flatMap_filter dropLast_flatMap)

/-- A `Record` of `Recordset.h`. -/
abbrev Record := List Text

/-- A call of `set_value` at the main meta, which is 0, or at the joined meta of a position. -/
structure SetValue where
  target : Nat
  property : Text
  value : Text
  view : Text
  deriving DecidableEq, Repr

/-- The calls made for a record, and the next column. -/
structure Decoding where
  calls : List SetValue
  field : Nat
  deriving DecidableEq, Repr

namespace JoinMapping

variable (mapping : JoinMapping) (view : Text) (record : Record)

/-! ## The source -/

/-- `set_value(property, record[field++], view)`. The operator of `Record` throws behind the last
column. -/
def setNext (target : Nat) (decoding : Decoding) (it : PropertyMapping) : Option Decoding :=
  record[decoding.field]?.map fun value =>
    ⟨decoding.calls ++ [⟨target, it.property, value, view⟩], decoding.field + 1⟩

/-- The loop over the properties of the main table. -/
def decodeMain (decoding : Decoding) : Option Decoding :=
  mapping.main.propMap.foldlM (setNext view record 0) decoding

/-- A turn of the loop over the properties of a joined table. -/
def setJoined (target : Nat) (decoding : Decoding) (it : PropertyMapping) : Option Decoding :=
  if (mapping.main.findKey it.property).isSome then some decoding
  else setNext view record target decoding it

/-- A turn of the loop over the joined metas. -/
def decodeJoined (decoding : Decoding) : ObjectMapping × Nat → Option Decoding
  | (map, target) => map.propMap.foldlM (mapping.setJoined view record target) decoding

/-- The body of the loop over the records. -/
def decodeRecord : Option Decoding := do
  let decoding ← mapping.decodeMain view record ⟨[], 0⟩
  mapping.positioned.foldlM (mapping.decodeJoined view record) decoding

/-- `decode_join`: what is set in the object of each record. -/
def decodeJoin (records : List Record) : Option (List (List SetValue)) :=
  records.mapM fun record => (mapping.decodeRecord view record).map Decoding.calls

/-! ## The items of the select list -/

/-- A property of a meta. -/
structure Item where
  target : Nat
  property : PropertyMapping
  deriving DecidableEq, Repr

/-- An item as it is written. -/
def Item.text (item : Item) : Text :=
  (if getTableAlias item.target ≠ 0 then [charOf (getTableAlias item.target), '.'] else []) ++
    item.property.field

/-- The items that a table generates. -/
def tableItems (target : Nat) (mainTable : Option ObjectMapping) (map : ObjectMapping) :
    List Item :=
  (map.propMap.filter fun it =>
    mainTable.all fun main => (main.findKey it.property).isNone).map (Item.mk target)

def mainItems : List Item := tableItems 0 none mapping.main

def joinedItems (tables : List (ObjectMapping × Nat)) : List Item :=
  tables.flatMap fun (map, i) => tableItems i (some mapping.main) map

def items : List Item := mapping.mainItems ++ mapping.joinedItems mapping.positioned

/-- The items behind a column each. -/
def assigned (items : List Item) (columns : Record) : List SetValue :=
  List.zipWith (fun item value => ⟨item.target, item.property.property, value, view⟩)
    items columns

variable {mapping view record}

/-! ## The text of the items -/

theorem getFieldSql_items {map : ObjectMapping} {i : Nat} {mainTable : Option ObjectMapping}
    (mapped : map.propMap ≠ []) : map.getFieldSql (getTableAlias i) mainTable =
      .ok ((tableItems i mainTable map).flatMap fun item => item.text ++ [',']) := by
  rw [ObjectMapping.getFieldSql, if_neg (by simpa using mapped), tableItems, List.flatMap_map,
    flatMap_filter]
  rfl

theorem addFields_items {tables : List (ObjectMapping × Nat)}
    (mapped : ∀ map i, (map, i) ∈ tables → map.propMap ≠ []) (fieldSql : Text) :
    mapping.addFields fieldSql tables =
      .ok (fieldSql ++ (mapping.joinedItems tables).flatMap fun item => item.text ++ [',']) := by
  induction tables generalizing fieldSql with
  | nil => rw [addFields, joinedItems, List.flatMap_nil, List.flatMap_nil, List.append_nil]
  | cons table tables ih =>
      obtain ⟨map, i⟩ := table
      rw [addFields, getFieldSql_items (mapped map i List.mem_cons_self)]
      change addFields mapping (fieldSql ++ _) tables = _
      rw [ih fun map i member => mapped map i (List.mem_cons_of_mem _ member), joinedItems,
        joinedItems, List.flatMap_cons, List.flatMap_append, List.append_assoc]

theorem items_ne_nil (mapped : mapping.Mapped) : mapping.items ≠ [] := by
  have own : mapping.mainItems ≠ [] := by
    simpa [mainItems, tableItems] using mapped mapping.main List.mem_cons_self
  exact List.append_ne_nil_of_left_ne_nil own _

/-- The select list is the items, in their order. -/
theorem getSelectJoinSql_items {condSql sql : Text}
    (written : mapping.getSelectJoinSql condSql = .ok sql) :
    ∃ rest, sql = "select ".toList ++ [','].intercalate (mapping.items.map Item.text) ++
      " from ".toList ++ rest := by
  have mapped := getSelectJoinSql_mapped written
  have mappedTables : ∀ map i, (map, i) ∈ mapping.positioned → map.propMap ≠ [] :=
    fun map i member => mapped map (List.mem_cons_of_mem _ (mem_positioned member).1)
  have listed : mapping.items.flatMap (fun item => item.text ++ [',']) ≠ [] := by
    obtain ⟨item, items, cons⟩ := List.exists_cons_of_ne_nil (items_ne_nil mapped)
    simp [cons]
  rw [getSelectJoinSql, getFieldSql_items (mapped _ List.mem_cons_self)] at written
  change (mapping.addFields _ mapping.positioned >>= _) = _ at written
  rw [addFields_items mappedTables] at written
  change Except.ok _ = Except.ok _ at written
  have fields : ("select ".toList ++
      (tableItems 0 none mapping.main).flatMap (fun item => item.text ++ [',']) ++
      (mapping.joinedItems mapping.positioned).flatMap fun item => item.text ++ [',']).dropLast =
        "select ".toList ++ [','].intercalate (mapping.items.map Item.text) := by
    rw [List.append_assoc, ← List.flatMap_append, ← dropLast_flatMap,
      ← List.dropLast_append_of_ne_nil listed]
    rfl
  injection written with written
  rw [← written, fields]
  by_cases bare : condSql.isEmpty
  · rw [bare]
    simp only [Bool.not_true, Bool.false_eq_true, if_false, List.append_assoc]
    exact ⟨_, rfl⟩
  · simp only [bare, Bool.not_false, if_true, List.append_assoc]
    exact ⟨_, rfl⟩

/-! ## The decoding of the items -/

/-- Items decoded one after another. -/
def decodeItems (view : Text) (record : Record) (items : List Item) (decoding : Decoding) :
    Option Decoding :=
  items.foldlM (fun decoding item => setNext view record item.target decoding item.property) decoding

theorem decodeItems_append (first second : List Item) (decoding : Decoding) :
    decodeItems view record (first ++ second) decoding =
      (decodeItems view record first decoding).bind (decodeItems view record second) :=
  List.foldlM_append

theorem decodeMain_eq (decoding : Decoding) : mapping.decodeMain view record decoding =
    decodeItems view record mapping.mainItems decoding := by
  rw [decodeMain, decodeItems, mainItems, tableItems, List.foldlM_map]
  simp only [Option.all_none, List.filter_true]

/-- The properties that are skipped are those that have no item. -/
theorem decodeJoined_eq (map : ObjectMapping) (i : Nat) (decoding : Decoding) :
    mapping.decodeJoined view record decoding (map, i) =
      decodeItems view record (tableItems i (some mapping.main) map) decoding := by
  rw [decodeJoined, decodeItems, tableItems, List.foldlM_map]
  simp only [Option.all_some]
  induction map.propMap generalizing decoding with
  | nil => rfl
  | cons it properties ih =>
      by_cases skipped : (mapping.main.findKey it.property).isSome
      · rw [List.filter_cons_of_neg (by simpa using Option.isSome_iff_ne_none.mp skipped),
          List.foldlM_cons, setJoined, if_pos skipped]
        exact ih decoding
      · rw [List.filter_cons_of_pos (by simpa using skipped), List.foldlM_cons, List.foldlM_cons,
          setJoined, if_neg skipped]
        exact congrArg _ (funext ih)

theorem foldlM_decodeJoined (tables : List (ObjectMapping × Nat)) (decoding : Decoding) :
    tables.foldlM (mapping.decodeJoined view record) decoding =
      decodeItems view record (mapping.joinedItems tables) decoding := by
  induction tables generalizing decoding with
  | nil => rfl
  | cons table tables ih =>
      obtain ⟨map, i⟩ := table
      rw [List.foldlM_cons, decodeJoined_eq, joinedItems, List.flatMap_cons, decodeItems_append]
      exact congrArg _ (funext ih)

theorem decodeRecord_eq : mapping.decodeRecord view record =
    decodeItems view record mapping.items ⟨[], 0⟩ := by
  rw [decodeRecord, decodeMain_eq, items, decodeItems_append]
  exact congrArg _ (funext (foldlM_decodeJoined mapping.positioned))

/-- Each item takes the next column. -/
theorem decodeItems_eq {items : List Item} {calls : List SetValue} {field : Nat}
    (enough : field + items.length ≤ record.length) :
    decodeItems view record items ⟨calls, field⟩ =
      some ⟨calls ++ assigned view items (record.drop field), field + items.length⟩ := by
  induction items generalizing calls field with
  | nil => simp [decodeItems, assigned]
  | cons item items ih =>
      rw [List.length_cons] at enough
      have inside : field < record.length := by omega
      have next : setNext view record item.target ⟨calls, field⟩ item.property =
          some ⟨calls ++ [⟨item.target, item.property.property, record[field], view⟩],
            field + 1⟩ := by
        rw [setNext, List.getElem?_eq_getElem inside]
        rfl
      rw [decodeItems, List.foldlM_cons, next]
      change decodeItems view record items ⟨_, field + 1⟩ = _
      rw [ih (by omega), List.drop_eq_getElem_cons inside, assigned, assigned,
        List.zipWith_cons_cons, List.append_assoc, List.length_cons, List.singleton_append]
      exact congrArg some (congrArg (Decoding.mk _) (by omega))

/-- A record with a column for each item is decoded completely. -/
theorem decodeRecord_of_length (columns : record.length = mapping.items.length) :
    mapping.decodeRecord view record =
      some ⟨assigned view mapping.items record, record.length⟩ := by
  rw [decodeRecord_eq, decodeItems_eq (by omega), columns, List.nil_append, Nat.zero_add,
    List.drop_zero]

end JoinMapping

open JoinMapping

/-- Column `i` of a record goes to the property behind item `i` of the select list, and no column
is left. -/
theorem decodeJoin_follows_select {mapping : JoinMapping} (condSql : Text) {sql view : Text}
    {records : List Record} (written : mapping.getSelectJoinSql condSql = .ok sql)
    (returned : ∀ record ∈ records, record.length = mapping.items.length) :
    (∃ rest, sql = "select ".toList ++ [','].intercalate (mapping.items.map Item.text) ++
      " from ".toList ++ rest) ∧
    (∀ record ∈ records, mapping.decodeRecord view record =
      some ⟨assigned view mapping.items record, record.length⟩) ∧
    mapping.decodeJoin view records = some (records.map (assigned view mapping.items)) := by
  have each : ∀ record ∈ records, mapping.decodeRecord view record =
      some ⟨assigned view mapping.items record, record.length⟩ :=
    fun record member => decodeRecord_of_length (returned record member)
  refine ⟨getSelectJoinSql_items written, each, ?_⟩
  clear returned
  induction records with
  | nil => rfl
  | cons record records ih =>
      have rest := ih fun record member => each record (List.mem_cons_of_mem _ member)
      rw [decodeJoin] at rest
      rw [decodeJoin, List.mapM_cons, each record List.mem_cons_self, rest]
      rfl

/-- A user joined with an account: the key is selected and decoded once. -/
theorem decodeJoin_follows_select_account :
    JoinMapping.decodeJoin ⟨⟨"user".toList, "t_user".toList,
        [⟨"id".toList, "f_id".toList, 1⟩, ⟨"name".toList, "f_name".toList, 0⟩]⟩,
      [⟨"account".toList, "t_account".toList,
        [⟨"id".toList, "f_id".toList, 1⟩, ⟨"sum".toList, "f_sum".toList, 0⟩]⟩]⟩
      "db".toList [["7".toList, "Ann".toList, "12".toList]] =
    some [[⟨0, "id".toList, "7".toList, "db".toList⟩, ⟨0, "name".toList, "Ann".toList, "db".toList⟩,
      ⟨1, "sum".toList, "12".toList, "db".toList⟩]] :=
  (decodeJoin_follows_select [] rfl (by decide)).2.2

end Cube.Eco.Persist
