import Cube.Lib.SqlToken
import Cube.Eco.Export

/-! # The SQL of mapped objects

`ObjectMapping` of `ObjectMapping.h` pairs the properties of an object with the fields of a
table, and writes the statements that store the object. `getValue` stands for
`meta.get_value(property, eco_db)` of the object that is attached. An exception is a text.
-/

namespace Cube.Eco.Persist

open SqlText (quoteMark IsName)

abbrev Text := List Char

def charOf (byte : UInt8) : Char := Char.ofNat byte.toNat

def constraintPk : UInt32 := 0x0001

def constraintFk : UInt32 := 0x0002

structure PropertyMapping where
  property : Text
  field : Text
  constraint : UInt16
  deriving DecidableEq, Repr

namespace PropertyMapping

def isPk (it : PropertyMapping) : Bool := has16 it.constraint constraintPk

def hasConstraint (it : PropertyMapping) (v : UInt32) : Bool := has16 it.constraint v

end PropertyMapping

structure ObjectMapping where
  id : Text
  table : Text
  propMap : List PropertyMapping
  deriving DecidableEq, Repr

namespace ObjectMapping

variable (mapping : ObjectMapping) (getValue : Text → Text)

/-- Every name in the mapping is a name. -/
structure Named : Prop where
  table : IsName mapping.table
  field : ∀ it ∈ mapping.propMap, IsName it.field

instance : Decidable mapping.Named :=
  decidable_of_iff (IsName mapping.table ∧ ∀ it ∈ mapping.propMap, IsName it.field)
    ⟨fun ⟨table, field⟩ => ⟨table, field⟩, fun ⟨table, field⟩ => ⟨table, field⟩⟩

/-- `throw_error()`. -/
def error : Text := "property map is empty: ".toList ++ mapping.id

/-- `find_property(prop, constraint)`. -/
def findProperty (prop : Text) (constraint : UInt32) : Option PropertyMapping :=
  mapping.propMap.find? fun it =>
    (constraint == 0 || it.hasConstraint constraint) && it.property == prop

/-- A field and its value between quotes. -/
def assignment (it : PropertyMapping) : Text :=
  it.field ++ ['=', quoteMark] ++ getValue it.property ++ [quoteMark]

/-- A turn of the loop in `get_condition_sql`. -/
def addCondition (condSql : Text) (it : PropertyMapping) : Text :=
  if it.isPk then
    condSql ++ (if condSql.isEmpty then " where ".toList else " and ".toList) ++
      assignment getValue it
  else condSql

/-- `get_condition_sql`, into an empty text. -/
def getConditionSql : Except Text Text :=
  let condSql := mapping.propMap.foldl (addCondition getValue) []
  if condSql.isEmpty then .error mapping.error else .ok condSql

/-- `get_insert_sql`; `dropLast` removes the end `,`. -/
def getInsertSql : Except Text Text :=
  if mapping.propMap.isEmpty then .error mapping.error
  else
    let fieldSql := mapping.propMap.flatMap fun it => it.field ++ [',']
    let valueSql := mapping.propMap.flatMap fun it =>
      quoteMark :: getValue it.property ++ [quoteMark, ',']
    .ok ("insert into ".toList ++ mapping.table ++ " (".toList ++ fieldSql.dropLast ++
      ") values(".toList ++ valueSql.dropLast ++ [')'])

/-- `get_update_sql`. -/
def getUpdateSql : Except Text Text :=
  if mapping.propMap.isEmpty then .error mapping.error
  else do
    let condSql ← mapping.getConditionSql getValue
    let sql := "update ".toList ++ mapping.table ++ " set ".toList
    let sql := sql ++ mapping.propMap.flatMap fun it =>
      if !it.isPk then assignment getValue it ++ [','] else []
    .ok (sql.dropLast ++ condSql)

/-- `get_delete_sql`. -/
def getDeleteSql : Except Text Text := do
  let condSql ← mapping.getConditionSql getValue
  .ok ("delete from ".toList ++ mapping.table ++ [' '] ++ condSql)

/-- A property of the main table that joins it to others. -/
def findKey (main : ObjectMapping) (prop : Text) : Option PropertyMapping :=
  main.findProperty prop (constraintPk ||| constraintFk)

/-- What `get_field_sql` appends: the fields, without those that the main table has. -/
def getFieldSql (tableAlias : UInt8) (mainTable : Option ObjectMapping) : Except Text Text :=
  if mapping.propMap.isEmpty then .error mapping.error
  else .ok (mapping.propMap.flatMap fun it =>
    if mainTable.all fun main => (main.findKey it.property).isNone then
      (if tableAlias ≠ 0 then [charOf tableAlias, '.'] else []) ++ it.field ++ [',']
    else [])

/-- A turn of the loop in `get_join_sql`. -/
def addJoin (tableAlias : UInt8) (mainTable : ObjectMapping) (condSql : Text)
    (it : PropertyMapping) : Text :=
  match mainTable.findKey it.property with
  | none => condSql
  | some mainProp =>
      condSql ++ (if !condSql.isEmpty then " and ".toList else []) ++ [charOf tableAlias, '.'] ++
        it.field ++ "=A.".toList ++ mainProp.field

/-- What `get_join_sql` appends. -/
def getJoinSql (tableAlias : UInt8) (mainTable : ObjectMapping) : Text :=
  let condSql := mapping.propMap.foldl (addJoin tableAlias mainTable) []
  if !condSql.isEmpty then
    "inner join ".toList ++ mapping.table ++ " as ".toList ++ [charOf tableAlias] ++
      " on ".toList ++ condSql
  else []

end ObjectMapping

/-- The statement that `Database::update(obj, prop, value, mapping)` executes. -/
def Database.updateSql (mapping : ObjectMapping) (getValue : Text → Text) (prop value : Text) :
    Except Text Text :=
  match mapping.findProperty prop 0 with
  | none => .error ("property isn't exist: ".toList ++ prop)
  | some p => do
      let sql := "update ".toList ++ mapping.table ++ " set ".toList ++ p.field ++
        ['=', quoteMark] ++ value ++ [quoteMark]
      let condSql ← mapping.getConditionSql getValue
      .ok (sql ++ condSql)

end Cube.Eco.Persist
