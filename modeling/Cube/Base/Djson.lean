import Mathlib.Data.List.Forall2
import Mathlib.Data.String.Basic
import Mathlib.Data.UInt
import Mathlib.Tactic.Common
import Cube.Lib.Assoc

/-! # Dictionaries as JSON

The tree of `dobject`, `darray` and `dictionary`, and `djson` of `dtrans.cpp`, which writes a
dictionary as a JSON text and reads it back. The writer and the reader of JSON are those of another
library and come in as parameters, as do the strings, of which C functions see the characters up to
the first NUL, and the floating-point numbers.
-/

namespace Cube.Base

/-- `dobject`, with the elements of a `darray` and the entries of a `dictionary`. -/
inductive Dobject (τ δ : Type) where
  | null
  | bool (value : Bool)
  | integer (value : Int64)
  | double (value : δ)
  | string (value : τ)
  | array (items : List (Dobject τ δ))
  | dictionary (entries : List (τ × Dobject τ δ))

/-- `Json::Value`. The members of an object are in the order of their names. -/
inductive JsonValue (τ δ : Type) where
  | null
  | int (value : Int64)
  | uint (value : UInt64)
  | real (value : δ)
  | string (value : τ)
  | bool (value : Bool)
  | array (items : List (JsonValue τ δ))
  | object (members : List (τ × JsonValue τ δ))

variable {τ δ : Type} [LinearOrder τ]

/-- `Json::Value::append`. A null value becomes an array. -/
def JsonValue.append (root value : JsonValue τ δ) : JsonValue τ δ :=
  match root with
  | .null => .array [value]
  | .array items => .array (items ++ [value])
  | root => root

/-- `Json::Value::operator[]` with an assignment. A null value becomes an object. -/
def JsonValue.set (root : JsonValue τ δ) (key : τ) (value : JsonValue τ δ) : JsonValue τ δ :=
  match root with
  | .null => .object [(key, value)]
  | .object members => .object (Assoc.place key value members)
  | root => root

namespace Djson

/-! ## Writing -/

mutual

/-- The switch over the type of a value, which puts nothing for a null value. -/
def toJv : Dobject τ δ → Option (JsonValue τ δ)
  | .null => none
  | .bool value => some (.bool value)
  | .integer value => some (.int value)
  | .double value => some (.real value)
  | .string value => some (.string value)
  | .array items => some (array2jv .null items)
  | .dictionary entries => some (dict2jv .null entries)

/-- The loop of `array2jv`. -/
def array2jv (root : JsonValue τ δ) : List (Dobject τ δ) → JsonValue τ δ
  | [] => root
  | obj :: items =>
      array2jv (match toJv obj with
        | some value => root.append value
        | none => root) items

/-- The loop of `dict2jv`. The value under a key of the dictionary is that of its entry. -/
def dict2jv (root : JsonValue τ δ) : List (τ × Dobject τ δ) → JsonValue τ δ
  | [] => root
  | (key, obj) :: entries =>
      dict2jv (match toJv obj with
        | some value => root.set key value
        | none => root) entries

end

/-! ## Reading -/

mutual

/-- The switch over the type of a value, which puts nothing for a null value. -/
def ofJv : JsonValue τ δ → Option (Dobject τ δ)
  | .null => none
  | .int value => some (.integer value)
  | .uint value => some (.integer value.toInt64)
  | .real value => some (.double value)
  | .string value => some (.string value)
  | .bool value => some (.bool value)
  | .array items => some (.array (jv2dar [] items))
  | .object members => some (.dictionary (jv2dict [] members))

/-- `jv2dar`. -/
def jv2dar (dar : List (Dobject τ δ)) : List (JsonValue τ δ) → List (Dobject τ δ)
  | [] => dar
  | mjv :: items =>
      jv2dar (match ofJv mjv with
        | some obj => dar ++ [obj]
        | none => dar) items

/-- `jv2dict`. -/
def jv2dict (dict : List (τ × Dobject τ δ)) :
    List (τ × JsonValue τ δ) → List (τ × Dobject τ δ)
  | [] => dict
  | (key, mjv) :: members =>
      jv2dict (match ofJv mjv with
        | some obj => Assoc.assign key obj dict
        | none => dict) members

end

/-- The writer and the reader of the JSON library, and the name `root`. -/
structure Library (τ δ text : Type) where
  write : JsonValue τ δ → text
  parse : text → Option (JsonValue τ δ)
  rootName : τ

variable {text : Type} (library : Library τ δ text)

/-- `dict2str`. -/
def dict2str (dict : List (τ × Dobject τ δ)) : text := library.write (dict2jv .null dict)

/-- The dictionary that `str2dict` makes of the root of a text. -/
def ofRoot (rootName : τ) : JsonValue τ δ → List (τ × Dobject τ δ)
  | .null => []
  | .object members => jv2dict [] members
  | root =>
      match ofJv root with
      | some obj => Assoc.assign rootName obj []
      | none => []

/-- `str2dict`: NULL for a text that cannot be parsed. -/
def str2dict (str : text) : Option (List (τ × Dobject τ δ)) :=
  (library.parse str).map (ofRoot library.rootName)

/-! ## Trees -/

/-- Trees of the values a dictionary is built from: no null values and no floating-point numbers,
and different keys in each dictionary. -/
inductive Plain : Dobject τ δ → Prop where
  | bool (value : Bool) : Plain (.bool value)
  | integer (value : Int64) : Plain (.integer value)
  | string (value : τ) : Plain (.string value)
  | array {items : List (Dobject τ δ)} (each : ∀ item ∈ items, Plain item) : Plain (.array items)
  | dictionary {entries : List (τ × Dobject τ δ)} (distinct : (entries.map Prod.fst).Nodup)
      (each : ∀ entry ∈ entries, Plain entry.2) : Plain (.dictionary entries)

/-- Trees without an array or a dictionary that has nothing in it. -/
inductive Full : Dobject τ δ → Prop where
  | bool (value : Bool) : Full (.bool value)
  | integer (value : Int64) : Full (.integer value)
  | string (value : τ) : Full (.string value)
  | array {items : List (Dobject τ δ)} (nonempty : items ≠ []) (each : ∀ item ∈ items, Full item) :
      Full (.array items)
  | dictionary {entries : List (τ × Dobject τ δ)} (nonempty : entries ≠ [])
      (each : ∀ entry ∈ entries, Full entry.2) : Full (.dictionary entries)

/-- Trees with the same keys, the same array lengths and the same values. -/
inductive Same : Dobject τ δ → Dobject τ δ → Prop where
  | bool (value : Bool) : Same (.bool value) (.bool value)
  | integer (value : Int64) : Same (.integer value) (.integer value)
  | string (value : τ) : Same (.string value) (.string value)
  | array {items others : List (Dobject τ δ)} (length : items.length = others.length)
      (each : ∀ (i : Nat) (item other : Dobject τ δ), items[i]? = some item →
        others[i]? = some other → Same item other) : Same (.array items) (.array others)
  | dictionary {entries others : List (τ × Dobject τ δ)}
      (keys : ∀ key, (entries.lookup key).isSome = (others.lookup key).isSome)
      (each : ∀ (key : τ) (value other : Dobject τ δ), entries.lookup key = some value →
        others.lookup key = some other → Same value other) :
      Same (.dictionary entries) (.dictionary others)

mutual

/-- A value with the numbers that fit a signed integer marked as signed. -/
def signed : JsonValue τ δ → JsonValue τ δ
  | .uint value => if value < 2 ^ 63 then .int value.toInt64 else .uint value
  | .array items => .array (signedItems items)
  | .object members => .object (signedMembers members)
  | value => value

def signedItems : List (JsonValue τ δ) → List (JsonValue τ δ)
  | [] => []
  | item :: items => signed item :: signedItems items

def signedMembers : List (τ × JsonValue τ δ) → List (τ × JsonValue τ δ)
  | [] => []
  | (key, value) :: members => (key, signed value) :: signedMembers members

end

/-- The library preserves the values of dictionaries, up to the mark of numbers as signed. -/
def Preserves : Prop :=
  ∀ dict : List (τ × Dobject τ δ), Plain (.dictionary dict) →
    (library.parse (library.write (dict2jv .null dict))).map signed =
      some (signed (dict2jv .null dict))

/-! ## The loops -/

/-- A list keeps its length under an image exactly if every element has one. -/
theorem forall₂_filterMap {α β : Type} {image : α → Option β} {list : List α}
    (each : ∀ value ∈ list, (image value).isSome) :
    List.Forall₂ (fun value result => image value = some result) list (list.filterMap image) := by
  induction list with
  | nil => exact .nil
  | cons value list ih =>
      obtain ⟨result, found⟩ := Option.isSome_iff_exists.mp (each value List.mem_cons_self)
      rw [List.filterMap_cons_some found]
      exact .cons found (ih fun other member => each other (List.mem_cons_of_mem _ member))

theorem array2jv_eq (values : List (JsonValue τ δ)) (items : List (Dobject τ δ)) :
    array2jv (.array values) items = .array (values ++ items.filterMap toJv) := by
  induction items generalizing values with
  | nil => simp [array2jv]
  | cons item items ih =>
      cases written : toJv item with
      | none => simp [array2jv, written, ih]
      | some value => simp [array2jv, written, JsonValue.append, ih]

/-- An array of values that are written is written as an array. -/
theorem array2jv_cons {item : Dobject τ δ} {value : JsonValue τ δ}
    (written : toJv item = some value) (items : List (Dobject τ δ)) :
    array2jv .null (item :: items) = .array ((item :: items).filterMap toJv) := by
  rw [array2jv, written]
  exact (array2jv_eq [value] items).trans (by simp [written])

theorem dict2jv_eq (members : List (τ × JsonValue τ δ)) (entries : List (τ × Dobject τ δ)) :
    dict2jv (.object members) entries =
      .object (Assoc.fillAll Assoc.place toJv members entries) := by
  induction entries generalizing members with
  | nil => rfl
  | cons entry entries ih =>
      obtain ⟨key, obj⟩ := entry
      rw [dict2jv, Assoc.fillAll]
      cases toJv obj with
      | none => exact ih members
      | some value => exact ih (Assoc.place key value members)

/-- A dictionary of values that are written is written as an object. -/
theorem dict2jv_cons {key : τ} {obj : Dobject τ δ} {value : JsonValue τ δ}
    (written : toJv obj = some value) (entries : List (τ × Dobject τ δ)) :
    dict2jv .null ((key, obj) :: entries) =
      .object (Assoc.fillAll Assoc.place toJv [] ((key, obj) :: entries)) := by
  rw [dict2jv, Assoc.fillAll, written]
  exact dict2jv_eq [(key, value)] entries

theorem jv2dar_eq (dar : List (Dobject τ δ)) (items : List (JsonValue τ δ)) :
    jv2dar dar items = dar ++ items.filterMap ofJv := by
  induction items generalizing dar with
  | nil => simp [jv2dar]
  | cons item items ih =>
      cases read : ofJv item with
      | none => simp [jv2dar, read, ih]
      | some obj => simp [jv2dar, read, ih]

theorem jv2dict_eq (dict : List (τ × Dobject τ δ)) (members : List (τ × JsonValue τ δ)) :
    jv2dict dict members = Assoc.fillAll Assoc.assign ofJv dict members := by
  induction members generalizing dict with
  | nil => rfl
  | cons entry members ih =>
      obtain ⟨key, value⟩ := entry
      rw [jv2dict, Assoc.fillAll]
      cases ofJv value with
      | none => exact ih dict
      | some obj => exact ih (Assoc.assign key obj dict)

/-- What becomes of a value that is written and read. -/
def again (obj : Dobject τ δ) : Option (Dobject τ δ) := (toJv obj).bind ofJv

/-- The entries of a dictionary that is written as an object and read. -/
theorem lookup_again {entries : List (τ × Dobject τ δ)} (distinct : (entries.map Prod.fst).Nodup)
    (key : τ) :
    (jv2dict [] (Assoc.fillAll Assoc.place toJv [] entries)).lookup key =
      (entries.lookup key).bind again := by
  have sorted : (Assoc.fillAll Assoc.place toJv [] entries).Pairwise (·.1 < ·.1) :=
    Assoc.sorted_fillAll .nil entries
  rw [jv2dict_eq, Assoc.lookup_fillAll Assoc.lookup_assign (Assoc.nodup_of_sorted sorted),
    Assoc.lookup_fillAll Assoc.lookup_place distinct]
  simp only [List.lookup_nil, Option.or_none, Option.bind_assoc]
  rfl

/-- Values other than null are written. -/
theorem Plain.toJv_isSome {obj : Dobject τ δ} (plain : Plain obj) : (toJv obj).isSome := by
  cases plain with
  | bool | integer | string | array | dictionary => simp [toJv]

/-! ## The round trip -/

/-- Members of a dictionary are the same exactly if each value comes back the same. -/
theorem same_dictionary_iff {entries others : List (τ × Dobject τ δ)}
    (distinct : (entries.map Prod.fst).Nodup)
    (lookup : ∀ key, others.lookup key = (entries.lookup key).bind again) :
    Same (.dictionary entries) (.dictionary others) ↔
      ∀ entry ∈ entries, ∃ other, again entry.2 = some other ∧ Same entry.2 other := by
  constructor
  · rintro same ⟨key, value⟩ member
    cases same with
    | dictionary keys each =>
        have found := Assoc.lookup_of_mem distinct member
        have present := keys key
        rw [found, lookup key, found, Option.bind_some, Option.isSome_some] at present
        obtain ⟨other, result⟩ := Option.isSome_iff_exists.mp present.symm
        exact ⟨other, result, each key value other found (by rw [lookup key, found]; exact result)⟩
  · intro each
    refine .dictionary (fun key => ?_) fun key value other found result => ?_
    · cases found : entries.lookup key with
      | none => rw [lookup key, found, Option.bind_none]
      | some value =>
          obtain ⟨other, result, _⟩ := each _ (Assoc.mem_of_lookup found)
          rw [lookup key, found, Option.bind_some, result]
          rfl
    · obtain ⟨kept, expected, same⟩ := each _ (Assoc.mem_of_lookup found)
      rw [lookup key, found, Option.bind_some, expected] at result
      exact Option.some.inj result ▸ same

/-- Elements of an array are the same exactly if each of them comes back the same. -/
theorem same_array_iff {items : List (Dobject τ δ)} :
    Same (.array items) (.array (items.filterMap again)) ↔
      ∀ item ∈ items, ∃ other, again item = some other ∧ Same item other := by
  constructor
  · intro same item member
    cases same with
    | array length each =>
        have kept := List.filterMap_length_eq_length.mp length.symm
        have pairs := forall₂_filterMap kept
        obtain ⟨i, inside, rfl⟩ := List.getElem_of_mem member
        have result := pairs.get inside (length ▸ inside)
        refine ⟨_, result, each i _ _ (List.getElem?_eq_getElem inside) ?_⟩
        exact List.getElem?_eq_getElem (length ▸ inside)
  · intro each
    have kept : ∀ item ∈ items, (again item).isSome := by
      intro item member
      obtain ⟨other, result, _⟩ := each item member
      rw [result]
      rfl
    have pairs := forall₂_filterMap kept
    refine .array pairs.length_eq fun i item other found result => ?_
    obtain ⟨inside, rfl⟩ := List.getElem?_eq_some_iff.mp found
    obtain ⟨insideOther, rfl⟩ := List.getElem?_eq_some_iff.mp result
    have image := pairs.get inside insideOther
    obtain ⟨expected, known, same⟩ := each items[i] (List.getElem_mem inside)
    obtain rfl := Option.some.inj (known.symm.trans image)
    exact same

/-- The items of an array come back one by one, but for an empty array. -/
theorem again_array_iff {items : List (Dobject τ δ)} (each : ∀ item ∈ items, Plain item)
    (ih : ∀ item ∈ items, (∃ other, again item = some other ∧ Same item other) ↔ Full item) :
    (∃ other, again (.array items) = some other ∧ Same (.array items) other) ↔
      Full (.array items) := by
  cases items with
  | nil =>
      refine iff_of_false ?_ ?_
      · rintro ⟨other, result, _⟩
        cases result
      · intro full
        cases full with
        | array nonempty _ => exact nonempty rfl
  | cons item items =>
      obtain ⟨value, written⟩ :=
        Option.isSome_iff_exists.mp (each item List.mem_cons_self).toJv_isSome
      have result : again (.array (item :: items)) =
          some (.array ((item :: items).filterMap again)) := by
        rw [again, toJv, Option.bind_some, array2jv_cons written, ofJv, jv2dar_eq,
          List.nil_append, List.filterMap_filterMap]
        rfl
      constructor
      · rintro ⟨other, known, same⟩
        obtain rfl := Option.some.inj (result.symm.trans known)
        exact .array nofun fun item member =>
          (ih item member).mp (same_array_iff.mp same item member)
      · intro full
        cases full with
        | array _ full =>
            exact ⟨_, result, same_array_iff.mpr fun item member =>
              (ih item member).mpr (full item member)⟩

/-- The entries of a dictionary come back one by one, but for an empty dictionary. -/
theorem again_dictionary_iff {entries : List (τ × Dobject τ δ)}
    (distinct : (entries.map Prod.fst).Nodup) (each : ∀ entry ∈ entries, Plain entry.2)
    (ih : ∀ entry ∈ entries,
      (∃ other, again entry.2 = some other ∧ Same entry.2 other) ↔ Full entry.2) :
    (∃ other, again (.dictionary entries) = some other ∧ Same (.dictionary entries) other) ↔
      Full (.dictionary entries) := by
  cases entries with
  | nil =>
      refine iff_of_false ?_ ?_
      · rintro ⟨other, result, _⟩
        cases result
      · intro full
        cases full with
        | dictionary nonempty _ => exact nonempty rfl
  | cons entry entries =>
      obtain ⟨key, item⟩ := entry
      obtain ⟨value, written⟩ :=
        Option.isSome_iff_exists.mp (each _ List.mem_cons_self).toJv_isSome
      have result : again (.dictionary ((key, item) :: entries)) = some (.dictionary
          (jv2dict [] (Assoc.fillAll Assoc.place toJv [] ((key, item) :: entries)))) := by
        rw [again, toJv, Option.bind_some, dict2jv_cons written, ofJv]
      have members := same_dictionary_iff distinct (lookup_again distinct)
      constructor
      · rintro ⟨other, known, same⟩
        obtain rfl := Option.some.inj (result.symm.trans known)
        exact .dictionary nofun fun entry member =>
          (ih entry member).mp (members.mp same entry member)
      · intro full
        cases full with
        | dictionary _ full =>
            exact ⟨_, result, members.mpr fun entry member =>
              (ih entry member).mpr (full entry member)⟩

/-- A value comes back the same exactly if no array and no dictionary in it is empty. -/
theorem again_iff {obj : Dobject τ δ} (plain : Plain obj) :
    (∃ other, again obj = some other ∧ Same obj other) ↔ Full obj := by
  induction plain with
  | bool value => exact iff_of_true ⟨_, rfl, .bool value⟩ (.bool value)
  | integer value => exact iff_of_true ⟨_, rfl, .integer value⟩ (.integer value)
  | string value => exact iff_of_true ⟨_, rfl, .string value⟩ (.string value)
  | array each ih => exact again_array_iff each ih
  | dictionary distinct each ih => exact again_dictionary_iff distinct each ih

mutual

/-- Reading does not depend on the mark of a number. -/
theorem ofJv_signed : ∀ value : JsonValue τ δ, ofJv (signed value) = ofJv value
  | .null | .int _ | .real _ | .string _ | .bool _ => rfl
  | .uint value => by
      rw [signed]
      split <;> rfl
  | .array items => by rw [signed, ofJv, ofJv, jv2dar_signed]
  | .object members => by rw [signed, ofJv, ofJv, jv2dict_signed]

theorem jv2dar_signed (dar : List (Dobject τ δ)) :
    ∀ items : List (JsonValue τ δ), jv2dar dar (signedItems items) = jv2dar dar items
  | [] => rfl
  | item :: items => by
      rw [signedItems, jv2dar, jv2dar, ofJv_signed item]
      exact jv2dar_signed _ items

theorem jv2dict_signed (dict : List (τ × Dobject τ δ)) :
    ∀ members : List (τ × JsonValue τ δ),
      jv2dict dict (signedMembers members) = jv2dict dict members
  | [] => rfl
  | (key, value) :: members => by
      rw [signedMembers, jv2dict, jv2dict, ofJv_signed value]
      exact jv2dict_signed _ members

end

theorem ofRoot_signed (rootName : τ) (root : JsonValue τ δ) :
    ofRoot rootName (signed root) = ofRoot rootName root := by
  cases root with
  | null | int | real | string | bool => rfl
  | uint value =>
      rw [signed]
      split <;> rfl
  | array items => simp only [signed, ofRoot, ofJv, jv2dar_signed]
  | object members => simp only [signed, ofRoot, jv2dict_signed]

/-- A dictionary is read as it was written exactly if no array and no dictionary in it is empty. -/
theorem djson_roundTrip_iff {library : Library τ δ text} (preserves : Preserves library)
    {dict : List (τ × Dobject τ δ)} (plain : Plain (.dictionary dict)) :
    (∃ other, str2dict library (dict2str library dict) = some other ∧
      Same (.dictionary dict) (.dictionary other)) ↔ ∀ entry ∈ dict, Full entry.2 := by
  obtain ⟨root, parsed, same⟩ := Option.map_eq_some_iff.mp (preserves dict plain)
  have read : str2dict library (dict2str library dict) =
      some (ofRoot library.rootName (dict2jv .null dict)) := by
    rw [str2dict, dict2str, parsed, Option.map_some, ← ofRoot_signed, same, ofRoot_signed]
  cases plain with
  | dictionary distinct each =>
      cases dict with
      | nil =>
          refine iff_of_true ⟨_, read, .dictionary (fun _ => rfl) ?_⟩ nofun
          intro key value other found
          cases found
      | cons entry dict =>
          obtain ⟨key, item⟩ := entry
          obtain ⟨value, written⟩ :=
            Option.isSome_iff_exists.mp (each _ List.mem_cons_self).toJv_isSome
          rw [dict2jv_cons written, ofRoot] at read
          have members := same_dictionary_iff distinct (lookup_again distinct)
          constructor
          · rintro ⟨other, known, same⟩ entry member
            obtain rfl := Option.some.inj (read.symm.trans known)
            exact (again_iff (each entry member)).mp (members.mp same entry member)
          · intro full
            exact ⟨_, read, members.mpr fun entry member =>
              (again_iff (each entry member)).mpr (full entry member)⟩

/-- A library whose texts are the trees. -/
def treeLibrary : Library String Empty (JsonValue String Empty) := ⟨id, some, "root"⟩

theorem treeLibrary_preserves : Preserves treeLibrary := fun _ _ => rfl

/-- The dictionary with an array of one number under the key `a`. -/
theorem djson_roundTrip_array :
    ∃ other, str2dict treeLibrary (dict2str treeLibrary [("a", .array [.integer 3])]) = some other ∧
      Same (.dictionary [("a", .array [.integer 3])]) (.dictionary other) := by
  refine (djson_roundTrip_iff treeLibrary_preserves (.dictionary (by simp) ?_)).mpr ?_
  · intro entry member
    obtain rfl := List.mem_singleton.mp member
    refine .array fun item member => ?_
    exact List.mem_singleton.mp member ▸ .integer 3
  · intro entry member
    obtain rfl := List.mem_singleton.mp member
    refine .array nofun fun item member => ?_
    exact List.mem_singleton.mp member ▸ .integer 3

/-- The empty array under the key `a` is lost. -/
theorem djson_lost_array :
    ¬ ∃ other, str2dict treeLibrary (dict2str treeLibrary [("a", .array [])]) = some other ∧
      Same (.dictionary [("a", .array [])]) (.dictionary other) := by
  rintro ⟨other, read, same⟩
  have lost : str2dict treeLibrary (dict2str treeLibrary [("a", .array [])]) = some [] := rfl
  obtain rfl := Option.some.inj (lost.symm.trans read)
  cases same with
  | dictionary keys _ => exact absurd (keys "a") (by simp)

end Djson

end Cube.Base
