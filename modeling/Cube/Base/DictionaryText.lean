import Mathlib.Data.List.Lex
import Mathlib.Data.List.Perm.Basic
import Cube.Base.Djson
import Cube.Lib.JsonText

/-! # The texts of dictionaries

`to_string` of `dobject`, `darray` and `dictionary`, and the text that `djson` makes of the same
dictionary. The strings are those of C, the entries of a dictionary are in the order in which the
hash map goes through them.
-/

open Decimal (decimal)

namespace Cube.Base

/-- A string of C. -/
structure CText where
  bytes : List UInt8
  plain : 0 ∉ bytes
deriving DecidableEq

/-- Strings are compared byte by byte. -/
instance : LinearOrder CText :=
  LinearOrder.lift' (fun text => text.bytes.map UInt8.toNat) fun text other same => by
    have bytes := List.map_injective_iff.mpr (fun _ _ => UInt8.toNat_inj.mp) same
    cases text
    cases other
    exact CText.mk.injEq .. ▸ bytes

namespace DictionaryText

open Djson

variable {δ : Type} (lf : δ → List UInt8)

/-! ## Writing by hand -/

/-- `dobject::to_string` of a value with its `string_value`. -/
def quoted : Dobject CText δ → List UInt8 → List UInt8
  | .string _, ret => 34 :: ret ++ [34]
  | _, ret => ret

mutual

/-- `dobject::string_value`, with the format `%lf` of a floating-point number. -/
def stringValue : Dobject CText δ → List UInt8
  | .null => []
  | .string value => value.bytes
  | .bool value => if value then Json.trueName else Json.falseName
  | .integer value =>
      (if value.toInt < 0 then [45] else []) ++ decimal value.toInt.natAbs
  | .double value => lf value
  | .array items => 91 :: arrayToString true items ++ [93]
  | .dictionary entries => 123 :: dictionaryToString true entries ++ [125]

/-- The loop of `darray::to_string`. -/
def arrayToString : Bool → List (Dobject CText δ) → List UInt8
  | _, [] => []
  | first, item :: items =>
      (if first then [] else [44]) ++ quoted item (stringValue item) ++ arrayToString false items

/-- The loop of `dictionary::to_string`. -/
def dictionaryToString : Bool → List (CText × Dobject CText δ) → List UInt8
  | _, [] => []
  | first, (key, obj) :: entries =>
      (if first then [] else [44]) ++ (34 :: key.bytes ++ [34, 58]) ++
        quoted obj (stringValue obj) ++ dictionaryToString false entries

end

/-- `dictionary::to_string`. -/
def toString (dict : List (CText × Dobject CText δ)) : List UInt8 :=
  stringValue lf (.dictionary dict)

/-! ## Values -/

mutual

/-- The value of a tree, with the members of objects in the order of the entries. -/
def valueOf : Dobject CText δ → Json
  | .null => .null
  | .bool value => .bool value
  | .integer value => .int value.toInt
  | .double value => .real (lf value)
  | .string value => .string value.bytes
  | .array items => .array (valuesOf items)
  | .dictionary entries => .object (membersOf entries)

def valuesOf : List (Dobject CText δ) → List Json
  | [] => []
  | item :: items => valueOf item :: valuesOf items

def membersOf : List (CText × Dobject CText δ) → List (List UInt8 × Json)
  | [] => []
  | (key, obj) :: entries => (key.bytes, valueOf obj) :: membersOf entries

end

mutual

/-- The value of a tree of the library. -/
def ofTree : JsonValue CText δ → Json
  | .null => .null
  | .int value => .int value.toInt
  | .uint value => .int value.toNat
  | .real value => .real (lf value)
  | .string value => .string value.bytes
  | .bool value => .bool value
  | .array items => .array (ofTrees items)
  | .object members => .object (ofMembers members)

def ofTrees : List (JsonValue CText δ) → List Json
  | [] => []
  | item :: items => ofTree item :: ofTrees items

def ofMembers : List (CText × JsonValue CText δ) → List (List UInt8 × Json)
  | [] => []
  | (key, value) :: members => (key.bytes, ofTree value) :: ofMembers members

end

theorem valuesOf_eq (items : List (Dobject CText δ)) :
    valuesOf lf items = items.map (valueOf lf) := by
  induction items with
  | nil => rfl
  | cons item items ih => rw [valuesOf, ih, List.map_cons]

theorem membersOf_eq (entries : List (CText × Dobject CText δ)) :
    membersOf lf entries = entries.map fun entry => (entry.1.bytes, valueOf lf entry.2) := by
  induction entries with
  | nil => rfl
  | cons entry entries ih => rw [membersOf, ih, List.map_cons]

theorem ofTrees_eq (items : List (JsonValue CText δ)) :
    ofTrees lf items = items.map (ofTree lf) := by
  induction items with
  | nil => rfl
  | cons item items ih => rw [ofTrees, ih, List.map_cons]

theorem ofMembers_eq (members : List (CText × JsonValue CText δ)) :
    ofMembers lf members = members.map fun entry => (entry.1.bytes, ofTree lf entry.2) := by
  induction members with
  | nil => rfl
  | cons entry members ih => rw [ofMembers, ih, List.map_cons]

/-- The text that the library writes is one of the tree it is given. -/
def Emits (library : Library CText δ (List UInt8)) (dict : List (CText × Dobject CText δ)) : Prop :=
  Json.parse (library.write (dict2jv .null dict)) = some (ofTree lf (dict2jv .null dict))

/-- The two texts of a dictionary are well formed and denote the same value. -/
def Agree (library : Library CText δ (List UInt8)) (dict : List (CText × Dobject CText δ)) : Prop :=
  ∃ value other, Json.parse (toString lf dict) = some value ∧
    Json.parse (dict2str library dict) = some other ∧ Json.Same value other

/-- No string and no key of a tree has a character that has to be escaped. -/
inductive Bare : Dobject CText δ → Prop where
  | null : Bare .null
  | bool (value : Bool) : Bare (.bool value)
  | integer (value : Int64) : Bare (.integer value)
  | double (value : δ) : Bare (.double value)
  | string {value : CText} (plain : Json.PlainText value.bytes) : Bare (.string value)
  | array {items : List (Dobject CText δ)} (each : ∀ item ∈ items, Bare item) : Bare (.array items)
  | dictionary {entries : List (CText × Dobject CText δ)}
      (keys : ∀ entry ∈ entries, Json.PlainText entry.1.bytes)
      (each : ∀ entry ∈ entries, Bare entry.2) : Bare (.dictionary entries)

variable {lf}

/-! ## The text by hand is the one without escapes -/

theorem arrayToString_eq {items : List (Dobject CText δ)}
    (each : ∀ item ∈ items, quoted item (stringValue lf item) = Json.raw (valueOf lf item))
    (first : Bool) : arrayToString lf first items = Json.rawItems first (valuesOf lf items) := by
  induction items generalizing first with
  | nil => rfl
  | cons item items ih =>
      obtain ⟨one, others⟩ := List.forall_mem_cons.mp each
      rw [arrayToString, valuesOf, Json.rawItems, one, ih others]

theorem dictionaryToString_eq {entries : List (CText × Dobject CText δ)}
    (each : ∀ entry ∈ entries,
      quoted entry.2 (stringValue lf entry.2) = Json.raw (valueOf lf entry.2)) (first : Bool) :
    dictionaryToString lf first entries = Json.rawMembers first (membersOf lf entries) := by
  induction entries generalizing first with
  | nil => rfl
  | cons entry entries ih =>
      obtain ⟨one, others⟩ := List.forall_mem_cons.mp each
      rw [dictionaryToString, membersOf, Json.rawMembers, one, ih others]

theorem quoted_eq {obj : Dobject CText δ} (plain : Plain obj) :
    quoted obj (stringValue lf obj) = Json.raw (valueOf lf obj) := by
  induction plain with
  | bool | integer | string => rfl
  | array each ih => rw [quoted, stringValue, valueOf, Json.raw, arrayToString_eq ih]; rintro _ ⟨⟩
  | dictionary distinct each ih =>
      rw [quoted, stringValue, valueOf, Json.raw, dictionaryToString_eq ih]; rintro _ ⟨⟩

/-! ## The tree of the library has the same value -/

theorem made_valueOf_iff {obj : Dobject CText δ} (plain : Plain obj) :
    Json.Made Json.PlainText (valueOf lf obj) ↔ Bare obj := by
  induction plain with
  | bool value => exact iff_of_true (.bool value) (.bool value)
  | integer value => exact iff_of_true (.int _) (.integer value)
  | string value =>
      exact ⟨fun | .string plain => .string plain, fun | .string plain => .string plain⟩
  | array each ih =>
      rw [valueOf, valuesOf_eq]
      constructor
      · rintro (_ | _ | _ | _ | made)
        exact .array fun item member =>
          (ih item member).mp (made _ (List.mem_map_of_mem member))
      · rintro (_ | _ | _ | _ | _ | bare)
        exact .array (List.forall_mem_map.mpr fun item member =>
          (ih item member).mpr (bare item member))
  | dictionary distinct each ih =>
      rw [valueOf, membersOf_eq]
      constructor
      · rintro (_ | _ | _ | _ | _ | ⟨keys, made⟩)
        exact .dictionary (fun entry member => keys _ (List.mem_map_of_mem member))
          fun entry member => (ih entry member).mp (made _ (List.mem_map_of_mem member))
      · rintro (_ | _ | _ | _ | _ | _ | ⟨keys, bare⟩)
        exact .object (List.forall_mem_map.mpr keys) (List.forall_mem_map.mpr fun entry member =>
          (ih entry member).mpr (bare entry member))

/-- Values other than null have no number with a fraction. -/
theorem made_valueOf {obj : Dobject CText δ} (plain : Plain obj) :
    Json.Made (fun _ => True) (valueOf lf obj) := by
  induction plain with
  | bool value => exact .bool value
  | integer value => exact .int _
  | string value => exact .string trivial
  | array each ih =>
      rw [valueOf, valuesOf_eq]
      exact .array (List.forall_mem_map.mpr ih)
  | dictionary distinct each ih =>
      rw [valueOf, membersOf_eq]
      exact .object (fun _ _ => trivial) (List.forall_mem_map.mpr ih)

/-- Arrays whose elements are the same. -/
theorem same_array {items : List (Dobject CText δ)} {values : List (JsonValue CText δ)}
    (each : List.Forall₂ (fun item value => Json.Same (valueOf lf item) (ofTree lf value))
      items values) : Json.Same (.array (valuesOf lf items)) (.array (ofTrees lf values)) := by
  rw [valuesOf_eq, ofTrees_eq]
  refine .array (by simpa using each.length_eq) fun i item other found found' => ?_
  rw [List.getElem?_map, Option.map_eq_some_iff] at found found'
  obtain ⟨obj, here, rfl⟩ := found
  obtain ⟨value, here', rfl⟩ := found'
  obtain ⟨inside, rfl⟩ := List.getElem?_eq_some_iff.mp here
  obtain ⟨inside', rfl⟩ := List.getElem?_eq_some_iff.mp here'
  exact each.get inside inside'

/-- Objects whose members are the same in some order. -/
theorem same_object {entries : List (CText × Dobject CText δ)}
    {images members : List (CText × JsonValue CText δ)}
    (each : List.Forall₂ (fun entry image => entry.1 = image.1 ∧
      Json.Same (valueOf lf entry.2) (ofTree lf image.2)) entries images)
    (perm : images.Perm members) :
    Json.Same (.object (membersOf lf entries)) (.object (ofMembers lf members)) := by
  have turned : Relation.Comp List.Perm (List.Forall₂ fun entry image => entry.1 = image.1 ∧
      Json.Same (valueOf lf entry.2) (ofTree lf image.2)) entries members := by
    rw [← List.forall₂_comp_perm_eq_perm_comp_forall₂]
    exact ⟨images, each, perm⟩
  obtain ⟨middle, moved, pairs⟩ := turned
  rw [membersOf_eq, ofMembers_eq]
  refine .object (moved.map _) ?_ fun i entry other found found' => ?_
  · rw [List.map_map, List.map_map]
    refine Json.map_eq_of_each pairs.length_eq fun i entry image here here' => ?_
    obtain ⟨inside, rfl⟩ := List.getElem?_eq_some_iff.mp here
    obtain ⟨inside', rfl⟩ := List.getElem?_eq_some_iff.mp here'
    exact congrArg CText.bytes (pairs.get inside inside').1
  · rw [List.getElem?_map, Option.map_eq_some_iff] at found found'
    obtain ⟨pair, here, rfl⟩ := found
    obtain ⟨image, here', rfl⟩ := found'
    obtain ⟨inside, rfl⟩ := List.getElem?_eq_some_iff.mp here
    obtain ⟨inside', rfl⟩ := List.getElem?_eq_some_iff.mp here'
    exact (pairs.get inside inside').2

/-- **The tree of the library.** Where no array and no dictionary is empty, the tree that `djson`
builds has the value of the one it is built from. -/
theorem same_tree {obj : Dobject CText δ} (plain : Plain obj) (full : Full obj) :
    ∃ value, toJv obj = some value ∧ Json.Same (valueOf lf obj) (ofTree lf value) := by
  induction plain with
  | bool value => exact ⟨_, rfl, .bool value⟩
  | integer value => exact ⟨_, rfl, .int _⟩
  | string value => exact ⟨_, rfl, .string _⟩
  | array each ih =>
      rename_i items
      cases full with
      | array nonempty full =>
          obtain ⟨item, items, rfl⟩ := List.exists_cons_of_ne_nil nonempty
          obtain ⟨value, written⟩ :=
            Option.isSome_iff_exists.mp (each item List.mem_cons_self).toJv_isSome
          refine ⟨_, congrArg some (array2jv_cons written items), same_array ?_⟩
          have images := forall₂_filterMap fun obj member => (each obj member).toJv_isSome
          refine ((List.forall₂_and_left _ _).mpr ⟨fun _ => id, images⟩).imp ?_
          rintro obj image ⟨member, found⟩
          obtain ⟨other, known, same⟩ := ih obj member (full obj member)
          exact Option.some.inj (found.symm.trans known) ▸ same
  | dictionary distinct each ih =>
      rename_i entries
      cases full with
      | dictionary nonempty full =>
          obtain ⟨entry, entries, rfl⟩ := List.exists_cons_of_ne_nil nonempty
          obtain ⟨value, written⟩ :=
            Option.isSome_iff_exists.mp (each entry List.mem_cons_self).toJv_isSome
          have perm : (Assoc.fillAll Assoc.place toJv [] (entry :: entries)).Perm
              ((entry :: entries).filterMap (fun entry => (toJv entry.2).map (Prod.mk entry.1)) ++
                []) := Assoc.perm_fillAll distinct (by simp)
          rw [List.append_nil] at perm
          refine ⟨_, congrArg some (dict2jv_cons written entries), same_object ?_ perm.symm⟩
          have images : List.Forall₂
              (fun entry image => (toJv entry.2).map (Prod.mk entry.1) = some image)
              (entry :: entries)
              ((entry :: entries).filterMap fun entry => (toJv entry.2).map (Prod.mk entry.1)) :=
            forall₂_filterMap fun entry member => by simpa using (each entry member).toJv_isSome
          refine ((List.forall₂_and_left _ _).mpr ⟨fun _ => id, images⟩).imp ?_
          rintro obj image ⟨member, found⟩
          obtain ⟨_, written, rfl⟩ := Option.map_eq_some_iff.mp found
          obtain ⟨other, known, same⟩ := ih obj member (full obj member)
          exact ⟨rfl, Option.some.inj (written.symm.trans known) ▸ same⟩

/-- The two texts of a dictionary, in which no array and no dictionary is empty, agree exactly if
there is something in it and nothing in it has to be escaped. -/
theorem writers_agree_iff {library : Library CText δ (List UInt8)}
    {dict : List (CText × Dobject CText δ)} (plain : Plain (.dictionary dict))
    (full : ∀ entry ∈ dict, Full entry.2) (emits : Emits lf library dict) :
    Agree lf library dict ↔ dict ≠ [] ∧ Bare (.dictionary dict) := by
  have text : toString lf dict = Json.raw (valueOf lf (.dictionary dict)) := quoted_eq plain
  by_cases empty : dict = []
  · subst empty
    refine iff_of_false ?_ (fun both => both.1 rfl)
    rintro ⟨value, other, read, read', same⟩
    obtain rfl := Option.some.inj (read'.symm.trans emits)
    have braces : Json.parse (toString lf []) = some (.object []) := by rw [text]; rfl
    obtain rfl := Option.some.inj (read.symm.trans braces)
    exact nomatch same
  · have same : Json.Same (valueOf lf (.dictionary dict)) (ofTree lf (dict2jv .null dict)) := by
      obtain ⟨tree, written, same⟩ := same_tree plain (.dictionary empty full)
      exact Option.some.inj written ▸ same
    have bare : Json.Made Json.PlainText (valueOf lf (.dictionary dict)) ↔ _ :=
      made_valueOf_iff plain
    constructor
    · rintro ⟨value, other, read, read', same'⟩
      obtain rfl := Option.some.inj (read'.symm.trans emits)
      have made := same'.made_iff.mpr (same.made_iff.mp (made_valueOf plain))
      have short : (toString lf dict).length ≤ (Json.raw value).length := by
        rw [text, same.length_raw, same'.length_raw]
      have unescaped := Json.plain_of_parse read made short
      exact ⟨empty, bare.mp (same.made_iff.mpr (same'.made_iff.mp unescaped))⟩
    · rintro ⟨_, plain⟩
      exact ⟨_, _, text ▸ Json.parse_raw (bare.mpr plain), emits, same⟩

/-- The string `a`. -/
def letter : CText := ⟨[97], by simp⟩

/-- The string that is a quote. -/
def quote : CText := ⟨[34], by simp⟩

/-- A library that writes one text. -/
def writing (text : List UInt8) : Library CText Empty (List UInt8) :=
  ⟨fun _ => text, fun _ => none, letter⟩

/-- The dictionary with a number under the key `a`, which the library writes as `{"a":1}`. -/
theorem writers_agree_number :
    Agree nofun (writing [123, 34, 97, 34, 58, 49, 125, 10]) [(letter, .integer 1)] := by
  have bare : Bare (.dictionary [(letter, (.integer 1 : Dobject CText Empty))]) := by
    refine .dictionary ?_ ?_
    · simp [letter, Json.PlainText, Json.isPlain]
    · simpa using .integer 1
  have emits : Emits nofun (writing [123, 34, 97, 34, 58, 49, 125, 10]) [(letter, .integer 1)] :=
    rfl
  exact (writers_agree_iff (.dictionary (by simp) (by simpa using .integer 1))
    (by simpa using .integer 1) emits).mpr ⟨by simp, bare⟩

/-- The dictionary with a quote under the key `a`, which the library writes as `{"a":"\""}`. -/
theorem writers_disagree_quote :
    Plain (.dictionary [(letter, (.string quote : Dobject CText Empty))]) ∧
      (∀ entry ∈ [(letter, (.string quote : Dobject CText Empty))], Full entry.2) ∧
      Emits nofun (writing [123, 34, 97, 34, 58, 34, 92, 34, 34, 125, 10])
        [(letter, .string quote)] ∧
      ¬ Agree nofun (writing [123, 34, 97, 34, 58, 34, 92, 34, 34, 125, 10])
        [(letter, .string quote)] := by
  refine ⟨.dictionary (by simp) (by simpa using .string _), by simpa using .string _, rfl, ?_⟩
  rintro ⟨value, _, read, _⟩
  have broken :
      Json.parse (toString nofun [(letter, (.string quote : Dobject CText Empty))]) = none := rfl
  exact nomatch broken.symm.trans read

end DictionaryText

end Cube.Base
