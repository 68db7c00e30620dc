import Cube.Eco.Persist.JoinedSql

/-! # When the SQL of joined tables is closed

The text of a join mapping reads as a closed select if and only if at most one table is joined,
and it shares a key with the main table: a second join is written into the name before it.
-/

namespace Cube.Eco.Persist

open SqlText

namespace JoinMapping

open Written

variable {dialect : Dialect} {mapping : JoinMapping}

/-- Every name in the mappings is a name. -/
def Named (mapping : JoinMapping) : Prop :=
  ∀ map ∈ mapping.main :: mapping.joined, map.Named

instance : Decidable mapping.Named :=
  inferInstanceAs (Decidable (∀ map ∈ mapping.main :: mapping.joined, map.Named))

/-- The table has a property that is a key of the main table. -/
def Shares (main map : ObjectMapping) : Prop :=
  ∃ it ∈ map.propMap, (main.findKey it.property).isSome = true

instance (main map : ObjectMapping) : Decidable (Shares main map) :=
  inferInstanceAs (Decidable (∃ it ∈ map.propMap, (main.findKey it.property).isSome = true))

/-- The written text in front of the given condition reads as a select that is closed, and the
tables have different letters as aliases. -/
structure WellFormed (dialect : Dialect) (mapping : JoinMapping) (condSql : Text) : Prop where
  letters : ∀ i ≤ mapping.joined.length, (charOf (getTableAlias i)).isAlpha = true
  differ : ∀ i ≤ mapping.joined.length, ∀ j ≤ mapping.joined.length, i ≠ j →
    aliasName i ≠ aliasName j
  reads : ∃ text, mapping.getSelectJoinSql condSql = .ok (text ++ given condSql) ∧
    ∃ select : Select, lex dialect text = some select.tokens ∧ select.Closed

/-! ## The intended select is named -/

theorem isName_letter {c : Char} (letter : c.isAlpha = true) : IsName [c] := by
  have long : ∀ keyword ∈ keywords, keyword.length ≠ 1 := by decide
  refine isName_iff.mpr ⟨List.cons_ne_nil _ _, ?_, fun isKeyword => long _ isKeyword rfl, ?_⟩
  · simp [isWordChar, Char.isAlphanum, letter]
  · simp only [List.head?_cons, Option.any_some, Char.isDigit, Bool.and_eq_true,
      decide_eq_true_eq, not_and]
    intro _ small
    rcases Bool.or_eq_true_iff.mp letter with upper | lower
    · have first := (of_decide_eq_true upper).1
      exact absurd (UInt32.le_trans first small) (by decide)
    · have first := of_decide_eq_true (Bool.and_eq_true_iff.mp lower).1
      exact absurd (UInt32.le_trans first small) (by decide)

theorem visible_of_letters
    (letters : ∀ i ≤ mapping.joined.length, (charOf (getTableAlias i)).isAlpha = true) :
    mapping.Visible := by
  intro i small zero
  have letter := letters i small
  rw [zero] at letter
  revert letter
  decide

theorem named_sharedKeys {main map : ObjectMapping} {i : Nat} (main_named : main.Named)
    (map_named : map.Named) (letter : IsName (aliasName i)) :
    ∀ both ∈ sharedKeys main map i, NamedMatch both := by
  intro both member
  obtain ⟨it, inside, shared⟩ := List.mem_filterMap.mp member
  obtain ⟨mainProp, found, rfl⟩ := Option.map_eq_some_iff.mp shared
  exact ⟨⟨letter, map_named.field it inside⟩,
    ⟨(by decide : IsName "A".toList), main_named.field mainProp (List.mem_of_find?_eq_some found)⟩⟩

theorem named_ownFields {map : ObjectMapping} {i : Nat} {mainTable : Option ObjectMapping}
    (named : map.Named) (letter : IsName (aliasName i)) :
    ∀ each ∈ ownFields map i mainTable, NamedColumn each := by
  intro each member
  obtain ⟨it, inside, rfl⟩ := List.mem_map.mp member
  exact ⟨letter, named.field it (List.mem_filter.mp inside).1⟩

theorem named_intended (named : mapping.Named)
    (letters : ∀ i ≤ mapping.joined.length, (charOf (getTableAlias i)).isAlpha = true) :
    NamedSelect mapping.intended := by
  have letter (i : Nat) (small : i ≤ mapping.joined.length) : IsName (aliasName i) :=
    isName_letter (letters i small)
  have main_named := named mapping.main List.mem_cons_self
  refine ⟨?_, main_named.table, letter 0 (Nat.zero_le _), ?_⟩
  · rw [intended, List.forall_mem_append]
    refine ⟨named_ownFields main_named (letter 0 (Nat.zero_le _)), ?_⟩
    intro each member
    obtain ⟨⟨map, i⟩, inside, own⟩ := List.mem_flatMap.mp member
    obtain ⟨joined, -, small⟩ := mem_positioned inside
    exact named_ownFields (named map (List.mem_cons_of_mem _ joined)) (letter i small) each own
  · intro written member
    obtain ⟨⟨map, i⟩, inside, rfl⟩ := List.mem_map.mp (List.mem_filter.mp member).1
    obtain ⟨joined, -, small⟩ := mem_positioned inside
    have map_named := named map (List.mem_cons_of_mem _ joined)
    exact ⟨map_named.table, letter i small,
      named_sharedKeys main_named map_named (letter i small)⟩

/-! ## The tables that share a key -/

theorem shares_iff {main map : ObjectMapping} {i : Nat} :
    Shares main map ↔ sharedKeys main map i ≠ [] := by
  unfold Shares sharedKeys
  rw [Ne, List.filterMap_eq_nil_iff]
  constructor
  · rintro ⟨it, inside, key⟩ none
    obtain ⟨mainProp, found⟩ := Option.isSome_iff_exists.mp key
    have := none it inside
    rw [sharedKey, found] at this
    cases this
  · intro some_key
    by_contra none
    refine some_key fun it inside => ?_
    cases key : main.findKey it.property with
    | none => rw [sharedKey, key]; rfl
    | some mainProp => exact (none ⟨it, inside, by rw [key]; rfl⟩).elim

theorem length_joins_le (mapping : JoinMapping) :
    mapping.joins.length ≤ mapping.joined.length :=
  calc mapping.joins.length
    _ ≤ (mapping.positioned.map _).length := List.length_filter_le _ _
    _ = mapping.joined.length := by rw [List.length_map, positioned, List.length_zipIdx]

/-- Where every table shares a key, all of them are joined. -/
theorem joins_of_shares (shares : ∀ map ∈ mapping.joined, Shares mapping.main map) :
    mapping.joins = mapping.positioned.map fun (map, i) => join mapping.main map i := by
  apply List.filter_eq_self.mpr
  intro written member
  obtain ⟨⟨map, i⟩, inside, rfl⟩ := List.mem_map.mp member
  have some_key : sharedKeys mapping.main map i ≠ [] :=
    shares_iff.mp (shares map (mem_positioned inside).1)
  simp [join, some_key]

/-! ## The tokens that are read -/

theorem tokensOf_select (written : Select) : tokensOf (Written.select written) =
    Select.front written.fields ++ keyword "from" ::
      ([.name written.table, keyword "as", .name written.tableAlias] ++
        tokensOf (if written.joins = [] then [.fixed [' '] []]
          else .fixed " inner join ".toList [keyword "inner", keyword "join"] ::
            chain written.joins)) := by
  have fields : tokensOf (listed (.fixed [','] [.symbol ',']) (written.fields.map column)) =
      [Token.symbol ','].intercalate (written.fields.map Column.tokens) := by
    rw [tokensOf_listed, List.map_map]
    rfl
  rw [Written.select, tokensOf_cons, tokensOf_append, fields, tokensOf_cons, tokensOf_cons,
    tokensOf_cons, tokensOf_cons]
  rfl

/-- A single join is written as it is to be. -/
theorem tokensOf_select_of_le {written : Select}
    (conditions : ∀ join ∈ written.joins, join.on ≠ []) (single : written.joins.length ≤ 1) :
    tokensOf (Written.select written) = written.tokens := by
  rw [tokensOf_select, Select.tokens]
  rcases isJoins : written.joins with _ | ⟨join, _ | ⟨next, joins⟩⟩
  · rfl
  · have condition : join.on ≠ [] := conditions join (by rw [isJoins]; exact List.mem_cons_self)
    rw [if_neg (List.cons_ne_nil _ _), tokensOf_cons, chain, tokensOf_joinBody,
      List.flatMap_singleton, Join.tokens, onTokens, if_neg condition]
    rfl
  · rw [isJoins] at single
    simp at single

/-- Of several joins only the first is read as one. -/
theorem count_tokensOf_select {written : Select} {join next : Join} {joins : List Join}
    (isJoins : written.joins = join :: next :: joins) :
    (tokensOf (Written.select written)).count (keyword "inner") = 1 ∧
      (tokensOf (Written.select written)).count (keyword "join") = written.joins.length := by
  have inner := List.count_eq_zero.mpr (inner_not_mem_chain (join :: next :: joins))
  have joined := count_join_chain join (next :: joins)
  rw [tokensOf_select, isJoins, if_neg (List.cons_ne_nil _ _), tokensOf_cons]
  simp only [List.count_append, List.count_cons, Select.count_front (.inl rfl),
    Select.count_front (.inr rfl), inner, joined, Piece.tokens]
  refine ⟨by simp [keyword], ?_⟩
  simp [keyword]
  omega

/-! ## The aliases -/

theorem eq_of_positioned {first second : ObjectMapping} {i : Nat}
    (one : (first, i) ∈ mapping.positioned) (other : (second, i) ∈ mapping.positioned) :
    first = second := by
  obtain ⟨-, atOne⟩ := List.mk_mem_zipIdx_iff_le_and_getElem?_sub.mp one
  obtain ⟨-, atOther⟩ := List.mk_mem_zipIdx_iff_le_and_getElem?_sub.mp other
  exact Option.some_inj.mp (atOne.symm.trans atOther)

/-- A table that shares no key has its fields in the select list. -/
theorem field_of_not_shares {map : ObjectMapping} {i : Nat}
    (inside : (map, i) ∈ mapping.positioned) (mapped : map.propMap ≠ [])
    (apart : ¬ Shares mapping.main map) :
    aliasName i ∈ mapping.intended.fields.map Column.tableAlias := by
  obtain ⟨it, properties, cons⟩ := List.exists_cons_of_ne_nil mapped
  have member : it ∈ map.propMap := by
    rw [cons]
    exact List.mem_cons_self
  have unkeyed : (mapping.main.findKey it.property).isNone = true := by
    rw [← Option.not_isSome, Bool.not_eq_true', ← Bool.not_eq_true]
    exact fun key => apart ⟨it, member, key⟩
  have own : (⟨aliasName i, it.field⟩ : Column) ∈ ownFields map i (some mapping.main) :=
    List.mem_map.mpr ⟨it, List.mem_filter.mpr ⟨member, by simpa using unkeyed⟩, rfl⟩
  exact List.mem_map.mpr ⟨_, List.mem_append_right _ (List.mem_flatMap.mpr ⟨_, inside, own⟩), rfl⟩

/-- An alias that is introduced is that of the main table or of a table that shares a key. -/
theorem introduced_cases {name : Text} (introduced : name ∈ mapping.intended.introduced) :
    name = aliasName 0 ∨
      ∃ map i, (map, i) ∈ mapping.positioned ∧ Shares mapping.main map ∧ name = aliasName i := by
  rcases List.mem_cons.mp introduced with isMain | isJoined
  · exact .inl isMain
  · obtain ⟨written, member, rfl⟩ := List.mem_map.mp isJoined
    obtain ⟨inside, condition⟩ := List.mem_filter.mp member
    obtain ⟨⟨map, i⟩, positioned, rfl⟩ := List.mem_map.mp inside
    exact .inr ⟨map, i, positioned, shares_iff.mpr (of_decide_eq_true condition), rfl⟩

/-- An alias that is used is that of the main table or of a joined table. -/
theorem used_cases {name : Text} (used : name ∈ mapping.intended.used) :
    name = aliasName 0 ∨ ∃ i, 1 ≤ i ∧ i ≤ mapping.joined.length ∧ name = aliasName i := by
  rcases List.mem_append.mp used with inFields | inJoins
  · obtain ⟨named, member, rfl⟩ := List.mem_map.mp inFields
    rcases List.mem_append.mp member with ofMain | ofJoined
    · obtain ⟨it, -, rfl⟩ := List.mem_map.mp ofMain
      exact .inl rfl
    · obtain ⟨⟨map, i⟩, inside, own⟩ := List.mem_flatMap.mp ofJoined
      obtain ⟨it, -, rfl⟩ := List.mem_map.mp own
      obtain ⟨-, first, last⟩ := mem_positioned inside
      exact .inr ⟨i, first, last, rfl⟩
  · obtain ⟨written, member, inOn⟩ := List.mem_flatMap.mp inJoins
    obtain ⟨⟨map, i⟩, inside, rfl⟩ := List.mem_map.mp (List.mem_filter.mp member).1
    obtain ⟨both, shared, side⟩ := List.mem_flatMap.mp inOn
    obtain ⟨it, -, key⟩ := List.mem_filterMap.mp shared
    obtain ⟨mainProp, -, rfl⟩ := Option.map_eq_some_iff.mp key
    obtain ⟨-, first, last⟩ := mem_positioned inside
    rcases List.mem_cons.mp side with isLeft | isRight
    · exact .inr ⟨i, first, last, isLeft⟩
    · exact .inl (List.mem_singleton.mp isRight)

theorem length_joins_of_tokens {first second : Select} (same : first.tokens = second.tokens) :
    first.joins.length = second.joins.length := by
  rw [← Select.count_tokens (.inl rfl), same, Select.count_tokens (.inl rfl)]

/-- A select with the tokens of one that joins at most one table introduces the same aliases. -/
theorem introduced_of_tokens {first second : Select} (single : first.joins.length ≤ 1)
    (same : first.tokens = second.tokens) : second.introduced = first.introduced := by
  obtain ⟨-, aliases, tokens⟩ := Select.eq_of_tokens same
  have lengths := length_joins_of_tokens same
  match isFirst : first.joins, isSecond : second.joins with
  | [], [] => rw [Select.introduced, Select.introduced, isFirst, isSecond, aliases]
  | [join], [other] =>
      rw [isFirst, isSecond, List.flatMap_singleton, List.flatMap_singleton] at tokens
      rw [Select.introduced, Select.introduced, isFirst, isSecond, aliases, List.map_singleton,
        List.map_singleton, Join.alias_of_tokens tokens]
  | [], _ :: _ => simp [isFirst, isSecond] at lengths
  | [_], [] => simp [isFirst, isSecond] at lengths
  | [_], _ :: _ :: _ => simp [isFirst, isSecond] at lengths
  | _ :: _ :: _, _ => simp [isFirst] at single

/-- A closed select with the tokens of the intended one: every table shares a key. -/
theorem shares_of_closed {select : Select} (mapped : mapping.Mapped)
    (differ : ∀ i ≤ mapping.joined.length, ∀ j ≤ mapping.joined.length, i ≠ j →
      aliasName i ≠ aliasName j)
    (single : mapping.joins.length ≤ 1) (same : mapping.intended.tokens = select.tokens)
    (closed : select.Closed) : ∀ map ∈ mapping.joined, Shares mapping.main map := by
  intro map member
  by_contra apart
  have joined := member
  rw [← List.zipIdx_map_fst 1 mapping.joined] at joined
  obtain ⟨⟨map, i⟩, inside, rfl⟩ := List.mem_map.mp joined
  obtain ⟨-, first, last⟩ := mem_positioned inside
  obtain ⟨fields, -, -⟩ := Select.eq_of_tokens same
  have inFields := field_of_not_shares inside (mapped map (List.mem_cons_of_mem _ member)) apart
  rw [fields] at inFields
  have once := closed.once _ (List.mem_append_left _ inFields)
  have introduced : aliasName i ∈ mapping.intended.introduced := by
    rw [← introduced_of_tokens single same, ← List.count_pos_iff, once]
    exact Nat.one_pos
  rcases introduced_cases introduced with isMain | ⟨other, j, otherInside, shares, isJoined⟩
  · exact differ i last 0 (Nat.zero_le _) (by omega) isMain
  · by_cases position : i = j
    · subst position
      exact apart (eq_of_positioned otherInside inside ▸ shares)
    · exact differ i last j (mem_positioned otherInside).2.2 position isJoined

/-- With at most one joined table, and a key for it, the intended select is closed. -/
theorem closed_intended (few : mapping.joined.length ≤ 1)
    (shares : ∀ map ∈ mapping.joined, Shares mapping.main map) : mapping.intended.Closed := by
  refine ⟨?_, joins_conditions mapping⟩
  intro name used
  have introduced : mapping.intended.introduced =
      aliasName 0 :: mapping.positioned.map fun (_, i) => aliasName i := by
    rw [Select.introduced, intended, joins_of_shares shares, List.map_map]
    rfl
  rw [introduced, positioned]
  match isJoined : mapping.joined with
  | [] =>
      rcases used_cases used with rfl | ⟨i, first, last, -⟩
      · rfl
      · rw [isJoined, List.length_nil] at last
        omega
  | [map] =>
      rcases used_cases used with rfl | ⟨i, first, last, rfl⟩
      · exact (by decide : [aliasName 0, aliasName 1].count (aliasName 0) = 1)
      · rw [isJoined, List.length_singleton] at last
        obtain rfl : i = 1 := by omega
        exact (by decide : [aliasName 0, aliasName 1].count (aliasName 1) = 1)
  | _ :: _ :: _ => simp [isJoined] at few

theorem of_wellFormed (named : mapping.Named) {condSql : Text}
    (wellFormed : WellFormed dialect mapping condSql) :
    mapping.Mapped ∧ mapping.joined.length ≤ 1 ∧
      ∀ map ∈ mapping.joined, Shares mapping.main map := by
  obtain ⟨letters, differ, text, written, select, reads, closed⟩ := wellFormed
  have mapped := getSelectJoinSql_mapped written
  rw [getSelectJoinSql_eq mapped (visible_of_letters letters), Except.ok.injEq,
    List.append_left_inj] at written
  subst written
  have sound : ∀ piece ∈ Written.select mapping.intended, piece.Sound dialect :=
    Written.sound_select (named_intended named letters)
  have readsIntended := (lex_pieces (Written.fits_select mapping.intended)).mpr sound
  have same : tokensOf (Written.select mapping.intended) = select.tokens :=
    Option.some_inj.mp (readsIntended.symm.trans reads)
  have single : mapping.joins.length ≤ 1 := by
    match isJoins : mapping.joins with
    | [] => exact Nat.zero_le _
    | [_] => exact Nat.le_refl _
    | join :: next :: joins =>
        -- the joins behind the first are read without their `inner`
        obtain ⟨inner, joined⟩ := count_tokensOf_select
          (show mapping.intended.joins = _ from isJoins)
        rw [same, Select.count_tokens (.inl rfl)] at inner
        rw [same, Select.count_tokens (.inr rfl), inner] at joined
        have : mapping.intended.joins.length = joins.length + 2 := congrArg List.length isJoins
        omega
  rw [tokensOf_select_of_le (joins_conditions mapping) single] at same
  have shares := shares_of_closed mapped differ single same closed
  have lengths : mapping.joins.length = mapping.joined.length := by
    rw [joins_of_shares shares, List.length_map, positioned, List.length_zipIdx]
  exact ⟨mapped, lengths ▸ single, shares⟩

theorem wellFormed_of_few (named : mapping.Named) (mapped : mapping.Mapped)
    (few : mapping.joined.length ≤ 1)
    (shares : ∀ map ∈ mapping.joined, Shares mapping.main map) (condSql : Text) :
    WellFormed dialect mapping condSql := by
  have small : ∀ i ≤ mapping.joined.length, i = 0 ∨ i = 1 := fun i last => by omega
  have letters : ∀ i ≤ mapping.joined.length, (charOf (getTableAlias i)).isAlpha = true := by
    intro i last
    rcases small i last with rfl | rfl
    · decide
    · decide
  refine ⟨letters, ?_, textOf (Written.select mapping.intended),
    getSelectJoinSql_eq mapped (visible_of_letters letters) condSql, mapping.intended, ?_,
    closed_intended few shares⟩
  · intro i iLast j jLast different
    rcases small i iLast with rfl | rfl
    · rcases small j jLast with rfl | rfl
      · exact (different rfl).elim
      · decide
    · rcases small j jLast with rfl | rfl
      · decide
      · exact (different rfl).elim
  · have single : mapping.intended.joins.length ≤ 1 :=
      Nat.le_trans (length_joins_le mapping) few
    rw [← tokensOf_select_of_le (joins_conditions mapping) single,
      lex_pieces (Written.fits_select _)]
    exact Written.sound_select (named_intended named letters)

end JoinMapping

open JoinMapping

/-- The SQL of joined tables is well formed and closed if and only if every table has properties,
and at most one table is joined, which shares a key with the main table. -/
theorem wellFormed_iff {dialect : Dialect} {mapping : JoinMapping} (named : mapping.Named)
    (condSql : Text) : WellFormed dialect mapping condSql ↔
      mapping.Mapped ∧ mapping.joined.length ≤ 1 ∧
        ∀ map ∈ mapping.joined, Shares mapping.main map :=
  ⟨of_wellFormed named, fun ⟨mapped, few, shares⟩ =>
    wellFormed_of_few named mapped few shares condSql⟩

/-! ## A user with an account and an address -/

/-- A table with the key of a user and another field. -/
def userTable (table field : String) : ObjectMapping where
  id := table.toList
  table := table.toList
  propMap := [⟨"id".toList, "f_id".toList, 1⟩, ⟨field.toList, field.toList, 0⟩]

theorem wellFormed_account : WellFormed ⟨true⟩
    ⟨userTable "t_user" "f_name", [userTable "t_account" "f_balance"]⟩ [] :=
  (wellFormed_iff (by decide) []).mpr ⟨by decide, by decide, by decide⟩

/-- The second join is written into the name before it. -/
theorem account_and_address_not_wellFormed :
    Named ⟨userTable "t_user" "f_name",
      [userTable "t_account" "f_balance", userTable "t_address" "f_city"]⟩ ∧
    ∀ dialect condSql, ¬ WellFormed dialect ⟨userTable "t_user" "f_name",
      [userTable "t_account" "f_balance", userTable "t_address" "f_city"]⟩ condSql := by
  have named : Named ⟨userTable "t_user" "f_name",
      [userTable "t_account" "f_balance", userTable "t_address" "f_city"]⟩ := by decide
  refine ⟨named, ?_⟩
  intro dialect condSql wellFormed
  exact absurd (of_wellFormed named wellFormed).2.1 (by decide)

end Cube.Eco.Persist
