import Mathlib.Data.List.Nodup
import Mathlib.Tactic.SplitIfs
import Cube.Eco.ConfigPaths

/-! # The index of a configuration

In a tree whose names are distinct, the index holds under the text of a path the value of the
node at the path, or of the property that the last name on it is the key of.
-/

namespace Cube.Eco

/-! ## Texts of paths -/

/-- A path with a text that is not empty, or the empty path. -/
def Rooted (path : List CString) : Prop := path.head? ≠ some []

theorem Rooted.append {path : List CString} (rooted : Rooted path) {name : CString}
    (named : path = [] → name ≠ []) : Rooted (path ++ [name]) := by
  cases path with
  | nil => exact fun empty => named rfl (Option.some.inj empty)
  | cons first path => exact rooted

theorem pathKey_ne_nil {path : List CString} (rooted : Rooted path) (some : path ≠ []) :
    pathKey path ≠ [] := by
  cases path with
  | nil => exact absurd rfl some
  | cons name path =>
      have named : name ≠ [] := fun empty => rooted (congrArg Option.some empty)
      cases path with
      | nil =>
          rw [pathKey_singleton]
          exact named
      | cons next path =>
          rw [pathKey_cons_cons]
          exact List.append_ne_nil_of_left_ne_nil named _

theorem pathKey_append {path : List CString} (some : path ≠ []) (name : CString) :
    pathKey (path ++ [name]) = pathKey path ++ '/' :: name := by
  induction path with
  | nil => exact absurd rfl some
  | cons first path ih =>
      cases path with
      | nil => rw [List.singleton_append, pathKey_cons_cons, pathKey_singleton, pathKey_singleton]
      | cons next path =>
          have rest := ih (List.cons_ne_nil _ _)
          rw [List.cons_append, List.cons_append, pathKey_cons_cons, ← List.cons_append, rest,
            pathKey_cons_cons, List.append_assoc]
          rfl

/-- **Sub paths.** `sub_path` appends a name to a path. -/
theorem subPath_pathKey {path : List CString} (rooted : Rooted path) (name : CString) :
    subPath (pathKey path) name = pathKey (path ++ [name]) := by
  by_cases none : path = []
  · rw [none, List.nil_append, pathKey_singleton]
    rfl
  · rw [subPath, if_pos (pathKey_ne_nil rooted none), pathKey_append none]

/-- The text of a path of plain names is the text of no other. -/
theorem pathKey_injective {first second : List CString} (plainFirst : ∀ name ∈ first, Plain name)
    (plainSecond : ∀ name ∈ second, Plain name) (someFirst : first ≠ []) (someSecond : second ≠ [])
    (same : pathKey first = pathKey second) : first = second := by
  rw [← List.splitOn_intercalate '/' plainFirst someFirst,
    ← List.splitOn_intercalate '/' plainSecond someSecond]
  exact congrArg (List.splitOn '/') same

/-! ## Trees with distinct names -/

mutual

/-- The names of the children and the keys of the properties of a node are distinct and plain,
and so they are below it. -/
def ContextNode.Distinct : ContextNode → Prop
  | .mk _ _ propertySet children =>
      (children.map ContextNode.name ++ propertySet.map Parameter.key).Nodup ∧
        (∀ name ∈ children.map ContextNode.name ++ propertySet.map Parameter.key, Plain name) ∧
        DistinctBelow children

def DistinctBelow : ContextNodeSet → Prop
  | [] => True
  | it :: children => it.Distinct ∧ DistinctBelow children

end

theorem DistinctBelow.mem {children : ContextNodeSet} (distinct : DistinctBelow children)
    {it : ContextNode} (member : it ∈ children) : it.Distinct := by
  induction children with
  | nil => cases member
  | cons first children ih =>
      rcases List.mem_cons.mp member with rfl | later
      · exact distinct.1
      · exact ih distinct.2 later

/-- What the index holds under a path below a node: the value of a node or of a property. -/
def indexedAt : List CString → ContextNode → Option Indexed
  | [], node => some ⟨node.value, false⟩
  | name :: path, node =>
      match node.child name with
      | some it => indexedAt path it
      | none => if path = [] then (node.propertySet.find name).map (⟨·, true⟩) else none

namespace Config

variable {data : IndexMap} {names path : List CString}

theorem set_same (key : CString) (value : Indexed) : data.set key value key = some value :=
  Function.update_self ..

theorem set_other {key other : CString} (value : Indexed) (different : other ≠ key) :
    data.set key value other = data other := Function.update_of_ne different ..

/-- The path of a node whose entries are made. -/
structure Leading (names : List CString) : Prop where
  rooted : Rooted names
  plain : ∀ name ∈ names, Plain name

theorem Leading.append (leading : Leading names) {name : CString} (plain : Plain name)
    (named : names = [] → name ≠ []) : Leading (names ++ [name]) where
  rooted := leading.rooted.append named
  plain other member := by
    rcases List.mem_append.mp member with before | last
    · exact leading.plain other before
    · rw [List.mem_singleton.mp last]
      exact plain

/-- A path that entries are looked up at. -/
structure Sought (path : List CString) : Prop where
  some : path ≠ []
  plain : ∀ name ∈ path, Plain name

theorem Sought.apart (sought : Sought path) (leading : Leading names) {name : CString}
    (plain : Plain name) (different : path ≠ names ++ [name]) :
    pathKey path ≠ subPath (pathKey names) name := by
  rw [subPath_pathKey leading.rooted]
  intro same
  refine different (pathKey_injective sought.plain (fun other member => ?_) sought.some
    (List.concat_ne_nil _ _) same)
  rcases List.mem_append.mp member with before | last
  · exact leading.plain other before
  · rw [List.mem_singleton.mp last]
    exact plain

theorem setupAttributes_other (sought : Sought path) (leading : Leading names)
    {context : Context} (plain : ∀ key ∈ context.map Parameter.key, Plain key)
    (apart : ∀ key ∈ context.map Parameter.key, path ≠ names ++ [key]) :
    setupAttributes data (pathKey names) context (pathKey path) = data (pathKey path) := by
  induction context generalizing data with
  | nil => rfl
  | cons att context ih =>
      rw [List.map_cons, List.forall_mem_cons] at plain apart
      rw [setupAttributes, ih plain.2 apart.2,
        set_other _ (sought.apart leading plain.1 apart.1)]

/-- Under the path of a property is its value. -/
theorem setupAttributes_key (leading : Leading names) {context : Context}
    (plain : ∀ key ∈ context.map Parameter.key, Plain key)
    (distinct : (context.map Parameter.key).Nodup) {key : CString}
    (sought : Sought (names ++ [key])) :
    setupAttributes data (pathKey names) context (pathKey (names ++ [key])) =
      ((context.find key).map (⟨·, true⟩)).or (data (pathKey (names ++ [key]))) := by
  induction context generalizing data with
  | nil => rfl
  | cons att context ih =>
      rw [List.map_cons, List.forall_mem_cons] at plain
      rw [List.map_cons, List.nodup_cons] at distinct
      rw [setupAttributes, Context.find]
      by_cases same : att.key = key
      · rw [List.find?_cons_of_pos (p := fun parameter => decide (Parameter.key parameter = key))
          (decide_eq_true same), setupAttributes_other sought leading plain.2, ← same,
          subPath_pathKey leading.rooted, set_same]
        · rfl
        · intro other member again
          have equal : [key] = [other] := List.append_cancel_left again
          rw [← List.singleton_inj.mp equal, ← same] at member
          exact distinct.1 member
      · have different : names ++ [key] ≠ names ++ [att.key] := fun again =>
          same (List.singleton_inj.mp (List.append_cancel_left again)).symm
        rw [List.find?_cons_of_neg (p := fun parameter => decide (Parameter.key parameter = key))
          (by rw [decide_eq_true_eq]; exact same), ih plain.2 distinct.2,
          set_other _ (sought.apart leading plain.1 different)]
        rfl

/-- The value of a node is under its path. -/
def setNode (data : IndexMap) (nodeName value : CString) : IndexMap :=
  if nodeName ≠ [] then data.set nodeName ⟨value, false⟩ else data

theorem setNode_other (sought : Sought path) (leading : Leading names) {name : CString}
    (plain : Plain name) (different : path ≠ names ++ [name]) (value : CString) :
    setNode data (subPath (pathKey names) name) value (pathKey path) = data (pathKey path) := by
  unfold setNode
  split_ifs with none
  · exact set_other _ (sought.apart leading plain different)
  · rfl

mutual

/-- A node makes entries under its path only. -/
theorem setupIndex_other {names : List CString} (sought : Sought path) (leading : Leading names)
    (data : IndexMap) : ∀ node : ContextNode, node.Distinct → Plain node.name →
      (names = [] → node.name ≠ []) → ¬ names ++ [node.name] <+: path →
      setupIndex data (pathKey names) node (pathKey path) = data (pathKey path)
  | .mk name value propertySet children, distinct, plain, named, apart => by
      obtain ⟨_, plainBelow, distinctBelow⟩ := distinct
      have below : Leading (names ++ [name]) := leading.append plain named
      replace apart : ¬ names ++ [name] <+: path := apart
      have different : path ≠ names ++ [name] := fun same => apart (same ▸ List.prefix_rfl)
      change setupChildren (setupAttributes (setNode data _ value) _ propertySet) _ children _ = _
      rw [subPath_pathKey leading.rooted, setupChildren_other sought below _ children distinctBelow
        (fun it member => plainBelow _ (List.mem_append_left _ (List.mem_map_of_mem member)))
        (fun none => absurd none (List.concat_ne_nil _ _))
        (fun it member inside => apart ((List.prefix_append _ _).trans inside)),
        setupAttributes_other sought below
          (fun key member => plainBelow key (List.mem_append_right _ member))
          (fun key member same => apart (same ▸ List.prefix_append _ _)),
        ← subPath_pathKey leading.rooted]
      exact setNode_other sought leading plain different value

theorem setupChildren_other {names : List CString} (sought : Sought path) (leading : Leading names)
    (data : IndexMap) : ∀ children : ContextNodeSet, DistinctBelow children →
      (∀ it ∈ children, Plain it.name) → (names = [] → ∀ it ∈ children, it.name ≠ []) →
      (∀ it ∈ children, ¬ names ++ [it.name] <+: path) →
      setupChildren data (pathKey names) children (pathKey path) = data (pathKey path)
  | [], _, _, _, _ => rfl
  | it :: children, distinct, plain, named, apart => by
      rw [setupChildren, setupChildren_other sought leading _ children distinct.2
        (fun other member => plain other (List.mem_cons_of_mem _ member))
        (fun none other member => named none other (List.mem_cons_of_mem _ member))
        (fun other member => apart other (List.mem_cons_of_mem _ member)),
        setupIndex_other sought leading data it distinct.1 (plain it List.mem_cons_self)
          (fun none => named none it List.mem_cons_self) (apart it List.mem_cons_self)]

end

theorem setupIndex_eq (names : List CString) (rooted : Rooted names) (name value : CString)
    (propertySet : Context) (children : ContextNodeSet) :
    setupIndex data (pathKey names) (.mk name value propertySet children) =
      setupChildren (setupAttributes (setNode data (subPath (pathKey names) name) value)
        (pathKey (names ++ [name])) propertySet) (pathKey (names ++ [name])) children := by
  rw [← subPath_pathKey rooted]
  rfl

/-- Names on a path after the ones that lead to a node tell its children apart. -/
theorem not_prefix_of_ne {name other : CString} {rest : List CString} (different : other ≠ name) :
    ¬ names ++ [other] <+: names ++ name :: rest := by
  rw [List.prefix_append_right_inj, List.cons_prefix_cons]
  exact fun inside => different inside.1

mutual

/-- **The entries of a node.** Under its path and the paths below it is what the tree has there,
and if the tree has nothing, what was there before. -/
theorem setupIndex_under {names : List CString} (leading : Leading names) (data : IndexMap)
    (rest : List CString) : ∀ node : ContextNode, node.Distinct →
      (names = [] → node.name ≠ []) → Sought (names ++ node.name :: rest) →
      setupIndex data (pathKey names) node (pathKey (names ++ node.name :: rest)) =
        (indexedAt rest node).or (data (pathKey (names ++ node.name :: rest)))
  | .mk name value propertySet children, distinct, named, sought => by
      replace named : names = [] → name ≠ [] := named
      replace sought : Sought (names ++ name :: rest) := sought
      have plain : Plain name := sought.plain name
        (List.mem_append_right _ List.mem_cons_self)
      obtain ⟨distinctNames, plainBelow, distinctBelow⟩ := distinct
      have below : Leading (names ++ [name]) := leading.append plain named
      have plainKeys : ∀ key ∈ propertySet.map Parameter.key, Plain key :=
        fun key member => plainBelow key (List.mem_append_right _ member)
      have plainChildren : ∀ it ∈ children, Plain it.name := fun it member =>
        plainBelow _ (List.mem_append_left _ (List.mem_map_of_mem member))
      change setupIndex data _ _ (pathKey (names ++ name :: rest)) =
        (indexedAt rest _).or (data (pathKey (names ++ name :: rest)))
      rw [setupIndex_eq names leading.rooted]
      cases rest with
      | nil =>
          rw [setupChildren_other sought below _ children distinctBelow plainChildren
            (fun none => absurd none (List.concat_ne_nil _ _)) (fun it _ inside => ?_),
            setupAttributes_other sought below plainKeys (fun key _ same => ?_),
            subPath_pathKey leading.rooted, setNode,
            if_pos (pathKey_ne_nil below.rooted (List.concat_ne_nil _ _)), set_same]
          · rfl
          · exact List.cons_ne_nil key [] (List.append_right_eq_self.mp same.symm)
          · have shorter := inside.length_le
            rw [List.length_append, List.length_singleton] at shorter
            exact Nat.not_succ_le_self _ shorter
      | cons key rest =>
          have split : names ++ name :: key :: rest = (names ++ [name]) ++ key :: rest := by
            rw [List.append_assoc]
            rfl
          have node : setNode data (subPath (pathKey names) name) value
              (pathKey (names ++ name :: key :: rest)) =
                data (pathKey (names ++ name :: key :: rest)) :=
            setNode_other sought leading plain (fun same => List.cons_ne_nil _ _
              (List.cons.inj (List.append_cancel_left same)).2) value
          have nodup : (children.map ContextNode.name).Nodup ∧ (propertySet.map Parameter.key).Nodup :=
            ⟨distinctNames.of_append_left, distinctNames.of_append_right⟩
          rw [split] at sought node ⊢
          rw [setupChildren_under below _ key rest sought children distinctBelow nodup.1
            plainChildren (fun none => absurd none (List.concat_ne_nil _ _)), indexedAt,
            ContextNode.child, ContextNode.children]
          cases rest with
          | nil =>
              rw [setupAttributes_key below plainKeys nodup.2 sought, node]
              cases children.find? (ContextNode.hasName key) <;> rfl
          | cons next rest =>
              rw [setupAttributes_other sought below plainKeys, node]
              · cases children.find? (ContextNode.hasName key) <;> rfl
              · exact fun other _ same => List.cons_ne_nil _ _
                  (List.cons.inj (List.append_cancel_left same)).2

theorem setupChildren_under {names : List CString} (leading : Leading names) (data : IndexMap)
    (name : CString) (rest : List CString) (sought : Sought (names ++ name :: rest)) :
    ∀ children : ContextNodeSet, DistinctBelow children → (children.map ContextNode.name).Nodup →
      (∀ it ∈ children, Plain it.name) → (names = [] → ∀ it ∈ children, it.name ≠ []) →
      setupChildren data (pathKey names) children (pathKey (names ++ name :: rest)) =
        ((children.find? (ContextNode.hasName name)).bind (indexedAt rest)).or
          (data (pathKey (names ++ name :: rest)))
  | [], _, _, _, _ => rfl
  | it :: children, distinct, distinctNames, plain, named => by
      rw [List.map_cons, List.nodup_cons] at distinctNames
      rw [setupChildren]
      by_cases same : it.name = name
      · subst same
        rw [List.find?_cons_of_pos (ContextNode.hasName_iff.mpr rfl), Option.bind_some,
          setupChildren_other sought leading _ children distinct.2
            (fun other member => plain other (List.mem_cons_of_mem _ member))
            (fun none other member => named none other (List.mem_cons_of_mem _ member))
            (fun other member => not_prefix_of_ne fun equal =>
              distinctNames.1 (equal ▸ List.mem_map_of_mem member)),
          setupIndex_under leading data rest it distinct.1
            (fun none => named none it List.mem_cons_self) sought]
      · rw [List.find?_cons_of_neg (mt ContextNode.hasName_iff.mp same),
          setupChildren_under leading _ name rest sought children distinct.2 distinctNames.2
            (fun other member => plain other (List.mem_cons_of_mem _ member))
            (fun none other member => named none other (List.mem_cons_of_mem _ member)),
          setupIndex_other sought leading data it distinct.1 (plain it List.mem_cons_self)
            (fun none => named none it List.mem_cons_self) (not_prefix_of_ne same)]

end

end Config

/-! ## Values of properties -/

theorem ContextNode.Distinct.child {node it : ContextNode} {name : CString}
    (distinct : node.Distinct) (found : node.child name = some it) : it.Distinct := by
  cases node with
  | mk _ _ propertySet children => exact distinct.2.2.mem (List.mem_of_find?_eq_some found)

end Cube.Eco
