import Mathlib.Data.List.Nodup
import Mathlib.Logic.Function.Basic

/-! # Intrusive lists

Lists whose links are part of their nodes: a root cell holds the first node, each node has a
cell that holds the next one, and each node knows the cell that points to it. A node can be
part of several lists through separate links. What unlinking, appending and prepending do to
one list is established for a single list first and then for a family of lists that share
their nodes.
-/

namespace IntrusiveList

variable {σ ν : Type}

theorem filter_ne_of_notMem [DecidableEq ν] {nodes : List ν} {node : ν} (absent : node ∉ nodes) :
    nodes.filter (· ≠ node) = nodes := by
  refine List.filter_eq_self.mpr fun other member => ?_
  exact decide_eq_true fun same => absent (same ▸ member)

/-! ## One list -/

/-- The nodes of the list that starts at a cell. -/
def Linked (load : σ → Option ν) (prev : ν → Option σ) (next : ν → σ) : σ → List ν → Prop
  | cell, [] => load cell = none
  | cell, node :: nodes =>
      load cell = some node ∧ prev node = some cell ∧ Linked load prev next (next node) nodes

/-- The cell behind some nodes of the list that starts at a cell. -/
def cellAfter (next : ν → σ) : σ → List ν → σ
  | cell, [] => cell
  | _, node :: nodes => cellAfter next (next node) nodes

variable {load load' : σ → Option ν} {prev prev' : ν → Option σ} {next : ν → σ} {cell : σ}

theorem cellAfter_eq (next : ν → σ) (cell : σ) (nodes : List ν) :
    cellAfter next cell nodes = cell ∨ ∃ node ∈ nodes, cellAfter next cell nodes = next node := by
  induction nodes generalizing cell with
  | nil => exact .inl rfl
  | cons node nodes ih =>
      rcases ih (next node) with same | ⟨other, member, same⟩
      · exact .inr ⟨node, List.mem_cons_self, same⟩
      · exact .inr ⟨other, List.mem_cons_of_mem _ member, same⟩

theorem cellAfter_append_singleton (next : ν → σ) (cell : σ) (nodes : List ν) (node : ν) :
    cellAfter next cell (nodes ++ [node]) = next node := by
  induction nodes generalizing cell with
  | nil => rfl
  | cons first nodes ih => exact ih (next first)

theorem cellAfter_ne {nodes : List ν} {start : ν}
    (apart : ∀ node ∈ start :: nodes, next node ≠ cell) :
    cellAfter next (next start) nodes ≠ cell := by
  rcases cellAfter_eq next (next start) nodes with same | ⟨node, member, same⟩
  · rw [same]
    exact apart start List.mem_cons_self
  · rw [same]
    exact apart node (List.mem_cons_of_mem _ member)

/-- Set the cell that a node, if there is one, knows to point to it. -/
def relink [DecidableEq ν] (prev : ν → Option σ) (found : Option ν) (cell : Option σ) :
    ν → Option σ :=
  fun node => if found = some node then cell else prev node

section Relink

variable [DecidableEq ν] {found : Option ν} {node : ν} {pointing : Option σ}

theorem relink_of_eq (same : found = some node) :
    relink prev found pointing node = pointing := if_pos same

theorem relink_of_ne (different : found ≠ some node) :
    relink prev found pointing node = prev node := if_neg different

theorem relink_none : relink prev none pointing = prev := rfl

theorem relink_some : relink prev (some node) pointing = Function.update prev node pointing := by
  funext other
  by_cases same : other = node
  · rw [relink_of_eq (congrArg some same.symm), same, Function.update_self]
  · rw [relink_of_ne fun equal => same (Option.some.inj equal).symm, Function.update_of_ne same]

end Relink

namespace Linked

/-- A list does not change with the cells and nodes that are not its own. -/
theorem congr {nodes : List ν} (linked : Linked load prev next cell nodes)
    (sameFirst : load' cell = load cell)
    (sameNext : ∀ node ∈ nodes, load' (next node) = load (next node))
    (samePrev : ∀ node ∈ nodes, prev' node = prev node) : Linked load' prev' next cell nodes := by
  induction nodes generalizing cell with
  | nil => exact sameFirst.trans linked
  | cons node nodes ih =>
      obtain ⟨first, back, rest⟩ := linked
      refine ⟨sameFirst.trans first, (samePrev node List.mem_cons_self).trans back, ?_⟩
      exact ih rest (sameNext node List.mem_cons_self)
        (fun other member => sameNext other (List.mem_cons_of_mem _ member))
        (fun other member => samePrev other (List.mem_cons_of_mem _ member))

/-- The links around a node. -/
theorem around {front back : List ν} {node : ν}
    (linked : Linked load prev next cell (front ++ node :: back)) :
    prev node = some (cellAfter next cell front) ∧ load (next node) = back.head? := by
  induction front generalizing cell with
  | cons first front ih => exact ih linked.2.2
  | nil =>
      refine ⟨linked.2.1, ?_⟩
      cases back with
      | nil => exact linked.2.2
      | cons other back => exact linked.2.2.1

variable [DecidableEq σ] [DecidableEq ν]

/-- Point the cell before a node to the node after it. -/
theorem unlink {front back : List ν} {node : ν}
    (linked : Linked load prev next cell (front ++ node :: back))
    (nodup : (front ++ node :: back).Nodup) (injective : Function.Injective next)
    (apart : ∀ other ∈ front ++ node :: back, next other ≠ cell) :
    Linked (Function.update load (cellAfter next cell front) (load (next node)))
      (relink prev (load (next node)) (prev node)) next cell (front ++ back) := by
  induction front generalizing cell with
  | nil =>
      obtain ⟨_, back_cell, rest⟩ := linked
      cases back with
      | nil => exact (Function.update_self ..).trans rest
      | cons other back =>
          obtain ⟨following, _, later⟩ := rest
          have behind := (List.nodup_cons.mp (List.nodup_cons.mp nodup).2).1
          refine ⟨(Function.update_self ..).trans following, ?_, ?_⟩
          · rw [relink_of_eq following, back_cell]
          · refine later.congr (Function.update_of_ne (apart other ?_) ..)
              (fun node member => Function.update_of_ne (apart node ?_) ..)
              (fun node member => relink_of_ne fun same => behind ?_)
            · exact List.mem_cons_of_mem _ List.mem_cons_self
            · exact List.mem_cons_of_mem _ (List.mem_cons_of_mem _ member)
            · rw [following] at same
              exact Option.some.inj same ▸ member
  | cons first front ih =>
      obtain ⟨start, back_cell, rest⟩ := linked
      obtain ⟨fresh, restNodup⟩ := List.nodup_cons.mp nodup
      have inner := ih rest restNodup fun other member same =>
        fresh (injective same ▸ member)
      refine ⟨?_, ?_, inner⟩
      · have different : cellAfter next (next first) front ≠ cell :=
          cellAfter_ne fun other member => apart other (List.mem_cons.mpr
            ((List.mem_cons.mp member).imp id fun later => List.mem_append_left _ later))
        exact (Function.update_of_ne different.symm ..).trans start
      · refine (relink_of_ne ?_).trans back_cell
        rw [rest.around.2]
        intro same
        exact fresh (List.mem_append_right _ (List.mem_cons_of_mem _ (List.mem_of_head? same)))

/-- Point the last cell to a new node. -/
theorem append {nodes : List ν} {node : ν} (linked : Linked load prev next cell nodes)
    (absent : node ∉ nodes) (nodup : nodes.Nodup) (last : load (next node) = none)
    (injective : Function.Injective next)
    (apart : ∀ other ∈ node :: nodes, next other ≠ cell) :
    Linked (Function.update load (cellAfter next cell nodes) (some node))
      (Function.update prev node (some (cellAfter next cell nodes))) next cell
      (nodes ++ [node]) := by
  induction nodes generalizing cell with
  | nil =>
      refine ⟨Function.update_self .., Function.update_self .., ?_⟩
      exact (Function.update_of_ne (apart node List.mem_cons_self) ..).trans last
  | cons first nodes ih =>
      obtain ⟨start, back_cell, rest⟩ := linked
      have notFirst : node ≠ first := List.ne_of_not_mem_cons absent
      have notLater : node ∉ nodes := List.not_mem_of_not_mem_cons absent
      obtain ⟨fresh, restNodup⟩ := List.nodup_cons.mp nodup
      refine ⟨?_, ?_, ih rest notLater restNodup ?_⟩
      · have different : cellAfter next (next first) nodes ≠ cell :=
          cellAfter_ne fun other member => apart other (List.mem_cons_of_mem _ member)
        exact (Function.update_of_ne different.symm ..).trans start
      · exact (Function.update_of_ne (Ne.symm notFirst) ..).trans back_cell
      · intro other member same
        have equal := injective same
        rcases List.mem_cons.mp member with isNode | later
        · exact notFirst (isNode.symm.trans equal)
        · exact fresh (equal ▸ later)

/-- Put a new node in front. -/
theorem prepend {nodes : List ν} {node : ν} (linked : Linked load prev next cell nodes)
    (absent : node ∉ nodes) (nodup : nodes.Nodup) (injective : Function.Injective next)
    (apart : ∀ other ∈ node :: nodes, next other ≠ cell) :
    Linked (Function.update (Function.update load (next node) (load cell)) cell (some node))
      (Function.update (relink prev (load cell) (some (next node))) node (some cell)) next cell
      (node :: nodes) := by
  have ownCell : next node ≠ cell := apart node List.mem_cons_self
  refine ⟨Function.update_self .., Function.update_self .., ?_⟩
  have loaded : (Function.update (Function.update load (next node) (load cell)) cell (some node))
      (next node) = load cell :=
    (Function.update_of_ne ownCell ..).trans (Function.update_self ..)
  have kept {other : ν} (member : other ∈ nodes) :
      (Function.update (Function.update load (next node) (load cell)) cell (some node))
        (next other) = load (next other) := by
    have different : next other ≠ next node := fun same => absent (injective same ▸ member)
    rw [Function.update_of_ne (apart other (List.mem_cons_of_mem _ member)),
      Function.update_of_ne different]
  cases nodes with
  | nil => exact loaded.trans linked
  | cons first nodes =>
      obtain ⟨start, _, rest⟩ := linked
      have notFirst : first ≠ node := fun same => absent (same ▸ List.mem_cons_self)
      refine ⟨loaded.trans start, ?_, rest.congr (kept List.mem_cons_self)
        (fun other member => kept (List.mem_cons_of_mem _ member)) (fun other member => ?_)⟩
      · exact (Function.update_of_ne notFirst ..).trans (relink_of_eq start)
      · have notNode : other ≠ node := fun same =>
          absent (same ▸ List.mem_cons_of_mem _ member)
        have later : load cell ≠ some other := fun same => by
          rw [start] at same
          exact (List.nodup_cons.mp nodup).1 (Option.some.inj same ▸ member)
        exact (Function.update_of_ne notNode ..).trans (relink_of_ne later)

end Linked

/-! ## Lists that share nodes -/

section Family

variable {κ ι : Type} {next : κ → ν → σ} {side : ι → κ} {root : ι → σ} {content : ι → List ν}

/-- The cells of roots and nodes are different cells. -/
structure Layout (next : κ → ν → σ) (root : ι → σ) : Prop where
  next_injective : ∀ {k l : κ} {m n : ν}, next k m = next l n → k = l ∧ m = n
  root_injective : Function.Injective root
  root_ne_next : ∀ i k n, root i ≠ next k n

/-- A family of lists, each on one side of its nodes: a node is part of one list on a side. -/
structure Lists (load : σ → Option ν) (prev : κ → ν → Option σ) (next : κ → ν → σ)
    (side : ι → κ) (root : ι → σ) (content : ι → List ν) : Prop where
  linked : ∀ i, Linked load (prev (side i)) (next (side i)) (root i) (content i)
  nodup : ∀ i, (content i).Nodup
  apart : ∀ {i j}, side i = side j → ∀ {node}, node ∈ content i → node ∈ content j → i = j

variable {load load' : σ → Option ν} {prev prev' : κ → ν → Option σ}

namespace Lists

/-- The lists do not change with what is not part of them. -/
theorem congr (lists : Lists load prev next side root content)
    (sameRoot : ∀ i, load' (root i) = load (root i))
    (sameNext : ∀ i, ∀ node ∈ content i,
      load' (next (side i) node) = load (next (side i) node))
    (samePrev : ∀ i, ∀ node ∈ content i, prev' (side i) node = prev (side i) node) :
    Lists load' prev' next side root content where
  linked := fun i => (lists.linked i).congr (sameRoot i) (sameNext i) (samePrev i)
  nodup := lists.nodup
  apart := lists.apart

variable [DecidableEq ι]

/-- Change one list and nothing outside the nodes that the change touches. -/
theorem update (lists : Lists load prev next side root content) (layout : Layout next root) {i : ι}
    {nodes : List ν} (touched : List ν)
    (linked : Linked load' (prev' (side i)) (next (side i)) (root i) nodes)
    (nodup : nodes.Nodup) (own : ∀ node ∈ nodes, node ∈ touched)
    (untouched : ∀ {j}, side j = side i → ∀ node ∈ content j, node ∈ touched → j = i)
    (sameLoad : ∀ cell, cell ≠ root i → (∀ node ∈ touched, cell ≠ next (side i) node) →
      load' cell = load cell)
    (samePrev : ∀ k node, (k = side i → node ∉ touched) → prev' k node = prev k node) :
    Lists load' prev' next side root (Function.update content i nodes) := by
  have other {j : ι} (different : j ≠ i) : Function.update content i nodes j = content j :=
    Function.update_of_ne different ..
  refine ⟨fun j => ?_, fun j => ?_, ?_⟩
  · by_cases same : j = i
    · subst same
      rw [Function.update_self]
      exact linked
    · rw [other same]
      have apart {node : ν} (member : node ∈ content j) (sides : side j = side i) :
          node ∉ touched := fun touches => same (untouched sides node member touches)
      refine (lists.linked j).congr ?_ (fun node member => ?_) (fun node member => ?_)
      · exact sameLoad _ (fun equal => same (layout.root_injective equal))
          (fun node _ => layout.root_ne_next j _ node)
      · refine sameLoad _ (layout.root_ne_next i _ node).symm fun touches isTouched equal => ?_
        obtain ⟨sides, rfl⟩ := layout.next_injective equal
        exact apart member sides isTouched
      · exact samePrev _ node (apart member)
  · by_cases same : j = i
    · subst same
      rw [Function.update_self]
      exact nodup
    · rw [other same]
      exact lists.nodup j
  · intro j k sides node inJ inK
    by_cases first : j = i
    · by_cases second : k = i
      · rw [first, second]
      · subst first
        rw [Function.update_self] at inJ
        rw [other second] at inK
        exact (untouched sides.symm node inK (own node inJ)).symm
    · rw [other first] at inJ
      by_cases second : k = i
      · subst second
        rw [Function.update_self] at inK
        exact untouched sides node inJ (own node inK)
      · rw [other second] at inK
        exact lists.apart sides inJ inK

variable [DecidableEq σ] [DecidableEq ν] [DecidableEq κ]

/-- Unlinking a node from its list on a side leaves the other lists alone. -/
theorem unlink (lists : Lists load prev next side root content) (layout : Layout next root)
    {i : ι} {node : ν} (member : node ∈ content i) :
    ∃ before, prev (side i) node = some before ∧
      (before = root i ∨ ∃ other ∈ content i, other ≠ node ∧ before = next (side i) other) ∧
      (∀ other, load (next (side i) node) = some other → other ∈ content i ∧ other ≠ node) ∧
      Lists (Function.update load before (load (next (side i) node)))
        (Function.update prev (side i)
          (relink (prev (side i)) (load (next (side i) node)) (some before)))
        next side root (Function.update content i ((content i).filter (· ≠ node))) := by
  obtain ⟨front, back, split⟩ := List.append_of_mem member
  have linked := lists.linked i
  have nodup := lists.nodup i
  rw [split] at linked nodup
  obtain ⟨before, behind⟩ := linked.around
  have notFront : node ∉ front := fun inFront =>
    (List.nodup_append.mp nodup).2.2 node inFront node List.mem_cons_self rfl
  have notBack : node ∉ back := (List.nodup_cons.mp (List.nodup_append.mp nodup).2.1).1
  have remaining : (content i).filter (· ≠ node) = front ++ back := by
    rw [split, List.filter_append, List.filter_cons_of_neg (by simp),
      filter_ne_of_notMem notFront, filter_ne_of_notMem notBack]
  have beforeCell := cellAfter_eq (next (side i)) (root i) front
  have following {other : ν} (found : load (next (side i) node) = some other) :
      other ∈ content i ∧ other ≠ node := by
    have inBack : other ∈ back := List.mem_of_head? (behind.symm.trans found)
    refine ⟨?_, fun same => notBack (same ▸ inBack)⟩
    rw [split]
    exact List.mem_append_right _ (List.mem_cons_of_mem _ inBack)
  refine ⟨_, before, ?_, fun other found => following found, ?_⟩
  · refine beforeCell.imp id fun ⟨other, inFront, same⟩ => ⟨other, ?_, ?_, same⟩
    · rw [split]
      exact List.mem_append_left _ inFront
    · exact fun isNode => notFront (isNode ▸ inFront)
  · rw [remaining]
    have shorter : ∀ other ∈ front ++ back, other ∈ content i := by
      intro other inRemaining
      rw [← remaining] at inRemaining
      exact (List.mem_filter.mp inRemaining).1
    refine lists.update layout (content i) ?_ ?_ shorter
      (fun sides other inJ inI => lists.apart sides inJ inI) (fun cell notRoot notNext => ?_)
      (fun k other outside => ?_)
    · rw [Function.update_self, ← before]
      exact linked.unlink nodup (fun _ _ same => (layout.next_injective same).2)
        fun other _ => (layout.root_ne_next i (side i) other).symm
    · exact remaining ▸ (lists.nodup i).filter _
    · refine Function.update_of_ne (fun same => ?_) ..
      rcases beforeCell with isRoot | ⟨other, inFront, isNext⟩
      · exact notRoot (same.trans isRoot)
      · exact notNext other (shorter other (List.mem_append_left _ inFront)) (same.trans isNext)
    · by_cases sides : k = side i
      · rw [sides, Function.update_self]
        exact relink_of_ne fun found => outside sides (following found).1
      · rw [Function.update_of_ne sides]

/-- Appending a node to a list. -/
theorem append (lists : Lists load prev next side root content) (layout : Layout next root)
    {i : ι} {node : ν} (absent : ∀ j, side j = side i → node ∉ content j)
    (last : load (next (side i) node) = none) :
    Lists (Function.update load (cellAfter (next (side i)) (root i) (content i)) (some node))
      (Function.update prev (side i) (Function.update (prev (side i)) node
        (some (cellAfter (next (side i)) (root i) (content i)))))
      next side root (Function.update content i (content i ++ [node])) := by
  have inTouched : ∀ other ∈ content i ++ [node], other ∈ node :: content i := by
    intro other member
    exact List.mem_cons.mpr ((List.mem_append.mp member).symm.imp List.mem_singleton.mp id)
  refine lists.update layout (node :: content i) ?_ ?_ inTouched ?_ ?_ ?_
  · rw [Function.update_self]
    exact (lists.linked i).append (absent i rfl) (lists.nodup i) last
      (fun _ _ same => (layout.next_injective same).2)
      fun other _ => (layout.root_ne_next i (side i) other).symm
  · refine (lists.nodup i).append (List.nodup_singleton node) fun other member isNode => ?_
    exact absent i rfl (List.mem_singleton.mp isNode ▸ member)
  · intro j sides other inJ touches
    rcases List.mem_cons.mp touches with rfl | inI
    · exact (absent j sides inJ).elim
    · exact lists.apart sides inJ inI
  · intro cell notRoot notNext
    refine Function.update_of_ne (fun same => ?_) ..
    rcases cellAfter_eq (next (side i)) (root i) (content i) with isRoot | ⟨other, inI, isNext⟩
    · exact notRoot (same.trans isRoot)
    · exact notNext other (List.mem_cons_of_mem _ inI) (same.trans isNext)
  · intro k other outside
    by_cases sides : k = side i
    · rw [sides, Function.update_self]
      exact Function.update_of_ne (List.ne_of_not_mem_cons (outside sides)) ..
    · rw [Function.update_of_ne sides]

/-- Putting a node in front of a list. -/
theorem prepend (lists : Lists load prev next side root content) (layout : Layout next root)
    {i : ι} {node : ν} (absent : ∀ j, side j = side i → node ∉ content j) :
    Lists (Function.update (Function.update load (next (side i) node) (load (root i))) (root i)
        (some node))
      (Function.update prev (side i) (Function.update
        (relink (prev (side i)) (load (root i)) (some (next (side i) node))) node
        (some (root i))))
      next side root (Function.update content i (node :: content i)) := by
  refine lists.update layout (node :: content i) ?_ ?_ (fun _ member => member) ?_ ?_ ?_
  · rw [Function.update_self]
    exact (lists.linked i).prepend (absent i rfl) (lists.nodup i)
      (fun _ _ same => (layout.next_injective same).2)
      fun other _ => (layout.root_ne_next i (side i) other).symm
  · exact List.nodup_cons.mpr ⟨absent i rfl, lists.nodup i⟩
  · intro j sides other inJ touches
    rcases List.mem_cons.mp touches with rfl | inI
    · exact (absent j sides inJ).elim
    · exact lists.apart sides inJ inI
  · intro cell notRoot notNext
    rw [Function.update_of_ne notRoot, Function.update_of_ne (notNext node List.mem_cons_self)]
  · intro k other outside
    by_cases sides : k = side i
    · have notFirst : load (root i) ≠ some other := by
        intro first
        have linked := lists.linked i
        apply List.not_mem_of_not_mem_cons (outside sides)
        cases inI : content i with
        | nil =>
            rw [inI] at linked
            exact (Option.some_ne_none _ (first.symm.trans linked)).elim
        | cons start nodes =>
            rw [inI] at linked
            exact Option.some.inj (first.symm.trans linked.1) ▸ List.mem_cons_self
      rw [sides, Function.update_self,
        Function.update_of_ne (List.ne_of_not_mem_cons (outside sides)), relink_of_ne notFirst]
    · rw [Function.update_of_ne sides]

/-- Hanging a list on another cell. -/
theorem reroot (lists : Lists load prev next side root content) {i : ι} {first : ν} {rest : List ν}
    (split : content i = first :: rest) (cell : σ) (notNext : ∀ k node, next k node ≠ cell)
    (notRoot : ∀ j, j ≠ i → root j ≠ cell) :
    Lists (Function.update load cell (some first))
      (Function.update prev (side i) (Function.update (prev (side i)) first (some cell)))
      next side (Function.update root i cell) content := by
  have kept (k : κ) (node : ν) :
      Function.update load cell (some first) (next k node) = load (next k node) :=
    Function.update_of_ne (notNext k node) ..
  refine ⟨fun j => ?_, lists.nodup, lists.apart⟩
  by_cases same : j = i
  · subst same
    have linked := lists.linked j
    have nodup := lists.nodup j
    rw [split] at linked nodup ⊢
    rw [Function.update_self, Function.update_self]
    refine ⟨Function.update_self .., Function.update_self .., linked.2.2.congr (kept _ _)
      (fun node _ => kept _ node) fun node member => Function.update_of_ne ?_ ..⟩
    exact fun isFirst => (List.nodup_cons.mp nodup).1 (isFirst ▸ member)
  · rw [Function.update_of_ne same]
    refine (lists.linked j).congr (Function.update_of_ne (notRoot j same) ..)
      (fun node _ => kept _ node) fun node member => ?_
    by_cases sides : side j = side i
    · rw [sides, Function.update_self]
      refine Function.update_of_ne (fun isFirst => same (lists.apart sides member ?_)) ..
      rw [split, isFirst]
      exact List.mem_cons_self
    · rw [Function.update_of_ne sides]

omit [DecidableEq ν] [DecidableEq κ] in
/-- Hanging an empty list on another cell. -/
theorem reroot_empty (lists : Lists load prev next side root content) {newRoot : ι → σ}
    (layout : Layout next newRoot) {i : ι} (empty : content i = [])
    (sameRoot : ∀ j, j ≠ i → newRoot j = root j) :
    Lists (Function.update load (newRoot i) none) prev next side newRoot content := by
  have kept (k : κ) (node : ν) :
      Function.update load (newRoot i) none (next k node) = load (next k node) :=
    Function.update_of_ne (layout.root_ne_next i k node).symm ..
  refine ⟨fun j => ?_, lists.nodup, lists.apart⟩
  by_cases same : j = i
  · rw [same, empty]
    exact Function.update_self ..
  · refine Linked.congr (sameRoot j same ▸ lists.linked j) ?_ (fun node _ => kept _ node)
      fun _ _ => rfl
    exact Function.update_of_ne (fun equal => same (layout.root_injective equal)) ..

end Lists

end Family

end IntrusiveList
