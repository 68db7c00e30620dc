import Cube.Eco.Thread.SubscriptionLists
import Mathlib.Data.List.Perm.Subperm

/-! # Operations on topics and subscribers

The reservations that have been made and not removed say which nodes each list should have.
Every operation on a memory that represents reservations returns, and the memory represents
what the operation leaves of them.
-/

namespace Cube.Eco.Thread

open IntrusiveList

variable {T S : Type} [DecidableEq T] [DecidableEq S]

/-- A subscription that was reserved for a topic by a subscriber. -/
structure Reservation (T S : Type) where
  node : NodeId
  topic : T
  subscriber : S
  deriving DecidableEq, Repr

def Reservation.ownedBy (reservation : Reservation T S) : Owner T S → Bool
  | .inl topic => reservation.topic = topic
  | .inr subscriber => reservation.subscriber = subscriber

theorem Reservation.ownedBy_topic (r : Reservation T S) : r.ownedBy (.inl r.topic) :=
  decide_eq_true rfl

theorem Reservation.ownedBy_subscriber (r : Reservation T S) : r.ownedBy (.inr r.subscriber) :=
  decide_eq_true rfl

/-- The nodes that the list of an owner should have: those of a topic in the order of their
reservation, those of a subscriber in the opposite order. -/
def nodesOf (reserved : List (Reservation T S)) : Owner T S → List NodeId
  | .inl topic => (reserved.filter (·.ownedBy (.inl topic))).map (·.node)
  | .inr subscriber => ((reserved.filter (·.ownedBy (.inr subscriber))).map (·.node)).reverse

theorem mem_nodesOf {reserved : List (Reservation T S)} {owner : Owner T S} {node : NodeId} :
    node ∈ nodesOf reserved owner ↔ ∃ r ∈ reserved, r.ownedBy owner ∧ r.node = node := by
  have filtered : node ∈ (reserved.filter (·.ownedBy owner)).map (·.node) ↔
      ∃ r ∈ reserved, r.ownedBy owner ∧ r.node = node := by
    simp only [List.mem_map, List.mem_filter, and_assoc]
  cases owner with
  | inl topic => exact filtered
  | inr subscriber => exact List.mem_reverse.trans filtered

theorem nodesOf_filter_node (reserved : List (Reservation T S)) (this : NodeId)
    (owner : Owner T S) :
    nodesOf (reserved.filter (·.node ≠ this)) owner =
      (nodesOf reserved owner).filter (· ≠ this) := by
  have filtered : ((reserved.filter (·.node ≠ this)).filter (·.ownedBy owner)).map (·.node) =
      ((reserved.filter (·.ownedBy owner)).map (·.node)).filter (· ≠ this) := by
    rw [List.filter_map, List.filter_filter, List.filter_filter]
    refine congrArg _ (List.filter_congr fun r _ => ?_)
    exact Bool.and_comm _ _
  cases owner with
  | inl topic => exact filtered
  | inr subscriber => rw [nodesOf, filtered, nodesOf, List.filter_reverse]

/-- What a subscription says about its owners, and how often it is referred to. -/
def Memory.info (mem : Memory T S) (node : NodeId) : Option (Option T × Option S × UInt32) :=
  (mem.body node).map fun found => (found.topic, found.subscriber, found.ref)

/-- The memory represents the reservations: its lists have their nodes, and each of these is
referred to by its lists and by whoever holds it. -/
structure Represents (mem : Memory T S) (root : Owner T S → Slot T S)
    (reserved : List (Reservation T S)) (held : List NodeId) : Prop where
  layout : Layout Slot.next root
  rooted : ∀ owner, mem.valid (root owner)
  lists : mem.Lists root (nodesOf reserved)
  nodup : (reserved.map (·.node)).Nodup
  registered : ∀ r ∈ reserved,
    mem.info r.node = some (some r.topic, some r.subscriber, if r.node ∈ held then 2 else 1)
  removed : ∀ node ∈ held, node ∉ reserved.map (·.node) →
    ∃ topic subscriber, mem.info node = some (topic, subscriber, 1)
  heldNodup : held.Nodup
  below : ∀ node, (mem.body node).isSome → node < mem.fresh

/-- Nobody is erasing a reserved subscription. -/
def Quiet (mem : Memory T S) (reserved : List (Reservation T S)) : Prop :=
  ∀ r ∈ reserved, ∀ found, mem.body r.node = some found → found.erasingNodes = []

/-- The tail of a topic is its last subscription. -/
def Tailed (mem : Memory T S) (reserved : List (Reservation T S)) : Prop :=
  ∀ topic node, (nodesOf reserved (.inl topic)).getLast? = some node →
    mem.topicTail topic = some node

section EraseAll

variable {mem : Memory T S} {side : Side} {cell : Slot T S} {turns : Nat}

theorem Memory.eraseAllFrom_none (empty : mem.cells cell = none) :
    Memory.eraseAllFrom side cell turns mem = .ok mem := by
  rw [Memory.eraseAllFrom.eq_def, empty]

theorem Memory.eraseAllFrom_some {this : NodeId} (first : mem.cells cell = some this) :
    Memory.eraseAllFrom side cell (turns + 1) mem = mem.get this >>= fun node =>
      if node.hasPartner side then mem.unsubscribe this >>= Memory.eraseAllFrom side cell turns
      else .fault := by
  rw [Memory.eraseAllFrom.eq_def, first]

end EraseAll

namespace Represents

variable {mem : Memory T S} {root : Owner T S → Slot T S} {reserved : List (Reservation T S)}
  {held : List NodeId}

theorem eq_of_node (represents : Represents mem root reserved held) {first second : Reservation T S}
    (firstIn : first ∈ reserved) (secondIn : second ∈ reserved)
    (same : first.node = second.node) : first = second :=
  List.inj_on_of_nodup_map represents.nodup firstIn secondIn same

/-- A reserved subscription in memory. -/
theorem exists_body (represents : Represents mem root reserved held) {r : Reservation T S}
    (member : r ∈ reserved) :
    ∃ found, mem.body r.node = some found ∧ found.topic = some r.topic ∧
      found.subscriber = some r.subscriber ∧ found.ref = if r.node ∈ held then 2 else 1 := by
  obtain ⟨found, body, info⟩ := Option.map_eq_some_iff.mp (represents.registered r member)
  simp only [Prod.mk.injEq] at info
  exact ⟨found, body, info⟩

theorem alive (represents : Represents mem root reserved held) {owner : Owner T S} {node : NodeId}
    (member : node ∈ nodesOf reserved owner) : (mem.body node).isSome := by
  obtain ⟨r, inReserved, _, rfl⟩ := mem_nodesOf.mp member
  obtain ⟨found, body, _⟩ := represents.exists_body inReserved
  exact Option.isSome_of_mem body

/-- No list has more nodes than there have been subscriptions. -/
theorem length_le (represents : Represents mem root reserved held) (owner : Owner T S) :
    (nodesOf reserved owner).length ≤ mem.fresh := by
  have inRange : nodesOf reserved owner ⊆ List.range mem.fresh := fun node member =>
    List.mem_range.mpr (represents.below node (represents.alive member))
  have bound := ((represents.lists.nodup owner).subperm inRange).length_le
  rwa [List.length_range] at bound

/-- The memory goes on representing the reservations while its lists have the same nodes and
the subscriptions say the same. -/
theorem of_info (represents : Represents mem root reserved held) {after : Memory T S}
    {newRoot : Owner T S → Slot T S} (layout : Layout Slot.next newRoot)
    (rooted : ∀ owner, after.valid (newRoot owner))
    (lists : after.Lists newRoot (nodesOf reserved))
    (info : ∀ node, after.info node = mem.info node) (fresh : after.fresh = mem.fresh) :
    Represents after newRoot reserved held where
  layout := layout
  rooted := rooted
  lists := lists
  nodup := represents.nodup
  registered := fun r member => (info r.node).trans (represents.registered r member)
  removed := fun node member absent => by
    rw [info]
    exact represents.removed node member absent
  heldNodup := represents.heldNodup
  below := fun node isAlive => by
    have same := congrArg Option.isSome (info node)
    rw [Memory.info, Memory.info, Option.isSome_map, Option.isSome_map] at same
    rw [fresh]
    exact represents.below node (same ▸ isAlive)

/-- **Unsubscribing a reserved subscription.** -/
theorem unsubscribe_of_cleared {start : Memory T S} (represents : Represents mem root reserved held)
    {r : Reservation T S} (member : r ∈ reserved) {found : Subscription T S}
    (stored : start.nodes r.node = some found)
    (clearing : start.clearErasing found.erasingNodes = .ok mem) :
    ∃ after, start.unsubscribe r.node = .ok after ∧
      Represents after root (reserved.filter (·.node ≠ r.node)) held ∧
      (∀ node, node ≠ r.node → after.body node = mem.body node) ∧ Memory.Framed mem after := by
  obtain ⟨detached, bodyThis, _, _, ref⟩ := represents.exists_body member
  have onTopic : r.node ∈ nodesOf reserved (.inl r.topic) :=
    mem_nodesOf.mpr ⟨r, member, r.ownedBy_topic, rfl⟩
  have onSubscriber : r.node ∈ nodesOf reserved (.inr r.subscriber) :=
    mem_nodesOf.mpr ⟨r, member, r.ownedBy_subscriber, rfl⟩
  obtain ⟨after, unsubscribed, lists, body, framed⟩ := Memory.unsubscribe_spec stored clearing
    represents.lists represents.layout (fun _ _ => represents.alive) represents.rooted onTopic
    onSubscriber bodyThis
  have elsewhere (node : NodeId) (different : node ≠ r.node) : after.body node = mem.body node := by
    rw [body, Function.update_of_ne different]
  have sameInfo (node : NodeId) (different : node ≠ r.node) : after.info node = mem.info node := by
    rw [Memory.info, elsewhere node different, Memory.info]
  refine ⟨after, unsubscribed, ⟨represents.layout, ?_, ?_, ?_, ?_, ?_, represents.heldNodup, ?_⟩,
    elsewhere, framed⟩
  · exact fun owner => framed.valid (represents.layout.root_ne_next owner) (represents.rooted owner)
  · rw [show nodesOf (reserved.filter (·.node ≠ r.node)) = _ from
      funext (nodesOf_filter_node reserved r.node)]
    exact lists
  · exact represents.nodup.sublist (List.filter_sublist.map _)
  · intro other inFiltered
    obtain ⟨inReserved, different⟩ := List.mem_filter.mp inFiltered
    rw [sameInfo _ (of_decide_eq_true different)]
    exact represents.registered other inReserved
  · intro node isHeld absent
    by_cases same : node = r.node
    · subst same
      rw [if_pos isHeld] at ref
      refine ⟨none, none, ?_⟩
      rw [Memory.info, body, Function.update_self, Subscription.delRef, if_neg]
      · simp only [Option.map_some, Subscription.leave, ref]
        rfl
      · simp only [Subscription.leave, ref]
        decide
    · rw [sameInfo node same]
      refine represents.removed node isHeld fun inReserved => absent ?_
      obtain ⟨other, otherIn, isNode⟩ := List.mem_map.mp inReserved
      exact List.mem_map.mpr
        ⟨other, List.mem_filter.mpr ⟨otherIn, decide_eq_true (isNode ▸ same)⟩, isNode⟩
  · intro node isAlive
    rw [framed.fresh]
    apply represents.below node
    by_cases same : node = r.node
    · rw [same, bodyThis]
      rfl
    · rwa [elsewhere node same] at isAlive

theorem unsubscribe (represents : Represents mem root reserved held) (quiet : Quiet mem reserved)
    {r : Reservation T S} (member : r ∈ reserved) :
    ∃ after, mem.unsubscribe r.node = .ok after ∧
      Represents after root (reserved.filter (·.node ≠ r.node)) held ∧
      Quiet after (reserved.filter (·.node ≠ r.node)) ∧ Memory.Framed mem after := by
  obtain ⟨detached, live, _⟩ := represents.exists_body member
  obtain ⟨found, stored, body, _⟩ := Memory.exists_nodes (Option.isSome_of_mem live)
  have clearing : mem.clearErasing found.erasingNodes = .ok mem := by
    rw [show found.erasingNodes = [] from quiet r member found.detached body,
      Memory.clearErasing]
  obtain ⟨after, unsubscribed, representsAfter, elsewhere, framed⟩ :=
    represents.unsubscribe_of_cleared member stored clearing
  refine ⟨after, unsubscribed, representsAfter, fun other inFiltered => ?_, framed⟩
  obtain ⟨inReserved, different⟩ := List.mem_filter.mp inFiltered
  rw [elsewhere _ (of_decide_eq_true different)]
  exact quiet other inReserved

theorem filter_of_nodesOf_eq_nil {owner : Owner T S} (empty : nodesOf reserved owner = []) :
    reserved.filter (!·.ownedBy owner) = reserved := by
  refine List.filter_eq_self.mpr fun r inReserved => ?_
  cases owned : r.ownedBy owner with
  | false => rfl
  | true =>
      have member := mem_nodesOf.mpr ⟨r, inReserved, owned, rfl⟩
      rw [empty] at member
      exact (List.not_mem_nil member).elim

/-- **Erasing the whole list of an owner**, from its first node on. -/
theorem eraseAllFrom (represents : Represents mem root reserved held) (quiet : Quiet mem reserved)
    (owner : Owner T S) {turns : Nat} (enough : (nodesOf reserved owner).length ≤ turns) :
    ∃ after, Memory.eraseAllFrom owner.side (root owner) turns mem = .ok after ∧
      Represents after root (reserved.filter (!·.ownedBy owner)) held ∧
      Quiet after (reserved.filter (!·.ownedBy owner)) ∧ Memory.Framed mem after := by
  induction turns generalizing mem reserved with
  | zero =>
      have empty := List.length_eq_zero_iff.mp (Nat.le_zero.mp enough)
      have linked := represents.lists.linked owner
      rw [empty] at linked
      rw [filter_of_nodesOf_eq_nil empty]
      exact ⟨mem, Memory.eraseAllFrom_none linked, represents, quiet, rfl, rfl, rfl⟩
  | succ turns ih =>
      have linked := represents.lists.linked owner
      cases nodes : nodesOf reserved owner with
      | nil =>
          rw [nodes] at linked
          rw [filter_of_nodesOf_eq_nil nodes]
          exact ⟨mem, Memory.eraseAllFrom_none linked, represents, quiet, rfl, rfl, rfl⟩
      | cons node rest =>
          rw [nodes] at linked enough
          obtain ⟨r, member, owned, rfl⟩ := mem_nodesOf.mp (nodes ▸ List.mem_cons_self)
          obtain ⟨erased, erasing, representsErased, quietErased, framedErased⟩ :=
            represents.unsubscribe quiet member
          have shorter : (nodesOf (reserved.filter (·.node ≠ r.node)) owner).length ≤ turns := by
            have nodup := represents.lists.nodup owner
            rw [nodes] at nodup
            rw [nodesOf_filter_node, nodes, List.filter_cons_of_neg (by simp),
              filter_ne_of_notMem (List.nodup_cons.mp nodup).1]
            exact Nat.le_of_succ_le_succ enough
          obtain ⟨after, loop, representsAfter, quietAfter, framedAfter⟩ :=
            ih representsErased quietErased shorter
          have remaining : (reserved.filter (·.node ≠ r.node)).filter (!·.ownedBy owner) =
              reserved.filter (!·.ownedBy owner) := by
            rw [List.filter_filter]
            refine List.filter_congr fun other inReserved => ?_
            by_cases same : other.node = r.node
            · rw [represents.eq_of_node inReserved member same, owned]
              rfl
            · rw [decide_eq_true same, Bool.and_true]
          obtain ⟨detached, live, topic, subscriber, _⟩ := represents.exists_body member
          obtain ⟨found, stored, body, _⟩ := Memory.exists_nodes (Option.isSome_of_mem live)
          cases body.symm.trans live
          have partner : found.hasPartner owner.side := by
            cases owner with
            | inl _ => exact Option.isSome_of_mem subscriber
            | inr _ => exact Option.isSome_of_mem topic
          rw [remaining] at representsAfter quietAfter
          refine ⟨after, ?_, representsAfter, quietAfter, framedErased.trans framedAfter⟩
          rw [Memory.eraseAllFrom_some linked.1, Memory.get_eq stored, Outcome.ok_bind,
            if_pos partner, erasing, Outcome.ok_bind, loop]

/-! ## Operations of subscribers -/

theorem findTopic (represents : Represents mem Owner.head reserved held) (subscriber : S)
    (topic : T) :
    ∃ found, mem.findTopic subscriber topic = .ok found ∧
      (∀ node, found = some node →
        ∃ r ∈ reserved, r.node = node ∧ r.topic = topic ∧ r.subscriber = subscriber) ∧
      (found = none → ∀ r ∈ reserved, ¬ (r.topic = topic ∧ r.subscriber = subscriber)) := by
  have search := Memory.findTopicFrom_spec (represents.lists.linked (.inr subscriber))
    (fun _ => represents.alive) (represents.length_le (.inr subscriber)) topic
  refine ⟨_, search, fun node found => ?_, fun absent r inReserved both => ?_⟩
  · obtain ⟨r, inReserved, owned, rfl⟩ := mem_nodesOf.mp (List.mem_of_find?_eq_some found)
    obtain ⟨detached, live, isTopic, _⟩ := represents.exists_body inReserved
    have hit := List.find?_some found
    rw [live, Option.any_some, decide_eq_true_eq, isTopic] at hit
    exact ⟨r, inReserved, rfl, Option.some.inj hit, of_decide_eq_true owned⟩
  · obtain ⟨detached, live, isTopic, _⟩ := represents.exists_body inReserved
    have member : r.node ∈ nodesOf reserved (.inr subscriber) :=
      mem_nodesOf.mpr ⟨r, inReserved, decide_eq_true both.2, rfl⟩
    refine List.find?_eq_none.mp absent r.node member ?_
    rw [live, Option.any_some, decide_eq_true_eq, isTopic, both.1]

/-- Erasing a subscription that was found. -/
theorem eraseFound (represents : Represents mem Owner.head reserved held)
    (quiet : Quiet mem reserved) {r : Reservation T S} (member : r ∈ reserved) :
    ∃ after, Subscriber.eraseFound mem r.node = .ok after ∧
      Represents after Owner.head (reserved.filter (·.node ≠ r.node)) held ∧
      Quiet after (reserved.filter (·.node ≠ r.node)) ∧ after.topicTail = mem.topicTail := by
  obtain ⟨detached, live, _⟩ := represents.exists_body member
  obtain ⟨found, stored, body, _⟩ := Memory.exists_nodes (Option.isSome_of_mem live)
  have storedEntered : (mem.enter r.node).nodes r.node = some found := stored
  let marked := (mem.enter r.node).put r.node (some (found.newErasingNode .localNode))
  let cleared := marked.write .localNode none
  have storedMarked : marked.nodes r.node = some (found.newErasingNode .localNode) :=
    Function.update_self ..
  have clearing :
      marked.clearErasing (found.newErasingNode .localNode).erasingNodes = .ok cleared := by
    rw [Subscription.newErasingNode, show found.erasingNodes = [] from
      quiet r member found.detached body, Memory.clearErasing, Memory.store_eq rfl,
      Outcome.ok_bind, Memory.clearErasing]
  have bodyCleared : cleared.body = Function.update mem.body r.node
      (some (found.newErasingNode .localNode).detached) :=
    Memory.body_put (mem.enter r.node) r.node _
  -- the variable is no cell of a list, and a list does not see the erasing nodes
  have representsCleared : Represents cleared Owner.head reserved held := by
    have cells (cell : Slot T S) (other : cell ≠ .localNode) :
        cleared.cells cell = mem.cells cell := by
      refine (Function.update_of_ne other ..).trans ?_
      exact Function.update_of_ne other ..
    refine represents.of_info layout_head (fun owner => by cases owner <;> rfl) ?_
      (fun node => ?_) rfl
    · refine represents.lists.congr (fun owner => cells _ (by cases owner <;> exact nofun))
        (fun owner node _ => cells _ nofun) fun owner node _ => ?_
      exact congrFun (congrFun (Memory.prev_put_of_eq storedEntered
        (Subscription.prev_newErasingNode found .localNode)) _) node
    · rw [Memory.info, bodyCleared, Memory.info]
      by_cases same : node = r.node
      · rw [same, Function.update_self, body]
        rfl
      · rw [Function.update_of_ne same]
  obtain ⟨erased, unsubscribed, representsErased, elsewhere, framed⟩ :=
    representsCleared.unsubscribe_of_cleared member storedMarked clearing
  refine ⟨erased.exit, ?_, ?_, ?_, framed.topicTail⟩
  · have holds : marked.cells .localNode = some r.node := by
      rw [Memory.put_cells, Memory.enter_cells, Function.update_self]
    rw [Subscriber.eraseFound, Memory.modify_eq storedEntered, Outcome.ok_bind]
    rw [show ((mem.enter r.node).put r.node (some (found.newErasingNode .localNode))).cells
      .localNode = some r.node from holds]
    dsimp only
    rw [unsubscribed, Outcome.ok_bind]
  · exact representsErased.of_info layout_head (fun owner => by cases owner <;> rfl)
      representsErased.lists (fun _ => rfl) rfl
  · intro other inFiltered subscription found
    obtain ⟨inReserved, different⟩ := List.mem_filter.mp inFiltered
    apply quiet other inReserved subscription
    have isBody : erased.body other.node = some subscription := found
    rw [elsewhere _ (of_decide_eq_true different), bodyCleared,
      Function.update_of_ne (of_decide_eq_true different)] at isBody
    exact isBody

end Represents

/-- A subscriber reserves a topic once. -/
def Single (reserved : List (Reservation T S)) : Prop :=
  ∀ first ∈ reserved, ∀ second ∈ reserved, first.topic = second.topic →
    first.subscriber = second.subscriber → first = second

omit [DecidableEq T] [DecidableEq S] in
theorem single_append {reserved : List (Reservation T S)} {r : Reservation T S}
    (single : Single reserved)
    (absent : ∀ other ∈ reserved, ¬ (other.topic = r.topic ∧ other.subscriber = r.subscriber)) :
    Single (reserved ++ [r]) := by
  intro first firstIn second secondIn sameTopic sameSubscriber
  rcases List.mem_append.mp firstIn with firstOld | firstNew
  · rcases List.mem_append.mp secondIn with secondOld | secondNew
    · exact single first firstOld second secondOld sameTopic sameSubscriber
    · rw [List.mem_singleton.mp secondNew] at sameTopic sameSubscriber
      exact (absent first firstOld ⟨sameTopic, sameSubscriber⟩).elim
  · rw [List.mem_singleton.mp firstNew] at sameTopic sameSubscriber ⊢
    rcases List.mem_append.mp secondIn with secondOld | secondNew
    · exact (absent second secondOld ⟨sameTopic.symm, sameSubscriber.symm⟩).elim
    · exact (List.mem_singleton.mp secondNew).symm

namespace Represents

variable {mem : Memory T S} {reserved : List (Reservation T S)} {held : List NodeId}

/-- `Subscriber::unsubscribe` removes what the subscriber has reserved of the topic. -/
theorem subscriberUnsubscribe (represents : Represents mem Owner.head reserved held)
    (quiet : Quiet mem reserved) (single : Single reserved) (subscriber : S) (topic : T) :
    ∃ erased after, Subscriber.unsubscribe mem subscriber topic = .ok (erased, after) ∧
      Represents after Owner.head
        (reserved.filter fun r => !decide (r.topic = topic ∧ r.subscriber = subscriber)) held ∧
      Quiet after
        (reserved.filter fun r => !decide (r.topic = topic ∧ r.subscriber = subscriber)) ∧
      after.topicTail = mem.topicTail := by
  obtain ⟨found, search, hit, miss⟩ := represents.findTopic subscriber topic
  rw [Subscriber.unsubscribe, search, Outcome.ok_bind]
  cases found with
  | none =>
      have nothing : reserved.filter
          (fun r => !decide (r.topic = topic ∧ r.subscriber = subscriber)) = reserved := by
        refine List.filter_eq_self.mpr fun r inReserved => ?_
        rw [decide_eq_false (miss rfl r inReserved), Bool.not_false]
      rw [nothing]
      exact ⟨false, mem, rfl, represents, quiet, rfl⟩
  | some node =>
      obtain ⟨r, member, rfl, isTopic, isSubscriber⟩ := hit node rfl
      obtain ⟨after, erasing, representsAfter, quietAfter, tails⟩ :=
        represents.eraseFound quiet member
      have same : reserved.filter
          (fun r => !decide (r.topic = topic ∧ r.subscriber = subscriber)) =
            reserved.filter (·.node ≠ r.node) := by
        refine List.filter_congr fun other inReserved => ?_
        rw [← decide_not]
        refine decide_eq_decide.mpr (not_congr ?_)
        refine ⟨fun both => ?_, fun sameNode => ?_⟩
        · rw [single other inReserved r member (both.1.trans isTopic.symm)
            (both.2.trans isSubscriber.symm)]
        · rw [represents.eq_of_node inReserved member sameNode]
          exact ⟨isTopic, isSubscriber⟩
      rw [same]
      refine ⟨true, after, ?_, representsAfter, quietAfter, tails⟩
      dsimp only
      rw [erasing, Outcome.ok_bind]

/-- `Subscriber::unsubscribe_all` removes what the subscriber has reserved. -/
theorem unsubscribeAll (represents : Represents mem Owner.head reserved held)
    (quiet : Quiet mem reserved) (subscriber : S) :
    ∃ after, Subscriber.unsubscribeAll mem subscriber = .ok after ∧
      Represents after Owner.head (reserved.filter (!·.ownedBy (.inr subscriber))) held ∧
      Quiet after (reserved.filter (!·.ownedBy (.inr subscriber))) ∧
      after.topicTail = mem.topicTail := by
  obtain ⟨after, erasing, representsAfter, quietAfter, framed⟩ :=
    represents.eraseAllFrom quiet (.inr subscriber) (represents.length_le _)
  exact ⟨after, erasing, representsAfter, quietAfter, framed.topicTail⟩

/-! ## Operations of topics -/

private theorem layout_cleared (topic : T) : Layout (Slot.next : Side → NodeId → Slot T S)
    (Function.update Owner.head (.inl topic) .localNode) where
  next_injective := layout_head.next_injective
  root_injective := by
    intro first second same
    by_cases isFirst : first = .inl topic
    · by_cases isSecond : second = .inl topic
      · rw [isFirst, isSecond]
      · rw [isFirst, Function.update_self, Function.update_of_ne isSecond] at same
        cases second <;> cases same
    · rw [Function.update_of_ne isFirst] at same
      by_cases isSecond : second = .inl topic
      · rw [isSecond, Function.update_self] at same
        cases first <;> cases same
      · rw [Function.update_of_ne isSecond] at same
        exact layout_head.root_injective same
  root_ne_next := by
    intro owner side node same
    by_cases isTopic : owner = .inl topic
    · rw [isTopic, Function.update_self] at same
      cases same
    · rw [Function.update_of_ne isTopic] at same
      exact layout_head.root_ne_next owner side node same

private theorem nodesOf_cleared (reserved : List (Reservation T S)) (topic : T) :
    nodesOf (reserved.filter (!·.ownedBy (.inl topic))) (.inl topic) = [] := by
  refine List.eq_nil_iff_forall_not_mem.mpr fun node member => ?_
  obtain ⟨r, inFiltered, owned, _⟩ := mem_nodesOf.mp member
  have removed := (List.mem_filter.mp inFiltered).2
  rw [owned] at removed
  cases removed

private theorem tailed_cleared {topic : T} {after : Memory T S} (tailed : Tailed mem reserved)
    (tails : ∀ other, other ≠ topic → after.topicTail other = mem.topicTail other) :
    Tailed after (reserved.filter (!·.ownedBy (.inl topic))) := by
  intro other last isLast
  by_cases same : other = topic
  · rw [same, nodesOf_cleared] at isLast
    cases isLast
  · rw [tails other same]
    apply tailed other last
    have kept : (reserved.filter (!·.ownedBy (.inl topic))).filter (·.ownedBy (.inl other)) =
        reserved.filter (·.ownedBy (.inl other)) := by
      rw [List.filter_filter]
      refine List.filter_congr fun r _ => ?_
      cases owned : r.ownedBy (.inl other) with
      | false => rfl
      | true =>
          have different : ¬ r.topic = topic := fun isTopic =>
            same ((of_decide_eq_true owned).symm.trans isTopic)
          rw [Reservation.ownedBy, decide_eq_false different]
          rfl
    rwa [nodesOf, kept] at isLast

/-- `Topic::clear` removes what is reserved of the topic. -/
theorem clear (represents : Represents mem Owner.head reserved held) (quiet : Quiet mem reserved)
    (tailed : Tailed mem reserved) (topic : T) :
    ∃ after, Topic.clear mem topic = .ok after ∧
      Represents after Owner.head (reserved.filter (!·.ownedBy (.inl topic))) held ∧
      Quiet after (reserved.filter (!·.ownedBy (.inl topic))) ∧
      Tailed after (reserved.filter (!·.ownedBy (.inl topic))) := by
  have linked := represents.lists.linked (.inl topic)
  cases nodes : nodesOf reserved (.inl topic) with
  | nil =>
      rw [nodes] at linked
      have empty : mem.cells (.topicHead topic) = none := linked
      rw [filter_of_nodesOf_eq_nil nodes, Topic.clear, empty]
      exact ⟨mem, rfl, represents, quiet, tailed⟩
  | cons node rest =>
      rw [nodes] at linked
      have head : mem.cells (.topicHead topic) = some node := linked.1
      obtain ⟨r, member, _, rfl⟩ := mem_nodesOf.mp (nodes ▸ List.mem_cons_self)
      obtain ⟨detached, live, _⟩ := represents.exists_body member
      obtain ⟨found, stored, _⟩ := Memory.exists_nodes (Option.isSome_of_mem live)
      have storedEntered : (mem.enter r.node).nodes r.node = some found := stored
      let marked := (mem.enter r.node).put r.node
        (some (found.setPrev .topicSubscriber (some .localNode)))
      have body : marked.body = mem.body := Memory.body_put_setPrev storedEntered _ _
      -- the list of the topic hangs on the variable
      have hanging : Represents marked (Function.update Owner.head (.inl topic) .localNode)
          reserved held := by
        refine represents.of_info (layout_cleared topic) (fun owner => ?_) ?_ (fun other => ?_) rfl
        · by_cases isTopic : owner = .inl topic
          · rw [isTopic, Function.update_self]
            rfl
          · rw [Function.update_of_ne isTopic]
            cases owner <;> rfl
        · have rerooted := represents.lists.reroot nodes .localNode (fun _ _ => nofun)
            (fun owner _ => by cases owner <;> exact nofun)
          have prev := Memory.prev_put_setPrev storedEntered .topicSubscriber (some .localNode)
          rw [Memory.Lists, prev]
          exact rerooted
        · rw [Memory.info, body, Memory.info]
      obtain ⟨erased, erasing, representsErased, quietErased, framed⟩ :=
        hanging.eraseAllFrom (fun other inReserved => body ▸ quiet other inReserved) (.inl topic)
          (hanging.length_le _)
      rw [Function.update_self] at erasing
      refine ⟨(erased.exit.write (.topicHead topic) none).setTail topic none, ?_, ?_, quietErased,
        tailed_cleared tailed fun other different => ?_⟩
      · rw [Topic.clear, head]
        dsimp only
        rw [Memory.modify_eq storedEntered, Outcome.ok_bind]
        change (Memory.eraseAllFrom _ _ marked.fresh marked >>= _) = _
        rw [show Side.topicSubscriber = Owner.side (.inl topic : Owner T S) from rfl, erasing,
          Outcome.ok_bind]
      · refine representsErased.of_info layout_head (fun owner => by cases owner <;> rfl) ?_
          (fun _ => rfl) rfl
        exact representsErased.lists.reroot_empty layout_head (nodesOf_cleared reserved topic)
          fun owner different => (Function.update_of_ne different ..).symm
      · refine (Function.update_of_ne different ..).trans ?_
        exact congrFun framed.topicTail other

private theorem nodesOf_append (reserved : List (Reservation T S)) (r : Reservation T S) :
    nodesOf (reserved ++ [r]) = Function.update (Function.update (nodesOf reserved)
      (.inl r.topic) (nodesOf reserved (.inl r.topic) ++ [r.node]))
      (.inr r.subscriber) (r.node :: nodesOf reserved (.inr r.subscriber)) := by
  funext owner
  cases owner with
  | inl topic =>
      rw [Function.update_of_ne Sum.inl_ne_inr, nodesOf, List.filter_append, List.map_append]
      by_cases same : topic = r.topic
      · have own : [r].filter (·.ownedBy (.inl r.topic)) = [r] := by
          simp only [List.filter_cons, r.ownedBy_topic, if_true, List.filter_nil]
        rw [same, Function.update_self, own]
        rfl
      · rw [Function.update_of_ne (fun equal => same (Sum.inl.inj equal)),
          List.filter_cons_of_neg (fun owned => same (of_decide_eq_true owned).symm)]
        exact List.append_nil _
  | inr subscriber =>
      by_cases same : subscriber = r.subscriber
      · have own : [r].filter (·.ownedBy (.inr r.subscriber)) = [r] := by
          simp only [List.filter_cons, r.ownedBy_subscriber, if_true, List.filter_nil]
        rw [same, Function.update_self, nodesOf, List.filter_append, List.map_append,
          List.reverse_append, own]
        rfl
      · rw [Function.update_of_ne (fun equal => same (Sum.inr.inj equal)),
          Function.update_of_ne Sum.inr_ne_inl, nodesOf, List.filter_append,
          List.filter_cons_of_neg (fun owned => same (of_decide_eq_true owned).symm)]
        rw [List.filter_nil, List.append_nil, nodesOf]

/-- The next address is not that of a reserved subscription. -/
theorem fresh_notMem (represents : Represents mem root reserved held) :
    mem.fresh ∉ reserved.map (·.node) := by
  intro isReserved
  obtain ⟨r, member, same⟩ := List.mem_map.mp isReserved
  obtain ⟨found, live, _⟩ := represents.exists_body member
  have below := represents.below r.node (Option.isSome_of_mem live)
  rw [same] at below
  exact Nat.lt_irrefl _ below

theorem fresh_notMem_nodesOf (represents : Represents mem root reserved held)
    (owner : Owner T S) : mem.fresh ∉ nodesOf reserved owner := by
  intro member
  obtain ⟨r, inReserved, _, isNode⟩ := mem_nodesOf.mp member
  exact represents.fresh_notMem (isNode ▸ List.mem_map_of_mem inReserved)

theorem fresh_notMem_held (represents : Represents mem root reserved held) :
    mem.fresh ∉ held := by
  intro isHeld
  obtain ⟨_, _, info⟩ := represents.removed mem.fresh isHeld represents.fresh_notMem
  obtain ⟨found, live, _⟩ := Option.map_eq_some_iff.mp info
  exact Nat.lt_irrefl _ (represents.below mem.fresh (Option.isSome_of_mem live))

section Append

variable {after : Memory T S} {topic : T} {subscriber : S} {subscription : Subscription T S}

/-- The memory represents one reservation more when its subscription is on the lists. -/
theorem append (represents : Represents mem Owner.head reserved held)
    (isTopic : subscription.topic = some topic)
    (isSubscriber : subscription.subscriber = some subscriber) (isRef : subscription.ref = 2)
    (lists : after.Lists Owner.head (nodesOf (reserved ++ [⟨mem.fresh, topic, subscriber⟩])))
    (body : after.body = Function.update mem.body mem.fresh (some subscription))
    (fresh : after.fresh = mem.fresh + 1) :
    Represents after Owner.head (reserved ++ [⟨mem.fresh, topic, subscriber⟩])
      (mem.fresh :: held) := by
  have infoNew : after.info mem.fresh = some (some topic, some subscriber, 2) := by
    rw [Memory.info, body, Function.update_self, Option.map_some, isTopic, isSubscriber, isRef]
  have infoOld {node : NodeId} (different : node ≠ mem.fresh) :
      after.info node = mem.info node := by
    rw [Memory.info, body, Function.update_of_ne different, Memory.info]
  refine ⟨layout_head, fun owner => by cases owner <;> rfl, lists, ?_, ?_, ?_,
    List.nodup_cons.mpr ⟨represents.fresh_notMem_held, represents.heldNodup⟩, ?_⟩
  · rw [List.map_append]
    refine represents.nodup.append (List.nodup_singleton _) fun node member isNode => ?_
    have same : node = mem.fresh := List.mem_singleton.mp isNode
    exact represents.fresh_notMem (same ▸ member)
  · intro r inAppended
    rcases List.mem_append.mp inAppended with member | isLast
    · have different : r.node ≠ mem.fresh := fun same =>
        represents.fresh_notMem (same ▸ List.mem_map_of_mem member)
      rw [infoOld different, represents.registered r member]
      simp only [List.mem_cons, different, false_or]
    · rw [List.mem_singleton.mp isLast, if_pos List.mem_cons_self]
      exact infoNew
  · intro node isHeld absent
    rw [List.map_append] at absent
    have different : node ≠ mem.fresh := fun same =>
      absent (List.mem_append_right _ (List.mem_singleton.mpr same))
    rw [infoOld different]
    exact represents.removed node ((List.mem_cons.mp isHeld).resolve_left different)
      fun member => absent (List.mem_append_left _ member)
  · intro node live
    rw [fresh]
    by_cases same : node = mem.fresh
    · rw [same]
      exact Nat.lt_succ_self _
    · rw [body, Function.update_of_ne same] at live
      exact Nat.lt_succ_of_lt (represents.below node live)

theorem quiet_append (represents : Represents mem root reserved held)
    (quiet : Quiet mem reserved) (calm : subscription.erasingNodes = [])
    (body : after.body = Function.update mem.body mem.fresh (some subscription)) :
    Quiet after (reserved ++ [⟨mem.fresh, topic, subscriber⟩]) := by
  intro r inAppended found isBody
  rw [body] at isBody
  rcases List.mem_append.mp inAppended with member | isLast
  · have different : r.node ≠ mem.fresh := fun same =>
      represents.fresh_notMem (same ▸ List.mem_map_of_mem member)
    rw [Function.update_of_ne different] at isBody
    exact quiet r member found isBody
  · rw [List.mem_singleton.mp isLast, Function.update_self] at isBody
    cases isBody
    exact calm

end Append

private theorem tailed_append {after : Memory T S} {r : Reservation T S}
    (tailed : Tailed mem reserved)
    (tails : after.topicTail = Function.update mem.topicTail r.topic (some r.node)) :
    Tailed after (reserved ++ [r]) := by
  intro topic last isLast
  rw [nodesOf_append, Function.update_of_ne Sum.inl_ne_inr] at isLast
  rw [tails]
  by_cases same : topic = r.topic
  · rw [same, Function.update_self, List.getLast?_concat] at isLast
    rw [same, Function.update_self]
    exact isLast
  · rw [Function.update_of_ne (fun equal => same (Sum.inl.inj equal))] at isLast
    rw [Function.update_of_ne same]
    exact tailed topic last isLast

/-- `Topic::reserve_subscribe` of a subscriber that the topic does not have. -/
theorem reserve (represents : Represents mem Owner.head reserved held)
    (quiet : Quiet mem reserved) (tailed : Tailed mem reserved) {topic : T} {subscriber : S}
    (absent : Topic.hasSubscriber mem topic subscriber = .ok false) :
    ∃ after, Topic.reserveSubscribe mem topic subscriber = .ok (some mem.fresh, after) ∧
      Represents after Owner.head (reserved ++ [⟨mem.fresh, topic, subscriber⟩])
        (mem.fresh :: held) ∧
      Quiet after (reserved ++ [⟨mem.fresh, topic, subscriber⟩]) ∧
      Tailed after (reserved ++ [⟨mem.fresh, topic, subscriber⟩]) := by
  obtain ⟨created, creating, listsCreated, bodyCreated, last, tailCreated, freshCreated⟩ :=
    Memory.new_spec represents.lists represents.fresh_notMem_nodesOf topic subscriber
  have aliveCreated (owner : Owner T S) (node : NodeId) (member : node ∈ nodesOf reserved owner) :
      (created.body node).isSome := by
    have different : node ≠ mem.fresh := fun same =>
      represents.fresh_notMem_nodesOf owner (same ▸ member)
    rw [bodyCreated, Function.update_of_ne different]
    exact represents.alive member
  have bodyNew : created.body mem.fresh = some (.new topic subscriber) := by
    rw [bodyCreated, Function.update_self]
  obtain ⟨joined, joining, listsJoined, bodyJoined, tailJoined, freshJoined⟩ :=
    Memory.reserveSubscribe_spec listsCreated subscriber represents.fresh_notMem_nodesOf last
      bodyNew aliveCreated (by rw [tailCreated]; exact tailed topic)
  have aliveJoined : (joined.body mem.fresh).isSome := by
    rw [bodyJoined, Function.update_self]
    rfl
  obtain ⟨found, stored, isFound, _⟩ := Memory.exists_nodes aliveJoined
  rw [bodyJoined, Function.update_self] at isFound
  -- the caller's reference is the second one
  let after := joined.put mem.fresh (some found.addRef)
  have body : after.body = Function.update mem.body mem.fresh
      (some (Subscription.new topic subscriber).addRef.addRef) := by
    rw [Memory.body_put, bodyJoined, bodyCreated, Function.update_idem, Function.update_idem,
      Option.map_some, Subscription.detached_addRef, ← Option.some.inj isFound]
  refine ⟨after, ?_, represents.append rfl rfl rfl ?_ body (freshJoined.trans freshCreated),
    represents.quiet_append quiet rfl body, tailed_append tailed ?_⟩
  · rw [Topic.reserveSubscribe, absent, Outcome.ok_bind, if_neg Bool.false_ne_true, creating]
    exact Outcome.bind_eq_ok.mpr
      ⟨joined, joining, Outcome.bind_eq_ok.mpr ⟨after, Memory.modify_eq stored _, rfl⟩⟩
  · rw [nodesOf_append, Memory.Lists,
      Memory.prev_put_of_eq stored (Subscription.prev_addRef _)]
    exact listsJoined
  · exact tailJoined.trans (by rw [tailCreated])

/-! ## Operations of those who hold a subscription -/

theorem exists_body_of_held (represents : Represents mem Owner.head reserved held) {node : NodeId}
    (isHeld : node ∈ held) : ∃ found, mem.body node = some found ∧
      found.ref = if node ∈ reserved.map (·.node) then 2 else 1 := by
  by_cases isReserved : node ∈ reserved.map (·.node)
  · obtain ⟨r, member, rfl⟩ := List.mem_map.mp isReserved
    obtain ⟨found, body, _, _, ref⟩ := represents.exists_body member
    rw [if_pos isHeld] at ref
    exact ⟨found, body, ref.trans (if_pos isReserved).symm⟩
  · obtain ⟨topic, subscriber, info⟩ := represents.removed node isHeld isReserved
    obtain ⟨found, body, same⟩ := Option.map_eq_some_iff.mp info
    simp only [Prod.mk.injEq] at same
    exact ⟨found, body, same.2.2.trans (if_neg isReserved).symm⟩

/-- Whoever holds a subscription lets it go. A subscription that is not reserved is deleted. -/
theorem release (represents : Represents mem Owner.head reserved held) (quiet : Quiet mem reserved)
    {node : NodeId} (isHeld : node ∈ held) :
    ∃ after, mem.delRef node = .ok after ∧
      Represents after Owner.head reserved (held.erase node) ∧ Quiet after reserved ∧
      after.topicTail = mem.topicTail := by
  obtain ⟨found, live, ref⟩ := represents.exists_body_of_held isHeld
  obtain ⟨after, released, cells, prev, body, framed⟩ := Memory.delRef_spec live
  have elsewhere {other : NodeId} (different : other ≠ node) :
      after.body other = mem.body other := by
    rw [body, Function.update_of_ne different]
  have infoElsewhere {other : NodeId} (different : other ≠ node) :
      after.info other = mem.info other := by
    rw [Memory.info, elsewhere different, Memory.info]
  have kept (isReserved : node ∈ reserved.map (·.node)) :
      found.delRef = some { found with ref := 1 } := by
    rw [if_pos isReserved] at ref
    rw [Subscription.delRef, ref]
    rfl
  refine ⟨after, released, ⟨represents.layout, fun owner => by cases owner <;> rfl, ?_,
    represents.nodup, fun r member => ?_, fun other inHeld absent => ?_,
    represents.heldNodup.erase node, fun other isAlive => ?_⟩,
    fun r member subscription isBody => ?_, framed.topicTail⟩
  · refine represents.lists.congr (fun _ => by rw [cells]) (fun _ _ _ => by rw [cells])
      fun owner other member => prev _ other fun same => ?_
    obtain ⟨r, inReserved, _, isNode⟩ := mem_nodesOf.mp member
    rw [kept (List.mem_map.mpr ⟨r, inReserved, isNode.trans same⟩)]
    rfl
  · by_cases same : r.node = node
    · have registered := represents.registered r member
      have isReserved : node ∈ reserved.map (·.node) := List.mem_map.mpr ⟨r, member, same⟩
      rw [same, if_neg (List.Nodup.not_mem_erase represents.heldNodup), Memory.info, body,
        Function.update_self, kept isReserved]
      rw [same, Memory.info, live] at registered
      simp only [Option.map_some, Option.some.injEq, Prod.mk.injEq] at registered ⊢
      exact ⟨registered.1, registered.2.1, trivial⟩
    · rw [infoElsewhere same, represents.registered r member]
      simp only [List.mem_erase_of_ne same]
  · have different : other ≠ node := fun same =>
      List.Nodup.not_mem_erase represents.heldNodup (same ▸ inHeld)
    rw [infoElsewhere different]
    exact represents.removed other (List.mem_of_mem_erase inHeld) absent
  · rw [framed.fresh]
    apply represents.below other
    by_cases same : other = node
    · rw [same, live]
      rfl
    · rwa [elsewhere same] at isAlive
  · by_cases same : r.node = node
    · have isReserved : node ∈ reserved.map (·.node) := List.mem_map.mpr ⟨r, member, same⟩
      rw [same, body, Function.update_self, kept isReserved] at isBody
      cases isBody
      exact quiet r member found (same ▸ live)
    · rw [elsewhere same] at isBody
      exact quiet r member subscription isBody

theorem publishSnap (represents : Represents mem Owner.head reserved held)
    (quiet : Quiet mem reserved) {node : NodeId} (isHeld : node ∈ held) :
    ∃ after, Topic.publishSnap mem node = .ok after ∧
      Represents after Owner.head reserved held ∧ Quiet after reserved ∧
      after.topicTail = mem.topicTail := by
  obtain ⟨detached, live, _⟩ := represents.exists_body_of_held isHeld
  obtain ⟨found, stored, isBody, _⟩ := Memory.exists_nodes (Option.isSome_of_mem live)
  rw [Topic.publishSnap, Memory.get_eq stored, Outcome.ok_bind]
  split
  · have body : (mem.put node (some found.confirmSubscribe)).body =
        Function.update mem.body node (some found.confirmSubscribe.detached) :=
      Memory.body_put ..
    refine ⟨_, Memory.modify_eq stored _, ?_, fun r member subscription inMemory => ?_, rfl⟩
    · refine represents.of_info layout_head (fun owner => by cases owner <;> rfl) ?_
        (fun other => ?_) rfl
      · rw [Memory.Lists, Memory.prev_put_of_eq stored (Subscription.prev_confirmSubscribe _)]
        exact represents.lists
      · rw [Memory.info, body, Memory.info]
        by_cases same : other = node
        · rw [same, Function.update_self, isBody]
          rfl
        · rw [Function.update_of_ne same]
    · rw [body] at inMemory
      by_cases same : r.node = node
      · rw [same, Function.update_self] at inMemory
        cases inMemory
        exact quiet r member found.detached (same ▸ isBody)
      · rw [Function.update_of_ne same] at inMemory
        exact quiet r member subscription inMemory
  · exact ⟨mem, rfl, represents, quiet, rfl⟩

end Represents

end Cube.Eco.Thread
