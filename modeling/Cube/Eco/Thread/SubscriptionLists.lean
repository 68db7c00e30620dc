import Cube.Eco.Thread.Subscription

/-! # The lists of subscriptions

What the operations on a single subscription do to the lists of topics and subscribers: the
memory is seen as a family of intrusive lists, and each operation as a change of one of them.
-/

namespace Cube.Eco.Thread

open IntrusiveList

variable {T S : Type}

namespace Subscription

variable (node : Subscription T S) (side other : Side) (cell : Option (Slot T S))

/-- A subscription without its links. -/
def detached (node : Subscription T S) : Subscription T S :=
  { node with topicSubscriberPrev := none, subscriberTopicPrev := none }

@[simp] theorem prev_leave : (node.leave side).prev = node.prev := by
  cases side <;> rfl

@[simp] theorem prev_newErasingNode (erasing : Slot T S) :
    (node.newErasingNode erasing).prev = node.prev := rfl

@[simp] theorem prev_addRef : node.addRef.prev = node.prev := rfl

@[simp] theorem prev_confirmSubscribe : node.confirmSubscribe.prev = node.prev := rfl

@[simp] theorem prev_setPrev :
    (node.setPrev side cell).prev = Function.update node.prev side cell := by
  funext other
  cases side <;> cases other <;> rfl

@[simp] theorem detached_setPrev : (node.setPrev side cell).detached = node.detached := by
  cases side <;> rfl

@[simp] theorem detached_addRef : node.addRef.detached = node.detached.addRef := rfl

@[simp] theorem detached_leave : (node.leave side).detached = node.detached.leave side := by
  cases side <;> rfl

variable {node} in
theorem prev_of_delRef {left : Subscription T S} (kept : node.delRef = some left) :
    left.prev = node.prev := by
  unfold delRef at kept
  split at kept
  · cases kept
  · cases kept
    rfl

theorem map_detached_delRef : node.delRef.map detached = node.detached.delRef := by
  unfold delRef
  split
  next deleted => exact (if_pos deleted).symm
  next kept => exact (if_neg kept).symm

end Subscription

namespace Memory

/-- The cells that subscriptions know to point to them. -/
def prev (mem : Memory T S) (side : Side) (node : NodeId) : Option (Slot T S) :=
  (mem.nodes node).bind (·.prev side)

/-- The subscriptions that are alive, without their links. -/
def body (mem : Memory T S) (node : NodeId) : Option (Subscription T S) :=
  (mem.nodes node).map Subscription.detached

section Views

variable (mem : Memory T S) (node : NodeId) (value : Option (Subscription T S))

@[simp] theorem put_cells : (mem.put node value).cells = mem.cells := rfl

@[simp] theorem put_nodes :
    (mem.put node value).nodes = Function.update mem.nodes node value := rfl

theorem prev_put (side : Side) : (mem.put node value).prev side =
    Function.update (mem.prev side) node (value.bind (·.prev side)) := by
  funext other
  by_cases same : other = node
  · rw [same, Function.update_self, prev, put_nodes, Function.update_self]
  · rw [Function.update_of_ne same, prev, put_nodes, Function.update_of_ne same, prev]

@[simp] theorem body_put : (mem.put node value).body =
    Function.update mem.body node (value.map Subscription.detached) := by
  funext other
  by_cases same : other = node
  · rw [same, Function.update_self, body, put_nodes, Function.update_self]
  · rw [Function.update_of_ne same, body, put_nodes, Function.update_of_ne same, body]

theorem isSome_body : (mem.body node).isSome = (mem.nodes node).isSome := Option.isSome_map

theorem valid_next (side : Side) : mem.valid (.next side node) = (mem.body node).isSome :=
  (isSome_body mem node).symm

/-- What is alive is found, with its links and without. -/
theorem exists_nodes {mem : Memory T S} {node : NodeId} (alive : (mem.body node).isSome) :
    ∃ found, mem.nodes node = some found ∧ mem.body node = some found.detached ∧
      ∀ side, mem.prev side node = found.prev side := by
  rw [isSome_body] at alive
  obtain ⟨found, stored⟩ := Option.isSome_iff_exists.mp alive
  refine ⟨found, stored, by rw [body, stored]; rfl, fun side => by rw [prev, stored]; rfl⟩

variable {mem node} {found : Subscription T S} (stored : mem.nodes node = some found)
include stored

/-- A change that keeps the links of a subscription keeps all links. -/
theorem prev_put_of_eq {subscription : Subscription T S} (same : subscription.prev = found.prev) :
    (mem.put node (some subscription)).prev = mem.prev := by
  funext side
  rw [prev_put, Option.bind_some, same]
  apply Function.update_eq_self_iff.mpr
  rw [prev, stored]
  rfl

theorem prev_put_setPrev (side : Side) (cell : Option (Slot T S)) :
    (mem.put node (some (found.setPrev side cell))).prev =
      Function.update mem.prev side (Function.update (mem.prev side) node cell) := by
  funext other
  rw [prev_put, Option.bind_some, Subscription.prev_setPrev]
  by_cases same : other = side
  · rw [same, Function.update_self, Function.update_self]
  · rw [Function.update_of_ne same, Function.update_of_ne same]
    apply Function.update_eq_self_iff.mpr
    rw [prev, stored]
    rfl

theorem body_put_setPrev (side : Side) (cell : Option (Slot T S)) :
    (mem.put node (some (found.setPrev side cell))).body = mem.body := by
  rw [body_put, Option.map_some, Subscription.detached_setPrev]
  apply Function.update_eq_self_iff.mpr
  rw [body, stored]
  rfl

theorem get_eq : mem.get node = .ok found := by
  rw [get, stored]

theorem modify_eq (change : Subscription T S → Subscription T S) :
    mem.modify node change = .ok (mem.put node (some (change found))) := by
  rw [modify, get_eq stored, Outcome.ok_bind]

end Views

theorem load_eq {mem : Memory T S} {cell : Slot T S} (valid : mem.valid cell) :
    mem.load cell = .ok (mem.cells cell) := if_pos valid

/-- Apart from the subscriptions and their links the memory is the same. -/
structure Framed (mem after : Memory T S) : Prop where
  topicTail : after.topicTail = mem.topicTail
  fresh : after.fresh = mem.fresh
  localAlive : after.localAlive = mem.localAlive

theorem Framed.trans {first second third : Memory T S} (start : Framed first second)
    (next : Framed second third) : Framed first third :=
  ⟨next.topicTail.trans start.topicTail, next.fresh.trans start.fresh,
    next.localAlive.trans start.localAlive⟩

/-- A cell that is not part of a subscription is valid as long as the frame is the same. -/
theorem Framed.valid {mem after : Memory T S} (framed : Framed mem after) {cell : Slot T S}
    (notNext : ∀ side node, cell ≠ .next side node) (valid : mem.valid cell) :
    after.valid cell := by
  cases cell with
  | next side node => exact (notNext side node rfl).elim
  | localNode => exact framed.localAlive.trans valid
  | topicHead => rfl
  | subscriberHead => rfl

theorem pointBack_spec (mem : Memory T S) (side : Side) (cell : Option (Slot T S))
    {next : Option NodeId} (alive : ∀ node, next = some node → (mem.body node).isSome) :
    ∃ after, mem.pointBack side cell next = .ok after ∧ after.cells = mem.cells ∧
      after.prev = Function.update mem.prev side (relink (mem.prev side) next cell) ∧
      after.body = mem.body ∧ Framed mem after := by
  cases next with
  | none =>
      refine ⟨mem, rfl, rfl, ?_, rfl, rfl, rfl, rfl⟩
      rw [relink_none, Function.update_eq_self]
  | some node =>
      obtain ⟨found, stored, _⟩ := exists_nodes (alive node rfl)
      refine ⟨_, modify_eq stored _, rfl, ?_, body_put_setPrev stored side cell, rfl, rfl, rfl⟩
      rw [prev_put_setPrev stored, relink_some]

theorem delRef_spec {mem : Memory T S} {this : NodeId} {subscription : Subscription T S}
    (alive : mem.body this = some subscription) :
    ∃ after, mem.delRef this = .ok after ∧ after.cells = mem.cells ∧
      (∀ side node, (node = this → subscription.delRef.isSome) →
        after.prev side node = mem.prev side node) ∧
      after.body = Function.update mem.body this subscription.delRef ∧ Framed mem after := by
  obtain ⟨found, stored, bodyThis, prevThis⟩ := exists_nodes (Option.isSome_of_mem alive)
  rw [bodyThis] at alive
  cases alive
  refine ⟨mem.put this found.delRef, ?_, rfl, ?_, ?_, rfl, rfl, rfl⟩
  · rw [delRef, get_eq stored, Outcome.ok_bind]
  · intro side node kept
    rw [prev_put]
    by_cases same : node = this
    · have survives := kept same
      rw [← found.map_detached_delRef, Option.isSome_map] at survives
      obtain ⟨left, isLeft⟩ := Option.isSome_iff_exists.mp survives
      rw [same, Function.update_self, isLeft, prevThis]
      exact congrFun (Subscription.prev_of_delRef isLeft) side
    · rw [Function.update_of_ne same]
  · rw [body_put, found.map_detached_delRef]

variable [DecidableEq T] [DecidableEq S]

section Write

variable (mem : Memory T S) (cell : Slot T S) (value : Option NodeId) (node : NodeId)

@[simp] theorem write_cells :
    (mem.write cell value).cells = Function.update mem.cells cell value := rfl
@[simp] theorem write_prev : (mem.write cell value).prev = mem.prev := rfl
@[simp] theorem write_body : (mem.write cell value).body = mem.body := rfl

theorem enter_cells : (mem.enter node).cells =
    Function.update mem.cells .localNode (some node) := rfl

theorem store_eq {mem : Memory T S} {cell : Slot T S} (valid : mem.valid cell)
    (value : Option NodeId) : mem.store (some cell) value = .ok (mem.write cell value) :=
  if_pos valid

end Write

end Memory

/-- The owner of a list: a topic has a list of subscribers, a subscriber one of topics. -/
abbrev Owner (T S : Type) := T ⊕ S

/-- The side of a subscription that the list of an owner runs on. -/
def Owner.side : Owner T S → Side
  | .inl _ => .topicSubscriber
  | .inr _ => .subscriberTopic

/-- The head of the list of an owner. -/
def Owner.head : Owner T S → Slot T S
  | .inl topic => .topicHead topic
  | .inr subscriber => .subscriberHead subscriber

theorem layout_head : Layout (.next : Side → NodeId → Slot T S) Owner.head where
  next_injective := fun same => Slot.next.inj same
  root_injective := by
    intro first second same
    cases first <;> cases second <;> cases same <;> rfl
  root_ne_next := by
    intro owner side node same
    cases owner <;> cases same

/-- The memory as a family of lists. -/
abbrev Memory.Lists (mem : Memory T S) (root : Owner T S → Slot T S)
    (content : Owner T S → List NodeId) : Prop :=
  IntrusiveList.Lists mem.cells mem.prev .next Owner.side root content

namespace Memory

variable [DecidableEq T] [DecidableEq S] {mem : Memory T S} {root : Owner T S → Slot T S}
  {content : Owner T S → List NodeId}

/-- **Erasing a subscription from one of its lists.** -/
theorem eraseFrom_spec (lists : mem.Lists root content) (layout : Layout Slot.next root)
    {owner : Owner T S} {this : NodeId} (member : this ∈ content owner)
    (alive : ∀ node ∈ content owner, (mem.body node).isSome) (rooted : mem.valid (root owner)) :
    ∃ after, mem.eraseFrom owner.side this = .ok after ∧
      after.Lists root
        (Function.update content owner ((content owner).filter (· ≠ this))) ∧
      after.body = Function.update mem.body this ((mem.body this).map (·.leave owner.side)) ∧
      Framed mem after := by
  obtain ⟨before, behind, beforeCell, following, unlinked⟩ := lists.unlink layout member
  obtain ⟨found, stored, bodyThis, prevThis⟩ := exists_nodes (alive this member)
  have live : mem.valid (.next owner.side this) := by
    rw [valid_next]
    exact alive this member
  have valid : mem.valid before := by
    rcases beforeCell with rfl | ⟨other, inContent, _, rfl⟩
    · exact rooted
    · rw [valid_next]
      exact alive other inContent
  have apart : before ≠ .next owner.side this := by
    intro same
    rcases beforeCell with isRoot | ⟨other, _, different, isNext⟩
    · exact layout.root_ne_next owner owner.side this (isRoot.symm.trans same)
    · exact different (layout.next_injective (isNext.symm.trans same)).2
  have back : found.prev owner.side = some before := (prevThis _).symm.trans behind
  -- the cell before the node now points behind it, and the node still holds its own links
  let next := mem.cells (.next owner.side this)
  let written := mem.write before next
  have reload : written.cells (.next owner.side this) = next :=
    Function.update_of_ne apart.symm ..
  obtain ⟨pointed, pointing, cells, prev, body, framed⟩ := pointBack_spec written owner.side
    (some before) (fun node found => alive node (following node found).1)
  have lastAlive : (pointed.body this).isSome := by
    rw [body]
    exact alive this member
  obtain ⟨last, lastStored, lastBody, _⟩ := exists_nodes lastAlive
  refine ⟨pointed.put this (some (last.leave owner.side)), ?_, ?_, ?_, ?_⟩
  · have liveWritten : written.valid (.next owner.side this) := live
    have storedWritten : written.nodes this = some found := stored
    rw [eraseFrom, get_eq stored, Outcome.ok_bind, load_eq live, Outcome.ok_bind, back,
      store_eq valid, Outcome.ok_bind, get_eq storedWritten, Outcome.ok_bind,
      load_eq liveWritten, Outcome.ok_bind, back, reload, pointing, Outcome.ok_bind,
      modify_eq lastStored]
  · rw [Lists, prev_put_of_eq lastStored (Subscription.prev_leave _ _), prev, put_cells, cells]
    exact unlinked
  · have sameBody : last.detached = found.detached := by
      rw [body, write_body, bodyThis] at lastBody
      exact (Option.some.inj lastBody).symm
    rw [body_put, body, write_body, Option.map_some, Subscription.detached_leave, sameBody,
      bodyThis]
    rfl
  · exact ⟨framed.topicTail, framed.fresh, framed.localAlive⟩

/-- **Unsubscribing.** The subscription leaves both of its lists, and it is deleted unless
somebody else holds it. `cleared` is the memory once the erasing nodes are cleared. -/
theorem unsubscribe_spec {start : Memory T S} {this : NodeId} {found : Subscription T S}
    (stored : start.nodes this = some found)
    (clearing : start.clearErasing found.erasingNodes = .ok mem)
    (lists : mem.Lists root content) (layout : Layout Slot.next root)
    (alive : ∀ owner, ∀ node ∈ content owner, (mem.body node).isSome)
    (rooted : ∀ owner, mem.valid (root owner)) {topic : T} {subscriber : S}
    (onTopic : this ∈ content (.inl topic)) (onSubscriber : this ∈ content (.inr subscriber))
    {subscription : Subscription T S} (bodyThis : mem.body this = some subscription) :
    ∃ after, start.unsubscribe this = .ok after ∧
      after.Lists root (fun owner => (content owner).filter (· ≠ this)) ∧
      after.body = Function.update mem.body this
        ((subscription.leave .subscriberTopic).leave .topicSubscriber).delRef ∧
      Framed mem after := by
  obtain ⟨first, erasedFirst, listsFirst, bodyFirst, framedFirst⟩ :=
    eraseFrom_spec lists layout onSubscriber (alive _) (rooted _)
  have stillOnTopic : Function.update content (.inr subscriber)
      ((content (.inr subscriber)).filter (· ≠ this)) (.inl topic) = content (.inl topic) :=
    Function.update_of_ne Sum.inl_ne_inr ..
  have aliveFirst (node : NodeId) (member : (mem.body node).isSome) : (first.body node).isSome := by
    rw [bodyFirst]
    by_cases same : node = this
    · rw [same, Function.update_self, bodyThis]
      rfl
    · rwa [Function.update_of_ne same]
  have rootedFirst : first.valid (root (.inl topic)) :=
    framedFirst.valid (layout.root_ne_next _) (rooted _)
  have onTopicFirst : this ∈ Function.update content (.inr subscriber)
      ((content (.inr subscriber)).filter (· ≠ this)) (.inl topic) := stillOnTopic ▸ onTopic
  obtain ⟨second, erasedSecond, listsSecond, bodySecond, framedSecond⟩ :=
    eraseFrom_spec listsFirst layout onTopicFirst
      (fun node member => aliveFirst node (alive _ node (stillOnTopic ▸ member))) rootedFirst
  have bodyErased : second.body this =
      some ((subscription.leave .subscriberTopic).leave .topicSubscriber) := by
    rw [bodySecond, Function.update_self, bodyFirst, Function.update_self, bodyThis]
    rfl
  obtain ⟨after, released, cells, prev, body, framed⟩ := delRef_spec bodyErased
  have contents : Function.update (Function.update content (.inr subscriber)
      ((content (.inr subscriber)).filter (· ≠ this))) (.inl topic)
        ((Function.update content (.inr subscriber)
          ((content (.inr subscriber)).filter (· ≠ this)) (.inl topic)).filter (· ≠ this)) =
      fun owner => (content owner).filter (· ≠ this) := by
    rw [stillOnTopic]
    funext owner
    by_cases isTopic : owner = .inl topic
    · rw [isTopic, Function.update_self]
    · rw [Function.update_of_ne isTopic]
      by_cases isSubscriber : owner = .inr subscriber
      · rw [isSubscriber, Function.update_self]
      · rw [Function.update_of_ne isSubscriber]
        refine (filter_ne_of_notMem fun member => ?_).symm
        cases owner with
        | inl other => exact isTopic (lists.apart rfl member onTopic)
        | inr other => exact isSubscriber (lists.apart rfl member onSubscriber)
  refine ⟨after, ?_, ?_, ?_, framedFirst.trans (framedSecond.trans framed)⟩
  · rw [unsubscribe, get_eq stored, Outcome.ok_bind, clearing, Outcome.ok_bind]
    exact Outcome.bind_eq_ok.mpr ⟨first, erasedFirst,
      Outcome.bind_eq_ok.mpr ⟨second, erasedSecond, released⟩⟩
  · rw [contents] at listsSecond
    refine listsSecond.congr (fun owner => by rw [cells]) (fun owner node _ => by rw [cells])
      fun owner node member => prev _ node fun same => ?_
    exact (of_decide_eq_true (List.mem_filter.mp member).2 same).elim
  · rw [body, bodySecond, bodyFirst, Function.update_idem, Function.update_idem]

/-- **Adding a subscription to its topic**, behind the tail. -/
theorem addTopicSubscriber_spec (lists : mem.Lists Owner.head content) {this : NodeId} {topic : T}
    (absent : ∀ other, this ∉ content (.inl other))
    (last : mem.cells (.next .topicSubscriber this) = none)
    (aliveThis : (mem.body this).isSome)
    (alive : ∀ node ∈ content (.inl topic), (mem.body node).isSome)
    (tail : ∀ node, (content (.inl topic)).getLast? = some node →
      mem.topicTail topic = some node) :
    ∃ after, mem.addTopicSubscriber this topic = .ok after ∧
      after.Lists Owner.head
        (Function.update content (.inl topic) (content (.inl topic) ++ [this])) ∧
      after.body = mem.body ∧
      after.topicTail = Function.update mem.topicTail topic (some this) ∧
      after.fresh = mem.fresh ∧ after.localAlive = mem.localAlive := by
  obtain ⟨found, stored, _⟩ := exists_nodes aliveThis
  have absentOn (owner : Owner T S) (side : owner.side = Owner.side (.inl topic : Owner T S)) :
      this ∉ content owner := by
    cases owner with
    | inl other => exact absent other
    | inr subscriber => cases side
  have appended := lists.append layout_head (i := .inl topic) absentOn last
  have linked := lists.linked (.inl topic)
  -- the last cell of the list is the head of the topic or the next pointer of the tail
  have appending (cell : Slot T S) (isLast : cellAfter (.next .topicSubscriber)
      (Owner.head (.inl topic)) (content (.inl topic)) = cell) :
      let after := ((mem.write cell (some this)).put this
        (some (found.setPrev .topicSubscriber (some cell)))).setTail topic (some this)
      after.Lists Owner.head
          (Function.update content (.inl topic) (content (.inl topic) ++ [this])) ∧
        after.body = mem.body := by
    have storedWritten : (mem.write cell (some this)).nodes this = some found := stored
    refine ⟨?_, body_put_setPrev storedWritten _ _⟩
    rw [← isLast] at storedWritten ⊢
    refine IntrusiveList.Lists.congr appended (fun _ => rfl) (fun _ _ _ => rfl)
      fun owner node _ => ?_
    exact congrFun (congrFun (prev_put_setPrev storedWritten _ _) _) _
  rw [addTopicSubscriber]
  rcases List.eq_nil_or_concat (content (.inl topic)) with empty | ⟨front, node, split⟩
  · have head : mem.cells (.topicHead topic) = none := by
      rw [empty] at linked
      exact linked
    obtain ⟨listsAfter, bodyAfter⟩ := appending (.topicHead topic) (by rw [empty]; rfl)
    refine ⟨_, ?_, listsAfter, bodyAfter, rfl, rfl, rfl⟩
    have storedWritten : (mem.write (.topicHead topic) (some this)).nodes this = some found :=
      stored
    rw [head]
    dsimp only
    rw [store_eq rfl, Outcome.ok_bind, modify_eq storedWritten, Outcome.ok_bind]
  · rw [List.concat_eq_append] at split
    have isTail : mem.topicTail topic = some node :=
      tail node (by rw [split, List.getLast?_concat])
    have member : node ∈ content (.inl topic) := by
      rw [split]
      exact List.mem_append_right _ List.mem_cons_self
    obtain ⟨first, head⟩ : ∃ first, mem.cells (.topicHead topic) = some first := by
      rw [split] at linked
      cases front with
      | nil => exact ⟨_, linked.1⟩
      | cons first front => exact ⟨first, linked.1⟩
    obtain ⟨listsAfter, bodyAfter⟩ := appending (.next .topicSubscriber node)
      (by rw [split, cellAfter_append_singleton])
    refine ⟨_, ?_, listsAfter, bodyAfter, rfl, rfl, rfl⟩
    have valid : mem.valid (.next .topicSubscriber node) := by
      rw [valid_next]
      exact alive node member
    have storedWritten :
        (mem.write (.next .topicSubscriber node) (some this)).nodes this = some found := stored
    rw [head, isTail]
    dsimp only
    rw [store_eq valid, Outcome.ok_bind, modify_eq storedWritten, Outcome.ok_bind]

/-- **Adding a subscription to its subscriber**, in front. -/
theorem addSubscriberTopic_spec (subscriber : S) (lists : mem.Lists Owner.head content)
    {this : NodeId} (absent : ∀ other, this ∉ content (.inr other))
    (aliveThis : (mem.body this).isSome)
    (alive : ∀ node ∈ content (.inr subscriber), (mem.body node).isSome) :
    ∃ after, mem.addSubscriberTopic this subscriber = .ok after ∧
      after.Lists Owner.head
        (Function.update content (.inr subscriber) (this :: content (.inr subscriber))) ∧
      after.body = mem.body ∧ Framed mem after := by
  have absentOn (owner : Owner T S)
      (side : owner.side = Owner.side (.inr subscriber : Owner T S)) : this ∉ content owner := by
    cases owner with
    | inl topic => cases side
    | inr other => exact absent other
  have prepended := lists.prepend layout_head (i := .inr subscriber) absentOn
  have aliveHead (node : NodeId) (head : mem.cells (.subscriberHead subscriber) = some node) :
      (mem.body node).isSome := by
    have linked := lists.linked (.inr subscriber)
    cases nodes : content (.inr subscriber) with
    | nil =>
        rw [nodes] at linked
        exact (Option.some_ne_none _ (head.symm.trans linked)).elim
    | cons first rest =>
        rw [nodes] at linked alive
        rw [Option.some.inj (head.symm.trans linked.1)]
        exact alive first List.mem_cons_self
  obtain ⟨pointed, pointing, cells, prev, body, framed⟩ := pointBack_spec mem .subscriberTopic
    (some (.next .subscriberTopic this)) aliveHead
  have alivePointed : (pointed.body this).isSome := by
    rw [body]
    exact aliveThis
  obtain ⟨found, stored, _⟩ := exists_nodes alivePointed
  have valid : pointed.valid (.next .subscriberTopic this) := by
    rw [valid_next, body]
    exact aliveThis
  let written := pointed.write (.next .subscriberTopic this)
    (pointed.cells (.subscriberHead subscriber))
  have storedWritten : written.nodes this = some found := stored
  let linked := written.put this
    (some (found.setPrev .subscriberTopic (some (.subscriberHead subscriber))))
  refine ⟨linked.write (.subscriberHead subscriber) (some this), ?_, ?_,
    (body_put_setPrev storedWritten _ _).trans body,
    framed.topicTail, framed.fresh, framed.localAlive⟩
  · rw [addSubscriberTopic, pointing, Outcome.ok_bind, store_eq valid, Outcome.ok_bind,
      modify_eq storedWritten, Outcome.ok_bind]
    exact store_eq rfl _
  · have sameCells : (linked.write (.subscriberHead subscriber) (some this)).cells =
        Function.update (Function.update mem.cells (.next .subscriberTopic this)
          (mem.cells (.subscriberHead subscriber))) (.subscriberHead subscriber) (some this) := by
      rw [write_cells, put_cells, write_cells, cells]
    have samePrev : (linked.write (.subscriberHead subscriber) (some this)).prev =
        Function.update mem.prev .subscriberTopic (Function.update
          (relink (mem.prev .subscriberTopic) (mem.cells (.subscriberHead subscriber))
            (some (.next .subscriberTopic this))) this (some (.subscriberHead subscriber))) := by
      rw [write_prev, prev_put_setPrev storedWritten, write_prev, prev, Function.update_self,
        Function.update_idem]
    rw [Lists, sameCells, samePrev]
    exact prepended

/-- **A new subscription** is on no list yet. -/
theorem new_spec (lists : mem.Lists Owner.head content)
    (absent : ∀ owner, mem.fresh ∉ content owner) (topic : T) (subscriber : S) :
    ∃ created, mem.new topic subscriber = (mem.fresh, created) ∧
      created.Lists Owner.head content ∧
      created.body = Function.update mem.body mem.fresh (some (.new topic subscriber)) ∧
      created.cells (.next .topicSubscriber mem.fresh) = none ∧
      created.topicTail = mem.topicTail ∧ created.fresh = mem.fresh + 1 := by
  have cells (cell : Slot T S) (other : ∀ side, cell ≠ .next side mem.fresh) :
      (mem.new topic subscriber).2.cells cell = mem.cells cell := by
    refine (Function.update_of_ne (other .subscriberTopic) ..).trans ?_
    exact Function.update_of_ne (other .topicSubscriber) ..
  have isNew {owner : Owner T S} {node : NodeId} (member : node ∈ content owner) :
      node ≠ mem.fresh := fun same => absent owner (same ▸ member)
  refine ⟨_, rfl, ?_, body_put _ mem.fresh _, ?_, rfl, rfl⟩
  · apply lists.congr
    · intro owner
      exact cells _ fun side => layout_head.root_ne_next owner side mem.fresh
    · intro owner node member
      exact cells _ fun side same => isNew member (Slot.next.inj same).2
    · intro owner node member
      refine (congrFun (prev_put _ mem.fresh _ _) node).trans ?_
      exact Function.update_of_ne (isNew member) ..
  · have other : (Slot.next .topicSubscriber mem.fresh : Slot T S) ≠
        .next .subscriberTopic mem.fresh := nofun
    change Function.update (Function.update mem.cells (.next .topicSubscriber mem.fresh) none)
      (.next .subscriberTopic mem.fresh) none (.next .topicSubscriber mem.fresh) = none
    rw [Function.update_of_ne other, Function.update_self]

/-- **Reserving** puts a subscription on both of its lists, which then refer to it. -/
theorem reserveSubscribe_spec (lists : mem.Lists Owner.head content) {this : NodeId} {topic : T}
    (subscriber : S) (absent : ∀ owner, this ∉ content owner)
    (last : mem.cells (.next .topicSubscriber this) = none)
    {subscription : Subscription T S} (bodyThis : mem.body this = some subscription)
    (alive : ∀ owner, ∀ node ∈ content owner, (mem.body node).isSome)
    (tail : ∀ node, (content (.inl topic)).getLast? = some node →
      mem.topicTail topic = some node) :
    ∃ after, mem.reserveSubscribe this topic subscriber = .ok after ∧
      after.Lists Owner.head (Function.update
        (Function.update content (.inl topic) (content (.inl topic) ++ [this]))
        (.inr subscriber) (this :: content (.inr subscriber))) ∧
      after.body = Function.update mem.body this (some subscription.addRef) ∧
      after.topicTail = Function.update mem.topicTail topic (some this) ∧
      after.fresh = mem.fresh := by
  have aliveThis : (mem.body this).isSome := Option.isSome_of_mem bodyThis
  obtain ⟨added, adding, listsAdded, bodyAdded, tailAdded, freshAdded, _⟩ :=
    addTopicSubscriber_spec lists (fun other => absent _) last aliveThis (alive _) tail
  have elsewhere (other : S) : Function.update content (.inl topic)
      (content (.inl topic) ++ [this]) (.inr other) = content (.inr other) :=
    Function.update_of_ne Sum.inr_ne_inl ..
  obtain ⟨joined, joining, listsJoined, bodyJoined, framed⟩ :=
    addSubscriberTopic_spec subscriber listsAdded
      (fun other => by rw [elsewhere]; exact absent _)
      (by rw [bodyAdded]; exact aliveThis)
      (fun other member => by
        rw [elsewhere] at member
        rw [bodyAdded]
        exact alive _ other member)
  have body : joined.body = mem.body := bodyJoined.trans bodyAdded
  have aliveJoined : (joined.body this).isSome := by
    rw [body]
    exact aliveThis
  obtain ⟨found, stored, isFound, _⟩ := exists_nodes aliveJoined
  rw [body, bodyThis] at isFound
  refine ⟨joined.put this (some found.addRef), ?_, ?_, ?_, framed.topicTail.trans tailAdded,
    framed.fresh.trans freshAdded⟩
  · rw [reserveSubscribe, adding, Outcome.ok_bind, joining, Outcome.ok_bind, modify_eq stored]
  · rw [elsewhere] at listsJoined
    rw [Lists, prev_put_of_eq stored (Subscription.prev_addRef _)]
    exact listsJoined
  · rw [body_put, body, Option.map_some, Subscription.detached_addRef, ← Option.some.inj isFound]

end Memory

/-! ## Walking -/

namespace Memory

variable {mem : Memory T S} {cell : Slot T S} {nodes : List NodeId} {turns : Nat}

theorem chainFrom_spec {back : NodeId → Option (Slot T S)} {side : Side}
    (linked : Linked mem.cells back (.next side) cell nodes)
    (alive : ∀ node ∈ nodes, (mem.body node).isSome) (enough : nodes.length ≤ turns) :
    mem.chainFrom side turns (mem.cells cell) = .ok nodes := by
  induction nodes generalizing cell turns with
  | nil =>
      rw [show mem.cells cell = none from linked, chainFrom]
  | cons node nodes ih =>
      obtain ⟨first, _, rest⟩ := linked
      have valid : mem.valid (.next side node) := by
        rw [valid_next]
        exact alive node List.mem_cons_self
      cases turns with
      | zero => exact (Nat.not_succ_le_zero _ enough).elim
      | succ turns =>
          rw [first, chainFrom, load_eq valid, Outcome.ok_bind,
            ih rest (fun other member => alive other (List.mem_cons_of_mem _ member))
              (Nat.le_of_succ_le_succ enough), Outcome.ok_bind]

/-- The search stops at the first subscription of the topic. -/
theorem findTopicFrom_spec [DecidableEq T] {back : NodeId → Option (Slot T S)}
    (linked : Linked mem.cells back (.next .subscriberTopic) cell nodes)
    (alive : ∀ node ∈ nodes, (mem.body node).isSome) (enough : nodes.length ≤ turns) (topic : T) :
    mem.findTopicFrom topic turns (mem.cells cell) =
      .ok (nodes.find? fun node => (mem.body node).any (·.topic = some topic)) := by
  induction nodes generalizing cell turns with
  | nil =>
      rw [show mem.cells cell = none from linked, findTopicFrom]
      rfl
  | cons node nodes ih =>
      obtain ⟨first, _, rest⟩ := linked
      have live := alive node List.mem_cons_self
      have valid : mem.valid (.next .subscriberTopic node) := by
        rw [valid_next]
        exact live
      obtain ⟨found, stored, body, _⟩ := exists_nodes live
      cases turns with
      | zero => exact (Nat.not_succ_le_zero _ enough).elim
      | succ turns =>
          rw [first, findTopicFrom, get_eq stored, Outcome.ok_bind, List.find?_cons, body,
            Option.any_some]
          by_cases hit : found.topic = some topic
          · rw [if_pos hit, show found.detached.topic = some topic from hit]
            simp only [decide_true]
          · rw [if_neg hit, load_eq valid, Outcome.ok_bind,
              ih rest (fun other member => alive other (List.mem_cons_of_mem _ member))
                (Nat.le_of_succ_le_succ enough)]
            rw [decide_eq_false (show ¬ found.detached.topic = some topic from hit)]

/-- Publishing visits every node of the list. -/
theorem publishNewFrom_spec {C : Type} {back : NodeId → Option (Slot T S)}
    (linked : Linked mem.cells back (.next .topicSubscriber) cell nodes)
    (alive : ∀ node ∈ nodes, ∃ found, mem.body node = some found ∧ found.subscriber.isSome)
    (enough : nodes.length ≤ turns) (newSet : List C) :
    ∃ visits, Topic.publishNewFrom mem newSet turns (mem.cells cell) = .ok visits ∧
      visits.map Prod.fst = nodes := by
  induction nodes generalizing cell turns with
  | nil =>
      rw [show mem.cells cell = none from linked, Topic.publishNewFrom]
      exact ⟨[], rfl, rfl⟩
  | cons node nodes ih =>
      obtain ⟨first, _, rest⟩ := linked
      obtain ⟨detached, live, known⟩ := alive node List.mem_cons_self
      have isSome : (mem.body node).isSome := Option.isSome_of_mem live
      have valid : mem.valid (.next .topicSubscriber node) := by
        rw [valid_next]
        exact isSome
      obtain ⟨found, stored, body, _⟩ := exists_nodes isSome
      cases body.symm.trans live
      obtain ⟨suber, isSuber⟩ := Option.isSome_iff_exists.mp known
      obtain ⟨published, publishes⟩ : ∃ published, found.publish newSet = .ok published := by
        have same : found.subscriber = some suber := isSuber
        unfold Subscription.publish
        rw [same]
        split
        · exact ⟨_, rfl⟩
        · exact ⟨_, rfl⟩
      cases turns with
      | zero => exact (Nat.not_succ_le_zero _ enough).elim
      | succ turns =>
          obtain ⟨visits, visiting, nodesVisited⟩ := ih rest
            (fun other member => alive other (List.mem_cons_of_mem _ member))
            (Nat.le_of_succ_le_succ enough)
          refine ⟨(node, published) :: visits, ?_, congrArg (node :: ·) nodesVisited⟩
          rw [first, Topic.publishNewFrom, get_eq stored, Outcome.ok_bind, publishes,
            Outcome.ok_bind, load_eq valid, Outcome.ok_bind, visiting, Outcome.ok_bind]

end Memory

end Cube.Eco.Thread
