import Cube.Eco.Thread.TopicMembership

/-! # What is published at the subscriptions of a topic

A subscription works once it is confirmed, and `publish_new` hands new contents to the
subscribers whose subscriptions work. Only the confirmation of a subscription changes whether
it works.
-/

namespace Cube.Eco.Thread

variable {T S : Type}

namespace Memory

/-- Whether a subscription works, if it is alive. -/
def working (mem : Memory T S) (node : NodeId) : Option Bool := (mem.nodes node).map (·.working)

section Put

variable (mem : Memory T S) (this : NodeId) (value : Option (Subscription T S))

theorem working_put :
    (mem.put this value).working = Function.update mem.working this (value.map (·.working)) := by
  funext node
  by_cases same : node = this
  · rw [same, Function.update_self, working, put_nodes, Function.update_self]
  · rw [Function.update_of_ne same, working, put_nodes, Function.update_of_ne same, working]

variable {mem this}

theorem working_of_nodes {found : Subscription T S} (stored : mem.nodes this = some found) :
    mem.working this = some found.working := by
  rw [working, stored, Option.map_some]

end Put

section Frame

variable {mem after : Memory T S} {this : NodeId}

theorem nodes_of_get {found : Subscription T S} (got : mem.get this = .ok found) :
    mem.nodes this = some found := by
  unfold get at got
  split at got
  · cases got
    assumption
  · cases got

theorem working_modify {change : Subscription T S → Subscription T S}
    (modified : mem.modify this change = .ok after)
    (keeps : ∀ found, (change found).working = found.working) : after.working = mem.working := by
  obtain ⟨found, got, result⟩ := Outcome.bind_eq_ok.mp modified
  cases result
  have stored := nodes_of_get got
  rw [working_put, Option.map_some, keeps, ← working_of_nodes stored, Function.update_eq_self]

theorem working_delRef (released : mem.delRef this = .ok after) {node : NodeId}
    (alive : (after.nodes node).isSome) : after.working node = mem.working node := by
  obtain ⟨found, got, result⟩ := Outcome.bind_eq_ok.mp released
  cases result
  have stored := nodes_of_get got
  by_cases same : node = this
  · subst same
    rw [put_nodes, Function.update_self] at alive
    rw [working_put, Function.update_self, working_of_nodes stored]
    unfold Subscription.delRef at alive ⊢
    split at alive
    · cases alive
    · rw [if_neg ‹_›, Option.map_some]
  · rw [working_put, Function.update_of_ne same]

theorem setPrev_working (found : Subscription T S) (side : Side) (cell : Option (Slot T S)) :
    (found.setPrev side cell).working = found.working := by
  cases side <;> rfl

theorem working_pointBack {side : Side} {cell : Option (Slot T S)} {node : Option NodeId}
    (pointed : mem.pointBack side cell node = .ok after) : after.working = mem.working := by
  cases node with
  | none =>
      cases pointed
      rfl
  | some node => exact working_modify pointed fun found => setPrev_working found side cell

variable [DecidableEq T] [DecidableEq S]

theorem working_store {pointer : Option (Slot T S)} {value : Option NodeId}
    (stored : mem.store pointer value = .ok after) : after.working = mem.working := by
  cases pointer with
  | none => cases stored
  | some cell =>
      simp only [store] at stored
      split at stored
      · cases stored
        rfl
      · cases stored

theorem working_addTopicSubscriber {topic : T}
    (added : mem.addTopicSubscriber this topic = .ok after) : after.working = mem.working := by
  have keeps (cell : Slot T S) (found : Subscription T S) :
      (found.setPrev .topicSubscriber (some cell)).working = found.working := rfl
  unfold addTopicSubscriber at added
  split at added
  · obtain ⟨first, storing, rest⟩ := Outcome.bind_eq_ok.mp added
    obtain ⟨second, modifying, result⟩ := Outcome.bind_eq_ok.mp rest
    cases result
    exact (working_modify modifying (keeps _)).trans (working_store storing)
  · split at added
    · cases added
    · obtain ⟨first, storing, rest⟩ := Outcome.bind_eq_ok.mp added
      obtain ⟨second, modifying, result⟩ := Outcome.bind_eq_ok.mp rest
      cases result
      exact (working_modify modifying (keeps _)).trans (working_store storing)

theorem working_addSubscriberTopic {subscriber : S}
    (added : mem.addSubscriberTopic this subscriber = .ok after) :
    after.working = mem.working := by
  obtain ⟨first, pointing, rest⟩ := Outcome.bind_eq_ok.mp added
  obtain ⟨second, storing, rest⟩ := Outcome.bind_eq_ok.mp rest
  obtain ⟨third, modifying, last⟩ := Outcome.bind_eq_ok.mp rest
  rw [working_store last, working_modify modifying (fun _ => rfl), working_store storing,
    working_pointBack pointing]

theorem working_reserveSubscribe {topic : T} {subscriber : S}
    (reserved : mem.reserveSubscribe this topic subscriber = .ok after) :
    after.working = mem.working := by
  obtain ⟨first, joining, rest⟩ := Outcome.bind_eq_ok.mp reserved
  obtain ⟨second, listing, last⟩ := Outcome.bind_eq_ok.mp rest
  rw [working_modify last (fun _ => rfl), working_addSubscriberTopic listing,
    working_addTopicSubscriber joining]

end Frame

end Memory

namespace Topic

variable {mem after : Memory T S}

/-- A subscription that still has its subscriber works once it is confirmed. -/
theorem working_publishSnap {node : NodeId} {found : Subscription T S}
    (stored : mem.nodes node = some found) (known : found.subscriber.isSome)
    (published : publishSnap mem node = .ok after) :
    after.working = Function.update mem.working node (some true) := by
  rw [publishSnap, Memory.get_eq stored, Outcome.ok_bind, if_pos known,
    Memory.modify_eq stored] at published
  cases published
  rw [Memory.working_put, Option.map_some]
  rfl

variable [DecidableEq T] [DecidableEq S]

/-- A new subscription does not work yet. -/
theorem working_reserveSubscribe {topic : T} {subscriber : S} {node : NodeId}
    (reserved : reserveSubscribe mem topic subscriber = .ok (some node, after)) :
    after.working = Function.update mem.working mem.fresh (some false) := by
  obtain ⟨has, _, rest⟩ := Outcome.bind_eq_ok.mp reserved
  split at rest
  · cases rest
  · obtain ⟨first, reserving, rest⟩ := Outcome.bind_eq_ok.mp rest
    obtain ⟨second, holding, result⟩ := Outcome.bind_eq_ok.mp rest
    cases result
    rw [Memory.working_modify holding (fun _ => rfl), Memory.working_reserveSubscribe reserving]
    exact Memory.working_put ..

end Topic

/-! ## The walk of `publish_new` -/

section Walk

variable {C : Type}

/-- What is published at a reserved subscription. -/
def Reservation.publishes (r : Reservation T S) (mem : Memory T S) (newSet : List C) :
    List (S × C) :=
  if mem.working r.node = some true then newSet.map (r.subscriber, ·) else []

theorem Subscription.publish_eq {found : Subscription T S} {r : Reservation T S}
    {mem : Memory T S} (stored : mem.nodes r.node = some found)
    (known : found.subscriber = some r.subscriber) (newSet : List C) :
    found.publish newSet = .ok (r.publishes mem newSet) := by
  rw [publish, Reservation.publishes, Memory.working_of_nodes stored, known]
  cases found.working <;> rfl

variable {mem : Memory T S}

/-- The walk visits the subscriptions of a list in their order. -/
theorem Memory.publishNewFrom_eq {back : NodeId → Option (Slot T S)} {cell : Slot T S}
    {rs : List (Reservation T S)} {turns : Nat}
    (linked : IntrusiveList.Linked mem.cells back (.next .topicSubscriber) cell
      (rs.map (·.node)))
    (known : ∀ r ∈ rs, ∃ found, mem.nodes r.node = some found ∧
      found.subscriber = some r.subscriber)
    (enough : rs.length ≤ turns) (newSet : List C) :
    Topic.publishNewFrom mem newSet turns (mem.cells cell) =
      .ok (rs.map fun r => (r.node, r.publishes mem newSet)) := by
  induction rs generalizing cell turns with
  | nil =>
      rw [show mem.cells cell = none from linked, Topic.publishNewFrom]
      rfl
  | cons r rs ih =>
      obtain ⟨first, _, rest⟩ := linked
      obtain ⟨found, stored, isSuber⟩ := known r List.mem_cons_self
      have valid : mem.valid (.next .topicSubscriber r.node) := Option.isSome_of_mem stored
      cases turns with
      | zero => exact (Nat.not_succ_le_zero _ enough).elim
      | succ turns =>
          have later := ih rest (fun other member => known other (List.mem_cons_of_mem _ member))
            (Nat.le_of_succ_le_succ enough)
          rw [first, Topic.publishNewFrom, get_eq stored, Outcome.ok_bind,
            Subscription.publish_eq stored isSuber, Outcome.ok_bind, load_eq valid,
            Outcome.ok_bind, later, Outcome.ok_bind]
          rfl

end Walk

namespace System

variable [DecidableEq T] [DecidableEq S] {system : System T S}

theorem Sound.exists_nodes (sound : system.Sound) {r : Reservation T S}
    (member : r ∈ system.reserved) : ∃ found, system.memory.nodes r.node = some found ∧
      found.subscriber = some r.subscriber := by
  obtain ⟨detached, live, _, known, _⟩ := sound.represents.exists_body member
  obtain ⟨found, stored, body, _⟩ := Memory.exists_nodes (Option.isSome_of_mem live)
  cases body.symm.trans live
  exact ⟨found, stored, known⟩

/-- **Publishing.** The subscriptions of a topic are visited in the order of their
reservation, and new contents are published at those that work. -/
theorem Sound.publishNew (sound : system.Sound) {C : Type} (topic : T) (newSet : List C) :
    Topic.publishNew system.memory topic newSet =
      .ok ((system.reserved.filter (·.ownedBy (.inl topic))).map fun r =>
        (r.node, r.publishes system.memory newSet)) := by
  have bound := sound.represents.length_le (.inl topic)
  rw [nodesOf, List.length_map] at bound
  exact Memory.publishNewFrom_eq (sound.represents.lists.linked (.inl topic))
    (fun r member => sound.exists_nodes (List.mem_filter.mp member).1) bound newSet

/-- Reserving either finds that the subscriber has subscribed, or makes a new subscription. -/
theorem Sound.reserveSubscribe (sound : system.Sound)
    (tailed : Tailed system.memory system.reserved) (topic : T) (subscriber : S) :
    Topic.reserveSubscribe system.memory topic subscriber = .ok (none, system.memory) ∨
    ∃ mem, Topic.reserveSubscribe system.memory topic subscriber =
        .ok (some system.memory.fresh, mem) ∧
      (∀ r ∈ system.reserved, ¬ (r.topic = topic ∧ r.subscriber = subscriber)) ∧
      (System.mk mem (system.reserved ++ [⟨system.memory.fresh, topic, subscriber⟩])
        (system.memory.fresh :: system.held)).Sound ∧
      Tailed mem (system.reserved ++ [⟨system.memory.fresh, topic, subscriber⟩]) ∧
      mem.working = Function.update system.memory.working system.memory.fresh (some false) := by
  rcases sound.reserve_cases tailed topic subscriber with
    known | ⟨mem, returned, new, soundAfter, tailedAfter⟩
  · exact .inl known
  · exact .inr ⟨mem, returned, new, soundAfter, tailedAfter,
      Topic.working_reserveSubscribe returned⟩

/-- Confirming a reserved subscription makes it work. -/
theorem Sound.publishSnap (sound : system.Sound)
    (tailed : Tailed system.memory system.reserved) {r : Reservation T S}
    (member : r ∈ system.reserved) (isHeld : r.node ∈ system.held) :
    ∃ mem, Topic.publishSnap system.memory r.node = .ok mem ∧
      ({ system with memory := mem } : System T S).Sound ∧ Tailed mem system.reserved ∧
      mem.working = Function.update system.memory.working r.node (some true) := by
  obtain ⟨found, stored, known⟩ := sound.exists_nodes member
  obtain ⟨after, published, represents, quiet, tails⟩ :=
    sound.represents.publishSnap sound.quiet isHeld
  exact ⟨after, published, ⟨represents, quiet, sound.single⟩, tailed_of_tails tailed tails,
    Topic.working_publishSnap stored (Option.isSome_of_mem known) published⟩

theorem Sound.release (sound : system.Sound)
    (tailed : Tailed system.memory system.reserved) {node : NodeId} (isHeld : node ∈ system.held) :
    ∃ mem, system.memory.delRef node = .ok mem ∧
      ({ system with memory := mem, held := system.held.erase node } : System T S).Sound ∧
      Tailed mem system.reserved ∧
      ∀ r ∈ system.reserved, mem.working r.node = system.memory.working r.node := by
  obtain ⟨after, released, represents, quiet, tails⟩ := sound.represents.release sound.quiet isHeld
  have soundAfter : ({ system with memory := after, held := system.held.erase node } :
      System T S).Sound := ⟨represents, quiet, sound.single⟩
  refine ⟨after, released, soundAfter, tailed_of_tails tailed tails, fun r member => ?_⟩
  obtain ⟨found, stored, _⟩ := soundAfter.exists_nodes member
  exact Memory.working_delRef released (Option.isSome_of_mem stored)

end System

end Cube.Eco.Thread
