import Cube.Lib.Run
import Cube.Eco.Thread.SubscriptionOperations

/-! # Membership in topics

The history of a system of topics and subscribers says which subscriptions are reserved. Under
every history the lists in memory agree with it, and so do the tails of the topics as long as
no operation removes the last subscription of a topic and leaves another one.
-/

namespace Cube.Eco.Thread

variable {T S : Type} [DecidableEq T] [DecidableEq S]

/-- What is done to topics and subscribers, and to the subscriptions that `reserve_subscribe`
has returned. -/
inductive Operation (T S : Type) where
  | reserveSubscribe (topic : T) (subscriber : S)
  | unsubscribe (topic : T) (subscriber : S)
  | unsubscribeAll (subscriber : S)
  | clear (topic : T)
  | publishSnap (subscription : NodeId)
  | release (subscription : NodeId)
  deriving DecidableEq, Repr

/-- Whether an operation removes a reservation. -/
def Operation.removes : Operation T S → Reservation T S → Bool
  | .unsubscribe topic subscriber, r => r.topic = topic ∧ r.subscriber = subscriber
  | .unsubscribeAll subscriber, r => r.subscriber = subscriber
  | .clear topic, r => r.topic = topic
  | _, _ => false

/-- The memory with its history: the reservations that were made and not removed, and the
subscriptions that the callers of `reserve_subscribe` still hold. -/
structure System (T S : Type) where
  memory : Memory T S
  reserved : List (Reservation T S)
  held : List NodeId

namespace System

def empty : System T S := ⟨.empty, [], []⟩

/-- What an operation that removes reservations leaves. -/
def remove (system : System T S) (operation : Operation T S) (mem : Memory T S) : System T S :=
  ⟨mem, system.reserved.filter (!operation.removes ·), system.held⟩

def step (system : System T S) (operation : Operation T S) : Outcome Empty (System T S) :=
  match operation with
  | .reserveSubscribe topic subscriber => do
      match ← Topic.reserveSubscribe system.memory topic subscriber with
      | (some node, mem) =>
          .ok ⟨mem, system.reserved ++ [⟨node, topic, subscriber⟩], node :: system.held⟩
      | (none, mem) => .ok { system with memory := mem }
  | .unsubscribe topic subscriber => do
      let (_, mem) ← Topic.unsubscribe system.memory topic subscriber
      .ok (system.remove operation mem)
  | .unsubscribeAll subscriber => do
      let mem ← Subscriber.unsubscribeAll system.memory subscriber
      .ok (system.remove operation mem)
  | .clear topic => do
      let mem ← Topic.clear system.memory topic
      .ok (system.remove operation mem)
  | .publishSnap node =>
      if node ∈ system.held then do
        let mem ← Topic.publishSnap system.memory node
        .ok { system with memory := mem }
      else .ok system
  | .release node =>
      if node ∈ system.held then do
        let mem ← system.memory.delRef node
        .ok { system with memory := mem, held := system.held.erase node }
      else .ok system

/-- A node is on the chain of an owner. -/
def OnChain (system : System T S) (owner : Owner T S) (node : NodeId) : Prop :=
  ∃ nodes, system.memory.chain owner.side owner.head = .ok nodes ∧ node ∈ nodes

/-- The memory agrees with the history. -/
structure Consistent (system : System T S) : Prop where
  topics : ∀ topic, system.memory.chain .topicSubscriber (.topicHead topic) =
    .ok (nodesOf system.reserved (.inl topic))
  subscribers : ∀ subscriber, system.memory.chain .subscriberTopic (.subscriberHead subscriber) =
    .ok (nodesOf system.reserved (.inr subscriber))
  once : ∀ topic, (nodesOf system.reserved (.inl topic)).Nodup
  tails : Tailed system.memory system.reserved
  both : ∀ node found topic subscriber, system.memory.nodes node = some found →
    found.topic = some topic → found.subscriber = some subscriber →
      (system.OnChain (.inl topic) node ↔ system.OnChain (.inr subscriber) node)
  visited : ∀ {C : Type} topic (newSet : List C), ∃ visits,
    Topic.publishNew system.memory topic newSet = .ok visits ∧
      visits.map Prod.fst = nodesOf system.reserved (.inl topic)

end System

/-- An operation that removes the last subscription of a topic removes all of them. -/
def Operation.KeepsLast (operation : Operation T S) (reserved : List (Reservation T S)) : Prop :=
  ∀ topic last, (reserved.filter (·.ownedBy (.inl topic))).getLast? = some last →
    operation.removes last → ∀ other ∈ reserved, other.topic = topic → operation.removes other

/-- The invariant of all histories, whatever they remove. -/
structure System.Sound (system : System T S) : Prop where
  represents : Represents system.memory Owner.head system.reserved system.held
  quiet : Quiet system.memory system.reserved
  single : Single system.reserved

namespace System

variable {system : System T S}

theorem Sound.chain (sound : system.Sound) (owner : Owner T S) :
    system.memory.chain owner.side owner.head = .ok (nodesOf system.reserved owner) :=
  Memory.chainFrom_spec (sound.represents.lists.linked owner)
    (fun _ => sound.represents.alive) (sound.represents.length_le owner)

theorem Sound.onChain (sound : system.Sound) {owner : Owner T S} {node : NodeId} :
    system.OnChain owner node ↔ ∃ r ∈ system.reserved, r.ownedBy owner ∧ r.node = node := by
  rw [← mem_nodesOf]
  refine ⟨fun ⟨nodes, chain, member⟩ => ?_, fun member => ⟨_, sound.chain owner, member⟩⟩
  rw [sound.chain owner] at chain
  cases chain
  exact member

/-- **Sound systems are consistent**, once their tails are right. -/
theorem Sound.consistent (sound : system.Sound) (tailed : Tailed system.memory system.reserved) :
    system.Consistent where
  topics := fun topic => sound.chain (.inl topic)
  subscribers := fun subscriber => sound.chain (.inr subscriber)
  once := fun topic => sound.represents.lists.nodup (.inl topic)
  tails := tailed
  both := by
    intro node found topic subscriber stored isTopic isSubscriber
    have owners {r : Reservation T S} (member : r ∈ system.reserved) (same : r.node = node) :
        r.topic = topic ∧ r.subscriber = subscriber := by
      obtain ⟨detached, live, reservedTopic, reservedSubscriber, _⟩ :=
        sound.represents.exists_body member
      rw [same, Memory.body, stored] at live
      cases live
      exact ⟨Option.some.inj (reservedTopic.symm.trans isTopic),
        Option.some.inj (reservedSubscriber.symm.trans isSubscriber)⟩
    rw [sound.onChain, sound.onChain]
    refine exists_congr fun r => and_congr_right fun member => ?_
    constructor
    · rintro ⟨_, same⟩
      exact ⟨decide_eq_true (owners member same).2, same⟩
    · rintro ⟨_, same⟩
      exact ⟨decide_eq_true (owners member same).1, same⟩
  visited := fun topic newSet => by
    refine Memory.publishNewFrom_spec (sound.represents.lists.linked (.inl topic))
      (fun node member => ?_) (sound.represents.length_le (.inl topic)) newSet
    obtain ⟨r, inReserved, _, rfl⟩ := mem_nodesOf.mp member
    obtain ⟨found, live, _, isSubscriber, _⟩ := sound.represents.exists_body inReserved
    exact ⟨found, live, Option.isSome_of_mem isSubscriber⟩

theorem sound_empty : (empty : System T S).Sound where
  represents :=
    { layout := layout_head
      rooted := fun owner => by cases owner <;> rfl
      lists :=
        { linked := fun owner => by cases owner <;> rfl
          nodup := fun owner => by cases owner <;> exact List.nodup_nil
          apart := fun {owner} _ _ _ member => by cases owner <;> cases member }
      nodup := List.nodup_nil
      registered := nofun
      removed := nofun
      heldNodup := List.nodup_nil
      below := fun _ isAlive => Bool.noConfusion isAlive }
  quiet := nofun
  single := nofun

theorem tailed_empty : Tailed (empty : System T S).memory (empty : System T S).reserved := nofun

/-! ## Steps -/

section Remove

variable {mem after : Memory T S} {reserved : List (Reservation T S)} {held : List NodeId}

theorem getLast?_nodesOf (reserved : List (Reservation T S)) (topic : T) :
    (nodesOf reserved (.inl topic)).getLast? =
      (reserved.filter (·.ownedBy (.inl topic))).getLast?.map (·.node) := List.getLast?_map

/-- If the tails are right after a removal that leaves them alone, the last subscriptions were
kept: the tail of a topic that has a subscription left would be one that was removed. -/
theorem keepsLast_of_tailed (represents : Represents mem Owner.head reserved held)
    (tailed : Tailed mem reserved) (tails : after.topicTail = mem.topicTail)
    {operation : Operation T S}
    (tailedAfter : Tailed after (reserved.filter (!operation.removes ·))) :
    operation.KeepsLast reserved := by
  intro topic last isLast removed other inReserved isTopic
  by_contra kept
  have lastTail := tailed topic last.node (by rw [getLast?_nodesOf, isLast]; rfl)
  have remains : other ∈ (reserved.filter (!operation.removes ·)).filter
      (·.ownedBy (.inl topic)) := by
    refine List.mem_filter.mpr ⟨List.mem_filter.mpr ⟨inReserved, ?_⟩, decide_eq_true isTopic⟩
    rw [Bool.eq_false_iff.mpr kept, Bool.not_false]
  obtain ⟨left, isLeft⟩ : ∃ left, ((reserved.filter (!operation.removes ·)).filter
      (·.ownedBy (.inl topic))).getLast? = some left :=
    ⟨_, List.getLast?_eq_some_getLast (List.ne_nil_of_mem remains)⟩
  have leftTail := tailedAfter topic left.node (by rw [getLast?_nodesOf, isLeft]; rfl)
  have leftIn := List.mem_filter.mp (List.mem_filter.mp (List.mem_of_getLast? isLeft)).1
  have lastIn := List.mem_filter.mp (List.mem_of_getLast? isLast)
  rw [tails, lastTail] at leftTail
  have same := represents.eq_of_node lastIn.1 leftIn.1 (Option.some.inj leftTail)
  rw [same] at removed
  rw [removed] at leftIn
  exact Bool.noConfusion leftIn.2

/-- If the last subscriptions are kept, they are still the last ones after the removal. -/
theorem tailed_of_keepsLast (tailed : Tailed mem reserved)
    (tails : after.topicTail = mem.topicTail) {operation : Operation T S}
    (keeps : operation.KeepsLast reserved) :
    Tailed after (reserved.filter (!operation.removes ·)) := by
  intro topic node isLast
  rw [getLast?_nodesOf, List.filter_comm] at isLast
  obtain ⟨left, isLeft, rfl⟩ := Option.map_eq_some_iff.mp isLast
  rw [tails]
  apply tailed topic left.node
  rw [getLast?_nodesOf]
  rcases List.eq_nil_or_concat (reserved.filter (·.ownedBy (.inl topic))) with
    none | ⟨front, last, split⟩
  · rw [none] at isLeft
    cases isLeft
  · rw [List.concat_eq_append] at split
    have isLast : (reserved.filter (·.ownedBy (.inl topic))).getLast? = some last := by
      rw [split, List.getLast?_concat]
    have stays : operation.removes last = false := by
      by_contra removed
      have leftIn := List.mem_filter.mp (List.mem_of_getLast? isLeft)
      have owned := List.mem_filter.mp leftIn.1
      have gone := keeps topic last isLast (Bool.of_not_eq_false removed) left owned.1
        (of_decide_eq_true owned.2)
      rw [gone] at leftIn
      exact Bool.noConfusion leftIn.2
    have same : left = last := by
      rw [split, List.filter_append, List.filter_cons_of_pos (by rw [stays]; rfl),
        List.filter_nil, List.getLast?_concat] at isLeft
      exact (Option.some.inj isLeft).symm
    rw [isLast, same]
    rfl

/-- **Tails after a removal** that leaves the tails alone. -/
theorem tailed_remove_iff (represents : Represents mem Owner.head reserved held)
    (tailed : Tailed mem reserved) (tails : after.topicTail = mem.topicTail)
    (operation : Operation T S) :
    Tailed after (reserved.filter (!operation.removes ·)) ↔ operation.KeepsLast reserved :=
  ⟨keepsLast_of_tailed represents tailed tails, tailed_of_keepsLast tailed tails⟩

end Remove

section Step

variable {system : System T S}

theorem Sound.remove (sound : system.Sound) {operation : Operation T S} {mem : Memory T S}
    (represents : Represents mem Owner.head (system.reserved.filter (!operation.removes ·))
      system.held)
    (quiet : Quiet mem (system.reserved.filter (!operation.removes ·))) :
    (system.remove operation mem).Sound where
  represents := represents
  quiet := quiet
  single := fun first firstIn second secondIn =>
    sound.single first (List.mem_filter.mp firstIn).1 second (List.mem_filter.mp secondIn).1

/-- A step returns and leaves the system sound, with right tails exactly if the operation keeps
the last subscriptions. -/
def StepsSoundly (system : System T S) (operation : Operation T S) : Prop :=
  ∃ after, system.step operation = .ok after ∧ after.Sound ∧
    (Tailed after.memory after.reserved ↔ operation.KeepsLast system.reserved)

theorem Sound.stepsSoundly_removal (sound : system.Sound)
    (tailed : Tailed system.memory system.reserved) {operation : Operation T S}
    {mem : Memory T S} (stepped : system.step operation = .ok (system.remove operation mem))
    (represents : Represents mem Owner.head (system.reserved.filter (!operation.removes ·))
      system.held)
    (quiet : Quiet mem (system.reserved.filter (!operation.removes ·)))
    (tails : mem.topicTail = system.memory.topicTail) : system.StepsSoundly operation :=
  ⟨_, stepped, sound.remove represents quiet,
    tailed_remove_iff sound.represents tailed tails operation⟩

/-- An operation that removes nothing keeps the last subscriptions. -/
theorem stepsSoundly_of_tailed {operation : Operation T S} {after : System T S}
    (removesNone : ∀ r, operation.removes r = false) (stepped : system.step operation = .ok after)
    (sound : after.Sound) (tailed : Tailed after.memory after.reserved) :
    system.StepsSoundly operation := by
  refine ⟨after, stepped, sound, iff_of_true tailed fun topic last _ removed => ?_⟩
  rw [removesNone] at removed
  exact Bool.noConfusion removed

/-- Reserving either finds that the subscriber has subscribed, or makes a new subscription. -/
theorem Sound.reserve_cases (sound : system.Sound)
    (tailed : Tailed system.memory system.reserved) (topic : T) (subscriber : S) :
    Topic.reserveSubscribe system.memory topic subscriber = .ok (none, system.memory) ∨
    ∃ mem, Topic.reserveSubscribe system.memory topic subscriber =
        .ok (some system.memory.fresh, mem) ∧
      (∀ r ∈ system.reserved, ¬ (r.topic = topic ∧ r.subscriber = subscriber)) ∧
      (System.mk mem (system.reserved ++ [⟨system.memory.fresh, topic, subscriber⟩])
        (system.memory.fresh :: system.held)).Sound ∧
      Tailed mem (system.reserved ++ [⟨system.memory.fresh, topic, subscriber⟩]) := by
  obtain ⟨found, search, _, miss⟩ := sound.represents.findTopic subscriber topic
  have has : Topic.hasSubscriber system.memory topic subscriber = .ok found.isSome := by
    rw [Topic.hasSubscriber, Subscriber.hasTopic, search, Outcome.ok_bind]
  cases found with
  | some node =>
      left
      rw [Topic.reserveSubscribe, has, Outcome.ok_bind]
      rfl
  | none =>
      obtain ⟨after, returned, represents, quiet, tailedAfter⟩ :=
        sound.represents.reserve sound.quiet tailed has
      exact .inr ⟨after, returned, miss rfl,
        ⟨represents, quiet, single_append sound.single (miss rfl)⟩, tailedAfter⟩

theorem Sound.stepsSoundly_reserveSubscribe (sound : system.Sound)
    (tailed : Tailed system.memory system.reserved) (topic : T) (subscriber : S) :
    system.StepsSoundly (.reserveSubscribe topic subscriber) := by
  rcases sound.reserve_cases tailed topic subscriber with
    known | ⟨mem, returned, _, soundAfter, tailedAfter⟩
  · have stepped : system.step (.reserveSubscribe topic subscriber) = .ok system := by
      rw [System.step, known, Outcome.ok_bind]
    exact stepsSoundly_of_tailed (fun _ => rfl) stepped sound tailed
  · have stepped : system.step (.reserveSubscribe topic subscriber) = .ok
        ⟨mem, system.reserved ++ [⟨system.memory.fresh, topic, subscriber⟩],
          system.memory.fresh :: system.held⟩ := by
      rw [System.step, returned, Outcome.ok_bind]
    exact stepsSoundly_of_tailed (fun _ => rfl) stepped soundAfter tailedAfter

theorem Sound.stepsSoundly_clear (sound : system.Sound)
    (tailed : Tailed system.memory system.reserved) (topic : T) :
    system.StepsSoundly (.clear topic) := by
  obtain ⟨after, cleared, represents, quiet, tailedAfter⟩ :=
    sound.represents.clear sound.quiet tailed topic
  refine ⟨system.remove (.clear topic) after, ?_, sound.remove represents quiet,
    iff_of_true tailedAfter fun other last isLast removed reservation _ isTopic => ?_⟩
  · rw [System.step, cleared, Outcome.ok_bind]
  · have owned := (List.mem_filter.mp (List.mem_of_getLast? isLast)).2
    refine decide_eq_true (isTopic.trans ?_)
    exact (of_decide_eq_true owned).symm.trans (of_decide_eq_true removed)

/-- Tails depend on the pointers to them only. -/
theorem tailed_of_tails {mem after : Memory T S} {reserved : List (Reservation T S)}
    (tailed : Tailed mem reserved) (tails : after.topicTail = mem.topicTail) :
    Tailed after reserved := by
  intro topic last isLast
  rw [tails]
  exact tailed topic last isLast

/-- Those who hold a subscription do not change what is reserved. -/
theorem Sound.stepsSoundly_held (sound : system.Sound)
    (tailed : Tailed system.memory system.reserved) {operation : Operation T S}
    {mem : Memory T S} {held : List NodeId} (removesNone : ∀ r, operation.removes r = false)
    (stepped : system.step operation = .ok ⟨mem, system.reserved, held⟩)
    (represents : Represents mem Owner.head system.reserved held)
    (quiet : Quiet mem system.reserved) (tails : mem.topicTail = system.memory.topicTail) :
    system.StepsSoundly operation :=
  stepsSoundly_of_tailed removesNone stepped ⟨represents, quiet, sound.single⟩
    (tailed_of_tails tailed tails)

/-- **A step** of a sound system with right tails returns, and the system stays sound. -/
theorem Sound.step (sound : system.Sound) (tailed : Tailed system.memory system.reserved)
    (operation : Operation T S) : system.StepsSoundly operation := by
  cases operation with
  | reserveSubscribe topic subscriber =>
      exact sound.stepsSoundly_reserveSubscribe tailed topic subscriber
  | unsubscribe topic subscriber =>
      obtain ⟨erased, after, unsubscribed, represents, quiet, tails⟩ :=
        sound.represents.subscriberUnsubscribe sound.quiet sound.single subscriber topic
      apply sound.stepsSoundly_removal tailed ?_ represents quiet tails
      rw [System.step, Topic.unsubscribe, unsubscribed, Outcome.ok_bind]
  | unsubscribeAll subscriber =>
      obtain ⟨after, unsubscribed, represents, quiet, tails⟩ :=
        sound.represents.unsubscribeAll sound.quiet subscriber
      apply sound.stepsSoundly_removal tailed ?_ represents quiet tails
      rw [System.step, unsubscribed, Outcome.ok_bind]
  | clear topic => exact sound.stepsSoundly_clear tailed topic
  | publishSnap node =>
      by_cases isHeld : node ∈ system.held
      · obtain ⟨after, published, represents, quiet, tails⟩ :=
          sound.represents.publishSnap sound.quiet isHeld
        apply sound.stepsSoundly_held tailed (fun _ => rfl) ?_ represents quiet tails
        rw [System.step, if_pos isHeld, published, Outcome.ok_bind]
      · exact stepsSoundly_of_tailed (fun _ => rfl) (if_neg isHeld) sound tailed
  | release node =>
      by_cases isHeld : node ∈ system.held
      · obtain ⟨after, released, represents, quiet, tails⟩ :=
          sound.represents.release sound.quiet isHeld
        apply sound.stepsSoundly_held tailed (fun _ => rfl) ?_ represents quiet tails
        rw [System.step, if_pos isHeld, released, Outcome.ok_bind]
      · exact stepsSoundly_of_tailed (fun _ => rfl) (if_neg isHeld) sound tailed

end Step

/-! ## Histories -/

/-- A step of a system that may have left the defined behaviour. -/
def turn (state : Outcome Empty (System T S)) (operation : Operation T S) :
    Outcome Empty (System T S) := state >>= (·.step operation)

/-- The behaviour is defined and the memory agrees with the history. -/
def Holds (state : Outcome Empty (System T S)) : Prop :=
  ∃ system, state = .ok system ∧ system.Consistent

def KeepsLast (state : Outcome Empty (System T S)) (operation : Operation T S) : Prop :=
  ∀ system, state = .ok system → operation.KeepsLast system.reserved

/-- **Membership under every history.** The memory agrees with the history all along exactly
when no operation removes the last subscription of a topic and leaves another one of it. -/
theorem consistent_iff (operations : List (Operation T S)) :
    Run.Always turn Holds (fun _ _ => True) (.ok empty) operations ↔
      Run.Steps turn KeepsLast (.ok (empty : System T S)) operations := by
  refine Run.always_iff_steps
    (fun state => ∃ system : System T S, state = .ok system ∧ system.Sound ∧
      Tailed system.memory system.reserved)
    (fun state invariant => ?_) (fun state operation invariant keeps => ⟨trivial, ?_⟩)
    (fun state operation invariant breaks good => ?_)
    ⟨empty, rfl, sound_empty, tailed_empty⟩ operations
  · obtain ⟨system, same, sound, tailed⟩ := invariant
    exact ⟨system, same, sound.consistent tailed⟩
  · obtain ⟨system, rfl, sound, tailed⟩ := invariant
    obtain ⟨after, stepped, soundAfter, tails⟩ := sound.step tailed operation
    exact ⟨after, stepped, soundAfter, tails.mpr (keeps system rfl)⟩
  · obtain ⟨system, rfl, sound, tailed⟩ := invariant
    obtain ⟨after, stepped, _, tails⟩ := sound.step tailed operation
    obtain ⟨_, other, same, consistent⟩ := good
    cases (show Outcome.ok after = Outcome.ok other from stepped.symm.trans same)
    refine breaks fun _ isSystem => ?_
    cases isSystem
    exact tails.mp consistent.tails

/-- The last of two subscribers leaves. The tail is still its subscription; the next subscriber
is not visited while somebody holds that subscription, and otherwise reserving follows a
pointer to a deleted one. -/
theorem subscription_lost :
    let leaving : List (Operation Unit Nat) :=
      [.reserveSubscribe () 0, .reserveSubscribe () 1, .unsubscribe () 1]
    let held := Run.final turn (.ok empty) (leaving ++ [.reserveSubscribe () 2])
    let dropped := Run.final turn (.ok empty)
      [.reserveSubscribe () 0, .reserveSubscribe () 1, .release 1, .unsubscribe () 1,
        .reserveSubscribe () 2]
    ¬ Run.Always turn Holds (fun _ _ => True) (.ok empty) leaving ∧
      (held >>= fun system => .ok (nodesOf system.reserved (.inl ()))) = .ok [0, 2] ∧
      (held >>= fun system => Topic.publishNew system.memory () [true]) = .ok [(0, [])] ∧
      (dropped >>= fun system => .ok (nodesOf system.reserved (.inl ()))) = .fault := by
  refine ⟨?_, by decide, by decide, by decide⟩
  intro always
  obtain ⟨system, reached, consistent⟩ := always.final
  have seen : (Run.final turn (.ok empty) [Operation.reserveSubscribe () 0,
      .reserveSubscribe () 1, .unsubscribe () 1] >>= fun system : System Unit Nat =>
        Outcome.ok ((nodesOf system.reserved (.inl ())).getLast?, system.memory.topicTail ())) =
      .ok (some 0, some 1) := by decide
  rw [reached, Outcome.ok_bind] at seen
  obtain ⟨last, tail⟩ := Prod.mk.inj (Outcome.ok.inj seen)
  rw [consistent.tails () 0 last] at tail
  cases tail

end System

end Cube.Eco.Thread
