import Cube.Lib.Run
import Cube.Eco.Thread.TopicServer

/-! # What the subscribers of a topic receive

A subscriber gets a summary of what was moved before it was confirmed, and everything that was
moved from then on. What a kind of topic promises about its contents makes of this that nothing
is lost, or that the latest content arrives.
-/

namespace Cube.Eco.Thread

variable {K A C S ι : Type}

/-! ## The walk and its receivers -/

section Receive

variable [DecidableEq S]

/-- What is published to one subscriber. -/
def contentsFor (suber : S) (published : List (S × C)) : List C :=
  published.filterMap fun sent => if sent.1 = suber then some sent.2 else none

theorem foldl_receive (published : List (S × C)) (received : S → List C) (suber : S) :
    published.foldl (fun received sent => TopicServer.receive received sent.1 [sent.2]) received suber =
      received suber ++ contentsFor suber published := by
  induction published generalizing received with
  | nil => exact (List.append_nil _).symm
  | cons sent published ih =>
      rw [List.foldl_cons, ih, contentsFor, contentsFor, List.filterMap_cons]
      by_cases same : sent.1 = suber
      · subst same
        rw [TopicServer.receive, Function.update_self, if_pos rfl, List.append_assoc]
        rfl
      · rw [TopicServer.receive, Function.update_of_ne (Ne.symm same), if_neg same]

theorem contentsFor_append (suber : S) (first second : List (S × C)) :
    contentsFor suber (first ++ second) = contentsFor suber first ++ contentsFor suber second :=
  List.filterMap_append

theorem contentsFor_map_self (suber : S) (newSet : List C) :
    contentsFor suber (newSet.map (suber, ·)) = newSet := by
  rw [contentsFor, List.filterMap_map]
  exact (List.filterMap_congr fun content _ => if_pos rfl).trans List.filterMap_some

theorem contentsFor_map_of_ne {suber other : S} (different : other ≠ suber) (newSet : List C) :
    contentsFor suber (newSet.map (other, ·)) = [] := by
  rw [contentsFor, List.filterMap_map]
  exact List.filterMap_eq_nil_iff.mpr fun content _ => if_neg different

variable {T : Type} {mem : Memory T S}

theorem contentsFor_publishes (r : Reservation T S) (suber : S) (newSet : List C) :
    contentsFor suber (r.publishes mem newSet) =
      if r.subscriber = suber ∧ mem.working r.node = some true then newSet else [] := by
  rw [Reservation.publishes]
  by_cases works : mem.working r.node = some true
  · rw [if_pos works]
    by_cases same : r.subscriber = suber
    · rw [if_pos ⟨same, works⟩, same, contentsFor_map_self]
    · rw [if_neg fun both => same both.1, contentsFor_map_of_ne same]
  · rw [if_neg works, if_neg fun both => works both.2]
    rfl

/-- Nothing is published to a subscriber without a subscription that works. -/
theorem contentsFor_of_none {rs : List (Reservation T S)} {suber : S}
    (none : ∀ r ∈ rs, r.subscriber = suber → mem.working r.node ≠ some true) (newSet : List C) :
    contentsFor suber (rs.flatMap (·.publishes mem newSet)) = [] := by
  induction rs with
  | nil => rfl
  | cons r rs ih =>
      rw [List.flatMap_cons, contentsFor_append, contentsFor_publishes,
        if_neg fun both => none r List.mem_cons_self both.1 both.2,
        ih fun other member => none other (List.mem_cons_of_mem _ member)]
      rfl

/-- A subscriber with one subscription that works gets the new contents once. -/
theorem contentsFor_of_working {rs : List (Reservation T S)}
    (nodup : (rs.map (·.subscriber)).Nodup) {r : Reservation T S} (member : r ∈ rs)
    (works : mem.working r.node = some true) (newSet : List C) :
    contentsFor r.subscriber (rs.flatMap (·.publishes mem newSet)) = newSet := by
  induction rs with
  | nil => cases member
  | cons first rs ih =>
      obtain ⟨absent, nodup⟩ := List.nodup_cons.mp nodup
      rw [List.flatMap_cons, contentsFor_append, contentsFor_publishes]
      rcases List.mem_cons.mp member with rfl | later
      · rw [if_pos ⟨rfl, works⟩, contentsFor_of_none, List.append_nil]
        exact fun other inRest same =>
          (absent (List.mem_map.mpr ⟨other, inRest, same⟩)).elim
      · rw [if_neg fun both => absent (List.mem_map.mpr ⟨r, later, both.1.symm⟩), ih nodup later]
        rfl

end Receive

/-- The subscription that a publisher confirms. -/
def Publisher.subscription : Publisher → Option NodeId
  | .publishSnap subscription => some subscription
  | .publishNew => none

namespace TopicServer

/-! ## The server -/

section Server

variable (server : TopicServer K A C S)

/-- The publishers that were posted and have not run. -/
def publishers : List Publisher :=
  (match server.worker with
    | .handling publisher => [publisher]
    | _ => []) ++ server.queue

/-- The subscriptions whose snapshot was posted and has not been published. -/
def pending : List NodeId :=
  server.publishers.filterMap Publisher.subscription

/-- What was moved and has not been published. -/
def inHand : List C :=
  match server.worker with
  | .publishing newSet => newSet
  | _ => []

/-- The snapshot has been published to the subscriber. -/
def Confirmed (suber : S) : Prop :=
  ∃ r ∈ server.system.reserved, r.subscriber = suber ∧
    server.system.memory.working r.node = some true

instance [DecidableEq S] (suber : S) : Decidable (server.Confirmed suber) :=
  inferInstanceAs (Decidable (∃ r ∈ server.system.reserved, r.subscriber = suber ∧
    server.system.memory.working r.node = some true))

/-- A subscription that somebody holds and that is to be confirmed. -/
def Unconfirmed (node : NodeId) : Prop :=
  node ∈ server.system.held ∧ ∃ r ∈ server.system.reserved, r.node = node ∧
    server.system.memory.working node = some false

variable [DecidableEq S] {topic : TopicT K A C} (contract : topic.Contract)

/-- Everybody who has been confirmed got a summary of what was moved before, and what was moved
since, up to what the worker is about to publish; the others have got nothing. -/
structure Sound : Prop where
  system : server.system.Sound
  tailed : Tailed server.system.memory server.system.reserved
  contents : contract.Explains server.appended server.moved server.contents
  nodup : server.pending.Nodup
  pending : ∀ node ∈ server.pending, server.Unconfirmed node
  releasing : ∀ node, server.worker = .releasing node → node ∈ server.system.held ∧
    server.system.memory.working node = some true
  unheard : ∀ suber, ¬ server.Confirmed suber → server.received suber = []
  heard : ∀ suber, server.Confirmed suber → ∃ before after, server.moved = before ++ after ∧
    server.received suber ++ server.inHand = contract.snapOf before ++ after

end Server

variable {server : TopicServer K A C S} {topic : TopicT K A C}

theorem publishers_post (server : TopicServer K A C S) (publisher : Publisher) :
    (server.post publisher).publishers = server.publishers ++ [publisher] :=
  (List.append_assoc ..).symm

theorem inHand_of_handling {publisher : Publisher} (handling : server.worker = .handling publisher) :
    server.inHand = [] := by
  rw [inHand, handling]

theorem publishers_of_handling {publisher : Publisher}
    (handling : server.worker = .handling publisher) :
    server.publishers = publisher :: server.queue := by
  rw [publishers, handling]
  rfl

/-- Every publisher has run, and no thread is about to post one. -/
structure Settled (threads : Threads ι K A C S) (server : TopicServer K A C S) : Prop where
  queue : server.queue = []
  worker : server.worker = .waiting
  posted : ∀ thread, threads.running thread ≠ some (.post .publishNew)

theorem Settled.inHand {threads : Threads ι K A C S} (settled : Settled threads server) :
    server.inHand = [] := by
  rw [TopicServer.inHand, settled.worker]

theorem pending_post_publishNew : (server.post .publishNew).pending = server.pending := by
  rw [pending, publishers_post, List.filterMap_append]
  exact List.append_nil _

theorem pending_post_publishSnap (node : NodeId) :
    (server.post (.publishSnap node)).pending = server.pending ++ [node] := by
  rw [pending, publishers_post, List.filterMap_append]
  rfl

/-- What reserving leaves if the subscriber has not subscribed. -/
def reserving (server : TopicServer K A C S) (memory : Memory Unit S) (suber : S) :
    TopicServer K A C S :=
  { server with
    system := ⟨memory, server.system.reserved ++ [⟨server.system.memory.fresh, (), suber⟩],
      server.system.memory.fresh :: server.system.held⟩ }

section Reserving

variable {memory : Memory Unit S} {suber : S}
  (fresh : server.system.memory.fresh ∉ server.system.reserved.map (·.node))
  (working : memory.working = Function.update server.system.memory.working
    server.system.memory.fresh (some false))
include fresh working

theorem working_reserving {r : Reservation Unit S} (member : r ∈ server.system.reserved) :
    memory.working r.node = server.system.memory.working r.node := by
  rw [working, Function.update_of_ne fun same => fresh (List.mem_map.mpr ⟨r, member, same⟩)]

theorem confirmed_reserving (other : S) :
    (server.reserving memory suber).Confirmed other ↔ server.Confirmed other := by
  constructor
  · rintro ⟨r, member, same, works⟩
    rcases List.mem_append.mp member with before | here
    · exact ⟨r, before, same, (working_reserving fresh working before).symm.trans works⟩
    · change memory.working r.node = some true at works
      rw [List.mem_singleton.mp here, working, Function.update_self] at works
      cases works
  · rintro ⟨r, member, same, works⟩
    exact ⟨r, List.mem_append_left _ member, same,
      (working_reserving fresh working member).trans works⟩

theorem unconfirmed_reserving {node : NodeId} (unconfirmed : server.Unconfirmed node) :
    node ≠ server.system.memory.fresh ∧ (server.reserving memory suber).Unconfirmed node := by
  obtain ⟨isHeld, r, member, rfl, works⟩ := unconfirmed
  exact ⟨fun same => fresh (List.mem_map.mpr ⟨r, member, same⟩),
    List.mem_cons_of_mem _ isHeld, r, List.mem_append_left _ member, rfl,
    (working_reserving fresh working member).trans works⟩

end Reserving

variable [DecidableEq S] {contract : topic.Contract}

theorem sound_start : (start topic : TopicServer K A C S).Sound contract where
  system := System.sound_empty
  tailed := System.tailed_empty
  contents := contract.make
  nodup := List.nodup_nil
  pending := nofun
  releasing := nofun
  unheard _ _ := rfl
  heard := fun _ ⟨_, member, _⟩ => nomatch member

/-! ### Threads -/

theorem Sound.append (sound : server.Sound contract) (content : A) :
    (server.append topic content).Sound contract :=
  { sound with contents := contract.append content sound.contents }

theorem Sound.post_publishNew (sound : server.Sound contract) :
    (server.post .publishNew).Sound contract :=
  { sound with
    nodup := by
      rw [pending_post_publishNew]
      exact sound.nodup
    pending := by
      rw [pending_post_publishNew]
      exact sound.pending }

theorem Sound.post_publishSnap (sound : server.Sound contract) {node : NodeId}
    (unconfirmed : server.Unconfirmed node) (new : node ∉ server.pending) :
    (server.post (.publishSnap node)).Sound contract :=
  { sound with
    nodup := by
      rw [pending_post_publishSnap]
      exact List.nodup_append.mpr ⟨sound.nodup, List.nodup_singleton node, by grind⟩
    pending := by
      rw [pending_post_publishSnap]
      intro other member
      rcases List.mem_append.mp member with before | here
      · exact sound.pending other before
      · rw [List.mem_singleton.mp here]
        exact unconfirmed }

/-- **Reserving.** A new subscription is to be confirmed, and nothing else changes. -/
theorem Sound.reserveSubscribe (sound : server.Sound contract) (suber : S) :
    server.reserveSubscribe suber = .ok (none, server) ∨
    ∃ memory node, server.reserveSubscribe suber =
        .ok (some node, server.reserving memory suber) ∧
      (server.reserving memory suber).Sound contract ∧
      (server.reserving memory suber).Unconfirmed node ∧
      ∀ other, server.Unconfirmed other →
        other ≠ node ∧ (server.reserving memory suber).Unconfirmed other := by
  rcases sound.system.reserveSubscribe sound.tailed () suber with
    refused | ⟨memory, reserved, _, systemSound, tailed, working⟩
  · left
    rw [TopicServer.reserveSubscribe, refused]
    rfl
  · right
    have fresh := sound.system.represents.fresh_notMem
    refine ⟨memory, server.system.memory.fresh, ?_, ?_, ?_,
      fun _ => unconfirmed_reserving fresh working⟩
    · rw [TopicServer.reserveSubscribe, reserved]
      rfl
    · constructor
      · exact systemSound
      · exact tailed
      · exact sound.contents
      · exact sound.nodup
      · exact fun node member => (unconfirmed_reserving fresh working
          (sound.pending node member)).2
      · intro node isReleasing
        obtain ⟨isHeld, works⟩ := sound.releasing node isReleasing
        refine ⟨List.mem_cons_of_mem _ isHeld, ?_⟩
        have different : node ≠ server.system.memory.fresh := fun same =>
          sound.system.represents.fresh_notMem_held (same ▸ isHeld)
        change memory.working node = some true
        rw [working, Function.update_of_ne different, works]
      · intro other notConfirmed
        rw [confirmed_reserving fresh working] at notConfirmed
        exact sound.unheard other notConfirmed
      · intro other confirmed
        rw [confirmed_reserving fresh working] at confirmed
        exact sound.heard other confirmed
    · refine ⟨List.mem_cons_self, _, List.mem_append_right _ (List.mem_singleton_self _), rfl, ?_⟩
      change memory.working _ = some false
      rw [working, Function.update_self]

/-! ### The worker -/

/-- Contents are pending, and no publisher will move them. -/
def Overdue (topic : TopicT K A C) (server : TopicServer K A C S) : Prop :=
  (topic.doMove server.contents).1 ≠ none ∧ .publishNew ∉ server.publishers

/-- What a step of the worker leaves to the threads: it concerns no subscription that a thread
is about to post, and no contents become overdue. -/
structure Follows (topic : TopicT K A C) (server after : TopicServer K A C S) : Prop where
  unconfirmed : ∀ node, node ∉ server.pending → server.Unconfirmed node → after.Unconfirmed node
  pending : ∀ node ∈ after.pending, node ∈ server.pending
  overdue : after.Overdue topic → server.Overdue topic

/-- A step of the worker goes well. -/
def WorksSoundly (contract : topic.Contract) (server : TopicServer K A C S)
    (result : Outcome Empty (TopicServer K A C S)) : Prop :=
  ∃ after, result = .ok after ∧ after.Sound contract ∧ server.Follows topic after

/-- A publisher is taken from the queue. -/
theorem Sound.take (sound : server.Sound contract) (waiting : server.worker = .waiting)
    {publisher : Publisher} {queue : List Publisher} (front : server.queue = publisher :: queue) :
    WorksSoundly contract server (.ok { server with queue, worker := .handling publisher }) := by
  have publishers : ({ server with queue, worker := .handling publisher } :
      TopicServer K A C S).publishers = server.publishers := by
    rw [TopicServer.publishers, TopicServer.publishers, waiting, front]
    rfl
  have pending : ({ server with queue, worker := .handling publisher } :
      TopicServer K A C S).pending = server.pending := by
    rw [TopicServer.pending, publishers, TopicServer.pending]
  have inHand : server.inHand = [] := by
    rw [TopicServer.inHand, waiting]
  refine ⟨_, rfl, { sound with nodup := ?_, pending := ?_, releasing := nofun, heard := ?_ },
    fun _ _ unconfirmed => unconfirmed, ?_, ?_⟩
  · rw [pending]
    exact sound.nodup
  · rw [pending]
    exact sound.pending
  · intro suber confirmed
    have heard := sound.heard suber confirmed
    rw [inHand] at heard
    exact heard
  · rw [pending]
    exact fun _ member => member
  · rintro ⟨moves, absent⟩
    rw [publishers] at absent
    exact ⟨moves, absent⟩

/-- Two subscriptions of the same subscriber are one. -/
theorem Sound.eq_of_subscriber (sound : server.Sound contract) {first second : Reservation Unit S}
    (firstIn : first ∈ server.system.reserved) (secondIn : second ∈ server.system.reserved)
    (same : first.subscriber = second.subscriber) : first = second :=
  sound.system.single first firstIn second secondIn rfl same

/-- The subscriber of a subscription that does not work has got nothing. -/
theorem Sound.unheard_of_working (sound : server.Sound contract) {r : Reservation Unit S}
    (member : r ∈ server.system.reserved)
    (works : server.system.memory.working r.node = some false) :
    server.received r.subscriber = [] := by
  refine sound.unheard r.subscriber fun ⟨other, otherIn, same, otherWorks⟩ => ?_
  rw [sound.eq_of_subscriber otherIn member same, works] at otherWorks
  cases otherWorks

/-- What `publish_snap` leaves. -/
def confirming (topic : TopicT K A C) (server : TopicServer K A C S) (memory : Memory Unit S)
    (r : Reservation Unit S) : TopicServer K A C S :=
  { server with
    system := { server.system with memory }
    contents := (topic.doSnap server.contents).2
    worker := .releasing r.node
    received := receive server.received r.subscriber (topic.doSnap server.contents).1 }

section Confirming

variable {memory : Memory Unit S} {r : Reservation Unit S}
  (working : memory.working = Function.update server.system.memory.working r.node (some true))
include working

theorem confirmed_confirming (sound : server.Sound contract) (member : r ∈ server.system.reserved)
    (suber : S) : (confirming topic server memory r).Confirmed suber ↔
      suber = r.subscriber ∨ server.Confirmed suber := by
  constructor
  · rintro ⟨other, otherIn, rfl, works⟩
    by_cases same : other = r
    · exact .inl (congrArg _ same)
    · have different : other.node ≠ r.node := fun sameNode =>
        same (sound.system.represents.eq_of_node otherIn member sameNode)
      change memory.working other.node = some true at works
      rw [working, Function.update_of_ne different] at works
      exact .inr ⟨other, otherIn, rfl, works⟩
  · have mine : memory.working r.node = some true := by rw [working, Function.update_self]
    rintro (rfl | ⟨other, otherIn, rfl, works⟩)
    · exact ⟨r, member, rfl, mine⟩
    · refine ⟨other, otherIn, rfl, ?_⟩
      change memory.working other.node = some true
      by_cases same : other.node = r.node
      · rw [same, mine]
      · rw [working, Function.update_of_ne same, works]

theorem unconfirmed_confirming {node : NodeId} (different : node ≠ r.node)
    (unconfirmed : server.Unconfirmed node) :
    (confirming topic server memory r).Unconfirmed node := by
  obtain ⟨isHeld, other, otherIn, isNode, works⟩ := unconfirmed
  refine ⟨isHeld, other, otherIn, isNode, ?_⟩
  change memory.working node = some false
  rw [working, Function.update_of_ne different, works]

end Confirming

/-- **The snapshot** is published to a subscriber that has got nothing before. -/
theorem Sound.publishSnap (sound : server.Sound contract) {node : NodeId}
    (handling : server.worker = .handling (.publishSnap node)) :
    WorksSoundly contract server (server.publishSnap topic node) := by
  have publishers := publishers_of_handling handling
  have pending : server.pending = node :: server.queue.filterMap Publisher.subscription := by
    rw [TopicServer.pending, publishers]
    rfl
  have nodup := sound.nodup
  rw [pending] at nodup
  obtain ⟨notLater, nodupLater⟩ := List.nodup_cons.mp nodup
  obtain ⟨isHeld, r, member, rfl, works⟩ :=
    sound.pending node (by rw [pending]; exact List.mem_cons_self)
  obtain ⟨memory, published, systemSound, tailed, working⟩ :=
    sound.system.publishSnap sound.tailed member isHeld
  obtain ⟨found, stored, known⟩ := sound.system.exists_nodes member
  obtain ⟨snap, contents⟩ := contract.doSnap sound.contents
  have confirmed (suber : S) : (confirming topic server memory r).Confirmed suber ↔
      suber = r.subscriber ∨ server.Confirmed suber :=
    confirmed_confirming working sound member suber
  refine ⟨confirming topic server memory r, ?_, ⟨systemSound, tailed, contents, nodupLater, ?_,
    ?_, ?_, ?_⟩, fun other absent => ?_, fun other later => ?_, ?_⟩
  · rw [TopicServer.publishSnap, Memory.get_eq stored, Outcome.ok_bind, published,
      Outcome.ok_bind, known]
    rfl
  · intro other later
    refine unconfirmed_confirming working (fun same => notLater (same ▸ later))
      (sound.pending other ?_)
    rw [pending]
    exact List.mem_cons_of_mem _ later
  · rintro other ⟨⟩
    refine ⟨isHeld, ?_⟩
    change memory.working r.node = some true
    rw [working, Function.update_self]
  · intro suber notConfirmed
    rw [confirmed, not_or] at notConfirmed
    change receive server.received r.subscriber _ suber = []
    rw [receive, Function.update_of_ne notConfirmed.1]
    exact sound.unheard suber notConfirmed.2
  · intro suber isConfirmed
    change ∃ before after, server.moved = before ++ after ∧
      receive server.received r.subscriber (topic.doSnap server.contents).1 suber ++ [] = _
    rw [List.append_nil, receive]
    rcases (confirmed suber).mp isConfirmed with rfl | before
    · refine ⟨server.moved, [], (List.append_nil _).symm, ?_⟩
      rw [Function.update_self, sound.unheard_of_working member works, snap, List.append_nil,
        List.nil_append]
    · have different : suber ≠ r.subscriber := by
        rintro rfl
        obtain ⟨other, otherIn, same, otherWorks⟩ := before
        rw [sound.eq_of_subscriber otherIn member same, works] at otherWorks
        cases otherWorks
      have heard := sound.heard suber before
      rw [inHand_of_handling handling, List.append_nil] at heard
      rwa [Function.update_of_ne different]
  · rw [pending] at absent
    exact unconfirmed_confirming working fun same => absent (same ▸ List.mem_cons_self)
  · rw [pending]
    exact List.mem_cons_of_mem _ later
  · rintro ⟨moves, absent⟩
    refine ⟨?_, ?_⟩
    · rw [← contract.doSnap_doMove]
      exact moves
    · rw [publishers]
      exact fun member => (List.mem_cons.mp member).elim nofun absent

/-- The pending contents are moved into the worker's hand. -/
theorem Sound.move (sound : server.Sound contract)
    (handling : server.worker = .handling .publishNew) :
    WorksSoundly contract server (.ok (server.move topic)) := by
  have publishers := publishers_of_handling handling
  have pending : server.pending = server.queue.filterMap Publisher.subscription := by
    rw [TopicServer.pending, publishers]
    rfl
  have nodup := sound.nodup
  have unconfirmed := sound.pending
  rw [pending] at nodup unconfirmed
  have heardSoFar (suber : S) (confirmed : server.Confirmed suber) :
      ∃ before after, server.moved = before ++ after ∧
        server.received suber = contract.snapOf before ++ after := by
    have heard := sound.heard suber confirmed
    rwa [inHand_of_handling handling, List.append_nil] at heard
  cases moves : (topic.doMove server.contents).1 with
  | none =>
      have step : server.move topic = { server with worker := .waiting } := by
        rw [TopicServer.move, show topic.doMove server.contents = (none, server.contents) from
          Prod.ext moves (contract.doMove_none moves)]
      rw [step]
      refine ⟨_, rfl, { sound with nodup, pending := unconfirmed, releasing := nofun, heard := ?_ },
        fun _ _ kept => kept, fun node later => ?_, fun ⟨stillMoves, _⟩ => ?_⟩
      · intro suber confirmed
        change ∃ before after, _ ∧ server.received suber ++ [] = _
        rw [List.append_nil]
        exact heardSoFar suber confirmed
      · rwa [pending]
      · exact absurd moves stillMoves
  | some newSet =>
      have step : server.move topic = { server with
          contents := (topic.doMove server.contents).2
          worker := .publishing newSet
          moved := server.moved ++ newSet } := by
        rw [TopicServer.move, show topic.doMove server.contents =
          (some newSet, (topic.doMove server.contents).2) from Prod.ext moves rfl]
      rw [step]
      refine ⟨_, rfl, { sound with
          contents := contract.doMove_some sound.contents moves
          nodup, pending := unconfirmed, releasing := nofun, heard := ?_ },
        fun _ _ kept => kept, fun node later => ?_, fun ⟨stillMoves, _⟩ => ?_⟩
      · intro suber confirmed
        obtain ⟨before, after, moved, received⟩ := heardSoFar suber confirmed
        refine ⟨before, after ++ newSet, ?_, ?_⟩
        · rw [← List.append_assoc, ← moved]
        · rw [← List.append_assoc, ← received]
          rfl
      · rwa [pending]
      · exact absurd (contract.doMove_again server.contents) stillMoves

theorem subscribers_nodup (sound : server.Sound contract) :
    (server.system.reserved.map (·.subscriber)).Nodup :=
  (sound.system.represents.nodup.of_map _).map_on fun _ firstIn _ secondIn same =>
    sound.eq_of_subscriber firstIn secondIn same

/-- **The new contents** are published to everybody who has been confirmed, and to nobody
else. -/
theorem Sound.publishNew (sound : server.Sound contract) {newSet : List C}
    (publishing : server.worker = .publishing newSet) :
    WorksSoundly contract server (server.publishNew newSet) := by
  have pending : server.pending = server.queue.filterMap Publisher.subscription := by
    rw [TopicServer.pending, TopicServer.publishers, publishing]
    rfl
  have publishers : server.publishers = server.queue := by
    rw [TopicServer.publishers, publishing]
    rfl
  have nodup := sound.nodup
  have unconfirmed := sound.pending
  rw [pending] at nodup unconfirmed
  have all : server.system.reserved.filter (·.ownedBy (.inl ())) = server.system.reserved :=
    List.filter_eq_self.mpr fun r _ => decide_eq_true (rfl : r.topic = ())
  let sent := server.system.reserved.flatMap (·.publishes server.system.memory newSet)
  have walk : server.publishNew newSet = .ok { server with
      worker := .waiting
      received := sent.foldl (fun received sent => receive received sent.1 [sent.2]) server.received } := by
    rw [TopicServer.publishNew, sound.system.publishNew, all, Outcome.ok_bind, List.flatMap_map]
  refine ⟨_, walk, { sound with
      nodup, pending := unconfirmed, releasing := nofun, unheard := ?_, heard := ?_ },
    fun _ _ kept => kept, fun node later => ?_, fun ⟨moves, absent⟩ => ⟨moves, ?_⟩⟩
  · intro suber notConfirmed
    change sent.foldl _ server.received suber = []
    rw [foldl_receive, sound.unheard suber notConfirmed, contentsFor_of_none]
    · rfl
    · exact fun r member same works => notConfirmed ⟨r, member, same, works⟩
  · intro suber confirmed
    obtain ⟨before, after, moved, received⟩ := sound.heard suber confirmed
    rw [inHand, publishing] at received
    obtain ⟨r, member, rfl, works⟩ := confirmed
    refine ⟨before, after, moved, ?_⟩
    change sent.foldl _ server.received r.subscriber ++ [] = _
    rw [foldl_receive, contentsFor_of_working (subscribers_nodup sound) member works,
      List.append_nil]
    exact received
  · rwa [pending]
  · rwa [publishers]

/-- Letting go of a confirmed subscription changes nothing for the others. -/
theorem Sound.release (sound : server.Sound contract) {node : NodeId}
    (releasing : server.worker = .releasing node) :
    WorksSoundly contract server (server.release node) := by
  have publishers : server.publishers = server.queue := by
    rw [TopicServer.publishers, releasing]
    rfl
  have pending : server.pending = server.queue.filterMap Publisher.subscription := by
    rw [TopicServer.pending, publishers]
  have nodup := sound.nodup
  rw [pending] at nodup
  have inHand : server.inHand = [] := by
    rw [TopicServer.inHand, releasing]
  obtain ⟨isHeld, works⟩ := sound.releasing node releasing
  obtain ⟨memory, released, systemSound, tailed, working⟩ :=
    sound.system.release sound.tailed isHeld
  let after : TopicServer K A C S := { server with
    system := { server.system with memory, held := server.system.held.erase node }
    worker := .waiting }
  have confirmed (suber : S) : after.Confirmed suber ↔ server.Confirmed suber := by
    refine exists_congr fun r => and_congr_right fun member => and_congr_right fun _ => ?_
    rw [← working r member]
  have unconfirmed {other : NodeId} (before : server.Unconfirmed other) :
      after.Unconfirmed other := by
    obtain ⟨otherHeld, r, member, rfl, otherWorks⟩ := before
    have different : r.node ≠ node := by
      rintro rfl
      rw [works] at otherWorks
      cases otherWorks
    exact ⟨(List.mem_erase_of_ne different).mpr otherHeld, r, member, rfl,
      (working r member).trans otherWorks⟩
  refine ⟨after, ?_, ⟨systemSound, tailed, sound.contents, nodup, fun other later => ?_, nofun,
    fun suber notConfirmed => ?_, fun suber isConfirmed => ?_⟩, fun _ _ => unconfirmed,
    fun other later => ?_, fun ⟨moves, absent⟩ => ⟨moves, ?_⟩⟩
  · rw [TopicServer.release, released]
    rfl
  · refine unconfirmed (sound.pending other ?_)
    rwa [pending]
  · rw [confirmed] at notConfirmed
    exact sound.unheard suber notConfirmed
  · have heard := sound.heard suber ((confirmed suber).mp isConfirmed)
    rw [inHand] at heard
    exact heard
  · rwa [pending]
  · rwa [publishers]

/-- **A step of the worker.** -/
theorem Sound.work (sound : server.Sound contract) :
    WorksSoundly contract server (server.work topic) := by
  rw [TopicServer.work]
  cases worker : server.worker with
  | waiting =>
      cases queue : server.queue with
      | nil =>
          exact ⟨server, rfl, sound, fun _ _ kept => kept, fun _ member => member, id⟩
      | cons publisher rest => exact sound.take worker queue
  | handling publisher =>
      cases publisher with
      | publishSnap subscription => exact sound.publishSnap worker
      | publishNew => exact sound.move worker
  | publishing newSet => exact sound.publishNew worker
  | releasing subscription => exact sound.release worker

/-! ## Threads and worker together -/

/-- The server is sound; the subscriptions that threads are about to post are theirs alone and
to be confirmed; and where contents are overdue, a thread is about to post a publisher. -/
structure Holds (contract : topic.Contract) (threads : Threads ι K A C S)
    (server : TopicServer K A C S) : Prop where
  shared : threads.shared = .ok server
  sound : server.Sound contract
  posting : ∀ thread node, threads.running thread = some (.post (.publishSnap node)) →
    server.Unconfirmed node ∧ node ∉ server.pending
  single : ∀ thread other node, threads.running thread = some (.post (.publishSnap node)) →
    threads.running other = some (.post (.publishSnap node)) → thread = other
  noticed : server.Overdue topic → ∃ thread, threads.running thread = some (.post .publishNew)

theorem holds_idle : Holds contract (idle topic : Threads ι K A C S) (start topic) where
  shared := rfl
  sound := sound_start
  posting := nofun
  single := nofun
  noticed overdue := absurd contract.make_doMove overdue.1

section Step

variable [DecidableEq ι] {threads : Threads ι K A C S} {thread : ι}

theorem Holds.work (holds : Holds contract threads server) :
    ∃ after, Holds contract (step topic threads .work) after := by
  obtain ⟨after, works, sound, follows⟩ := holds.sound.work
  refine ⟨after, ?_, sound, fun thread node running => ?_, holds.single,
    fun overdue => holds.noticed (follows.overdue overdue)⟩
  · rw [step, holds.shared, Outcome.ok_bind, works]
  · obtain ⟨unconfirmed, absent⟩ := holds.posting thread node running
    exact ⟨follows.unconfirmed node absent unconfirmed, fun member =>
      absent (follows.pending node member)⟩

/-- A thread moves, and is not about to post a subscription then. -/
theorem Holds.move (holds : Holds contract threads server) {after : TopicServer K A C S}
    {next : Option (Operation A S)} (sound : after.Sound contract)
    (unposted : ∀ node, next ≠ some (.post (.publishSnap node)))
    (posting : ∀ other node, other ≠ thread →
      threads.running other = some (.post (.publishSnap node)) →
      after.Unconfirmed node ∧ node ∉ after.pending)
    (noticed : after.Overdue topic → next = some (.post .publishNew) ∨
      server.Overdue topic ∧ threads.running thread ≠ some (.post .publishNew)) :
    Holds contract (threads.move thread (.ok after, next)) after := by
  refine ⟨rfl, sound, fun other node running => ?_, fun first second node one two => ?_,
    fun overdue => ?_⟩
  · rcases Interleaving.Threads.move_running_iff.mp running with ⟨_, now⟩ | ⟨different, before⟩
    · exact absurd now (unposted node)
    · exact posting other node different before
  · rcases Interleaving.Threads.move_running_iff.mp one with ⟨_, now⟩ | ⟨_, before⟩
    · exact absurd now (unposted node)
    rcases Interleaving.Threads.move_running_iff.mp two with ⟨_, now⟩ | ⟨_, beforeTwo⟩
    · exact absurd now (unposted node)
    · exact holds.single first second node before beforeTwo
  · rcases noticed overdue with now | ⟨before, idle⟩
    · exact ⟨thread, Interleaving.Threads.move_running_iff.mpr (.inl ⟨rfl, now⟩)⟩
    · obtain ⟨other, running⟩ := holds.noticed before
      refine ⟨other, Interleaving.Threads.move_running_iff.mpr (.inr ⟨?_, running⟩)⟩
      rintro rfl
      exact idle running

theorem Holds.enter (holds : Holds contract threads server)
    (idle : threads.running thread = none) (call : Call A S) :
    Holds contract (threads.move thread (threads.shared, some call.operation)) server := by
  rw [holds.shared]
  refine holds.move holds.sound ?_ (fun other node _ => holds.posting other node)
    fun overdue => .inr ⟨overdue, ?_⟩
  · intro node
    cases call <;> exact nofun
  · rw [idle]
    exact nofun

/-- A thread reserves a subscription, which it is about to post. -/
theorem Holds.reserve (holds : Holds contract threads server) {suber : S}
    (running : threads.running thread = some (.reserve suber)) :
    ∃ after, Holds contract (threads.move thread
      ((program topic ι).advance thread threads.shared (.reserve suber) ())) after := by
  have idle : threads.running thread ≠ some (.post .publishNew) := by
    rw [running]
    exact nofun
  rcases holds.sound.reserveSubscribe suber with
    refused | ⟨memory, node, reserved, sound, unconfirmed, kept⟩
  · have step : (program topic ι).advance thread threads.shared (.reserve suber) () =
        (.ok server, none) := by
      simp only [program, advance, holds.shared, refused, Outcome.ok_bind, Option.map_none]
    rw [step]
    exact ⟨server, holds.move holds.sound nofun (fun other node _ => holds.posting other node)
      fun overdue => .inr ⟨overdue, idle⟩⟩
  · have step : (program topic ι).advance thread threads.shared (.reserve suber) () =
        (.ok (server.reserving memory suber), some (.post (.publishSnap node))) := by
      simp only [program, advance, holds.shared, reserved, Outcome.ok_bind, Option.map_some]
    rw [step]
    -- the new subscription is nowhere yet
    have elsewhere {other : ι} {found : NodeId}
        (posts : threads.running other = some (.post (.publishSnap found))) : found ≠ node :=
      (kept found (holds.posting other found posts).1).1
    refine ⟨_, rfl, sound, fun other found posts => ?_, fun first second found one two => ?_,
      fun overdue => ?_⟩
    · rcases Interleaving.Threads.move_running_iff.mp posts with ⟨_, ⟨⟩⟩ | ⟨_, before⟩
      · exact ⟨unconfirmed, fun member => (kept node (holds.sound.pending node member)).1 rfl⟩
      · obtain ⟨unconfirmedFound, absent⟩ := holds.posting other found before
        exact ⟨(kept found unconfirmedFound).2, absent⟩
    · rcases Interleaving.Threads.move_running_iff.mp one with ⟨rfl, ⟨⟩⟩ | ⟨_, before⟩
      · rcases Interleaving.Threads.move_running_iff.mp two with ⟨rfl, _⟩ | ⟨_, beforeTwo⟩
        · rfl
        · exact absurd rfl (elsewhere beforeTwo)
      · rcases Interleaving.Threads.move_running_iff.mp two with ⟨rfl, ⟨⟩⟩ | ⟨_, beforeTwo⟩
        · exact absurd rfl (elsewhere before)
        · exact holds.single first second found before beforeTwo
    · obtain ⟨other, posts⟩ := holds.noticed overdue
      refine ⟨other, Interleaving.Threads.move_running_iff.mpr (.inr ⟨?_, posts⟩)⟩
      rintro rfl
      exact idle posts

/-- A thread posts its publisher. -/
theorem Holds.post (holds : Holds contract threads server) {publisher : Publisher}
    (running : threads.running thread = some (.post publisher)) :
    Holds contract (threads.move thread (.ok (server.post publisher), none))
      (server.post publisher) := by
  have publishers := server.publishers_post publisher
  cases publisher with
  | publishNew =>
      refine holds.move holds.sound.post_publishNew nofun (fun other node _ posts => ?_)
        fun overdue => ?_
      · rw [pending_post_publishNew]
        exact holds.posting other node posts
      · refine absurd ?_ overdue.2
        rw [publishers]
        exact List.mem_append_right _ (List.mem_singleton_self _)
  | publishSnap node =>
      obtain ⟨unconfirmed, absent⟩ := holds.posting thread node running
      refine holds.move (holds.sound.post_publishSnap unconfirmed absent) nofun
        (fun other found different posts => ?_) fun overdue => .inr ⟨⟨overdue.1, ?_⟩, ?_⟩
      · obtain ⟨unconfirmedFound, absentFound⟩ := holds.posting other found posts
        refine ⟨unconfirmedFound, ?_⟩
        rw [pending_post_publishSnap]
        intro member
        rcases List.mem_append.mp member with before | here
        · exact absentFound before
        · rw [List.mem_singleton.mp here] at posts
          exact different (holds.single other thread node posts running)
      · have later := overdue.2
        rw [publishers] at later
        exact fun member => later (List.mem_append_left _ member)
      · rw [running]
        exact nofun

/-- **One step** of the threads or the worker. -/
theorem Holds.step (holds : Holds contract threads server) (choice : Choice ι A S) :
    ∃ after, Holds contract (step topic threads choice) after := by
  cases choice with
  | work => exact holds.work
  | thread choice =>
      rw [TopicServer.step]
      rcases (program topic ι).step_cases threads choice with
        ⟨unchanged, _⟩ | ⟨thread, call, rfl, idle⟩ | ⟨thread, _, operation, rfl, running⟩
      · exact ⟨server, unchanged.symm ▸ holds⟩
      · rw [Interleaving.Program.step_call idle]
        exact ⟨server, holds.enter idle call⟩
      · rw [Interleaving.Program.step_advance running]
        cases operation with
        | append content =>
            have step : (program topic ι).advance thread threads.shared (.append content) () =
                (.ok (server.append topic content), some (.post .publishNew)) := by
              simp only [program, advance, holds.shared, Outcome.ok_bind]
            rw [step]
            exact ⟨_, holds.move (holds.sound.append content) nofun
              (fun other node _ => holds.posting other node) fun _ => .inl rfl⟩
        | reserve suber => exact holds.reserve running
        | post publisher =>
            have step : (program topic ι).advance thread threads.shared (.post publisher) () =
                (.ok (server.post publisher), none) := by
              simp only [program, advance, holds.shared, Outcome.ok_bind]
            rw [step]
            exact ⟨_, holds.post running⟩

end Step

/-- Once everything is settled nothing is pending. -/
theorem Holds.settled {threads : Threads ι K A C S} (holds : Holds contract threads server)
    (settled : Settled threads server) : (topic.doMove server.contents).1 = none := by
  by_contra moves
  have none : server.publishers = [] := by
    rw [publishers, settled.worker, settled.queue]
    rfl
  obtain ⟨thread, running⟩ := holds.noticed ⟨moves, by rw [none]; exact List.not_mem_nil⟩
  exact settled.posted thread running

/-- **Every run.** What every state that a run can reach promises holds all along. -/
theorem always_of_holds [DecidableEq ι] (contract : topic.Contract)
    {promise : Threads ι K A C S → Prop}
    (kept : ∀ threads server, Holds contract threads server → promise threads)
    (choices : List (Choice ι A S)) :
    Run.Always (step topic) promise (fun _ _ => True) (idle topic) choices :=
  Run.always_of_steps (fun threads => ∃ server, Holds contract threads server)
    (fun threads ⟨server, holds⟩ => kept threads server holds)
    (fun _ choice ⟨_, holds⟩ _ => ⟨trivial, holds.step choice⟩)
    ⟨start topic, holds_idle⟩ (Run.steps_of_forall (fun _ _ _ => trivial) _)

/-! ## Sequence topics -/

/-- Who has been confirmed has received everything that was moved, in the order in which it was
appended, up to what the worker has in hand; and everything that was appended, once everything
is settled. -/
def DeliversOnce (threads : Threads ι (SeqTopic C) C C S) : Prop :=
  ∃ server, threads.shared = .ok server ∧ ∀ suber, server.Confirmed suber →
    server.received suber ++ server.inHand = server.moved ∧
    server.moved <+: server.appended ∧
    (Settled threads server → server.received suber = server.appended)

/-- **Exactly once.** However threads publish to a sequence topic and subscribe to it, everybody
who has been confirmed receives every content once and in order. -/
theorem seqTopic_delivers_once [DecidableEq ι] (choices : List (Choice ι C S)) :
    Run.Always (step SeqTopic.topicT) DeliversOnce (fun _ _ => True) (idle SeqTopic.topicT)
      choices := by
  refine always_of_holds SeqTopic.contract (fun threads server holds => ?_) choices
  refine ⟨server, holds.shared, fun suber confirmed => ?_⟩
  obtain ⟨before, after, moved, received⟩ := holds.sound.heard suber confirmed
  have all : server.received suber ++ server.inHand = server.moved := received.trans moved.symm
  refine ⟨all, ⟨_, holds.sound.contents.appended.symm⟩, fun settled => ?_⟩
  rw [settled.inHand, List.append_nil] at all
  rw [all]
  exact holds.sound.contents.settled (holds.settled settled)

/-- Who has been confirmed has received everything that was moved, and everything that was
appended, once the queue is empty. -/
def DeliversAll (threads : Threads ι (SeqTopic C) C C S) : Prop :=
  ∃ server, threads.shared = .ok server ∧ ∀ suber, server.Confirmed suber →
    server.received suber = server.moved ∧
    (server.queue = [] → server.received suber = server.appended)

/-- A thread subscribes and is confirmed, and then another one has appended a content and not
posted its publisher yet. -/
def appendedOnly {A : Type} (content : A) : List (Choice Bool A Unit) :=
  [.thread (.call true (.subscribe ())), .thread (.advance true ()), .thread (.advance true ()),
    .work, .work, .work, .thread (.call false (.publish content)), .thread (.advance false ())]

/-- The queue is empty, and the subscriber has not received what was appended. -/
theorem seqTopic_not_delivers_all :
    ¬ Run.Always (step SeqTopic.topicT) DeliversAll (fun _ _ => True) (idle SeqTopic.topicT)
      (appendedOnly 7) := by
  intro always
  obtain ⟨server, shared, delivers⟩ := always.final
  have seen : ((Run.final (step SeqTopic.topicT) (idle SeqTopic.topicT)
      (appendedOnly 7)).shared >>= fun server : TopicServer (SeqTopic Nat) Nat Nat Unit =>
        Outcome.ok (decide (server.Confirmed () ∧ server.queue = [] ∧
          server.received () = [] ∧ server.appended = [7]))) = .ok true := by decide
  rw [shared, Outcome.ok_bind] at seen
  simp only [Outcome.ok.injEq, decide_eq_true_eq] at seen
  obtain ⟨confirmed, queue, received, appended⟩ := seen
  have all := (delivers () confirmed).2 queue
  rw [received, appended] at all
  cases all

/-! ## Topics for the latest content -/

/-- Who has been confirmed has received contents that were appended, in this order and none
twice unless it was appended twice; and the latest one, once everything is settled. -/
def Conflates {V : Type} (threads : Threads ι (OneTopic V) (Option (Content V)) (Content V) S) :
    Prop :=
  ∃ server, threads.shared = .ok server ∧ ∀ suber, server.Confirmed suber →
    (server.received suber).Sublist (server.appended.filterMap id) ∧
    ((server.appended.filterMap id).Nodup → (server.received suber).Nodup) ∧
    (Settled threads server →
      (server.received suber).getLast? = (server.appended.filterMap id).getLast?)

theorem getLast?_toList_append {α : Type} (before after : List α) :
    (before.getLast?.toList ++ after).getLast? = (before ++ after).getLast? := by
  rw [List.getLast?_append, List.getLast?_append]
  cases before.getLast? <;> rfl

theorem getLast?_toList_sublist {α : Type} (list : List α) :
    list.getLast?.toList.Sublist list := by
  cases last : list.getLast? with
  | none => exact List.nil_sublist list
  | some content => exact List.singleton_sublist.mpr (List.mem_of_getLast? last)

/-- **Conflation.** However threads publish to a topic for the latest content and subscribe to
it, contents are skipped but never reordered or repeated, and the latest one arrives. -/
theorem oneTopic_conflates {V : Type} [DecidableEq ι]
    (choices : List (Choice ι (Option (Content V)) S)) :
    Run.Always (step OneTopic.topicT) Conflates (fun _ _ => True) (idle OneTopic.topicT)
      choices := by
  refine always_of_holds OneTopic.contract (fun threads server holds => ?_) choices
  refine ⟨server, holds.shared, fun suber confirmed => ?_⟩
  obtain ⟨before, after, moved, received⟩ := holds.sound.heard suber confirmed
  change _ = before.getLast?.toList ++ after at received
  have sublist : (server.received suber).Sublist (server.appended.filterMap id) :=
    calc
      (server.received suber).Sublist (server.received suber ++ server.inHand) :=
        List.sublist_append_left ..
      _ = before.getLast?.toList ++ after := received
      List.Sublist _ (before ++ after) :=
        (getLast?_toList_sublist before).append (List.Sublist.refl after)
      _ = server.moved := moved.symm
      List.Sublist _ (server.moved ++ server.contents.new.toList) := List.sublist_append_left ..
      List.Sublist _ (server.appended.filterMap id) := holds.sound.contents.sublist
  refine ⟨sublist, fun distinct => distinct.sublist sublist, fun settled => ?_⟩
  rw [settled.inHand, List.append_nil] at received
  rw [received, getLast?_toList_append, ← moved]
  exact holds.sound.contents.settled (holds.settled settled)

/-- Who has been confirmed has received contents that were appended, in this order and none
twice, and the latest one, once every posted publisher has run. -/
def ConflatesPosted {V : Type}
    (threads : Threads ι (OneTopic V) (Option (Content V)) (Content V) S) : Prop :=
  ∃ server, threads.shared = .ok server ∧ ∀ suber, server.Confirmed suber →
    (server.received suber).Sublist (server.appended.filterMap id) ∧
    ((server.appended.filterMap id).Nodup → (server.received suber).Nodup) ∧
    (server.queue = [] → server.worker = .waiting →
      (server.received suber).getLast? = (server.appended.filterMap id).getLast?)

/-- Every posted publisher has run, and the subscriber has not received the latest content. -/
theorem oneTopic_not_conflates_posted :
    ¬ Run.Always (step OneTopic.topicT) ConflatesPosted (fun _ _ => True)
      (idle OneTopic.topicT) (appendedOnly (some (Content.mk 0 7))) := by
  intro always
  obtain ⟨server, shared, conflates⟩ := always.final
  have seen : ((Run.final (step OneTopic.topicT) (idle OneTopic.topicT)
      (appendedOnly (some (Content.mk 0 7)))).shared >>= fun server :
        TopicServer (OneTopic Nat) (Option (Content Nat)) (Content Nat) Unit =>
          Outcome.ok (decide (server.Confirmed () ∧ server.queue = [] ∧
            server.worker = .waiting ∧ server.received () = [] ∧
            server.appended = [some ⟨0, 7⟩]))) = .ok true := by decide
  rw [shared, Outcome.ok_bind] at seen
  simp only [Outcome.ok.injEq, decide_eq_true_eq] at seen
  obtain ⟨confirmed, queue, worker, received, appended⟩ := seen
  have latest := (conflates () confirmed).2.2 queue worker
  rw [received, appended] at latest
  cases latest

end TopicServer

end Cube.Eco.Thread
