import Mathlib.Tactic.Common
import Cube.Lib.Interleaving
import Cube.Lib.Run
import Cube.Eco.Thread.Subscription

/-! # The topic map

Threads subscribe to a topic id, unsubscribe, erase the topic and publish to it. Finding the
topic, asking whether it has the subscriber and entering the subscription are critical sections
of their own, and so are finding that a topic has no subscriber left and taking it out of the
map, although the mutex of the map is held over these.
-/

namespace Cube.Eco.Thread

/-- A pointer to a topic. -/
abbrev TopicRef := Nat

/-- Only topics of the first kind leave the map with their last subscriber. -/
inductive TopicKind where
  | oneTopic
  | otherTopic
  deriving DecidableEq, Repr

/-- A subscription that a call of `subscribe` has entered, and how many calls that take
subscriptions away had begun when that call began. -/
structure Subscribed (S : Type) where
  node : NodeId
  topic : TopicRef
  subscriber : S
  began : Nat
  deriving DecidableEq

/-- A call that takes subscriptions away begins: `unsubscribe` of a subscriber, or `erase_topic`
or `clear_topic`. -/
inductive Disturbance (S : Type) where
  | unsubscribe (subscriber : S)
  | eraseTopic
  deriving DecidableEq

/-- A publication that was appended to a topic, and how many subscriptions had been entered when
it began. -/
structure Publication where
  topic : TopicRef
  began : Nat
  deriving DecidableEq

/-- The entry of the map for one id, whether `unsubscribe` holds the mutex of the map between
two steps, the subscriptions in the order of their reservation, and the histories of what took
subscriptions away, what was entered and what was published. -/
structure TopicMap (S : Type) where
  entry : Option TopicRef
  locked : Bool
  kind : TopicRef → TopicKind
  fresh : TopicRef
  freshNode : NodeId
  live : List (Subscribed S)
  begun : List (Disturbance S)
  entered : List (Subscribed S)
  appended : List Publication

namespace TopicMap

variable {S ι : Type}

def start : TopicMap S := ⟨none, false, fun _ => .otherTopic, 0, 0, [], [], [], []⟩

section Operations

variable (map : TopicMap S)

/-- `get_topic` makes a topic if there is none and the caller says how. -/
def getTopic (make : Option TopicKind) : Option TopicRef × TopicMap S :=
  match map.entry with
  | some topic => (some topic, map)
  | none =>
      match make with
      | some kind =>
          (some map.fresh,
            { map with
              entry := some map.fresh
              kind := Function.update map.kind map.fresh kind
              fresh := map.fresh + 1 })
      | none => (none, map)

/-- Whether a topic has any subscriber. -/
def hasAnySubscriber (topic : TopicRef) : Bool := map.live.any (·.topic = topic)

/-- The subscription is entered: the second critical section of `reserve_subscribe`. -/
def enterSubscription (topic : TopicRef) (subscriber : S) (began : Nat) : TopicMap S :=
  { map with
    freshNode := map.freshNode + 1
    live := map.live ++ [⟨map.freshNode, topic, subscriber, began⟩]
    entered := map.entered ++ [⟨map.freshNode, topic, subscriber, began⟩] }

def dropTopic : TopicMap S := { map with entry := none, locked := false }

def append (topic : TopicRef) (began : Nat) : TopicMap S :=
  { map with appended := map.appended ++ [⟨topic, began⟩] }

/-- Some call that began after the subscription takes it away. -/
def Disturbed (subscribed : Subscribed S) : Prop :=
  .unsubscribe subscribed.subscriber ∈ map.begun.drop subscribed.began ∨
    .eraseTopic ∈ map.begun.drop subscribed.began

variable [DecidableEq S]

instance (subscribed : Subscribed S) : Decidable (map.Disturbed subscribed) :=
  inferInstanceAs (Decidable (_ ∈ _ ∨ _ ∈ _))

/-- The loop of `has_topic` and `unsubscribe`, which meets the latest subscription first. -/
def find (topic : TopicRef) (subscriber : S) : Option (Subscribed S) :=
  map.live.reverse.find? fun subscribed =>
    subscribed.topic = topic ∧ subscribed.subscriber = subscriber

def unsubscribe (subscribed : Subscribed S) : TopicMap S :=
  { map with live := map.live.erase subscribed }

/-- The subscriptions of a topic are cleared that is not in the map any more: its erasure is
published, or nobody refers to it any more. -/
def clear (topic : TopicRef) : TopicMap S :=
  if map.entry = some topic then map
  else { map with live := map.live.filter (·.topic ≠ topic) }

end Operations

/-- What threads do. The worker that publishes the erasure of a topic is one of them. -/
inductive Call (S : Type) where
  | subscribe (subscriber : S) (make : Option TopicKind)
  | unsubscribe (subscriber : S)
  | eraseTopic
  | publish (make : Option TopicKind)
  | clear (topic : TopicRef)
  deriving DecidableEq

/-- Where a thread stands. Subscribing: before `get_topic`, before the question whether the
topic has the subscriber, before the subscription is entered, before it is posted.
Unsubscribing: before the mutex of the map is locked, and holding it before the question
whether the topic has a subscriber and before the topic is taken out of the map. Erasing:
before `pop_topic`. Publishing: before `get_topic`, before `append`, before `post`. -/
inductive Operation (S : Type) where
  | getTopic (subscriber : S) (make : Option TopicKind) (began : Nat)
  | hasSubscriber (subscriber : S) (topic : TopicRef) (began : Nat)
  | enter (subscriber : S) (topic : TopicRef) (began : Nat)
  | unsubscribe (subscriber : S)
  | hasAnySubscriber (topic : TopicRef)
  | dropTopic
  | popTopic
  | find (make : Option TopicKind) (began : Nat)
  | append (topic : TopicRef) (began : Nat)
  | post
  | clear (topic : TopicRef)
  deriving DecidableEq

def begin (map : TopicMap S) : Call S → TopicMap S × Operation S
  | .subscribe subscriber make => (map, .getTopic subscriber make map.begun.length)
  | .unsubscribe subscriber =>
      ({ map with begun := map.begun ++ [.unsubscribe subscriber] }, .unsubscribe subscriber)
  | .eraseTopic => ({ map with begun := map.begun ++ [.eraseTopic] }, .popTopic)
  | .publish make => (map, .find make map.entered.length)
  | .clear topic => (map, .clear topic)

variable [DecidableEq S]

/-- One step of a thread. A thread that needs the mutex of the map while another one holds it
stays where it is. -/
def advance (map : TopicMap S) : Operation S → TopicMap S × Option (Operation S)
  | .getTopic subscriber make began =>
      if map.locked then (map, some (.getTopic subscriber make began))
      else
        match map.getTopic make with
        | (some topic, map) => (map, some (.hasSubscriber subscriber topic began))
        | (none, map) => (map, none)
  | .hasSubscriber subscriber topic began =>
      match map.find topic subscriber with
      | some _ => (map, none)
      | none => (map, some (.enter subscriber topic began))
  | .enter subscriber topic began =>
      (map.enterSubscription topic subscriber began, some .post)
  | .unsubscribe subscriber =>
      if map.locked then (map, some (.unsubscribe subscriber))
      else
        match map.entry with
        | none => (map, none)
        | some topic =>
            match map.find topic subscriber with
            | none => (map, none)
            | some subscribed =>
                if map.kind topic = .oneTopic then
                  ({ map.unsubscribe subscribed with locked := true },
                    some (.hasAnySubscriber topic))
                else (map.unsubscribe subscribed, none)
  | .hasAnySubscriber topic =>
      if map.hasAnySubscriber topic then ({ map with locked := false }, none)
      else (map, some .dropTopic)
  | .dropTopic => (map.dropTopic, none)
  | .popTopic =>
      if map.locked then (map, some .popTopic)
      else
        match map.entry with
        | some _ => ({ map with entry := none }, some .post)
        | none => (map, none)
  | .find make began =>
      if map.locked then (map, some (.find make began))
      else
        match map.getTopic make with
        | (some topic, map) => (map, some (.append topic began))
        | (none, map) => (map, none)
  | .append topic began => (map.append topic began, some .post)
  | .post => (map, none)
  | .clear topic => (map.clear topic, none)

def program (ι S : Type) [DecidableEq S] :
    Interleaving.Program ι (TopicMap S) (Call S) (Operation S) Unit where
  enter _ map call := map.begin call
  advance _ map operation _ := map.advance operation

abbrev Choice (ι S : Type) := Interleaving.Choice ι (Call S) Unit
abbrev Threads (ι S : Type) := Interleaving.Threads ι (TopicMap S) (Operation S)

/-! ## What is to be proved -/

/-- A subscription that was entered and that no later call takes away is one of the topic in
the map, every publication that began afterwards went to this topic, and no subscriber is
subscribed to a topic twice. -/
structure Reaches (map : TopicMap S) : Prop where
  mapped : ∀ subscribed ∈ map.entered, ¬ map.Disturbed subscribed →
    subscribed ∈ map.live ∧ map.entry = some subscribed.topic
  published : ∀ publication ∈ map.appended, ∀ subscribed ∈ map.entered.take publication.began,
    ¬ map.Disturbed subscribed → publication.topic = subscribed.topic
  single : (map.live.map fun subscribed => (subscribed.topic, subscribed.subscriber)).Nodup

/-- What has to be so when an operation takes its step: a subscription is entered that is not
there, in the topic that is in the map; what is taken away has been disturbed by a call that
began after the subscription. -/
def Timely (map : TopicMap S) : Operation S → Prop
  | .enter subscriber topic began =>
      (∀ subscribed ∈ map.live,
        ¬ (subscribed.topic = topic ∧ subscribed.subscriber = subscriber)) ∧
      (map.entry = some topic ∨ map.Disturbed ⟨map.freshNode, topic, subscriber, began⟩)
  | .unsubscribe subscriber => map.locked = false → ∀ topic, map.entry = some topic →
      ∀ subscribed, map.find topic subscriber = some subscribed → map.Disturbed subscribed
  | .dropTopic => ∀ subscribed ∈ map.live, map.entry = some subscribed.topic →
      map.Disturbed subscribed
  | .popTopic => map.locked = false → ∀ subscribed ∈ map.live,
      map.entry = some subscribed.topic → map.Disturbed subscribed
  | _ => True

end TopicMap

end Cube.Eco.Thread
