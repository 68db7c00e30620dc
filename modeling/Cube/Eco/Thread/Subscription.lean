import Cube.Lib.IntrusiveList
import Cube.Lib.Outcome

/-! # Subscriptions of topics

`Subscription.h` and the walk of `Role.h`: a subscription is a node of two lists at once, the
subscribers of its topic and the topics of its subscriber, with pointers to the pointers that
point to it. Operations run one at a time, each to its end, so locks change nothing.
-/

namespace Cube.Eco.Thread

/-- The address of a subscription. Addresses are not used twice. -/
abbrev NodeId := Nat

/-- The two lists a subscription is part of. -/
inductive Side where
  | topicSubscriber
  | subscriberTopic
  deriving DecidableEq, Repr

/-- What a `Subscription**` can point to: the head of a list, the next pointer of a
subscription, or the variable `node` of the operation that is running. -/
inductive Slot (T S : Type) where
  | topicHead (topic : T)
  | subscriberHead (subscriber : S)
  | next (side : Side) (node : NodeId)
  | localNode
  deriving DecidableEq, Repr

/-- A subscription without its next pointers, which are cells. -/
structure Subscription (T S : Type) where
  topic : Option T
  topicSubscriberPrev : Option (Slot T S)
  subscriber : Option S
  subscriberTopicPrev : Option (Slot T S)
  erasingNodes : List (Slot T S)
  working : Bool
  ref : UInt32
  deriving DecidableEq, Repr

namespace Subscription

variable {T S : Type}

def new (topic : T) (subscriber : S) : Subscription T S where
  topic := some topic
  topicSubscriberPrev := none
  subscriber := some subscriber
  subscriberTopicPrev := none
  erasingNodes := []
  working := false
  ref := 0

def prev (node : Subscription T S) : Side → Option (Slot T S)
  | .topicSubscriber => node.topicSubscriberPrev
  | .subscriberTopic => node.subscriberTopicPrev

def setPrev (node : Subscription T S) (side : Side) (cell : Option (Slot T S)) :
    Subscription T S :=
  match side with
  | .topicSubscriber => { node with topicSubscriberPrev := cell }
  | .subscriberTopic => { node with subscriberTopicPrev := cell }

/-- Forget the owner at the other end of a list: a node that leaves its topic forgets its
subscriber, a node that leaves its subscriber forgets its topic. -/
def leave (node : Subscription T S) : Side → Subscription T S
  | .topicSubscriber => { node with subscriber := none }
  | .subscriberTopic => { node with topic := none }

def newErasingNode (node : Subscription T S) (cell : Slot T S) : Subscription T S :=
  { node with erasingNodes := cell :: node.erasingNodes }

def addRef (node : Subscription T S) : Subscription T S := { node with ref := node.ref + 1 }

/-- None once the subscription is deleted. -/
def delRef (node : Subscription T S) : Option (Subscription T S) :=
  if node.ref - 1 = 0 then none else some { node with ref := node.ref - 1 }

def confirmSubscribe (node : Subscription T S) : Subscription T S := { node with working := true }

/-- Whether the owner at the other end of a list is known. -/
def hasPartner (node : Subscription T S) : Side → Bool
  | .topicSubscriber => node.subscriber.isSome
  | .subscriberTopic => node.topic.isSome

/-- What `publish_new` publishes at a node: nothing before the subscription is confirmed. The
subscriber is looked at when there is something to publish. -/
def publish {C : Type} (node : Subscription T S) (newSet : List C) :
    Outcome Empty (List (S × C)) :=
  if node.working then
    match node.subscriber with
    | some suber => .ok (newSet.map fun content => (suber, content))
    | none => if newSet.isEmpty then .ok [] else .fault
  else .ok []

end Subscription

/-- The memory that topics and subscribers share: the pointers, the subscriptions that are
alive, `m_tail` of each topic, the next address and whether an operation with a variable
`node` is running. -/
structure Memory (T S : Type) where
  cells : Slot T S → Option NodeId
  nodes : NodeId → Option (Subscription T S)
  topicTail : T → Option NodeId
  fresh : NodeId
  localAlive : Bool

namespace Memory

variable {T S : Type}

def empty : Memory T S where
  cells := fun _ => none
  nodes := fun _ => none
  topicTail := fun _ => none
  fresh := 0
  localAlive := false

/-- Whether a cell exists. -/
def valid (mem : Memory T S) : Slot T S → Bool
  | .next _ node => (mem.nodes node).isSome
  | .localNode => mem.localAlive
  | _ => true

def load (mem : Memory T S) (cell : Slot T S) : Outcome Empty (Option NodeId) :=
  if mem.valid cell then .ok (mem.cells cell) else .fault

def get (mem : Memory T S) (node : NodeId) : Outcome Empty (Subscription T S) :=
  match mem.nodes node with
  | some found => .ok found
  | none => .fault

def put (mem : Memory T S) (node : NodeId) (value : Option (Subscription T S)) : Memory T S :=
  { mem with nodes := Function.update mem.nodes node value }

def modify (mem : Memory T S) (node : NodeId) (change : Subscription T S → Subscription T S) :
    Outcome Empty (Memory T S) := do
  let found ← mem.get node
  .ok (mem.put node (some (change found)))

/-- Where there is a node, let it point back to a cell. -/
def pointBack (mem : Memory T S) (side : Side) (cell : Option (Slot T S)) :
    Option NodeId → Outcome Empty (Memory T S)
  | some node => mem.modify node (·.setPrev side cell)
  | none => .ok mem

def delRef (mem : Memory T S) (this : NodeId) : Outcome Empty (Memory T S) := do
  let node ← mem.get this
  .ok (mem.put this node.delRef)

variable [DecidableEq T] [DecidableEq S]

def write (mem : Memory T S) (cell : Slot T S) (value : Option NodeId) : Memory T S :=
  { mem with cells := Function.update mem.cells cell value }

/-- Store through a pointer to a pointer, which can be null. -/
def store (mem : Memory T S) (pointer : Option (Slot T S)) (value : Option NodeId) :
    Outcome Empty (Memory T S) :=
  match pointer with
  | some cell => if mem.valid cell then .ok (mem.write cell value) else .fault
  | none => .fault

def setTail (mem : Memory T S) (topic : T) (node : Option NodeId) : Memory T S :=
  { mem with topicTail := Function.update mem.topicTail topic node }

/-- The variable `node` comes to life. -/
def enter (mem : Memory T S) (node : NodeId) : Memory T S :=
  { mem.write .localNode (some node) with localAlive := true }

def exit (mem : Memory T S) : Memory T S := { mem with localAlive := false }

/-! ## Subscription -/

/-- `new Subscription(topic, sub)`. -/
def new (mem : Memory T S) (topic : T) (sub : S) : NodeId × Memory T S :=
  (mem.fresh,
    { ((mem.write (.next .topicSubscriber mem.fresh) none).write
        (.next .subscriberTopic mem.fresh) none).put mem.fresh (some (.new topic sub)) with
      fresh := mem.fresh + 1 })

def addTopicSubscriber (mem : Memory T S) (this : NodeId) (topic : T) :
    Outcome Empty (Memory T S) :=
  match mem.cells (.topicHead topic) with
  | none => do
      let mem ← mem.store (some (.topicHead topic)) (some this)
      let mem ← mem.modify this (·.setPrev .topicSubscriber (some (.topicHead topic)))
      .ok (mem.setTail topic (some this))
  | some _ =>
      match mem.topicTail topic with
      | none => .fault
      | some tail => do
          let mem ← mem.store (some (.next .topicSubscriber tail)) (some this)
          let mem ← mem.modify this
            (·.setPrev .topicSubscriber (some (.next .topicSubscriber tail)))
          .ok (mem.setTail topic (some this))

def addSubscriberTopic (mem : Memory T S) (this : NodeId) (sub : S) :
    Outcome Empty (Memory T S) := do
  let mem ← mem.pointBack .subscriberTopic (some (.next .subscriberTopic this))
    (mem.cells (.subscriberHead sub))
  let mem ← mem.store (some (.next .subscriberTopic this)) (mem.cells (.subscriberHead sub))
  let mem ← mem.modify this (·.setPrev .subscriberTopic (some (.subscriberHead sub)))
  mem.store (some (.subscriberHead sub)) (some this)

/-- `reserve_subscribe` of a subscription. -/
def reserveSubscribe (mem : Memory T S) (this : NodeId) (topic : T) (sub : S) :
    Outcome Empty (Memory T S) := do
  let mem ← mem.addTopicSubscriber this topic
  let mem ← mem.addSubscriberTopic this sub
  mem.modify this .addRef

/-- Erase a subscription from its list on one side. -/
def eraseFrom (mem : Memory T S) (side : Side) (this : NodeId) : Outcome Empty (Memory T S) := do
  let node ← mem.get this
  let next ← mem.load (.next side this)
  let mem ← mem.store (node.prev side) next
  let node ← mem.get this
  let next ← mem.load (.next side this)
  let mem ← mem.pointBack side (node.prev side) next
  mem.modify this (·.leave side)

/-- The tail of the topic's list is left as it is. -/
def eraseTopicSubscriber (mem : Memory T S) (this : NodeId) : Outcome Empty (Memory T S) :=
  mem.eraseFrom .topicSubscriber this

def eraseSubscriberTopic (mem : Memory T S) (this : NodeId) : Outcome Empty (Memory T S) :=
  mem.eraseFrom .subscriberTopic this

/-- Tell those who are erasing the node that it has been erased. -/
def clearErasing (mem : Memory T S) : List (Slot T S) → Outcome Empty (Memory T S)
  | [] => .ok mem
  | cell :: cells => do
      let mem ← mem.store (some cell) none
      mem.clearErasing cells

/-- `unsubscribe` of a subscription. -/
def unsubscribe (mem : Memory T S) (this : NodeId) : Outcome Empty (Memory T S) := do
  let node ← mem.get this
  let mem ← mem.clearErasing node.erasingNodes
  let mem ← mem.eraseSubscriberTopic this
  let mem ← mem.eraseTopicSubscriber this
  mem.delRef this

end Memory

variable {T S : Type} [DecidableEq T] [DecidableEq S]

/-! ## Walking the lists

A loop that walks a list takes as many turns as there have been subscriptions; one that would
take more does not end, which is a fault.
-/

namespace Memory

def chainFrom (mem : Memory T S) (side : Side) :
    Nat → Option NodeId → Outcome Empty (List NodeId)
  | _, none => .ok []
  | 0, some _ => .fault
  | turns + 1, some this => do
      let next ← mem.load (.next side this)
      let later ← mem.chainFrom side turns next
      .ok (this :: later)

/-- The nodes from a head along the next pointers. -/
def chain (mem : Memory T S) (side : Side) (head : Slot T S) : Outcome Empty (List NodeId) :=
  mem.chainFrom side mem.fresh (mem.cells head)

/-- The loop of `has_topic` and `unsubscribe` that looks for the subscription of a topic. -/
def findTopicFrom (mem : Memory T S) (topic : T) :
    Nat → Option NodeId → Outcome Empty (Option NodeId)
  | _, none => .ok none
  | 0, some _ => .fault
  | turns + 1, some this => do
      let node ← mem.get this
      if node.topic = some topic then .ok (some this)
      else
        let next ← mem.load (.next .subscriberTopic this)
        mem.findTopicFrom topic turns next

def findTopic (mem : Memory T S) (subscriber : S) (topic : T) : Outcome Empty (Option NodeId) :=
  mem.findTopicFrom topic mem.fresh (mem.cells (.subscriberHead subscriber))

/-- The loops of `unsubscribe_all` and `clear`: a cell moves on by itself as the nodes it
holds are erased. The mutex of the owner on the other side is locked in each turn. -/
def eraseAllFrom (side : Side) (cell : Slot T S) (turns : Nat) (mem : Memory T S) :
    Outcome Empty (Memory T S) :=
  match turns, mem.cells cell with
  | _, none => .ok mem
  | 0, some _ => .fault
  | turns + 1, some this => do
      let node ← mem.get this
      if node.hasPartner side then
        let mem ← mem.unsubscribe this
        eraseAllFrom side cell turns mem
      else .fault

end Memory

/-! ## Subscriber -/

namespace Subscriber

def hasTopic (mem : Memory T S) (subscriber : S) (topic : T) : Outcome Empty Bool := do
  let found ← mem.findTopic subscriber topic
  .ok found.isSome

/-- Erase the subscription that was found. The address of the variable `node` is taken to learn
whether somebody else erases it. -/
def eraseFound (mem : Memory T S) (this : NodeId) : Outcome Empty (Memory T S) := do
  let mem ← (mem.enter this).modify this (·.newErasingNode .localNode)
  match mem.cells .localNode with
  | some this => do
      let mem ← mem.unsubscribe this
      .ok mem.exit
  | none => .ok mem.exit

/-- `Subscriber::unsubscribe`: whether there was a subscription to erase. -/
def unsubscribe (mem : Memory T S) (subscriber : S) (topic : T) :
    Outcome Empty (Bool × Memory T S) := do
  match ← mem.findTopic subscriber topic with
  | some this => do
      let mem ← eraseFound mem this
      .ok (true, mem)
  | none => .ok (false, mem)

def unsubscribeAll (mem : Memory T S) (subscriber : S) : Outcome Empty (Memory T S) :=
  Memory.eraseAllFrom .subscriberTopic (.subscriberHead subscriber) mem.fresh mem

end Subscriber

/-! ## Topic -/

namespace Topic

def hasSubscriber (mem : Memory T S) (topic : T) (subscriber : S) : Outcome Empty Bool :=
  Subscriber.hasTopic mem subscriber topic

/-- `Topic::reserve_subscribe`: the subscription, which the caller then holds too, or null. -/
def reserveSubscribe (mem : Memory T S) (topic : T) (subscriber : S) :
    Outcome Empty (Option NodeId × Memory T S) := do
  let has ← hasSubscriber mem topic subscriber
  if has then .ok (none, mem)
  else
    let (node, mem) := mem.new topic subscriber
    let mem ← mem.reserveSubscribe node topic subscriber
    let mem ← mem.modify node .addRef
    .ok (some node, mem)

def unsubscribe (mem : Memory T S) (topic : T) (subscriber : S) :
    Outcome Empty (Bool × Memory T S) :=
  Subscriber.unsubscribe mem subscriber topic

/-- `Topic::clear`: the list hangs on the variable `node` while it is erased. -/
def clear (mem : Memory T S) (topic : T) : Outcome Empty (Memory T S) :=
  match mem.cells (.topicHead topic) with
  | none => .ok mem
  | some head => do
      let mem ← (mem.enter head).modify head (·.setPrev .topicSubscriber (some .localNode))
      let mem ← Memory.eraseAllFrom .topicSubscriber .localNode mem.fresh mem
      .ok ((mem.exit.write (.topicHead topic) none).setTail topic none)

/-- The part of `publish_snap` that changes a subscription. -/
def publishSnap (mem : Memory T S) (subscription : NodeId) : Outcome Empty (Memory T S) := do
  let node ← mem.get subscription
  if node.subscriber.isSome then mem.modify subscription .confirmSubscribe else .ok mem

/-- The loop of `publish_new`: the nodes it visits, each with what it publishes there. -/
def publishNewFrom {C : Type} (mem : Memory T S) (newSet : List C) :
    Nat → Option NodeId → Outcome Empty (List (NodeId × List (S × C)))
  | _, none => .ok []
  | 0, some _ => .fault
  | turns + 1, some this => do
      let node ← mem.get this
      let published ← node.publish newSet
      let next ← mem.load (.next .topicSubscriber this)
      let later ← publishNewFrom mem newSet turns next
      .ok ((this, published) :: later)

def publishNew {C : Type} (mem : Memory T S) (topic : T) (newSet : List C) :
    Outcome Empty (List (NodeId × List (S × C))) :=
  publishNewFrom mem newSet mem.fresh (mem.cells (.topicHead topic))

end Topic

end Cube.Eco.Thread
