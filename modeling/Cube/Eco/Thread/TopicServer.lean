import Cube.Lib.Interleaving
import Cube.Eco.Thread.TopicContent
import Cube.Eco.Thread.TopicPublish

/-! # The topic server

Any number of threads publish contents of a topic and subscribe to it, each in two steps: the
content is appended or the subscription reserved, and then a publisher is posted. One worker
takes the publishers from the queue in their order and runs them.
-/

namespace Cube.Eco.Thread

/-- What is posted to the worker. -/
inductive Publisher where
  | publishSnap (subscription : NodeId)
  | publishNew
  deriving DecidableEq, Repr

/-- Where the worker stands: it waits for a publisher, has taken one, is about to publish a new
set, or lets go of the subscription of the publisher that has run. -/
inductive Worker (C : Type) where
  | waiting
  | handling (publisher : Publisher)
  | publishing (newSet : List C)
  | releasing (subscription : NodeId)
  deriving DecidableEq

/-- The server with one topic, its contents and subscriptions, and the histories of what was
appended, what was moved and what each subscriber has received. -/
structure TopicServer (K A C S : Type) where
  system : System Unit S
  contents : K
  queue : List Publisher
  worker : Worker C
  appended : List A
  moved : List C
  received : S → List C

namespace TopicServer

variable {K A C S : Type} (topic : TopicT K A C)

def start : TopicServer K A C S := ⟨.empty, topic.make, [], .waiting, [], [], fun _ => []⟩

section Operations

variable (server : TopicServer K A C S)

def append (content : A) : TopicServer K A C S :=
  { server with
    contents := topic.append server.contents content
    appended := server.appended ++ [content] }

def post (publisher : Publisher) : TopicServer K A C S :=
  { server with queue := server.queue ++ [publisher] }

/-- The worker moves the pending contents. -/
def move : TopicServer K A C S :=
  match topic.doMove server.contents with
  | (some newSet, contents) =>
      { server with contents, worker := .publishing newSet, moved := server.moved ++ newSet }
  | (none, contents) => { server with contents, worker := .waiting }

variable [DecidableEq S]

def reserveSubscribe (subscriber : S) : Outcome Empty (Option NodeId × TopicServer K A C S) := do
  match ← Topic.reserveSubscribe server.system.memory () subscriber with
  | (some node, memory) =>
      .ok (some node,
        { server with
          system := ⟨memory, server.system.reserved ++ [⟨node, (), subscriber⟩],
            node :: server.system.held⟩ })
  | (none, memory) => .ok (none, { server with system := { server.system with memory } })

/-- A subscriber receives contents, by `on_publish`. -/
def receive (received : S → List C) (suber : S) (contents : List C) : S → List C :=
  Function.update received suber (received suber ++ contents)

/-- `publish_snap` of a subscription that still has its subscriber confirms it and publishes
the snapshot. -/
def publishSnap (subscription : NodeId) : Outcome Empty (TopicServer K A C S) := do
  let node ← server.system.memory.get subscription
  let memory ← Topic.publishSnap server.system.memory subscription
  match node.subscriber with
  | some suber =>
      .ok { server with
        system := { server.system with memory }
        contents := (topic.doSnap server.contents).2
        worker := .releasing subscription
        received := receive server.received suber (topic.doSnap server.contents).1 }
  | none =>
      .ok { server with
        system := { server.system with memory }
        worker := .releasing subscription }

/-- The walk of `publish_new`. -/
def publishNew (newSet : List C) : Outcome Empty (TopicServer K A C S) := do
  let visits ← Topic.publishNew server.system.memory () newSet
  .ok { server with
    worker := .waiting
    received := (visits.flatMap Prod.snd).foldl
      (fun received published => receive received published.1 [published.2]) server.received }

/-- The publisher that has run is destroyed, and with it its reference. -/
def release (subscription : NodeId) : Outcome Empty (TopicServer K A C S) := do
  let memory ← server.system.memory.delRef subscription
  .ok { server with
    system := { server.system with memory, held := server.system.held.erase subscription }
    worker := .waiting }

/-- One step of the worker. -/
def work : Outcome Empty (TopicServer K A C S) :=
  match server.worker with
  | .waiting =>
      match server.queue with
      | [] => .ok server
      | publisher :: queue => .ok { server with queue, worker := .handling publisher }
  | .handling (.publishSnap subscription) => server.publishSnap topic subscription
  | .handling .publishNew => .ok (server.move topic)
  | .publishing newSet => server.publishNew newSet
  | .releasing subscription => server.release subscription

end Operations

/-! ## Threads -/

inductive Call (A S : Type) where
  | publish (content : A)
  | subscribe (subscriber : S)
  deriving DecidableEq

/-- Where a thread stands: before `append`, before `reserve_subscribe`, before `post`. -/
inductive Operation (A S : Type) where
  | append (content : A)
  | reserve (subscriber : S)
  | post (publisher : Publisher)
  deriving DecidableEq

def Call.operation : Call A S → Operation A S
  | .publish content => .append content
  | .subscribe subscriber => .reserve subscriber

variable [DecidableEq S]

/-- One step of a thread. A subscription that was refused is not posted. -/
def advance (server : TopicServer K A C S) :
    Operation A S → Outcome Empty (TopicServer K A C S × Option (Operation A S))
  | .append content => .ok (server.append topic content, some (.post .publishNew))
  | .reserve subscriber => do
      let (node, server) ← server.reserveSubscribe subscriber
      .ok (server, node.map fun node => .post (.publishSnap node))
  | .post publisher => .ok (server.post publisher, none)

/-- The threads share the server, unless the defined behaviour was left. -/
def program (ι : Type) : Interleaving.Program ι (Outcome Empty (TopicServer K A C S))
    (Call A S) (Operation A S) Unit where
  enter _ state call := (state, call.operation)
  advance _ state operation _ :=
    match state >>= fun server => advance topic server operation with
    | .ok (server, next) => (.ok server, next)
    | _ => (.fault, none)

abbrev Threads (ι K A C S : Type) :=
  Interleaving.Threads ι (Outcome Empty (TopicServer K A C S)) (Operation A S)

/-- Either a thread moves or the worker does. -/
inductive Choice (ι A S : Type) where
  | thread (choice : Interleaving.Choice ι (Call A S) Unit)
  | work
  deriving DecidableEq

variable {ι : Type}

def step [DecidableEq ι] (threads : Threads ι K A C S) : Choice ι A S → Threads ι K A C S
  | .thread choice => (program topic ι).step threads choice
  | .work => { threads with shared := threads.shared >>= fun server => server.work topic }

/-- The topic is new, and no thread has made a call. -/
def idle : Threads ι K A C S := Interleaving.Threads.idle (.ok (start topic))

end TopicServer

end Cube.Eco.Thread
