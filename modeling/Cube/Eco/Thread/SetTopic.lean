import Mathlib.Data.List.AList
import Mathlib.Logic.Function.Basic
import Cube.Lib.Outcome
import Cube.Eco.Timestamp

/-! # Set topics

A set topic keeps one content for each object id, and the contents that have not been
published yet. A content is shared: the maps, the pending contents and the subscribers point
to one object, whose timestamp is overwritten where it stands.
-/

namespace Cube.Eco.Thread

/-- A pointer to a content. The object of a content never changes; its timestamp is found in
memory. -/
structure Content (V : Type) where
  address : Nat
  object : V
  deriving DecidableEq, Repr

structure SetTopic (κ V : Type) where
  timestamp : Nat → Timestamp
  fresh : Nat
  snapSet : AList fun _ : κ => Content V
  objects : AList fun _ : κ => Content V
  newSet : List (Content V)

namespace SetTopic

open Timestamp

variable {κ V : Type} [DecidableEq κ]

def new : SetTopic κ V := ⟨fun _ => vInsert, 0, ∅, ∅, []⟩

section Operations

variable (getId : V → κ) (topic : SetTopic κ V)

def stamp (content : Content V) (v : Timestamp) : SetTopic κ V :=
  { topic with timestamp := Function.update topic.timestamp content.address v }

def getTimestamp (content : Content V) : Timestamp := topic.timestamp content.address

def find (id : κ) : Option (Content V) := topic.objects.lookup id

/-- The id under which the topic keeps a content. -/
def objectId (content : Content V) : κ := getId content.object

/-- `append`: a new content replaces the stored one of its id or is inserted; one that is
marked removed takes the stored one out, and the stored one is published as removed. -/
def append (newc : Content V) : SetTopic κ V :=
  match topic.objects.lookup (objectId getId newc) with
  | some stored =>
      if removed (topic.getTimestamp newc) then
        { topic.stamp stored vRemove with
          newSet := topic.newSet ++ [stored]
          objects := topic.objects.erase (objectId getId newc) }
      else
        { topic.stamp newc vUpdate with
          newSet := topic.newSet ++ [newc]
          objects := topic.objects.insert (objectId getId newc) newc }
  | none =>
      if removed (topic.getTimestamp newc) then topic
      else
        { topic.stamp newc vInsert with
          newSet := topic.newSet ++ [newc]
          objects := topic.objects.insert (objectId getId newc) newc }

/-- `do_snap` publishes these contents, in the order in which it iterates over the map. -/
def snapContents : List (Content V) := topic.snapSet.entries.map Sigma.snd

/-- What `do_move` does with a pending content. -/
def syncSnap (snapSet : AList fun _ : κ => Content V) (content : Content V) :
    AList fun _ : κ => Content V :=
  if removed (topic.getTimestamp content) then snapSet.erase (objectId getId content)
  else snapSet.insert (objectId getId content) content

def doMove : Option (List (Content V)) × SetTopic κ V :=
  if topic.newSet.isEmpty then (none, topic)
  else
    (some topic.newSet,
      { topic with snapSet := topic.newSet.foldl (topic.syncSnap getId) topic.snapSet, newSet := [] })

def doClear : SetTopic κ V := { topic with snapSet := ∅, newSet := [], objects := ∅ }

/-- `TopicServer::publish_new` makes a content for an object and appends it. -/
def publishNew (obj : V) (removeObj : Bool) : SetTopic κ V :=
  let content := ⟨topic.fresh, obj⟩
  let ts := if removeObj then vRemove else vInsert
  ({ topic with fresh := topic.fresh + 1 }.stamp content ts).append getId content

/-- `TopicServer::remove` marks the stored content and appends it. An id without a content
gives a null pointer. -/
def remove (id : κ) : Outcome Empty (SetTopic κ V) :=
  match topic.find id with
  | some content => .ok ((topic.stamp content vRemove).append getId content)
  | none => .fault

end Operations

/-! ## The topic and its subscribers -/

/-- What a subscriber is told: a content with the timestamp it has then, or that all contents
were cleared. -/
inductive Event (V : Type) where
  | publish (content : Content V) (timestamp : Timestamp)
  | clearContent
  deriving DecidableEq

def event (topic : SetTopic κ V) (content : Content V) : Event V :=
  .publish content (topic.getTimestamp content)

/-- A topic, what a subscriber that is working from the start has received, and what those
have that started from a snapshot. -/
structure Subscribed (κ V : Type) where
  topic : SetTopic κ V
  first : List (Event V)
  later : List (List (Event V))

namespace Subscribed

def start : Subscribed κ V := ⟨SetTopic.new, [], []⟩

/-- Every working subscriber receives the events. -/
def deliver (subscribed : Subscribed κ V) (topic : SetTopic κ V) (events : List (Event V)) :
    Subscribed κ V :=
  ⟨topic, subscribed.first ++ events, subscribed.later.map (· ++ events)⟩

end Subscribed

/-- What is done to a topic. A snapshot names the order in which the map is iterated. -/
inductive Operation (κ V : Type) where
  | publishNew (obj : V) (removeObj : Bool)
  | remove (id : κ)
  | doMove
  | doClear
  | doSnap (order : List (Content V))
  deriving DecidableEq

/-- A step of the topic with its subscribers. An order that is not one of the snapshot is not
possible and changes nothing. -/
def step [DecidableEq V] (getId : V → κ) (subscribed : Subscribed κ V) :
    Operation κ V → Outcome Empty (Subscribed κ V)
  | .publishNew obj removeObj =>
      .ok { subscribed with topic := subscribed.topic.publishNew getId obj removeObj }
  | .remove id => do
      let topic ← subscribed.topic.remove getId id
      .ok { subscribed with topic := topic }
  | .doMove =>
      match subscribed.topic.doMove getId with
      | (some newSet, topic) => .ok (subscribed.deliver topic (newSet.map topic.event))
      | (none, topic) => .ok { subscribed with topic := topic }
  | .doClear => .ok (subscribed.deliver subscribed.topic.doClear [.clearContent])
  | .doSnap order =>
      if order.Perm subscribed.topic.snapContents then
        .ok { subscribed with later := order.map subscribed.topic.event :: subscribed.later }
      else .ok subscribed

/-- A step of a topic that may have left the defined behaviour. -/
def turn [DecidableEq V] (getId : V → κ) (state : Outcome Empty (Subscribed κ V))
    (operation : Operation κ V) : Outcome Empty (Subscribed κ V) :=
  state >>= fun subscribed => step getId subscribed operation

end SetTopic

end Cube.Eco.Thread
