import Cube.Lib.Latest
import Cube.Lib.Run
import Cube.Eco.Thread.SetTopic

/-! # Replicas of a set topic

The pending contents say, with the timestamps they have now, what turns a view of the topic
into its objects. This is so of the snapshot and of the replica of every subscriber, whatever
the timestamps were when the contents were appended: only the latest pending content of an id
counts, and that is the stored one, or the one that was taken out.
-/

namespace Cube.Eco.Thread.SetTopic

open Latest Timestamp

variable {κ V : Type} [DecidableEq κ] {getId : V → κ} {topic : SetTopic κ V}
  {content newc : Content V} {v : Timestamp}

/-! ## What an append does -/

/-- The content is published with a timestamp, and becomes the stored one of its id or takes
it out. -/
def push (getId : V → κ) (topic : SetTopic κ V) (content : Content V) (v : Timestamp) :
    SetTopic κ V :=
  { topic.stamp content v with
    newSet := topic.newSet ++ [content]
    objects :=
      if removed v then topic.objects.erase (objectId getId content)
      else topic.objects.insert (objectId getId content) content }

/-- The topic points to the content from its objects, or from the pending ones. -/
def Known (topic : SetTopic κ V) (content : Content V) : Prop :=
  content ∈ topic.newSet ∨ ∃ id, topic.objects.lookup id = some content

/-- The objects stand under their ids and are not removed, and every content has an address of
its own. -/
structure Sound (getId : V → κ) (topic : SetTopic κ V) : Prop where
  keyed : ∀ id content, topic.objects.lookup id = some content → objectId getId content = id
  present : ∀ id content, topic.objects.lookup id = some content →
    removed (topic.getTimestamp content) = false
  below : ∀ content, topic.Known content → content.address < topic.fresh
  single : ∀ first second, topic.Known first → topic.Known second →
    first.address = second.address → first = second

theorem lookup_push (id : κ) :
    (topic.push getId content v).objects.lookup id =
      if objectId getId content = id then (if removed v then none else some content)
      else topic.objects.lookup id := by
  unfold push
  by_cases same : objectId getId content = id
  · subst same
    rw [if_pos rfl]
    split
    · exact AList.lookup_erase ..
    · exact AList.lookup_insert ..
  · rw [if_neg same]
    split
    · exact AList.lookup_erase_ne (Ne.symm same)
    · exact AList.lookup_insert_ne (Ne.symm same)

@[simp] theorem getTimestamp_push_self :
    (topic.push getId content v).getTimestamp content = v := Function.update_self ..

theorem getTimestamp_push_of_ne {other : Content V} (different : other.address ≠ content.address) :
    (topic.push getId content v).getTimestamp other = topic.getTimestamp other :=
  Function.update_of_ne different ..

/-- What `append` does with a content that is marked removed, and with one that is not. -/
theorem append_cases (sound : topic.Sound getId) (newc : Content V) :
    (topic.objects.lookup (objectId getId newc) = none ∧
      removed (topic.getTimestamp newc) = true ∧ topic.append getId newc = topic) ∨
    (∃ stored, topic.objects.lookup (objectId getId newc) = some stored ∧
      removed (topic.getTimestamp newc) = true ∧
      topic.append getId newc = topic.push getId stored vRemove) ∨
    (∃ stored, topic.objects.lookup (objectId getId newc) = some stored ∧
      removed (topic.getTimestamp newc) = false ∧
      topic.append getId newc = topic.push getId newc vUpdate) ∨
    (topic.objects.lookup (objectId getId newc) = none ∧
      removed (topic.getTimestamp newc) = false ∧
      topic.append getId newc = topic.push getId newc vInsert) := by
  cases found : topic.objects.lookup (objectId getId newc) with
  | none =>
      cases mark : removed (topic.getTimestamp newc) with
      | true => exact .inl ⟨rfl, rfl, by simp only [append, found, mark, ↓reduceIte]⟩
      | false =>
          refine .inr (.inr (.inr ⟨rfl, rfl, ?_⟩))
          simp only [append, found, mark, Bool.false_eq_true, ↓reduceIte, push, removed_vInsert]
  | some stored =>
      cases mark : removed (topic.getTimestamp newc) with
      | true =>
          refine .inr (.inl ⟨stored, rfl, rfl, ?_⟩)
          simp only [append, found, mark, ↓reduceIte, push, removed_vRemove,
            sound.keyed _ _ found]
      | false =>
          refine .inr (.inr (.inl ⟨stored, rfl, rfl, ?_⟩))
          simp only [append, found, mark, Bool.false_eq_true, ↓reduceIte, push, removed_vUpdate]

theorem sound_new : (new : SetTopic κ V).Sound getId where
  keyed := nofun
  present := nofun
  below content known := by
    obtain ⟨⟨⟩⟩ | ⟨_, ⟨⟩⟩ := known
  single first _ known := by
    obtain ⟨⟨⟩⟩ | ⟨_, ⟨⟩⟩ := known

/-- Nothing but pending content has an address that is pushed. -/
theorem Sound.push (sound : topic.Sound getId) (bound : content.address < topic.fresh)
    (own : ∀ other, topic.Known other → other.address = content.address → other = content)
    (v : Timestamp) : (topic.push getId content v).Sound getId := by
  have stored {id : κ} {found : Content V}
      (lookup : (topic.push getId content v).objects.lookup id = some found) :
      (objectId getId content = id ∧ removed v = false ∧ found = content) ∨
        (objectId getId content ≠ id ∧ topic.objects.lookup id = some found) := by
    rw [lookup_push] at lookup
    split at lookup
    next same =>
      cases mark : removed v with
      | true =>
          rw [mark] at lookup
          cases lookup
      | false =>
          rw [mark] at lookup
          exact .inl ⟨same, rfl, (Option.some.inj lookup).symm⟩
    next different => exact .inr ⟨different, lookup⟩
  have known {found : Content V} (here : (topic.push getId content v).Known found) :
      found = content ∨ topic.Known found := by
    rcases here with pending | ⟨id, lookup⟩
    · rcases List.mem_append.mp pending with before | last
      · exact .inr (.inl before)
      · exact .inl (List.mem_singleton.mp last)
    · rcases stored lookup with ⟨_, _, same⟩ | ⟨_, before⟩
      · exact .inl same
      · exact .inr (.inr ⟨id, before⟩)
  constructor
  · intro id found lookup
    rcases stored lookup with ⟨same, _, rfl⟩ | ⟨_, before⟩
    · exact same
    · exact sound.keyed id found before
  · intro id found lookup
    rcases stored lookup with ⟨_, unmarked, rfl⟩ | ⟨different, before⟩
    · rw [getTimestamp_push_self, unmarked]
    · have apart : found.address ≠ content.address := fun equal => by
        rw [own found (.inr ⟨id, before⟩) equal] at before
        exact different (sound.keyed id content before)
      rw [getTimestamp_push_of_ne apart]
      exact sound.present id found before
  · intro found here
    rcases known here with rfl | before
    · exact bound
    · exact sound.below found before
  · intro first second firstHere secondHere equal
    rcases known firstHere with rfl | firstBefore
    · rcases known secondHere with rfl | secondBefore
      · rfl
      · exact (own second secondBefore equal.symm).symm
    · rcases known secondHere with rfl | secondBefore
      · exact own first firstBefore equal
      · exact sound.single first second firstBefore secondBefore equal

/-! ## What the topic server does -/

/-- The topic once `publish_new` has made its content. -/
def prepare (topic : SetTopic κ V) (obj : V) (removeObj : Bool) : SetTopic κ V :=
  { topic with fresh := topic.fresh + 1 }.stamp ⟨topic.fresh, obj⟩
    (if removeObj then vRemove else vInsert)

theorem publishNew_eq (topic : SetTopic κ V) (obj : V) (removeObj : Bool) :
    topic.publishNew getId obj removeObj =
      (topic.prepare obj removeObj).append getId ⟨topic.fresh, obj⟩ := rfl

section Prepare

variable {obj : V} {removeObj : Bool}

theorem getTimestamp_prepare (sound : topic.Sound getId) (known : topic.Known content) :
    (topic.prepare obj removeObj).getTimestamp content = topic.getTimestamp content :=
  Function.update_of_ne (Nat.ne_of_lt (sound.below content known)) ..

theorem Sound.prepare (sound : topic.Sound getId) :
    (topic.prepare obj removeObj).Sound getId where
  keyed := sound.keyed
  present id content lookup := by
    rw [getTimestamp_prepare sound (.inr ⟨id, lookup⟩)]
    exact sound.present id content lookup
  below content known := Nat.lt_succ_of_lt (sound.below content known)
  single := sound.single

/-- What `publish_new` publishes is either a content of its own or the stored one. -/
theorem publishNew_cases (sound : topic.Sound getId) (obj : V) (removeObj : Bool) :
    topic.publishNew getId obj removeObj = topic.prepare obj removeObj ∨
    ∃ content v, topic.publishNew getId obj removeObj =
        (topic.prepare obj removeObj).push getId content v ∧
      content.address < topic.fresh + 1 ∧
      ∀ other, topic.Known other → other.address = content.address → other = content := by
  have stored {found : Content V} (lookup : topic.objects.lookup (getId obj) = some found) :
      found.address < topic.fresh + 1 ∧
        ∀ other, topic.Known other → other.address = found.address → other = found := by
    have known : topic.Known found := .inr ⟨_, lookup⟩
    exact ⟨Nat.lt_succ_of_lt (sound.below found known),
      fun other otherKnown => sound.single other found otherKnown known⟩
  have own : ∀ other, topic.Known other → other.address = (⟨topic.fresh, obj⟩ : Content V).address →
      other = ⟨topic.fresh, obj⟩ := fun other known same =>
    absurd same (Nat.ne_of_lt (sound.below other known))
  rw [publishNew_eq]
  have prepared : (topic.prepare obj removeObj).Sound getId := sound.prepare
  rcases append_cases prepared ⟨topic.fresh, obj⟩ with
    ⟨_, _, same⟩ | ⟨found, lookup, _, pushed⟩ | ⟨_, _, _, pushed⟩ | ⟨_, _, pushed⟩
  · exact .inl same
  · exact .inr ⟨found, vRemove, pushed, stored lookup⟩
  · exact .inr ⟨_, vUpdate, pushed, Nat.lt_succ_self _, own⟩
  · exact .inr ⟨_, vInsert, pushed, Nat.lt_succ_self _, own⟩

end Prepare

/-- Removing a present id publishes the stored content as removed. -/
theorem remove_eq (sound : topic.Sound getId) {id : κ}
    (lookup : topic.objects.lookup id = some content) :
    topic.remove getId id = .ok (topic.push getId content vRemove) := by
  have stored : (topic.stamp content vRemove).objects.lookup (objectId getId content) =
      some content := by
    rw [sound.keyed id content lookup]
    exact lookup
  have marked : removed ((topic.stamp content vRemove).getTimestamp content) = true := by
    have stamped : (topic.stamp content vRemove).getTimestamp content = vRemove :=
      Function.update_self ..
    rw [stamped, removed_vRemove]
  have twice : ((topic.stamp content vRemove).stamp content vRemove) =
      topic.stamp content vRemove := by
    simp only [stamp, Function.update_idem]
  simp only [remove, find, lookup, append, stored, marked, ↓reduceIte, twice]
  rfl

theorem remove_absent {id : κ} (absent : topic.objects.lookup id = none) :
    topic.remove getId id = .fault := by
  simp only [remove, find, absent]

/-! ## Views of the objects -/

/-- What a published content makes of its id. -/
def shown (topic : SetTopic κ V) (content : Content V) : Option (Content V) :=
  if removed (topic.getTimestamp content) then none else some content

/-- A view, once the pending contents have been published. -/
def ahead (getId : V → κ) (topic : SetTopic κ V) (view : κ → Option (Content V)) (id : κ) :
    Option (Content V) :=
  ((latest (objectId getId) id topic.newSet).map topic.shown).getD (view id)

/-- Publishing the pending contents would turn the view into the objects. -/
def Tracks (getId : V → κ) (topic : SetTopic κ V) (view : κ → Option (Content V)) : Prop :=
  ∀ id, topic.ahead getId view id = topic.objects.lookup id

theorem ahead_of_empty (empty : topic.newSet = []) (view : κ → Option (Content V)) :
    topic.ahead getId view = view := by
  funext id
  rw [ahead, empty, latest_nil]
  rfl

/-- The pending contents that were there keep the timestamps that matter. -/
theorem Tracks.push {view : κ → Option (Content V)} (tracks : topic.Tracks getId view)
    (own : ∀ other, topic.Known other → other.address = content.address → other = content)
    (v : Timestamp) : (topic.push getId content v).Tracks getId view := by
  intro id
  rw [lookup_push, ahead]
  change ((latest _ id (topic.newSet ++ [content])).map _).getD _ = _
  by_cases same : objectId getId content = id
  · rw [latest_append_of_eq same, if_pos same, Option.map_some, Option.getD_some, shown,
      getTimestamp_push_self]
  · rw [latest_append_of_ne same, if_neg same, ← tracks id, ahead]
    cases found : latest (objectId getId) id topic.newSet with
    | none => rfl
    | some other =>
        obtain ⟨member, key⟩ := mem_of_latest found
        have apart : other.address ≠ content.address := fun equal => by
          rw [own other (.inl member) equal] at key
          exact same key
        rw [Option.map_some, Option.map_some, shown, shown, getTimestamp_push_of_ne apart]

theorem Tracks.prepare {view : κ → Option (Content V)} (tracks : topic.Tracks getId view)
    (sound : topic.Sound getId) (obj : V) (removeObj : Bool) :
    (topic.prepare obj removeObj).Tracks getId view := by
  intro id
  refine Eq.trans ?_ (tracks id)
  rw [ahead, ahead]
  change ((latest _ id topic.newSet).map _).getD _ = _
  cases found : latest (objectId getId) id topic.newSet with
  | none => rfl
  | some other =>
      rw [Option.map_some, Option.map_some, shown, shown,
        getTimestamp_prepare sound (.inl (mem_of_latest found).1)]

/-! ## Subscribers -/

/-- How a subscriber keeps its copy of the objects: it erases what is removed, and sets
everything else. -/
def Event.apply (getId : V → κ) (view : κ → Option (Content V)) :
    Event V → κ → Option (Content V)
  | .publish content timestamp =>
      Function.update view (objectId getId content)
        (if removed timestamp then none else some content)
  | .clearContent => fun _ => none

/-- The copy that a subscriber has after a list of events. -/
def replica (getId : V → κ) (events : List (Event V)) : κ → Option (Content V) :=
  events.foldl (Event.apply getId) fun _ => none

/-- Publishing contents leaves, for each id, what the latest of them shows. -/
theorem foldl_apply (topic : SetTopic κ V) (view : κ → Option (Content V))
    (contents : List (Content V)) (id : κ) :
    (contents.map topic.event).foldl (Event.apply getId) view id =
      ((latest (objectId getId) id contents).map topic.shown).getD (view id) := by
  rw [List.foldl_map]
  refine foldl_latest (fun state : κ → Option (Content V) => state id)
    (fun state content same => ?_) (fun state content different => ?_) view contents
  · subst same
    exact Function.update_self ..
  · exact Function.update_of_ne (Ne.symm different) ..

theorem replica_publish (topic : SetTopic κ V) (events : List (Event V)) :
    replica getId (events ++ topic.newSet.map topic.event) =
      topic.ahead getId (replica getId events) := by
  funext id
  rw [replica, List.foldl_append]
  exact foldl_apply topic _ _ id

/-- The snapshot and the copies of all subscribers are views of the objects. -/
structure Subscribed.Converging (getId : V → κ) (subscribed : Subscribed κ V) : Prop where
  sound : subscribed.topic.Sound getId
  snapKeyed : ∀ id content, subscribed.topic.snapSet.lookup id = some content →
    objectId getId content = id
  snap : subscribed.topic.Tracks getId (subscribed.topic.snapSet.lookup ·)
  first : subscribed.topic.Tracks getId (replica getId subscribed.first)
  later : ∀ events ∈ subscribed.later, subscribed.topic.Tracks getId (replica getId events)

theorem converging_start : (Subscribed.start : Subscribed κ V).Converging getId where
  sound := sound_new
  snapKeyed := nofun
  snap := fun _ => rfl
  first := fun _ => rfl
  later := nofun

/-- The topic once its pending contents have been moved. -/
def moved (getId : V → κ) (topic : SetTopic κ V) : SetTopic κ V :=
  { topic with snapSet := topic.newSet.foldl (topic.syncSnap getId) topic.snapSet, newSet := [] }

theorem lookup_snapSet_moved (topic : SetTopic κ V) (id : κ) :
    (topic.moved getId).snapSet.lookup id = topic.ahead getId (topic.snapSet.lookup ·) id := by
  refine foldl_latest (fun snapSet => AList.lookup id snapSet) (fun snapSet content same => ?_)
    (fun snapSet content different => ?_) topic.snapSet topic.newSet
  · subst same
    unfold syncSnap shown
    split
    · exact AList.lookup_erase ..
    · exact AList.lookup_insert ..
  · unfold syncSnap
    split
    · exact AList.lookup_erase_ne (Ne.symm different)
    · exact AList.lookup_insert_ne (Ne.symm different)

theorem doMove_of_empty (empty : topic.newSet = []) : topic.doMove getId = (none, topic) := by
  rw [doMove, empty]
  rfl

theorem doMove_of_ne (pending : topic.newSet ≠ []) :
    topic.doMove getId = (some topic.newSet, topic.moved getId) := by
  rw [doMove, List.isEmpty_eq_false_iff.mpr pending]
  rfl

theorem Sound.of_objects (sound : topic.Sound getId) {after : SetTopic κ V}
    (timestamp : after.timestamp = topic.timestamp) (fresh : after.fresh = topic.fresh)
    (objects : ∀ id content, after.objects.lookup id = some content →
      topic.objects.lookup id = some content)
    (newSet : ∀ content ∈ after.newSet, content ∈ topic.newSet) : after.Sound getId := by
  have known {content : Content V} (here : after.Known content) : topic.Known content :=
    here.imp (newSet content) fun ⟨id, lookup⟩ => ⟨id, objects id content lookup⟩
  constructor
  · exact fun id content lookup => sound.keyed id content (objects id content lookup)
  · intro id content lookup
    rw [getTimestamp, timestamp]
    exact sound.present id content (objects id content lookup)
  · intro content here
    rw [fresh]
    exact sound.below content (known here)
  · exact fun first second firstHere secondHere =>
      sound.single first second (known firstHere) (known secondHere)

/-- A view that took in the pending contents tracks the topic without them. -/
theorem Tracks.moved {view : κ → Option (Content V)} (tracks : topic.Tracks getId view) :
    (topic.moved getId).Tracks getId (topic.ahead getId view) := by
  intro id
  rw [ahead_of_empty rfl]
  exact tracks id

theorem snapContents_nodup
    (keyed : ∀ id content, topic.snapSet.lookup id = some content → objectId getId content = id) :
    (topic.snapContents.map (objectId getId)).Nodup := by
  have keys : topic.snapContents.map (objectId getId) = topic.snapSet.keys := by
    rw [snapContents, List.map_map]
    refine List.map_congr_left fun entry member => ?_
    exact keyed entry.1 entry.2 (AList.mem_lookup_iff.mpr member)
  rw [keys]
  exact topic.snapSet.nodupKeys

theorem mem_snapContents :
    content ∈ topic.snapContents ↔ ∃ id, topic.snapSet.lookup id = some content := by
  rw [snapContents, List.mem_map]
  constructor
  · rintro ⟨⟨id, _⟩, member, rfl⟩
    exact ⟨id, AList.mem_lookup_iff.mpr member⟩
  · rintro ⟨id, lookup⟩
    exact ⟨⟨id, content⟩, AList.mem_lookup_iff.mp lookup, rfl⟩

/-- A snapshot shows what is stored in it, in whatever order it is published. -/
theorem replica_snap
    (keyed : ∀ id content, topic.snapSet.lookup id = some content → objectId getId content = id)
    {order : List (Content V)} (perm : order.Perm topic.snapContents) (id : κ) :
    replica getId (order.map topic.event) id = (topic.snapSet.lookup id).bind topic.shown := by
  rw [replica, foldl_apply]
  have nodup : (order.map (objectId getId)).Nodup :=
    (perm.map _).nodup_iff.mpr (snapContents_nodup keyed)
  cases lookup : topic.snapSet.lookup id with
  | some content =>
      have member : content ∈ order := perm.mem_iff.mpr (mem_snapContents.mpr ⟨id, lookup⟩)
      rw [latest_of_nodup nodup member (keyed id content lookup)]
      rfl
  | none =>
      have absent : latest (objectId getId) id order = none :=
        latest_eq_none.mpr fun content member same => by
          obtain ⟨other, found⟩ := mem_snapContents.mp (perm.mem_iff.mp member)
          rw [keyed other content found] at same
          rw [same, lookup] at found
          cases found
      rw [absent]
      rfl

/-- The copy made from a snapshot tracks the topic: an id without a pending content has its
stored object in the snapshot, and that is not removed. -/
theorem Tracks.snap (tracks : topic.Tracks getId (topic.snapSet.lookup ·))
    (sound : topic.Sound getId)
    (keyed : ∀ id content, topic.snapSet.lookup id = some content → objectId getId content = id)
    {order : List (Content V)} (perm : order.Perm topic.snapContents) :
    topic.Tracks getId (replica getId (order.map topic.event)) := by
  intro id
  have tracked := tracks id
  rw [ahead] at tracked ⊢
  cases pending : latest (objectId getId) id topic.newSet with
  | some content =>
      rw [pending] at tracked
      exact tracked
  | none =>
      rw [pending] at tracked
      change topic.snapSet.lookup id = topic.objects.lookup id at tracked
      change replica getId (order.map topic.event) id = topic.objects.lookup id
      rw [replica_snap keyed perm, tracked]
      cases stored : topic.objects.lookup id with
      | none => rfl
      | some content =>
          rw [Option.bind_some, shown, sound.present id content stored]
          rfl

/-! ## Steps -/

namespace Subscribed.Converging

variable {subscribed : Subscribed κ V}

/-- A change of the topic that keeps its snapshot and every view of it. -/
theorem change (converging : subscribed.Converging getId) {after : SetTopic κ V}
    (sound : after.Sound getId) (snapSet : after.snapSet = subscribed.topic.snapSet)
    (tracks : ∀ view, subscribed.topic.Tracks getId view → after.Tracks getId view) :
    ({ subscribed with topic := after } : Subscribed κ V).Converging getId where
  sound := sound
  snapKeyed := snapSet ▸ converging.snapKeyed
  snap := tracks _ (snapSet ▸ converging.snap)
  first := tracks _ converging.first
  later := fun events member => tracks _ (converging.later events member)

theorem publishNew (converging : subscribed.Converging getId) (obj : V) (removeObj : Bool) :
    ({ subscribed with topic := subscribed.topic.publishNew getId obj removeObj } :
      Subscribed κ V).Converging getId := by
  have sound := converging.sound
  rcases publishNew_cases sound obj removeObj with same | ⟨content, v, pushed, bound, own⟩
  · rw [same]
    exact converging.change sound.prepare rfl fun view tracks => tracks.prepare sound obj removeObj
  · rw [pushed]
    exact converging.change (sound.prepare.push bound own v) rfl
      fun view tracks => (tracks.prepare sound obj removeObj).push own v

theorem remove (converging : subscribed.Converging getId) {id : κ}
    (stored : subscribed.topic.objects.lookup id = some content) :
    ({ subscribed with topic := subscribed.topic.push getId content vRemove } :
      Subscribed κ V).Converging getId := by
  have sound := converging.sound
  have known : subscribed.topic.Known content := .inr ⟨id, stored⟩
  have own : ∀ other, subscribed.topic.Known other → other.address = content.address →
      other = content := fun other otherKnown => sound.single other content otherKnown known
  exact converging.change (sound.push (sound.below content known) own vRemove) rfl
    fun view tracks => tracks.push own vRemove

theorem moved (converging : subscribed.Converging getId) :
    (subscribed.deliver (subscribed.topic.moved getId)
      (subscribed.topic.newSet.map subscribed.topic.event)).Converging getId where
  sound := converging.sound.of_objects rfl rfl (fun _ _ lookup => lookup) nofun
  snapKeyed id content lookup := by
    change (subscribed.topic.moved getId).snapSet.lookup id = some content at lookup
    rw [lookup_snapSet_moved, converging.snap id] at lookup
    exact converging.sound.keyed id content lookup
  snap := by
    have same : ((subscribed.topic.moved getId).snapSet.lookup ·) =
        subscribed.topic.ahead getId (subscribed.topic.snapSet.lookup ·) :=
      funext fun id => lookup_snapSet_moved subscribed.topic id
    change (subscribed.topic.moved getId).Tracks getId
      ((subscribed.topic.moved getId).snapSet.lookup ·)
    rw [same]
    exact converging.snap.moved
  first := by
    change (subscribed.topic.moved getId).Tracks getId (replica getId (_ ++ _))
    rw [replica_publish]
    exact converging.first.moved
  later events member := by
    obtain ⟨before, beforeMember, rfl⟩ := List.mem_map.mp member
    rw [replica_publish]
    exact (converging.later before beforeMember).moved

theorem clear (converging : subscribed.Converging getId) :
    (subscribed.deliver subscribed.topic.doClear [.clearContent]).Converging getId where
  sound := converging.sound.of_objects rfl rfl nofun nofun
  snapKeyed := nofun
  snap := fun _ => rfl
  first id := by
    rw [ahead_of_empty rfl]
    change replica getId (_ ++ _) id = none
    rw [replica, List.foldl_append]
    rfl
  later events member id := by
    obtain ⟨before, _, rfl⟩ := List.mem_map.mp member
    rw [ahead_of_empty rfl, replica, List.foldl_append]
    rfl

theorem snapshot (converging : subscribed.Converging getId) {order : List (Content V)}
    (perm : order.Perm subscribed.topic.snapContents) :
    ({ subscribed with later := order.map subscribed.topic.event :: subscribed.later } :
      Subscribed κ V).Converging getId where
  sound := converging.sound
  snapKeyed := converging.snapKeyed
  snap := converging.snap
  first := converging.first
  later events member := by
    rcases List.mem_cons.mp member with rfl | before
    · exact converging.snap.snap converging.sound converging.snapKeyed perm
    · exact converging.later events before

end Subscribed.Converging

variable [DecidableEq V] {subscribed : Subscribed κ V}

/-- The system goes on converging, unless the step leaves the defined behaviour. -/
theorem Subscribed.Converging.step (converging : subscribed.Converging getId)
    (operation : Operation κ V) {after : Subscribed κ V}
    (stepped : SetTopic.step getId subscribed operation = .ok after) :
    after.Converging getId := by
  cases operation with
  | publishNew obj removeObj =>
      cases stepped
      exact converging.publishNew obj removeObj
  | remove id =>
      cases stored : subscribed.topic.objects.lookup id with
      | none =>
          rw [SetTopic.step, remove_absent stored] at stepped
          cases stepped
      | some content =>
          rw [SetTopic.step, remove_eq converging.sound stored] at stepped
          cases stepped
          exact converging.remove stored
  | doMove =>
      by_cases pending : subscribed.topic.newSet = []
      · rw [SetTopic.step, doMove_of_empty pending] at stepped
        cases stepped
        exact converging
      · rw [SetTopic.step, doMove_of_ne pending] at stepped
        cases stepped
        exact converging.moved
  | doClear =>
      cases stepped
      exact converging.clear
  | doSnap order =>
      rw [SetTopic.step] at stepped
      split at stepped
      next perm =>
        cases stepped
        exact converging.snapshot perm
      next =>
        cases stepped
        exact converging

theorem Subscribed.Converging.snapSet_of_doMove (converging : subscribed.Converging getId)
    {after : Subscribed κ V} (stepped : SetTopic.step getId subscribed .doMove = .ok after)
    (id : κ) : after.topic.snapSet.lookup id = subscribed.topic.objects.lookup id := by
  by_cases pending : subscribed.topic.newSet = []
  · rw [SetTopic.step, doMove_of_empty pending] at stepped
    cases stepped
    rw [← converging.snap id, ahead_of_empty pending]
  · rw [SetTopic.step, doMove_of_ne pending] at stepped
    cases stepped
    exact (lookup_snapSet_moved subscribed.topic id).trans (converging.snap id)

/-- Every subscriber, from the start or from a snapshot, has the objects of the topic when
nothing is pending. -/
def Converged (getId : V → κ) (state : Outcome Empty (Subscribed κ V)) : Prop :=
  ∀ subscribed, state = .ok subscribed → subscribed.topic.newSet = [] →
    ∀ events ∈ subscribed.first :: subscribed.later, ∀ id,
      replica getId events id = subscribed.topic.objects.lookup id

/-- A `do_move` leaves in the snapshot what is in the objects. -/
def MovesToObjects (getId : V → κ) (state : Outcome Empty (Subscribed κ V))
    (operation : Operation κ V) : Prop :=
  operation = .doMove → ∀ before after, state = .ok before →
    turn getId state operation = .ok after →
    ∀ id, after.topic.snapSet.lookup id = before.topic.objects.lookup id

/-- **The replicas of a set topic converge.** In every run of contents published and removed,
moved, cleared and published as a snapshot, with every removed id present: after a move the
snapshot is the objects, and whenever nothing is pending the copy of every subscriber is. -/
theorem replicas_converge (getId : V → κ) (operations : List (Operation κ V)) :
    Run.Always (turn getId) (Converged getId) (MovesToObjects getId) (.ok .start) operations := by
  refine Run.always_of_steps
    (fun state => ∀ subscribed, state = .ok subscribed → subscribed.Converging getId)
    (fun state invariant subscribed reached empty events member id => ?_)
    (fun state operation invariant _ => ⟨fun moves before after reached stepped id => ?_,
      fun after stepped => ?_⟩)
    (fun _ same => by cases same; exact converging_start)
    (Run.steps_of_forall (fun _ _ _ => trivial) _)
  · have converging := invariant subscribed reached
    have tracks : subscribed.topic.Tracks getId (replica getId events) := by
      rcases List.mem_cons.mp member with rfl | snapshot
      · exact converging.first
      · exact converging.later events snapshot
    rw [← tracks id, ahead_of_empty empty]
  · subst moves reached
    exact (invariant before rfl).snapSet_of_doMove stepped id
  · obtain ⟨before, reached, stepped⟩ := Outcome.bind_eq_ok.mp stepped
    exact (invariant before reached).step operation stepped

/-- Object 1 with value 10 is published, moved, removed and published again with value 20 while
the removal is pending; a subscriber starts from the snapshot in between. -/
example :
    let run := Run.final (turn Prod.fst) (.ok (Subscribed.start : Subscribed Nat (Nat × Nat)))
      [.publishNew (1, 10) false, .doMove, .remove 1, .doSnap [⟨0, (1, 10)⟩],
        .publishNew (1, 20) false, .doMove]
    (run >>= fun subscribed => Outcome.ok (subscribed.later.map (replica Prod.fst · 1))) =
      .ok [some ⟨1, (1, 20)⟩] := by decide

end Cube.Eco.Thread.SetTopic
