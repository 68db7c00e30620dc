import Cube.Eco.Thread.SetTopicReplicas

/-! # The events of a set topic

Contents are queued with the timestamps that the grammar of their events asks for: an object
is inserted, updated and removed, and then it can be inserted again. They are published with
the timestamps they have when they are moved, and removing an object overwrites the timestamp
of a content that may still be pending as inserted or updated.
-/

namespace Cube.Eco.Thread.SetTopic

open Timestamp

variable {κ V : Type} [DecidableEq κ] {getId : V → κ} {topic : SetTopic κ V}
  {content : Content V} {v : Timestamp} {log : List (Event V)} {id : κ}

/-! ## The grammar of events -/

/-- One event with timestamp insert, then updates, then one with timestamp remove. -/
def Life (timestamps : List Timestamp) : Prop :=
  ∃ updates, timestamps = vInsert :: List.replicate updates vUpdate ++ [vRemove]

/-- The timestamp of an event that is one of the id. -/
def timestampOf (getId : V → κ) (id : κ) : Event V → Option Timestamp
  | .publish content timestamp => if objectId getId content = id then some timestamp else none
  | .clearContent => none

/-- The timestamps of the events of an id. -/
def timestampsOf (getId : V → κ) (id : κ) (events : List (Event V)) : List Timestamp :=
  events.filterMap (timestampOf getId id)

/-- An event that the subscriber can make sense of: what is inserted is not there yet, and what
is updated or removed is. -/
def Apt (getId : V → κ) (view : κ → Option (Content V)) (content : Content V)
    (v : Timestamp) : Prop :=
  v = vInsert ∧ view (objectId getId content) = none ∨
    (v = vUpdate ∨ v = vRemove) ∧ (view (objectId getId content)).isSome = true

/-- The events of each id follow the grammar, every event is apt when it arrives, and none
arrives twice. -/
structure WellFormed (getId : V → κ) (events : List (Event V)) : Prop where
  grammar : ∀ id, ∃ lives : List (List Timestamp), (∀ life ∈ lives, Life life) ∧
    timestampsOf getId id events <+: lives.flatten
  apt : ∀ before content v after, events = before ++ .publish content v :: after →
    Apt getId (replica getId before) content v
  once : events.Nodup

/-- Every event was apt when it arrived. -/
inductive Lawful (getId : V → κ) : List (Event V) → Prop where
  | nil : Lawful getId []
  | publish {log : List (Event V)} (lawful : Lawful getId log) (content : Content V)
      (v : Timestamp) (apt : Apt getId (replica getId log) content v) :
      Lawful getId (log ++ [.publish content v])

/-- Some lives, and one that has not ended if the object is there. -/
def Unfinished (alive : Bool) (timestamps : List Timestamp) : Prop :=
  ∃ lives : List (List Timestamp), (∀ life ∈ lives, Life life) ∧
    if alive then ∃ updates, timestamps = lives.flatten ++ vInsert :: List.replicate updates vUpdate
    else timestamps = lives.flatten

theorem Unfinished.insert {timestamps : List Timestamp} (dead : Unfinished false timestamps) :
    Unfinished true (timestamps ++ [vInsert]) := by
  obtain ⟨lives, all, rfl⟩ := dead
  exact ⟨lives, all, 0, rfl⟩

theorem Unfinished.update {timestamps : List Timestamp} (alive : Unfinished true timestamps) :
    Unfinished true (timestamps ++ [vUpdate]) := by
  obtain ⟨lives, all, updates, rfl⟩ := alive
  refine ⟨lives, all, updates + 1, ?_⟩
  rw [List.append_assoc, List.cons_append, List.replicate_succ']

theorem Unfinished.remove {timestamps : List Timestamp} (alive : Unfinished true timestamps) :
    Unfinished false (timestamps ++ [vRemove]) := by
  obtain ⟨lives, all, updates, rfl⟩ := alive
  refine ⟨lives ++ [vInsert :: List.replicate updates vUpdate ++ [vRemove]], ?_, ?_⟩
  · intro life member
    rcases List.mem_append.mp member with before | last
    · exact all life before
    · exact ⟨updates, List.mem_singleton.mp last⟩
  · rw [if_neg Bool.false_ne_true, List.flatten_append, List.append_assoc, List.flatten_singleton]

/-- An unfinished sequence of lives begins a finished one. -/
theorem Unfinished.grammar {alive : Bool} {timestamps : List Timestamp}
    (unfinished : Unfinished alive timestamps) :
    ∃ lives : List (List Timestamp), (∀ life ∈ lives, Life life) ∧
      timestamps <+: lives.flatten := by
  cases alive with
  | false =>
      obtain ⟨lives, all, rfl⟩ := unfinished
      exact ⟨lives, all, List.prefix_rfl⟩
  | true =>
      obtain ⟨lives, all, whole⟩ := unfinished.remove
      exact ⟨lives, all, whole ▸ List.prefix_append _ _⟩

theorem timestampsOf_append_self (log : List (Event V)) :
    timestampsOf getId (objectId getId content) (log ++ [.publish content v]) =
      timestampsOf getId (objectId getId content) log ++ [v] := by
  have own : timestampOf getId (objectId getId content) (.publish content v) = some v := if_pos rfl
  rw [timestampsOf, List.filterMap_append, List.filterMap_cons_some own]
  rfl

theorem timestampsOf_append_of_ne (different : objectId getId content ≠ id)
    (log : List (Event V)) :
    timestampsOf getId id (log ++ [.publish content v]) = timestampsOf getId id log := by
  have other : timestampOf getId id (.publish content v) = none := if_neg different
  rw [timestampsOf, List.filterMap_append, List.filterMap_cons_none other, List.filterMap_nil,
    List.append_nil, timestampsOf]

theorem replica_append (log : List (Event V)) (content : Content V) (v : Timestamp) :
    replica getId (log ++ [.publish content v]) =
      Function.update (replica getId log) (objectId getId content)
        (if removed v then none else some content) := by
  rw [replica, List.foldl_append]
  rfl

/-- Apt events follow the grammar, and an object is there while its life has not ended. -/
theorem Lawful.unfinished (lawful : Lawful getId log) (id : κ) :
    Unfinished (replica getId log id).isSome (timestampsOf getId id log) := by
  induction lawful with
  | nil => exact ⟨[], nofun, rfl⟩
  | publish lawful content v apt ih =>
      rw [replica_append]
      by_cases same : objectId getId content = id
      · subst same
        rw [timestampsOf_append_self, Function.update_self]
        rcases apt with ⟨rfl, absent⟩ | ⟨rfl | rfl, present⟩
        · rw [absent] at ih
          exact ih.insert
        · rw [present] at ih
          exact ih.update
        · rw [present] at ih
          exact ih.remove
      · rw [timestampsOf_append_of_ne same, Function.update_of_ne (Ne.symm same)]
        exact ih

theorem Lawful.of_append {first second : List (Event V)}
    (lawful : Lawful getId (first ++ second)) : Lawful getId first := by
  induction second using List.reverseRecOn with
  | nil => rwa [List.append_nil] at lawful
  | append_singleton second last ih =>
      apply ih
      rw [← List.append_assoc] at lawful
      generalize whole : first ++ second ++ [last] = log at lawful
      cases lawful with
      | nil => exact absurd whole (List.append_ne_nil_of_right_ne_nil _ (List.cons_ne_nil _ _))
      | publish lawful content v _ =>
          rw [(List.append_inj' whole rfl).1]
          exact lawful

/-- Lawful events that differ are well formed. -/
theorem Lawful.wellFormed (lawful : Lawful getId log) (once : log.Nodup) :
    WellFormed getId log where
  grammar id := (lawful.unfinished id).grammar
  apt := by
    rintro before content v after rfl
    have here : Lawful getId (before ++ [.publish content v]) := by
      rw [List.append_cons] at lawful
      exact lawful.of_append
    generalize whole : before ++ [Event.publish content v] = log at here
    cases here with
    | nil => exact absurd whole (List.append_ne_nil_of_right_ne_nil _ (List.cons_ne_nil _ _))
    | publish lawful other w apt =>
        obtain ⟨rfl, same⟩ := List.append_inj' whole rfl
        cases same
        exact apt
  once := once

/-! ## The events that are queued -/

/-- The events as they were queued, published or pending, agree with the objects. -/
structure Records (getId : V → κ) (topic : SetTopic κ V) (log : List (Event V)) : Prop where
  lawful : Lawful getId log
  objects : ∀ id, replica getId log id = topic.objects.lookup id
  once : log.Nodup
  below : ∀ content v, .publish content v ∈ log → content.address < topic.fresh
  unremoved : ∀ id content, topic.objects.lookup id = some content →
    .publish content vRemove ∉ log

/-- The pending contents and the timestamps they were queued with. While no content is pending
twice they still have them. -/
structure Queued (topic : SetTopic κ V) (queued : List (Content V × Timestamp)) : Prop where
  contents : queued.map Prod.fst = topic.newSet
  timestamps : topic.newSet.Nodup → ∀ entry ∈ queued, topic.getTimestamp entry.1 = entry.2

/-- The events of a queue. -/
def events (queued : List (Content V × Timestamp)) : List (Event V) :=
  queued.map fun entry => .publish entry.1 entry.2

theorem events_append (queued : List (Content V × Timestamp)) (content : Content V)
    (v : Timestamp) : events (queued ++ [(content, v)]) = events queued ++ [.publish content v] := by
  rw [events, List.map_append]
  rfl

theorem Queued.push {queued : List (Content V × Timestamp)} (queues : topic.Queued queued)
    (own : ∀ other, topic.Known other → other.address = content.address → other = content)
    (v : Timestamp) : (topic.push getId content v).Queued (queued ++ [(content, v)]) where
  contents := by
    rw [List.map_append, queues.contents]
    rfl
  timestamps nodup entry member := by
    have split : (topic.newSet ++ [content]).Nodup := nodup
    rw [List.nodup_append] at split
    rcases List.mem_append.mp member with before | last
    · have pending : entry.1 ∈ topic.newSet :=
        queues.contents ▸ List.mem_map.mpr ⟨entry, before, rfl⟩
      have apart : entry.1.address ≠ content.address := fun same =>
        split.2.2 _ pending content List.mem_cons_self (own _ (.inl pending) same)
      rw [getTimestamp_push_of_ne apart]
      exact queues.timestamps split.1 entry before
    · rw [List.mem_singleton.mp last]
      exact getTimestamp_push_self

theorem Queued.prepare {queued : List (Content V × Timestamp)} (queues : topic.Queued queued)
    (sound : topic.Sound getId) (obj : V) (removeObj : Bool) :
    (topic.prepare obj removeObj).Queued queued where
  contents := queues.contents
  timestamps nodup entry member := by
    have pending : entry.1 ∈ topic.newSet :=
      queues.contents ▸ List.mem_map.mpr ⟨entry, member, rfl⟩
    rw [getTimestamp_prepare sound (.inl pending)]
    exact queues.timestamps nodup entry member

theorem Records.prepare (records : topic.Records getId log) (obj : V) (removeObj : Bool) :
    (topic.prepare obj removeObj).Records getId log where
  lawful := records.lawful
  objects := records.objects
  once := records.once
  below content v member := Nat.lt_succ_of_lt (records.below content v member)
  unremoved := records.unremoved

/-- A content is queued with a timestamp that is apt for the objects. -/
theorem Records.push (records : topic.Records getId log) (sound : topic.Sound getId)
    (bound : content.address < topic.fresh)
    (apt : Apt getId (topic.objects.lookup ·) content v)
    (new : .publish content v ∉ log)
    (unremoved : v ≠ vRemove → .publish content vRemove ∉ log) :
    (topic.push getId content v).Records getId (log ++ [.publish content v]) where
  lawful := by
    apply records.lawful.publish
    rw [show replica getId log = (topic.objects.lookup ·) from funext records.objects]
    exact apt
  objects id := by
    rw [replica_append, lookup_push]
    by_cases same : objectId getId content = id
    · rw [if_pos same, same, Function.update_self]
    · rw [if_neg same, Function.update_of_ne (Ne.symm same)]
      exact records.objects id
  once := by
    refine List.nodup_append.mpr ⟨records.once, List.nodup_singleton _, ?_⟩
    rintro event member _ last rfl
    rw [List.mem_singleton.mp last] at member
    exact new member
  below other w member := by
    rcases List.mem_append.mp member with before | last
    · exact records.below other w before
    · cases List.mem_singleton.mp last
      exact bound
  unremoved id other lookup member := by
    rw [lookup_push] at lookup
    split at lookup
    next same =>
      cases mark : removed v with
      | true =>
          rw [mark] at lookup
          cases lookup
      | false =>
          have kept : v ≠ vRemove := fun isRemove => by
            rw [isRemove] at mark
            cases mark
          rw [mark] at lookup
          cases lookup
          rcases List.mem_append.mp member with before | last
          · exact unremoved kept before
          · cases List.mem_singleton.mp last
            exact kept rfl
    next different =>
      rcases List.mem_append.mp member with before | last
      · exact records.unremoved id other lookup before
      · cases List.mem_singleton.mp last
        exact different (sound.keyed id _ lookup)

/-- What was published and what is pending are the events as they were queued. -/
def Recorded (getId : V → κ) (topic : SetTopic κ V) (first : List (Event V)) : Prop :=
  ∃ queued, topic.Queued queued ∧ topic.Records getId (first ++ events queued)

variable {first : List (Event V)}

theorem recorded_push {queued : List (Content V × Timestamp)} (queues : topic.Queued queued)
    (records : topic.Records getId (first ++ events queued)) (sound : topic.Sound getId)
    (bound : content.address < topic.fresh)
    (own : ∀ other, topic.Known other → other.address = content.address → other = content)
    (apt : Apt getId (topic.objects.lookup ·) content v)
    (new : .publish content v ∉ first ++ events queued)
    (unremoved : v ≠ vRemove → .publish content vRemove ∉ first ++ events queued) :
    (topic.push getId content v).Recorded getId first := by
  refine ⟨queued ++ [(content, v)], queues.push own v, ?_⟩
  rw [events_append, ← List.append_assoc]
  exact records.push sound bound apt new unremoved

/-- Taking out a stored content is recorded as its removal. -/
theorem Recorded.remove (recorded : topic.Recorded getId first) (sound : topic.Sound getId)
    (stored : topic.objects.lookup id = some content) :
    (topic.push getId content vRemove).Recorded getId first := by
  obtain ⟨queued, queues, records⟩ := recorded
  have known : topic.Known content := .inr ⟨id, stored⟩
  apply recorded_push queues records sound (sound.below content known)
    (fun other otherKnown => sound.single other content otherKnown known)
  · refine .inr ⟨.inr rfl, ?_⟩
    change (topic.objects.lookup (objectId getId content)).isSome = true
    rw [sound.keyed id content stored, stored]
    rfl
  · exact records.unremoved id content stored
  · exact fun kept => absurd rfl kept

/-- Publishing an object is recorded as its insertion, its update or its removal, or not at
all. -/
theorem Recorded.publishNew (recorded : topic.Recorded getId first) (sound : topic.Sound getId)
    (obj : V) (removeObj : Bool) : (topic.publishNew getId obj removeObj).Recorded getId first := by
  obtain ⟨queued, queues, records⟩ := recorded
  have prepared : (topic.prepare obj removeObj).Sound getId := sound.prepare
  have preparedQueues := queues.prepare sound obj removeObj
  have preparedRecords := records.prepare obj removeObj
  have own : ∀ other, (topic.prepare obj removeObj).Known other →
      other.address = (⟨topic.fresh, obj⟩ : Content V).address → other = ⟨topic.fresh, obj⟩ :=
    fun other known same => absurd same (Nat.ne_of_lt (sound.below other known))
  have new (w : Timestamp) : .publish ⟨topic.fresh, obj⟩ w ∉ first ++ events queued :=
    fun member => Nat.lt_irrefl _ (records.below _ w member)
  rw [publishNew_eq]
  rcases append_cases prepared ⟨topic.fresh, obj⟩ with
    ⟨_, _, same⟩ | ⟨found, lookup, _, pushed⟩ | ⟨found, lookup, _, pushed⟩ | ⟨absent, _, pushed⟩
  · rw [same]
    exact ⟨queued, preparedQueues, preparedRecords⟩
  · rw [pushed]
    exact Recorded.remove ⟨queued, preparedQueues, preparedRecords⟩ prepared lookup
  · rw [pushed]
    exact recorded_push preparedQueues preparedRecords prepared (Nat.lt_succ_self _) own
      (.inr ⟨.inl rfl, Option.isSome_of_mem lookup⟩) (new vUpdate) (fun _ => new vRemove)
  · rw [pushed]
    exact recorded_push preparedQueues preparedRecords prepared (Nat.lt_succ_self _) own
      (.inl ⟨rfl, absent⟩) (new vInsert) (fun _ => new vRemove)

/-- A move in which no content is pending twice publishes the events as they were queued. -/
theorem Recorded.moved (recorded : topic.Recorded getId first) (nodup : topic.newSet.Nodup) :
    (topic.moved getId).Recorded getId (first ++ topic.newSet.map topic.event) := by
  obtain ⟨queued, queues, records⟩ := recorded
  have same : topic.newSet.map topic.event = events queued := by
    rw [← queues.contents, List.map_map, events]
    refine List.map_congr_left fun entry member => ?_
    exact congrArg (Event.publish entry.1) (queues.timestamps nodup entry member)
  refine ⟨[], ⟨rfl, nofun⟩, ?_⟩
  rw [same]
  exact ⟨(List.append_nil _).symm ▸ records.lawful, (List.append_nil _).symm ▸ records.objects,
    (List.append_nil _).symm ▸ records.once, (List.append_nil _).symm ▸ records.below,
    (List.append_nil _).symm ▸ records.unremoved⟩

theorem Recorded.wellFormed (recorded : topic.Recorded getId first) : WellFormed getId first := by
  obtain ⟨queued, _, records⟩ := recorded
  exact records.lawful.of_append.wellFormed (List.nodup_append.mp records.once).1

theorem recorded_new : (new : SetTopic κ V).Recorded getId [] :=
  ⟨[], ⟨rfl, nofun⟩, .nil, fun _ => rfl, List.nodup_nil, nofun, nofun⟩

/-! ## Every run -/

variable [DecidableEq V]

/-- An operation other than `do_clear`. -/
abbrev Unclearing (κ V : Type) := { operation : Operation κ V // operation ≠ .doClear }

/-- The behaviour is defined, and what a subscriber that is working from the start has received
is well formed. -/
def Published (getId : V → κ) (state : Outcome Empty (Subscribed κ V)) : Prop :=
  ∃ subscribed, state = .ok subscribed ∧ WellFormed getId subscribed.first

/-- An id that is removed has a content, and when contents are moved none is pending twice,
that is, none was removed while its insertion or update was pending. -/
def RemovesPublished (state : Outcome Empty (Subscribed κ V)) (operation : Unclearing κ V) :
    Prop :=
  ∀ subscribed, state = .ok subscribed →
    (∀ id, operation.1 = .remove id → id ∈ subscribed.topic.objects) ∧
    (operation.1 = .doMove → subscribed.topic.newSet.Nodup)

variable {subscribed : Subscribed κ V}

theorem recorded_step (converging : subscribed.Converging getId)
    (recorded : subscribed.topic.Recorded getId subscribed.first) (operation : Unclearing κ V)
    (good : RemovesPublished (.ok subscribed) operation) :
    ∃ after, step getId subscribed operation.1 = .ok after ∧
      after.topic.Recorded getId after.first := by
  obtain ⟨operation, kept⟩ := operation
  obtain ⟨present, nodup⟩ := good subscribed rfl
  cases operation with
  | publishNew obj removeObj =>
      exact ⟨_, rfl, recorded.publishNew converging.sound obj removeObj⟩
  | remove id =>
      obtain ⟨content, stored⟩ := Option.isSome_iff_exists.mp
        (AList.lookup_isSome.mpr (present id rfl))
      refine ⟨{ subscribed with topic := subscribed.topic.push getId content vRemove }, ?_,
        recorded.remove converging.sound stored⟩
      rw [step, remove_eq converging.sound stored]
      rfl
  | doMove =>
      by_cases pending : subscribed.topic.newSet = []
      · refine ⟨subscribed, ?_, recorded⟩
        rw [step, doMove_of_empty pending]
      · refine ⟨subscribed.deliver (subscribed.topic.moved getId)
          (subscribed.topic.newSet.map subscribed.topic.event), ?_, recorded.moved (nodup rfl)⟩
        rw [step, doMove_of_ne pending]
        rfl
  | doClear => exact absurd rfl kept
  | doSnap order =>
      by_cases perm : order.Perm subscribed.topic.snapContents
      · exact ⟨_, if_pos perm, recorded⟩
      · exact ⟨_, if_neg perm, recorded⟩

/-- Removing an id without a content leaves the defined behaviour, and moving a content that is
pending twice publishes the same event twice. -/
theorem not_published_of_step (operation : Unclearing κ V)
    (bad : ¬ RemovesPublished (.ok subscribed) operation) :
    ¬ Published getId (turn getId (.ok subscribed) operation.1) := by
  rintro ⟨after, stepped, wellFormed⟩
  apply bad
  rintro _ ⟨⟩
  constructor
  · intro id isRemove
    by_contra absent
    rw [turn, isRemove, Outcome.ok_bind, step, remove_absent (AList.lookup_eq_none.mpr absent)]
      at stepped
    cases stepped
  · intro isMove
    by_cases pending : subscribed.topic.newSet = []
    · rw [pending]
      exact List.nodup_nil
    · rw [turn, isMove, Outcome.ok_bind, step, doMove_of_ne pending] at stepped
      cases stepped
      have once := wellFormed.once
      exact (List.nodup_append.mp once).2.1.of_map

/-- **The event grammar of a set topic.** A subscriber that is working from the start receives
well formed events exactly when every removed id has a content and no contents are moved while
a removal and the insertion or update of the same content are both pending. -/
theorem events_well_formed_iff (getId : V → κ) (operations : List (Unclearing κ V)) :
    Run.Always (fun state (operation : Unclearing κ V) => turn getId state operation.1)
        (Published getId) (fun _ _ => True) (.ok .start) operations ↔
      Run.Steps (fun state (operation : Unclearing κ V) => turn getId state operation.1)
        RemovesPublished (.ok .start) operations := by
  apply Run.always_iff_steps (fun state : Outcome Empty (Subscribed κ V) =>
    ∃ subscribed, state = .ok subscribed ∧ subscribed.Converging getId ∧
      subscribed.topic.Recorded getId subscribed.first)
  · rintro _ ⟨subscribed, rfl, _, recorded⟩
    exact ⟨subscribed, rfl, recorded.wellFormed⟩
  · rintro _ operation ⟨subscribed, rfl, converging, recorded⟩ good
    obtain ⟨after, stepped, recordedAfter⟩ := recorded_step converging recorded operation good
    exact ⟨trivial, after, stepped, converging.step operation.1 stepped, recordedAfter⟩
  · rintro _ operation ⟨subscribed, rfl, _, _⟩ bad both
    exact not_published_of_step operation bad both.2
  · exact ⟨.start, rfl, converging_start, recorded_new⟩

/-- Object 1 is published, and removed while its insertion is pending: the subscriber is told
twice that it was removed, and never that it was inserted. -/
def removedWhilePending : List (Unclearing Nat (Nat × Nat)) :=
  [⟨.publishNew (1, 10) false, nofun⟩, ⟨.remove 1, nofun⟩, ⟨.doMove, nofun⟩]

theorem events_not_well_formed :
    ¬ Run.Always (fun state (operation : Unclearing Nat (Nat × Nat)) =>
        turn Prod.fst state operation.1)
      (Published Prod.fst) (fun _ _ => True) (.ok .start) removedWhilePending := by
  intro always
  obtain ⟨subscribed, reached, wellFormed⟩ := always.final
  have seen : (Run.final (fun state (operation : Unclearing Nat (Nat × Nat)) =>
      turn Prod.fst state operation.1) (.ok .start) removedWhilePending >>= fun subscribed =>
        Outcome.ok subscribed.first) =
      .ok [.publish ⟨0, (1, 10)⟩ vRemove, .publish ⟨0, (1, 10)⟩ vRemove] := by decide
  rw [reached] at seen
  have once := wellFormed.once
  rw [Outcome.ok.inj seen] at once
  exact absurd once (by decide)

end Cube.Eco.Thread.SetTopic
