import Cube.Lib.Interleaving
import Cube.Eco.Thread.SetTopicReplicas

/-! # Removing an object

`TopicServer::remove` finds the content of an id under the lock, marks it without the lock and
appends it under the lock again. Other threads publish and remove in between: what was found may
not be what is stored any more.
-/

namespace Cube.Eco.Thread.SetTopic

open Interleaving Timestamp

section Threads

variable (κ V : Type)

/-- What threads ask of the topic. -/
inductive Request where
  | publishNew (obj : V) (removeObj : Bool)
  | remove (id : κ)
  | doMove
  | doClear
  deriving DecidableEq

/-- Where a thread stands. Before its append a removal has marked a content that had the timestamp
`was`. -/
inductive Place where
  | publishNew (obj : V) (removeObj : Bool)
  | find (id : κ)
  | mark (id : κ) (content : Option (Content V))
  | append (id : κ) (content : Content V) (was : Timestamp)
  | doMove
  | doClear
  deriving DecidableEq

end Threads

variable {ι κ V : Type} [DecidableEq ι] [DecidableEq κ] (getId : V → κ)

def enter : Request κ V → Place κ V
  | .publishNew obj removeObj => .publishNew obj removeObj
  | .remove id => .find id
  | .doMove => .doMove
  | .doClear => .doClear

/-- A thread goes on. One that has a null pointer to mark does not get any further. -/
def advance (topic : SetTopic κ V) : Place κ V → SetTopic κ V × Option (Place κ V)
  | .publishNew obj removeObj => (topic.publishNew getId obj removeObj, none)
  | .find id => (topic, some (.mark id (topic.find id)))
  | .mark id none => (topic, some (.mark id none))
  | .mark id (some content) =>
      (topic.stamp content vRemove, some (.append id content (topic.getTimestamp content)))
  | .append _ content _ => (topic.append getId content, none)
  | .doMove => ((topic.doMove getId).2, none)
  | .doClear => (topic.doClear, none)

/-- Any number of threads at one topic. -/
def server : Program ι (SetTopic κ V) (Request κ V) (Place κ V) Unit where
  enter _ topic request := (topic, enter request)
  advance _ topic place _ := advance getId topic place

/-! ## What a removal is to do -/

/-- No thread stands before a null pointer. -/
def NothingMissing (threads : Threads ι (SetTopic κ V) (Place κ V)) : Prop :=
  ∀ thread id, threads.running thread ≠ some (.mark id none)

/-- The removal has changed the timestamp at an address, when it marked the content that it had
found, or with its append. -/
def Changed (topic after : SetTopic κ V) (content : Content V) (was : Timestamp)
    (address : Nat) : Prop :=
  (address = content.address ∧ was ≠ vRemove) ∨
    after.timestamp address ≠ topic.timestamp address

/-- If the id is absent, nothing happens. Otherwise its content is taken out and queued as removed,
and no other content was touched. -/
def TakesOut (topic after : SetTopic κ V) (id : κ) (changed : Nat → Prop) : Prop :=
  match topic.find id with
  | none => after.objects = topic.objects ∧ after.newSet = topic.newSet
  | some stored =>
      after.find id = none ∧ after.newSet = topic.newSet ++ [stored] ∧
        after.getTimestamp stored = vRemove ∧ ∀ address, changed address → address = stored.address

/-- What is asked of the append of a removal. -/
def Appends (topic : SetTopic κ V) : Place κ V → Prop
  | .append id content was =>
      TakesOut topic (topic.append getId content) id
        (Changed topic (topic.append getId content) content was)
  | _ => True

/-- The id is there when it is looked for, and what was found is still the stored content when it
is appended, or the id is absent again, or the content had been marked before. -/
def UpToDate (topic : SetTopic κ V) : Place κ V → Prop
  | .find id => topic.find id ≠ none
  | .append id content was =>
      ∀ stored ∈ topic.find id, stored.address = content.address ∨ was = vRemove
  | _ => True

/-! ## What the steps keep -/

/-- The objects stand under their ids, and were allocated. -/
def Keyed (topic : SetTopic κ V) : Prop :=
  ∀ id, ∀ content ∈ topic.find id, objectId getId content = id ∧ content.address < topic.fresh

/-- What is marked as removed stays so. -/
structure Later (topic after : SetTopic κ V) : Prop where
  fresh : topic.fresh ≤ after.fresh
  removed : ∀ address < topic.fresh, removed (topic.timestamp address) = true →
    removed (after.timestamp address) = true

/-- A content that was found has the id, and was allocated. One that is to be appended is marked. -/
def Knows (topic : SetTopic κ V) : Place κ V → Prop
  | .mark id found =>
      ∃ content, found = some content ∧ objectId getId content = id ∧ content.address < topic.fresh
  | .append id content _ =>
      objectId getId content = id ∧ content.address < topic.fresh ∧
        removed (topic.getTimestamp content) = true
  | _ => True

def removal : Outline ι (SetTopic κ V) (Place κ V) where
  shared := Keyed getId
  running _ := Knows getId

variable {getId} {topic after : SetTopic κ V}

section Later

omit [DecidableEq κ]

theorem Later.refl (topic : SetTopic κ V) : Later topic topic :=
  ⟨Nat.le_refl _, fun _ _ marked => marked⟩

theorem Later.trans {last : SetTopic κ V} (first : Later topic after) (second : Later after last) :
    Later topic last where
  fresh := Nat.le_trans first.fresh second.fresh
  removed address allocated marked :=
    second.removed address (Nat.lt_of_lt_of_le allocated first.fresh)
      (first.removed address allocated marked)

/-- A timestamp may be overwritten if it was not marked, or is marked then. -/
theorem later_stamp (topic : SetTopic κ V) {content : Content V} {v : Timestamp}
    (kept : content.address < topic.fresh → removed (topic.getTimestamp content) = true →
      removed v = true) :
    Later topic (topic.stamp content v) where
  fresh := Nat.le_refl _
  removed address allocated marked := by
    change Timestamp.removed (Function.update topic.timestamp content.address v address) = true
    by_cases same : address = content.address
    · subst same
      rw [Function.update_self]
      exact kept allocated marked
    · rwa [Function.update_of_ne same]

/-- Whatever a thread knows is so later on. -/
theorem Knows.later (later : Later topic after) {place : Place κ V}
    (knows : Knows getId topic place) : Knows getId after place := by
  cases place with
  | publishNew | find | doMove | doClear => trivial
  | mark id found =>
      obtain ⟨content, same, keyed, allocated⟩ := knows
      exact ⟨content, same, keyed, Nat.lt_of_lt_of_le allocated later.fresh⟩
  | append id content was =>
      obtain ⟨keyed, allocated, marked⟩ := knows
      exact ⟨keyed, Nat.lt_of_lt_of_le allocated later.fresh,
        later.removed _ allocated marked⟩

end Later

/-- An append marks the stored content, or stamps its own one if that is not marked. -/
theorem later_append (topic : SetTopic κ V) (newc : Content V) :
    Later topic (topic.append getId newc) := by
  unfold append
  split
  next stored found =>
    split
    next =>
      have stamped : Later topic (topic.stamp stored vRemove) := later_stamp topic fun _ _ => rfl
      exact ⟨stamped.fresh, stamped.removed⟩
    next unmarked =>
      have stamped : Later topic (topic.stamp newc vUpdate) :=
        later_stamp topic fun _ marked => (unmarked marked).elim
      exact ⟨stamped.fresh, stamped.removed⟩
  next =>
    split
    next => exact .refl topic
    next unmarked =>
      have stamped : Later topic (topic.stamp newc vInsert) :=
        later_stamp topic fun _ marked => (unmarked marked).elim
      exact ⟨stamped.fresh, stamped.removed⟩

theorem later_publishNew (topic : SetTopic κ V) (obj : V) (removeObj : Bool) :
    Later topic (topic.publishNew getId obj removeObj) := by
  rw [publishNew_eq]
  refine .trans ?_ (later_append (topic.prepare obj removeObj) _)
  have stamped : Later topic (topic.stamp ⟨topic.fresh, obj⟩
      (if removeObj then vRemove else vInsert)) :=
    later_stamp topic fun allocated => (Nat.lt_irrefl _ allocated).elim
  exact ⟨Nat.le_succ _, stamped.removed⟩

theorem fresh_append (topic : SetTopic κ V) (newc : Content V) :
    (topic.append getId newc).fresh = topic.fresh := by
  unfold append
  split <;> split <;> rfl

theorem Keyed.append (keyed : Keyed getId topic) {newc : Content V}
    (allocated : newc.address < topic.fresh) : Keyed getId (topic.append getId newc) := by
  have inserted {objects : AList fun _ : κ => Content V}
      (same : objects = topic.objects.insert (objectId getId newc) newc) (id : κ) :
      ∀ content ∈ objects.lookup id, objectId getId content = id ∧ content.address < topic.fresh := by
    subst same
    intro content found
    by_cases own : id = objectId getId newc
    · subst own
      rw [AList.lookup_insert] at found
      obtain rfl := Option.some.inj found
      exact ⟨rfl, allocated⟩
    · rw [AList.lookup_insert_ne own] at found
      exact keyed id content found
  intro id content found
  rw [fresh_append]
  rw [find] at found
  unfold SetTopic.append at found
  split at found
  next stored here =>
    split at found
    next =>
      by_cases own : id = objectId getId newc
      · subst own
        rw [AList.lookup_erase] at found
        cases found
      · rw [AList.lookup_erase_ne own] at found
        exact keyed id content found
    next => exact inserted rfl id content found
  next =>
    split at found
    next => exact keyed id content found
    next => exact inserted rfl id content found

/-! ## What a removal appends -/

/-- The append of a removal is right exactly if no other content was marked. -/
theorem appends_iff {id : κ} {content : Content V} {was : Timestamp}
    (knows : Knows getId topic (.append id content was)) :
    Appends getId topic (.append id content was) ↔ UpToDate topic (.append id content was) := by
  obtain ⟨keyed, _, marked⟩ := knows
  simp only [Appends, UpToDate, TakesOut]
  cases found : topic.find id with
  | none =>
      have ignored : topic.append getId content = topic := by
        rw [append, keyed, ← find, found]
        exact if_pos marked
      refine iff_of_true ?_ (by rintro _ ⟨⟩)
      rw [ignored]
      exact ⟨rfl, rfl⟩
  | some stored =>
      have taken : topic.append getId content =
          { topic.stamp stored vRemove with
            newSet := topic.newSet ++ [stored]
            objects := topic.objects.erase id } := by
        rw [append, keyed, ← find, found]
        exact if_pos marked
      rw [taken]
      constructor
      · rintro ⟨_, _, _, only⟩ _ ⟨⟩
        by_cases before : was = vRemove
        · exact .inr before
        · exact .inl (only content.address (.inl ⟨rfl, before⟩)).symm
      · intro upToDate
        refine ⟨AList.lookup_erase .., rfl, Function.update_self .., ?_⟩
        rintro address (⟨rfl, unmarked⟩ | differs)
        · exact ((upToDate stored rfl).resolve_right unmarked).symm
        · by_contra other
          exact differs (Function.update_of_ne other ..)

/-! ## Runs -/

omit [DecidableEq ι] in
/-- What an advance keeps, if a removal that looks for its id finds it. -/
theorem removal_advance (thread : ι) (keyed : Keyed getId topic) {place : Place κ V}
    (knows : Knows getId topic place) (upToDate : UpToDate topic place) :
    (removal getId).Keeps thread topic (advance getId topic place) := by
  have stays {after : SetTopic κ V} {next : Option (Place κ V)} (later : Later topic after)
      (kept : Keyed getId after) (own : ∀ place, next = some place → Knows getId after place) :
      (removal getId).Keeps thread topic (after, next) :=
    ⟨kept, own, fun _ _ _ known => Knows.later later known⟩
  cases place with
  | publishNew obj removeObj =>
      have kept : Keyed getId (topic.publishNew getId obj removeObj) := by
        rw [publishNew_eq]
        refine Keyed.append ?_ (Nat.lt_succ_self _)
        intro id content found
        obtain ⟨same, allocated⟩ := keyed id content found
        exact ⟨same, Nat.lt_succ_of_lt allocated⟩
      exact stays (later_publishNew topic obj removeObj) kept nofun
  | find id =>
      refine stays (.refl topic) keyed ?_
      rintro _ ⟨⟩
      obtain ⟨content, found⟩ := Option.ne_none_iff_exists'.mp upToDate
      exact ⟨content, found, keyed id content found⟩
  | mark id found =>
      obtain ⟨content, rfl, same, allocated⟩ := knows
      have later : Later topic (topic.stamp content vRemove) := later_stamp topic fun _ _ => rfl
      refine stays later keyed ?_
      rintro _ ⟨⟩
      refine ⟨same, allocated, ?_⟩
      change removed (Function.update topic.timestamp content.address vRemove content.address) = true
      rw [Function.update_self, removed_vRemove]
  | append id content was =>
      exact stays (later_append topic content) (keyed.append knows.2.1) nofun
  | doMove =>
      refine stays ?_ ?_ nofun
      · unfold doMove
        split
        next => exact .refl topic
        next => exact ⟨Nat.le_refl _, fun _ _ marked => marked⟩
      · unfold doMove
        split
        next => exact keyed
        next => exact keyed
  | doClear =>
      refine stays ⟨Nat.le_refl _, fun _ _ marked => marked⟩ ?_ nofun
      intro id content found
      cases found

variable (getId)

/-- **Removals.** In every run of any number of threads, no removal dereferences a null pointer and
the appends of all removals are right if and only if every removal finds its id, and the content
that it found is still the stored one, or has been marked before, when it is appended, unless the
id is absent then. -/
theorem removes_iff (run : List (Choice ι (Request κ V) Unit)) :
    Run.Always (server getId).step NothingMissing (Meets (Appends getId))
        (Threads.idle new) run ↔
      Run.Steps (server getId).step (Meets UpToDate) (Threads.idle new) run := by
  have keyed : Keyed getId (new : SetTopic κ V) := nofun
  refine Run.always_iff_steps (removal getId).Holds ?_ ?_ ?_ (.idle keyed) run
  · intro threads holds thread id missing
    obtain ⟨_, found, _⟩ := holds.running thread _ missing
    cases found
  · intro threads choice holds meets
    constructor
    · intro thread input place chosen running
      have knows := holds.running thread place running
      have upToDate := meets thread input place chosen running
      cases place with
      | publishNew | find | mark | doMove | doClear => trivial
      | append id content was => exact (appends_iff knows).mpr upToDate
    · refine holds.step ?_ ?_
      · intro thread request _ _
        refine ⟨holds.shared, ?_, fun _ _ _ known => known⟩
        rintro _ ⟨⟩
        cases request <;> trivial
      · intro thread input place chosen running knows
        exact removal_advance thread holds.shared knows (meets thread input place chosen running)
  · rintro threads choice holds notMet ⟨appended, nothing⟩
    refine notMet fun thread input place chosen running => ?_
    have knows := holds.running thread place running
    cases place with
    | publishNew | mark | doMove | doClear => trivial
    | find id =>
        intro absent
        subst chosen
        refine nothing thread id ?_
        rw [Program.step_advance running, Threads.move_running_self]
        change some (Place.mark id (threads.shared.find id)) = _
        rw [absent]
    | append id content was =>
        exact (appends_iff knows).mp (appended thread input _ chosen running)

/-- An id that was never published is removed. -/
theorem null_dereferenced :
    ¬ Run.Always
      (server fun obj => obj : Program Nat _ (Request Nat Nat) _ Unit).step NothingMissing
      (Meets (Appends fun obj => obj)) (Threads.idle new)
      [.call 0 (.remove 1), .advance 0 ()] := fun always => always.final 0 1 rfl

end Cube.Eco.Thread.SetTopic
