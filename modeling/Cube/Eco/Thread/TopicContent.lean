import Mathlib.Data.List.Sublists
import Cube.Eco.Thread.SetTopic

/-! # The contents of topics

A kind of topic settles what becomes of the contents that are appended to it: what is moved and
published to those who subscribed, and what is published to a subscriber that comes late.
-/

namespace Cube.Eco.Thread

/-- The virtual functions of `TopicT`, for contents `C` and what may be appended, `A`: `doSnap`
gives what it publishes, and `doMove` the new set, if it returns true. -/
structure TopicT (K A C : Type) where
  make : K
  append : K → A → K
  doSnap : K → List C × K
  doMove : K → Option (List C) × K

namespace TopicT

variable {K A C : Type}

/-- What a kind of topic keeps to: its contents are explained by what was appended to it and by
what was moved, a late subscriber gets a summary of what was moved, and everything pending is
moved at once. -/
structure Contract (topic : TopicT K A C) where
  snapOf : List C → List C
  Explains : List A → List C → K → Prop
  make : Explains [] [] topic.make
  make_doMove : (topic.doMove topic.make).1 = none
  append : ∀ {appended moved contents} content, Explains appended moved contents →
    Explains (appended ++ [content]) moved (topic.append contents content)
  doSnap : ∀ {appended moved contents}, Explains appended moved contents →
    (topic.doSnap contents).1 = snapOf moved ∧ Explains appended moved (topic.doSnap contents).2
  doSnap_doMove : ∀ contents,
    (topic.doMove (topic.doSnap contents).2).1 = (topic.doMove contents).1
  doMove_none : ∀ {contents}, (topic.doMove contents).1 = none →
    (topic.doMove contents).2 = contents
  doMove_some : ∀ {appended moved contents newSet}, Explains appended moved contents →
    (topic.doMove contents).1 = some newSet →
      Explains appended (moved ++ newSet) (topic.doMove contents).2
  doMove_again : ∀ contents, (topic.doMove (topic.doMove contents).2).1 = none

end TopicT

/-! ## Topics that keep everything -/

structure SeqTopic (C : Type) where
  snapSet : List C
  newSet : List C

namespace SeqTopic

variable {C : Type}

def make : SeqTopic C := ⟨[], []⟩

section Operations

variable (topic : SeqTopic C)

def append (content : C) : SeqTopic C := { topic with newSet := topic.newSet ++ [content] }

def doSnap : List C × SeqTopic C := (topic.snapSet, topic)

def doMove : Option (List C) × SeqTopic C :=
  if topic.newSet.isEmpty then (none, topic)
  else (some topic.newSet, ⟨topic.snapSet ++ topic.newSet, []⟩)

end Operations

def topicT : TopicT (SeqTopic C) C C := ⟨make, append, doSnap, doMove⟩

/-- Everything appended is either moved, and then in the snapshot, or pending. -/
structure Explains (appended moved : List C) (topic : SeqTopic C) : Prop where
  appended : appended = moved ++ topic.newSet
  snapSet : topic.snapSet = moved

theorem doMove_of_nonempty {topic : SeqTopic C} (some : topic.newSet ≠ []) :
    topic.doMove = (.some topic.newSet, ⟨topic.snapSet ++ topic.newSet, []⟩) :=
  if_neg fun isEmpty => some (List.isEmpty_iff.mp isEmpty)

theorem doMove_of_empty {topic : SeqTopic C} (empty : topic.newSet = []) :
    topic.doMove = (none, topic) := if_pos (List.isEmpty_iff.mpr empty)

/-- A sequence topic publishes to a late subscriber everything that was moved. -/
def contract : (topicT (C := C)).Contract where
  snapOf := id
  Explains := Explains
  make := ⟨rfl, rfl⟩
  make_doMove := rfl
  append content explains := by
    refine ⟨?_, explains.snapSet⟩
    rw [explains.appended, List.append_assoc]
    rfl
  doSnap explains := ⟨explains.snapSet, explains⟩
  doSnap_doMove _ := rfl
  doMove_none {topic} none := by
    by_cases empty : topic.newSet = []
    · exact congrArg Prod.snd (doMove_of_empty empty)
    · exact nomatch none.symm.trans (congrArg Prod.fst (doMove_of_nonempty empty))
  doMove_some {_ moved topic newSet} explains some := by
    by_cases empty : topic.newSet = []
    · exact nomatch some.symm.trans (congrArg Prod.fst (doMove_of_empty empty))
    · have step := doMove_of_nonempty empty
      have same := Option.some.inj (some.symm.trans (congrArg Prod.fst step))
      change Explains _ _ topic.doMove.2
      rw [step, same]
      refine ⟨?_, ?_⟩
      · rw [explains.appended, List.append_nil]
      · change topic.snapSet ++ topic.newSet = moved ++ topic.newSet
        rw [explains.snapSet]
  doMove_again topic := by
    by_cases empty : topic.newSet = []
    · change topic.doMove.2.doMove.1 = none
      rw [doMove_of_empty empty, doMove_of_empty empty]
    · change topic.doMove.2.doMove.1 = none
      rw [doMove_of_nonempty empty]
      rfl

/-- Once nothing is pending, everything that was appended has been moved. -/
theorem Explains.settled {appended moved : List C} {topic : SeqTopic C}
    (explains : Explains appended moved topic) (none : topic.doMove.1 = none) :
    moved = appended := by
  by_cases empty : topic.newSet = []
  · rw [explains.appended, empty, List.append_nil]
  · rw [doMove_of_nonempty empty] at none
    cases none

end SeqTopic

/-! ## Topics that keep the latest content -/

/-- The latest content moved and the latest one appended and not moved, with the memory of
their timestamps. -/
structure OneTopic (V : Type) where
  timestamp : Nat → Timestamp
  snap : Option (Content V)
  new : Option (Content V)

namespace OneTopic

variable {V : Type}

def make : OneTopic V := ⟨fun _ => Timestamp.vInsert, none, none⟩

section Operations

variable (topic : OneTopic V)

def append : Option (Content V) → OneTopic V
  | some content => { topic with new := some content }
  | none => topic

/-- The timestamp of the snapshot is cleared before it is published. -/
def doSnap : List (Content V) × OneTopic V :=
  match topic.snap with
  | some content =>
      ([content],
        { topic with
          timestamp := Function.update topic.timestamp content.address
            (Timestamp.clear (topic.timestamp content.address)) })
  | none => ([], topic)

def doMove : Option (List (Content V)) × OneTopic V :=
  match topic.new with
  | some content => (some [content], { topic with snap := some content, new := none })
  | none => (none, topic)

end Operations

def topicT : TopicT (OneTopic V) (Option (Content V)) (Content V) :=
  ⟨make, append, doSnap, doMove⟩

/-- What was moved and what is pending are contents that were appended, in this order and up to
the latest one. -/
structure Explains (appended : List (Option (Content V))) (moved : List (Content V))
    (topic : OneTopic V) : Prop where
  sublist : (moved ++ topic.new.toList).Sublist (appended.filterMap id)
  latest : (moved ++ topic.new.toList).getLast? = (appended.filterMap id).getLast?
  snap : topic.snap = moved.getLast?

theorem doSnap_eq (topic : OneTopic V) :
    topic.doSnap.1 = topic.snap.toList ∧ topic.doSnap.2.snap = topic.snap ∧
      topic.doSnap.2.new = topic.new := by
  rw [doSnap]
  split
  · refine ⟨?_, rfl, rfl⟩
    rw [‹topic.snap = _›]
    rfl
  · refine ⟨?_, rfl, rfl⟩
    rw [‹topic.snap = _›]
    rfl

theorem doMove_of_new {topic : OneTopic V} {content : Content V} (new : topic.new = some content) :
    topic.doMove = (some [content], { topic with snap := some content, new := none }) := by
  simp only [doMove, new]

theorem doMove_of_none {topic : OneTopic V} (none : topic.new = none) :
    topic.doMove = (.none, topic) := by
  simp only [doMove, none]

theorem Explains.append {appended : List (Option (Content V))} {moved : List (Content V)}
    {topic : OneTopic V} (explains : Explains appended moved topic)
    (content : Option (Content V)) :
    Explains (appended ++ [content]) moved (topic.append content) := by
  cases content with
  | none =>
      have same : (appended ++ [none]).filterMap id = appended.filterMap id := by
        rw [List.filterMap_append, List.filterMap_cons_none rfl, List.filterMap_nil,
          List.append_nil]
      refine ⟨?_, ?_, explains.snap⟩
      · rw [same]
        exact explains.sublist
      · rw [same]
        exact explains.latest
  | some content =>
      have same : (appended ++ [some content]).filterMap id =
          appended.filterMap id ++ [content] := by
        rw [List.filterMap_append]
        rfl
      refine ⟨?_, ?_, explains.snap⟩
      · rw [same]
        exact ((List.sublist_append_left ..).trans explains.sublist).append
          (List.Sublist.refl [content])
      · rw [same, List.getLast?_concat]
        exact List.getLast?_concat

/-- A topic for the latest content publishes that one to a late subscriber. -/
def contract : (topicT (V := V)).Contract where
  snapOf moved := moved.getLast?.toList
  Explains := Explains
  make := ⟨List.Sublist.refl _, rfl, rfl⟩
  make_doMove := rfl
  append content explains := explains.append content
  doSnap {_ moved topic} explains := by
    obtain ⟨published, snap, new⟩ := topic.doSnap_eq
    refine ⟨?_, ?_, ?_, ?_⟩
    · change topic.doSnap.1 = moved.getLast?.toList
      rw [published, explains.snap]
    · change (moved ++ topic.doSnap.2.new.toList).Sublist _
      rw [new]
      exact explains.sublist
    · change (moved ++ topic.doSnap.2.new.toList).getLast? = _
      rw [new]
      exact explains.latest
    · exact snap.trans explains.snap
  doSnap_doMove topic := by
    obtain ⟨_, _, new⟩ := topic.doSnap_eq
    change topic.doSnap.2.doMove.1 = topic.doMove.1
    cases pending : topic.new with
    | none => rw [doMove_of_none pending, doMove_of_none (new.trans pending)]
    | some content => rw [doMove_of_new pending, doMove_of_new (new.trans pending)]
  doMove_none {topic} none := by
    cases pending : topic.new with
    | none => exact congrArg Prod.snd (doMove_of_none pending)
    | some content => exact nomatch none.symm.trans (congrArg Prod.fst (doMove_of_new pending))
  doMove_some {appended moved topic newSet} explains some := by
    cases pending : topic.new with
    | none => exact nomatch some.symm.trans (congrArg Prod.fst (doMove_of_none pending))
    | some content =>
        have step := doMove_of_new pending
        have same := Option.some.inj (some.symm.trans (congrArg Prod.fst step))
        have parts : (moved ++ [content]) ++ [] = moved ++ topic.new.toList := by
          rw [pending, List.append_nil]
          rfl
        change Explains _ _ topic.doMove.2
        rw [step, same]
        refine ⟨?_, ?_, List.getLast?_concat.symm⟩
        · exact parts ▸ explains.sublist
        · exact parts ▸ explains.latest
  doMove_again topic := by
    change topic.doMove.2.doMove.1 = none
    cases pending : topic.new with
    | none => rw [doMove_of_none pending, doMove_of_none pending]
    | some content =>
        rw [doMove_of_new pending]
        rfl

/-- Once nothing is pending, the latest content appended has been moved. -/
theorem Explains.settled {appended : List (Option (Content V))} {moved : List (Content V)}
    {topic : OneTopic V} (explains : Explains appended moved topic)
    (none : topic.doMove.1 = none) : moved.getLast? = (appended.filterMap id).getLast? := by
  cases pending : topic.new with
  | none =>
      rw [← explains.latest, pending]
      exact congrArg List.getLast? (List.append_nil moved).symm
  | some content =>
      rw [doMove_of_new pending] at none
      cases none

end OneTopic

end Cube.Eco.Thread
