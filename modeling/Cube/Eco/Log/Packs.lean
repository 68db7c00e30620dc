import Mathlib.Data.List.Basic
import Cube.Eco.Log.Queue

/-! # The packs of a log queue

Packs change their place in the queue, but what they hold keeps its order: only the current pack
holds anything that is not for the logging thread yet.
-/

namespace Cube.Eco.Log

variable {ι α : Type}

namespace Pack

variable {pack : Pack} {text : Text}

theorem avail_new : new.avail = capacity := rfl

theorem size_pos_of_isFull (full : pack.isFull = true) : 0 < pack.size := by
  rw [isFull, beq_iff_eq, avail, capacity, packSize] at full
  omega

theorem append_data :
    (pack.append text).data = pack.data ++ text.take (min text.length pack.avail) := by
  rw [← appendSize_eq]
  rfl

theorem append_data_of_fits (fits : text.length ≤ pack.avail) :
    (pack.append text).data = pack.data ++ text := by
  rw [append_data, Nat.min_eq_left fits, List.take_length]

/-- What does not fit is cut off, and leaves a full pack. -/
theorem append_data_of_cut (cut : pack.avail < text.length) :
    (pack.append text).data.length < pack.data.length + text.length ∧
      (pack.append text).isFull = true := by
  have length : (pack.append text).data.length = pack.data.length + pack.avail := by
    rw [append_data, List.length_append, List.length_take]
    omega
  constructor
  · rw [length]
    exact Nat.add_lt_add_left cut _
  · rw [isFull, beq_iff_eq, avail, size, length, avail, size]
    omega

end Pack

namespace Queue

variable {queue before after : Queue ι}

/-- What the packs of a queue hold, those for the logging thread first. -/
def held (queue : Queue ι) (f : Pack → List α) : List α :=
  queue.logging.flatMap f ++ queue.avail.flatMap f

/-- The pack a post appends to, once it gets one. -/
def current (queue : Queue ι) : Pack := queue.avail.getLast?.getD Pack.new

/-- Nothing is in the packs behind the current one. -/
def Tidy (queue : Queue ι) : Prop := ∀ pack ∈ queue.avail.dropLast, pack = Pack.new

/-- Packs have changed their place, and empty ones may have come. -/
structure Rearranged (before after : Queue ι) : Prop where
  tidy : after.Tidy
  state : after.state = before.state
  held : ∀ {α : Type} (f : Pack → List α), f Pack.new = [] → after.held f = before.held f
  logging : ∀ pack ∈ after.logging,
    pack ∈ before.logging ∨ pack ∈ before.avail ∨ pack = Pack.new
  avail : ∀ pack ∈ after.avail, pack ∈ before.avail ∨ pack = Pack.new
  kept : ∀ pack ∈ before.logging, pack ∈ after.logging

theorem Rearranged.refl (tidy : queue.Tidy) : Rearranged queue queue :=
  ⟨tidy, rfl, fun _ _ => rfl, fun _ => .inl, fun _ => .inl, fun _ => id⟩

theorem Rearranged.trans {first second third : Queue ι} (start : Rearranged first second)
    (rest : Rearranged second third) : Rearranged first third where
  tidy := rest.tidy
  state := rest.state.trans start.state
  held f empty := (rest.held f empty).trans (start.held f empty)
  logging pack member := by
    rcases rest.logging pack member with logging | avail | isNew
    · exact start.logging pack logging
    · exact .inr (start.avail pack avail)
    · exact .inr (.inr isNew)
  avail pack member := by
    rcases rest.avail pack member with before | isNew
    · exact start.avail pack before
    · exact .inr isNew
  kept pack member := rest.kept pack (start.kept pack member)

/-! ## Where the packs go -/

variable {init : List Pack} {back : Pack}

theorem current_of_concat (avail : queue.avail = init ++ [back]) : queue.current = back := by
  rw [current, avail, List.getLast?_concat, Option.getD_some]

theorem current_of_nil (avail : queue.avail = []) : queue.current = Pack.new := by
  rw [current, avail, List.getLast?_nil, Option.getD_none]

theorem held_of_concat (avail : queue.avail = init ++ [back]) (f : Pack → List α) :
    queue.held f = queue.logging.flatMap f ++ init.flatMap f ++ f back := by
  rw [held, avail, List.flatMap_append, List.flatMap_singleton, List.append_assoc]

/-- Packs that nothing is in hold nothing. -/
theorem flatMap_new {packs : List Pack} (empty : ∀ pack ∈ packs, pack = Pack.new)
    {f : Pack → List α} (nothing : f Pack.new = []) : packs.flatMap f = [] := by
  apply List.flatMap_eq_nil_iff.mpr
  intro pack member
  rw [empty pack member, nothing]

theorem Tidy.front (tidy : queue.Tidy) (avail : queue.avail = init ++ [back]) :
    ∀ pack ∈ init, pack = Pack.new := by
  rw [Tidy, avail, List.dropLast_concat] at tidy
  exact tidy

theorem tidy_of_concat (avail : queue.avail = init ++ [back])
    (empty : ∀ pack ∈ init, pack = Pack.new) : queue.Tidy := by
  rw [Tidy, avail, List.dropLast_concat]
  exact empty

theorem tidy_of_empty (empty : ∀ pack ∈ queue.avail, pack = Pack.new) : queue.Tidy :=
  fun pack member => empty pack (List.dropLast_subset _ member)

theorem moveAvail_cases (queue : Queue ι) :
    (queue.moveAvail = queue ∧ queue.current.size = 0) ∨
      ∃ init back, queue.avail = init ++ [back] ∧ 0 < back.size ∧ queue.moveAvail =
        { queue with avail := init, logging := queue.logging ++ [back] } := by
  rcases List.eq_nil_or_concat' queue.avail with none | ⟨init, back, some⟩
  · left
    rw [current_of_nil none, moveAvail, none]
    exact ⟨rfl, rfl⟩
  · rw [current_of_concat some, moveAvail, some, List.getLast?_concat, List.dropLast_concat]
    by_cases filled : back.size > 0
    · exact .inr ⟨init, back, rfl, filled, if_pos filled⟩
    · exact .inl ⟨if_neg filled, Nat.eq_zero_of_not_pos filled⟩

theorem rearranged_moveAvail (tidy : queue.Tidy) : Rearranged queue queue.moveAvail := by
  rcases moveAvail_cases queue with ⟨same, _⟩ | ⟨init, back, some, _, moved⟩
  · rw [same]
    exact .refl tidy
  · have empty := tidy.front some
    rw [moved]
    refine ⟨tidy_of_empty empty, rfl, fun f nothing => ?_, fun pack member => ?_,
      fun pack member => .inl ?_, fun pack member => List.mem_append_left _ member⟩
    · rw [held_of_concat some, held, List.flatMap_append, List.flatMap_singleton,
        flatMap_new empty nothing, List.append_nil, List.append_nil]
    · rcases List.mem_append.mp member with before | last
      · exact .inl before
      · rw [List.mem_singleton.mp last, some]
        exact .inr (.inl List.mem_concat_self)
    · rw [some]
      exact List.mem_append_left _ member

/-- Moving the current pack leaves an empty one, or none. -/
theorem current_moveAvail (tidy : queue.Tidy) (filled : 0 < queue.current.size) :
    queue.moveAvail.current = Pack.new := by
  rcases moveAvail_cases queue with ⟨_, empty⟩ | ⟨init, back, some, _, moved⟩
  · exact absurd filled (empty ▸ Nat.lt_irrefl 0)
  · rw [moved]
    rcases List.eq_nil_or_concat' init with none | ⟨rest, last, split⟩
    · exact current_of_nil none
    · rw [current_of_concat split]
      exact tidy.front some last (split ▸ List.mem_concat_self)

theorem rearranged_recycleAvail (tidy : queue.Tidy) (pack : Pack) :
    Rearranged queue (queue.recycleAvail pack) := by
  rcases List.eq_nil_or_concat' queue.avail with none | ⟨init, back, some⟩
  · have avail : (queue.recycleAvail pack).avail = [Pack.new] := by
      rw [recycleAvail, none]
      rfl
    refine ⟨tidy_of_empty ?_, rfl, fun f nothing => ?_, fun _ => .inl, ?_, fun _ => id⟩
    · rw [avail]
      exact fun _ => List.mem_singleton.mp
    · rw [held, avail, List.flatMap_singleton, nothing, held, none, List.flatMap_nil]
      rfl
    · rw [avail]
      exact fun _ member => .inr (List.mem_singleton.mp member)
  · have avail : (queue.recycleAvail pack).avail = (init ++ [Pack.new]) ++ [back] := by
      rw [recycleAvail, some, List.getLast?_concat, List.dropLast_concat, List.append_assoc]
      rfl
    have empty := tidy.front some
    refine ⟨tidy_of_concat avail fun other member => ?_, rfl, fun f nothing => ?_,
      fun _ => .inl, fun other member => ?_, fun _ => id⟩
    · rcases List.mem_append.mp member with before | last
      · exact empty other before
      · exact List.mem_singleton.mp last
    · rw [held_of_concat avail, held_of_concat some, List.flatMap_append,
        List.flatMap_singleton, nothing, List.append_nil]
      rfl
    · rw [avail] at member
      rw [some]
      rcases List.mem_append.mp member with front | last
      · rcases List.mem_append.mp front with before | isNew
        · exact .inl (List.mem_append_left _ before)
        · exact .inr (List.mem_singleton.mp isNew)
      · exact .inl (List.mem_append_right _ last)

/-- If there is no pack, a new one is allocated. -/
theorem getAvail_of_nil (none : queue.avail = [])
    (room : ¬ queue.curSize + UInt32.ofNat Pack.capacity > queue.capacity) :
    queue.getAvail = some { queue with
      avail := [Pack.new]
      curSize := queue.curSize + UInt32.ofNat Pack.capacity } := by
  rw [getAvail, none, if_neg room]
  rfl

theorem getAvail_of_full (none : queue.avail = [])
    (full : queue.curSize + UInt32.ofNat Pack.capacity > queue.capacity) :
    queue.getAvail = Option.none := by
  rw [getAvail, none, if_pos full]
  rfl

/-- A post gets the current pack, which is a new one if there was none. -/
theorem getAvail_cases (tidy : queue.Tidy) :
    (queue.getAvail = none ∧ queue.current = Pack.new) ∨ ∃ got init, queue.getAvail = some got ∧ Rearranged queue got ∧
      got.avail = init ++ [queue.current] := by
  rcases List.eq_nil_or_concat' queue.avail with none | ⟨init, back, avail⟩
  · rw [current_of_nil none]
    by_cases full : queue.curSize + UInt32.ofNat Pack.capacity > queue.capacity
    · exact .inl ⟨getAvail_of_full none full, rfl⟩
    · refine .inr ⟨_, [], getAvail_of_nil none full, ?_, rfl⟩
      refine ⟨tidy_of_empty fun _ => List.mem_singleton.mp, rfl, fun f nothing => ?_,
        fun _ => .inl, fun _ member => .inr (List.mem_singleton.mp member), fun _ => id⟩
      rw [held, held, none, List.flatMap_singleton, nothing, List.flatMap_nil]
  · have some : queue.getAvail = Option.some queue := by
      rw [getAvail, avail, List.isEmpty_eq_false_iff.mpr (List.concat_ne_nil _ _)]
      rfl
    exact .inr ⟨queue, init, some, .refl tidy, by rw [avail, current_of_concat avail]⟩

/-! ## Appending -/

/-- The current pack after a text was appended to it. -/
def filled (queue : Queue ι) (text : Text) : Pack :=
  if queue.isClose then queue.current.append text else (queue.current.append text).records text

@[simp] theorem filled_data (text : Text) :
    (queue.filled text).data = (queue.current.append text).data := by
  unfold filled
  split <;> rfl

@[simp] theorem filled_isFull (text : Text) :
    (queue.filled text).isFull = (queue.current.append text).isFull := by
  unfold filled
  split <;> rfl

theorem filled_texts (text : Text) : (queue.filled text).texts =
    queue.current.texts ++ (if queue.isClose then [] else [text]) := by
  unfold filled
  split
  · exact (List.append_nil _).symm
  · rfl

/-- A pack that a text fills is for the logging thread. -/
theorem appends_of_full {init : List Pack} (avail : queue.avail = init ++ [queue.current])
    {text : Text} (full : (queue.filled text).isFull = true) (pick : Nat) :
    queue.appends text pick = ({ queue with
      avail := init, logging := queue.logging ++ [queue.filled text] } : Queue ι).notifiesLogging
        pick := by
  have moved : ({ queue with avail := init ++ [queue.filled text] } : Queue ι).moveAvail =
      { queue with avail := init, logging := queue.logging ++ [queue.filled text] } := by
    rw [moveAvail, List.getLast?_concat, List.dropLast_concat]
    exact if_pos (Pack.size_pos_of_isFull full)
  rw [Queue.appends, avail, List.getLast?_concat, List.dropLast_concat]
  exact (if_pos full).trans (congrArg (notifiesLogging · pick) moved)

theorem appends_of_not_full {init : List Pack} (avail : queue.avail = init ++ [queue.current])
    {text : Text} (space : ¬ (queue.filled text).isFull = true) (pick : Nat) :
    queue.appends text pick = { queue with avail := init ++ [queue.filled text] } := by
  rw [Queue.appends, avail, List.getLast?_concat, List.dropLast_concat]
  exact if_neg space

/-- A text was appended to the current pack, which is for the logging thread if it is full. -/
structure Appended (before : Queue ι) (text : Text) (after : Queue ι) : Prop where
  tidy : after.Tidy
  state : after.state = before.state
  held : ∀ {α : Type} (f : Pack → List α) (more : List α), f Pack.new = [] →
    f (before.filled text) = f before.current ++ more → after.held f = before.held f ++ more
  logging : ∀ pack ∈ after.logging, pack ∈ before.logging ∨ pack ∈ before.avail ∨
    pack = Pack.new ∨ pack = before.filled text
  avail : ∀ pack ∈ after.avail, pack ∈ before.avail ∨ pack = Pack.new ∨
    pack = before.filled text ∧ pack.isFull = false
  kept : ∀ pack ∈ before.logging, pack ∈ after.logging
  full : (before.filled text).isFull = true → before.filled text ∈ after.logging

theorem appended_appends (tidy : queue.Tidy) {init : List Pack}
    (avail : queue.avail = init ++ [queue.current]) (text : Text) (pick : Nat) :
    Appended queue text (queue.appends text pick) := by
  have empty := tidy.front avail
  have held {α : Type} (f : Pack → List α) (more : List α) (nothing : f Pack.new = [])
      (same : f (queue.filled text) = f queue.current ++ more) :
      queue.logging.flatMap f ++ f (queue.filled text) = queue.held f ++ more := by
    rw [held_of_concat avail, flatMap_new empty nothing, same, List.append_nil,
      List.append_assoc]
  by_cases full : (queue.filled text).isFull = true
  · rw [appends_of_full avail full]
    refine
      { tidy := tidy_of_empty empty
        state := rfl
        held := fun f more nothing same => ?_
        logging := fun pack member => ?_
        avail := fun pack member => .inr (.inl (empty pack member))
        kept := fun pack member => List.mem_append_left _ member
        full := fun _ => List.mem_concat_self }
    · rw [← held f more nothing same]
      change (queue.logging ++ [queue.filled text]).flatMap f ++ init.flatMap f = _
      rw [List.flatMap_append, List.flatMap_singleton, flatMap_new empty nothing,
        List.append_nil]
    · rcases List.mem_append.mp member with before | last
      · exact .inl before
      · exact .inr (.inr (.inr (List.mem_singleton.mp last)))
  · rw [appends_of_not_full avail full]
    refine
      { tidy := tidy_of_concat rfl empty
        state := rfl
        held := fun f more nothing same => ?_
        logging := fun pack => .inl
        avail := fun pack member => ?_
        kept := fun _ => id
        full := fun isFull => absurd isFull full }
    · rw [← held f more nothing same]
      change queue.logging.flatMap f ++ (init ++ [queue.filled text]).flatMap f = _
      rw [List.flatMap_append, List.flatMap_singleton, flatMap_new empty nothing,
        List.nil_append]
    · rcases List.mem_append.mp member with before | last
      · exact .inr (.inl (empty pack before))
      · have same := List.mem_singleton.mp last
        exact .inr (.inr ⟨same, same ▸ (Bool.not_eq_true _).mp full⟩)

/-- A post that goes on after its wait waits again, or appends to the current pack. -/
theorem takesPack_cases (tidy : queue.Tidy) (thread : ι) (text : Text) (pick : Nat) :
    (queue.current = Pack.new ∧ queue.takesPack thread text pick =
        ({ queue with availCondVar := queue.availCondVar.wait thread }, .waits)) ∨
      ∃ after, Appended queue text after ∧
        queue.takesPack thread text pick = (after, .returns ()) := by
  rcases getAvail_cases tidy with ⟨none, isNew⟩ | ⟨got, init, some, rearranged, avail⟩
  · left
    rw [takesPack, none]
    exact ⟨isNew, rfl⟩
  · right
    refine ⟨got.appends text pick, ?_, by rw [takesPack, some]⟩
    have current : got.current = queue.current := current_of_concat avail
    have filled : got.filled text = queue.filled text := by
      rw [Queue.filled, Queue.filled, current, isClose, isOpen, rearranged.state]
      rfl
    have appended := appended_appends rearranged.tidy (current ▸ avail) text pick
    refine
      { tidy := appended.tidy
        state := appended.state.trans rearranged.state
        held := fun f more nothing same => ?_
        logging := fun pack member => ?_
        avail := fun pack member => ?_
        kept := fun pack member => appended.kept pack (rearranged.kept pack member)
        full := fun full => filled ▸ appended.full (filled ▸ full) }
    · rw [appended.held f more nothing (by rw [filled, current, same]), rearranged.held f nothing]
    · rcases appended.logging pack member with logging | avail | isNew | isFilled
      · rcases rearranged.logging pack logging with before | before | isNew
        · exact .inl before
        · exact .inr (.inl before)
        · exact .inr (.inr (.inl isNew))
      · rcases rearranged.avail pack avail with before | isNew
        · exact .inr (.inl before)
        · exact .inr (.inr (.inl isNew))
      · exact .inr (.inr (.inl isNew))
      · exact .inr (.inr (.inr (isFilled.trans filled)))
    · rcases appended.avail pack member with avail | isNew | isFilled
      · rcases rearranged.avail pack avail with before | isNew
        · exact .inl before
        · exact .inr (.inl isNew)
      · exact .inr (.inl isNew)
      · exact .inr (.inr ⟨isFilled.1.trans filled, isFilled.2⟩)

/-- A post first moves the current pack out of its way, if the text does not fit into it. -/
theorem post_cases (tidy : queue.Tidy) (thread : ι) (text : Text) (pick again : Nat) :
    ∃ ready, Rearranged queue ready ∧
      (text.length ≤ Pack.capacity → text.length ≤ ready.current.avail) ∧
      queue.post thread text pick again = ready.takesPack thread text again := by
  rcases List.eq_nil_or_concat' queue.avail with none | ⟨init, back, some⟩
  · refine ⟨queue, .refl tidy, fun fits => ?_, by rw [post, none]; rfl⟩
    rw [current_of_nil none, Pack.avail_new]
    exact fits
  · have current := current_of_concat some
    by_cases short : back.avail < text.length
    · refine ⟨queue.moveAvail.notifiesLogging pick, ?_, fun fits => ?_, ?_⟩
      · have moved := rearranged_moveAvail tidy
        exact ⟨moved.tidy, moved.state, moved.held, moved.logging, moved.avail, moved.kept⟩
      · have filled : 0 < queue.current.size := by
          rw [current]
          rw [Pack.avail] at short
          omega
        change _ ≤ queue.moveAvail.current.avail
        rw [current_moveAvail tidy filled, Pack.avail_new]
        exact fits
      · rw [post, some, List.getLast?_concat]
        exact congrArg (takesPack · thread text again) (if_pos short)
    · refine ⟨queue, .refl tidy, fun _ => current ▸ Nat.le_of_not_lt short, ?_⟩
      rw [post, some, List.getLast?_concat]
      exact congrArg (takesPack · thread text again) (if_neg short)

/-! ## Popping -/

/-- A pop that does not wait reports the end, if nothing is for the logging thread, or takes the
first pack. -/
theorem takesLogging_cases (queue : Queue ι) (thread : ι) :
    (queue.logging = [] ∧ queue.isClose = true ∧
      queue.takesLogging thread = (queue, .returns none)) ∨
    (queue.isClose = false ∧ queue.takesLogging thread =
      ({ queue with loggingCondVar := queue.loggingCondVar.wait thread }, .waits)) ∨
    ∃ pack logging, queue.logging = pack :: logging ∧
      queue.takesLogging thread = ({ queue with logging := logging }, .returns (some pack)) := by
  cases stored : queue.logging with
  | nil =>
      cases closed : queue.isClose with
      | true =>
          left
          refine ⟨rfl, rfl, ?_⟩
          rw [takesLogging, stored]
          exact if_pos closed
      | false =>
          right
          left
          refine ⟨rfl, ?_⟩
          rw [takesLogging, stored]
          exact if_neg (by rw [closed]; exact Bool.false_ne_true)
  | cons pack logging =>
      right
      right
      refine ⟨pack, logging, rfl, ?_⟩
      rw [takesLogging, stored]

theorem pop_cases (tidy : queue.Tidy) (thread : ι) (pack : Option Pack) :
    ∃ ready, Rearranged queue ready ∧ ready.logging = queue.logging ∧
      queue.pop thread pack = ready.takesLogging thread := by
  cases pack with
  | none => exact ⟨queue, .refl tidy, rfl, rfl⟩
  | some pack => exact ⟨queue.recycleAvail pack, rearranged_recycleAvail tidy pack, rfl, rfl⟩

theorem rearranged_again {queue : Queue ι} (tidy : queue.Tidy) (timedOut : Bool) :
    Rearranged queue (if timedOut then queue.moveAvail else queue) := by
  cases timedOut with
  | false => exact .refl tidy
  | true => exact rearranged_moveAvail tidy

end Queue

end Cube.Eco.Log
