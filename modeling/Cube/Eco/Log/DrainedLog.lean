import Mathlib.Logic.Basic
import Mathlib.Tactic.ByContra
import Cube.Eco.Log.LogThreads
import Cube.Eco.Log.Packs

/-! # A log that is drained

When a pop reports the end, the packs popped hold all that was posted before the queue was
closed, exactly as long as nothing of it is in the current pack then, and nothing of it was cut.
-/

namespace Cube.Eco.Log.Queue

open Interleaving (Program Outline)
open Thread (AtomicState Section)

variable {ι : Type} {record : Record ι}

/-- Once a pop has reported the end, the texts posted before the queue was closed are those
appended to the packs popped, in order, and each of these packs holds its texts as a whole. -/
def Drained (record : Record ι) : Prop :=
  record.ended = true → record.popped.flatMap Pack.texts = record.early ∧
    ∀ pack ∈ record.popped, pack.texts.flatten <+: pack.data

/-- The thread goes on with a pop that reports the end. -/
def Ends (queue : Queue ι) (timedOut : Bool) : Operation → Prop
  | .pop _ => queue.isClose = true ∧ queue.logging = []
  | .waitsLogging =>
      queue.isClose = true ∧ queue.logging = [] ∧ (timedOut = true → queue.current.size = 0)
  | _ => False

/-- When a pop reports the end, no text that was posted before the queue was closed is in the
current pack, and none was cut. -/
def Emptied [DecidableEq ι] (threads : Threads ι) (choice : Choice ι) : Prop :=
  ∀ thread pick again timedOut operation,
    choice = .advance thread (.goesOn pick again timedOut) →
    threads.running thread = some operation → ¬ threads.shared.queue.Asleep thread →
    Ends threads.shared.queue timedOut operation →
    threads.shared.cut = false ∧ threads.shared.queue.avail.flatMap Pack.texts = []

/-! ## The invariant -/

/-- The pack holds its texts as a whole. -/
def Intact (pack : Pack) : Prop := pack.texts.flatten <+: pack.data

/-- The texts in the packs are those posted before the queue was closed. The packs that are for
the logging thread, or were popped, are intact if no text was cut; and the others always. -/
structure Draining (record : Record ι) : Prop where
  tidy : record.queue.Tidy
  order : record.popped.flatMap Pack.texts ++ record.queue.held Pack.texts = record.early
  intact : record.cut = false →
    ∀ pack, pack ∈ record.popped ∨ pack ∈ record.queue.logging → Intact pack
  torn : record.cut = true →
    ∃ pack, (pack ∈ record.popped ∨ pack ∈ record.queue.logging) ∧ ¬ Intact pack
  avail : ∀ pack ∈ record.queue.avail, Intact pack
  exact : record.queue.isOpen = true →
    ∀ pack ∈ record.queue.avail, pack.texts.flatten = pack.data
  ended : record.ended = true → record.queue.isClose = true ∧ record.cut = false ∧
    record.popped.flatMap Pack.texts = record.early

theorem draining_new (capacity : UInt32) : Draining (Record.new capacity : Record ι) where
  tidy := nofun
  order := rfl
  intact _ _ member := by
    rcases member with popped | logging
    · cases popped
    · cases logging
  torn := nofun
  avail := nofun
  exact _ := nofun
  ended := nofun

theorem intact_new : Intact Pack.new := List.prefix_rfl

theorem Draining.drained (draining : Draining record) : Drained record := fun ended => by
  obtain ⟨_, uncut, all⟩ := draining.ended ended
  exact ⟨all, fun pack member => draining.intact uncut pack (.inl member)⟩

/-- The pack a post appends to is intact. -/
theorem Draining.current (draining : Draining record) : Intact record.queue.current ∧
    (record.queue.isOpen = true →
      record.queue.current.texts.flatten = record.queue.current.data) := by
  rcases List.eq_nil_or_concat' record.queue.avail with none | ⟨init, back, some⟩
  · rw [current_of_nil none]
    exact ⟨intact_new, fun _ => rfl⟩
  · have member : back ∈ record.queue.avail := some ▸ List.mem_concat_self
    rw [current_of_concat some]
    exact ⟨draining.avail back member, fun opened => draining.exact opened back member⟩

/-! ## What the steps keep -/

theorem isOpen_of_state {before after : Queue ι} (state : after.state = before.state) :
    after.isOpen = before.isOpen := congrArg AtomicState.isOk state

theorem Draining.rearranged {queue : Queue ι} (draining : Draining record)
    (rearranged : Rearranged record.queue queue) : Draining { record with queue := queue } where
  tidy := rearranged.tidy
  order := by
    dsimp only
    rw [rearranged.held Pack.texts rfl]
    exact draining.order
  intact uncut pack member := by
    rcases member with popped | logging
    · exact draining.intact uncut pack (.inl popped)
    · rcases rearranged.logging pack logging with before | avail | rfl
      · exact draining.intact uncut pack (.inr before)
      · exact draining.avail pack avail
      · exact intact_new
  torn cut := by
    obtain ⟨pack, member, torn⟩ := draining.torn cut
    exact ⟨pack, member.imp id (rearranged.kept pack), torn⟩
  avail pack member := by
    rcases rearranged.avail pack member with before | rfl
    · exact draining.avail pack before
    · exact intact_new
  exact opened pack member := by
    rcases rearranged.avail pack member with before | rfl
    · exact draining.exact ((isOpen_of_state rearranged.state).symm.trans opened) pack before
    · rfl
  ended isEnded := by
    obtain ⟨closed, rest⟩ := draining.ended isEnded
    exact ⟨(congrArg not (isOpen_of_state rearranged.state)).trans closed, rest⟩

/-- Who sleeps makes no difference. -/
theorem Draining.same {queue : Queue ι} (draining : Draining record)
    (avail : queue.avail = record.queue.avail) (logging : queue.logging = record.queue.logging)
    (state : queue.state = record.queue.state) : Draining { record with queue := queue } := by
  refine draining.rearranged
    { tidy := ?_
      state := state
      held := fun f _ => ?_
      logging := fun pack member => .inl (logging ▸ member)
      avail := fun pack member => .inl (avail ▸ member)
      kept := fun pack member => logging ▸ member }
  · rw [Tidy, avail]
    exact draining.tidy
  · rw [held, held, avail, logging]

/-- The mark of `close` fixes what was posted before. -/
theorem Draining.closes (draining : Draining record) :
    Draining { record with queue := { record.queue with state := AtomicState.none } } :=
  { draining with
    exact := fun opened => by
      rw [isOpen, AtomicState.none_isOk] at opened
      cases opened
    ended := fun ended => ⟨congrArg not AtomicState.none_isOk, (draining.ended ended).2⟩ }

/-! ## Appending -/

section Appending

variable {queue : Queue ι} {text : Text}

theorem intact_of_closed (closed : queue.isOpen = false) (intact : Intact queue.current) :
    Intact (queue.filled text) := by
  have isClose : queue.isClose = true := congrArg not closed
  rw [Intact, filled_data, filled_texts, isClose, if_pos rfl, List.append_nil, Pack.append_data]
  exact intact.trans (List.prefix_append _ _)

theorem exact_of_fits (opened : queue.isOpen = true)
    (exact : queue.current.texts.flatten = queue.current.data)
    (fits : text.length ≤ queue.current.avail) :
    (queue.filled text).texts.flatten = (queue.filled text).data := by
  have isClose : queue.isClose = false := congrArg not opened
  rw [filled_data, filled_texts, isClose, if_neg Bool.false_ne_true, List.flatten_append,
    List.flatten_singleton, exact, Pack.append_data_of_fits fits]

/-- A text that is cut is not in its pack as a whole, which is full. -/
theorem torn_of_cut (opened : queue.isOpen = true)
    (exact : queue.current.texts.flatten = queue.current.data)
    (short : queue.current.avail < text.length) :
    ¬ Intact (queue.filled text) ∧ (queue.filled text).isFull = true := by
  have isClose : queue.isClose = false := congrArg not opened
  obtain ⟨shorter, full⟩ := Pack.append_data_of_cut short
  rw [filled_isFull]
  refine ⟨fun intact => ?_, full⟩
  have length := intact.length_le
  rw [filled_data, filled_texts, isClose, if_neg Bool.false_ne_true, List.flatten_append,
    List.flatten_singleton, List.length_append, exact] at length
  exact Nat.not_lt_of_le length shorter

end Appending

/-- A text that is appended is cut, if it was posted before the queue was closed and does not
fit into the current pack. -/
theorem Draining.appended {queue : Queue ι} {text : Text} (draining : Draining record)
    (appended : Appended record.queue text queue) :
    Draining { record with
      queue := queue
      posted := record.posted ++ [text]
      early := if record.queue.isClose then record.early else record.early ++ [text]
      cut := record.cut ||
        (record.queue.isOpen && decide (record.queue.current.avail < text.length)) } := by
  obtain ⟨current, exact⟩ := draining.current
  have whole (uncut : (record.queue.isOpen && decide (record.queue.current.avail < text.length)) =
      false) : Intact (record.queue.filled text) ∧ (record.queue.isOpen = true →
        (record.queue.filled text).texts.flatten = (record.queue.filled text).data) := by
    cases opened : record.queue.isOpen with
    | false => exact ⟨intact_of_closed opened current, nofun⟩
    | true =>
        rw [opened, Bool.true_and, decide_eq_false_iff_not, Nat.not_lt] at uncut
        have same := exact_of_fits opened (exact opened) uncut
        have intact : Intact (record.queue.filled text) := by
          rw [Intact]
          exact same ▸ List.prefix_rfl
        exact ⟨intact, fun _ => same⟩
  have torn (cut : (record.queue.isOpen && decide (record.queue.current.avail < text.length)) =
      true) : ¬ Intact (record.queue.filled text) ∧ (record.queue.filled text).isFull = true := by
    rw [Bool.and_eq_true, decide_eq_true_eq] at cut
    exact torn_of_cut cut.1 (exact cut.1) cut.2
  have uncut_of_not_full (full : (record.queue.filled text).isFull = false) :
      (record.queue.isOpen && decide (record.queue.current.avail < text.length)) = false := by
    rw [← Bool.not_eq_true]
    exact fun cut => Bool.false_ne_true (full.symm.trans (torn cut).2)
  refine
    { tidy := appended.tidy
      order := ?_
      intact := fun uncut pack member => ?_
      torn := fun cut => ?_
      avail := fun pack member => ?_
      exact := fun opened pack member => ?_
      ended := fun ended => ?_ }
  · dsimp only
    rw [appended.held Pack.texts _ rfl (filled_texts text), ← List.append_assoc, draining.order]
    split
    · exact List.append_nil _
    · rfl
  · rw [Bool.or_eq_false_iff] at uncut
    rcases member with popped | logging
    · exact draining.intact uncut.1 pack (.inl popped)
    · rcases appended.logging pack logging with before | avail | rfl | rfl
      · exact draining.intact uncut.1 pack (.inr before)
      · exact draining.avail pack avail
      · exact intact_new
      · exact (whole uncut.2).1
  · rcases Bool.or_eq_true_iff.mp cut with before | isCut
    · obtain ⟨pack, member, isTorn⟩ := draining.torn before
      exact ⟨pack, member.imp id (appended.kept pack), isTorn⟩
    · exact ⟨_, .inr (appended.full (torn isCut).2), (torn isCut).1⟩
  · rcases appended.avail pack member with before | rfl | ⟨rfl, space⟩
    · exact draining.avail pack before
    · exact intact_new
    · exact (whole (uncut_of_not_full space)).1
  · have before := (isOpen_of_state appended.state).symm.trans opened
    rcases appended.avail pack member with avail | rfl | ⟨rfl, space⟩
    · exact draining.exact before pack avail
    · rfl
    · exact (whole (uncut_of_not_full space)).2 before
  · obtain ⟨closed, uncut, all⟩ := draining.ended ended
    have opened : record.queue.isOpen = false := by
      rw [← Bool.not_not record.queue.isOpen]
      exact congrArg not closed
    refine ⟨(congrArg not (isOpen_of_state appended.state)).trans closed, ?_, ?_⟩
    · rw [uncut, opened]
      rfl
    · exact all.trans (if_pos closed).symm

/-- A post keeps the invariant, whether its text is cut or not. -/
theorem Draining.takes {ready : Queue ι} {text : Text} (draining : Draining record)
    (rearranged : Rearranged record.queue ready) (thread : ι) (pick : Nat) {cut : Bool}
    (isCut : cut = (ready.isOpen && decide (ready.current.avail < text.length))) :
    Draining (record.posts text (ready.takesPack thread text pick) cut).1 := by
  have readied := draining.rearranged rearranged
  rcases takesPack_cases rearranged.tidy thread text pick with
    ⟨_, waits⟩ | ⟨after, appended, returns⟩
  · rw [waits]
    exact readied.same rfl rfl rfl
  · have same : ready.isClose = record.queue.isClose :=
      congrArg not (isOpen_of_state rearranged.state)
    rw [returns, isCut]
    have appended := readied.appended appended
    dsimp only at appended
    rw [same] at appended
    exact appended

/-! ## Popping -/

/-- What happens to the record when a pop goes on: it reports the end, waits, or takes a pack. -/
theorem Draining.pops {ready : Queue ι} (draining : Draining record)
    (rearranged : Rearranged record.queue ready) (thread : ι)
    (emptied : ready.isClose = true → ready.logging = [] →
      record.cut = false ∧ record.queue.held Pack.texts = []) :
    Draining (record.pops (ready.takesLogging thread)).1 := by
  have readied := draining.rearranged rearranged
  rcases takesLogging_cases ready thread with
    ⟨none, closed, ends⟩ | ⟨_, waits⟩ | ⟨pack, logging, stored, takes⟩
  · rw [ends]
    obtain ⟨uncut, empty⟩ := emptied closed none
    have order := draining.order
    rw [empty, List.append_nil] at order
    exact { readied with ended := fun _ => ⟨closed, uncut, order⟩ }
  · rw [waits]
    exact readied.same rfl rfl rfl
  · rw [takes]
    have member (other : Pack) : (other ∈ record.popped ++ [pack] ∨ other ∈ logging) ↔
        other ∈ record.popped ∨ other ∈ ready.logging := by
      rw [stored, List.mem_append, List.mem_singleton, List.mem_cons, or_assoc]
    have order := readied.order
    dsimp only at order
    rw [held, stored, List.flatMap_cons, List.append_assoc, ← List.append_assoc] at order
    have popped : (record.popped ++ [pack]).flatMap Pack.texts =
        record.popped.flatMap Pack.texts ++ pack.texts := by
      rw [List.flatMap_append, List.flatMap_singleton]
    refine
      { tidy := readied.tidy
        order := ?_
        intact := fun uncut other there => readied.intact uncut other ((member other).mp there)
        torn := fun cut => ?_
        avail := readied.avail
        exact := readied.exact
        ended := fun ended => ?_ }
    · change (record.popped ++ [pack]).flatMap Pack.texts ++
        (logging.flatMap Pack.texts ++ ready.avail.flatMap Pack.texts) = record.early
      rw [popped]
      exact order
    · obtain ⟨other, there, torn⟩ := readied.torn cut
      exact ⟨other, (member other).mpr there, torn⟩
    · obtain ⟨closed, uncut, all⟩ := readied.ended ended
      -- nothing was left of what was posted before
      have nothing : pack.texts = [] := by
        rw [← all, List.append_assoc, List.append_right_eq_self, List.append_eq_nil_iff] at order
        exact order.1
      refine ⟨closed, uncut, popped.trans ?_⟩
      rw [nothing, List.append_nil]
      exact all

/-- A pop that reports the end too early shows. -/
theorem Draining.pops_early {ready : Queue ι} (draining : Draining record)
    (rearranged : Rearranged record.queue ready) (thread : ι) (closed : ready.isClose = true)
    (none : ready.logging = [])
    (early : ¬ (record.cut = false ∧ record.queue.held Pack.texts = [])) :
    ¬ Drained (record.pops (ready.takesLogging thread)).1 := by
  rcases takesLogging_cases ready thread with
    ⟨_, _, ends⟩ | ⟨opened, _⟩ | ⟨pack, logging, stored, _⟩
  · rw [ends]
    intro drained
    obtain ⟨all, intact⟩ := drained rfl
    refine early ⟨?_, ?_⟩
    · by_contra cut
      obtain ⟨pack, member, torn⟩ := draining.torn ((Bool.not_eq_false _).mp cut)
      rcases member with popped | logging
      · exact torn (intact pack popped)
      · have moved := rearranged.kept pack logging
        rw [none] at moved
        cases moved
    · have order := draining.order
      rw [← show record.popped.flatMap Pack.texts = record.early from all,
        List.append_right_eq_self] at order
      exact order
  · exact (Bool.false_ne_true (opened.symm.trans closed)).elim
  · rw [none] at stored
    cases stored

/-! ## Going on -/

theorem isClose_of_rearranged {before after : Queue ι} (rearranged : Rearranged before after) :
    after.isClose = before.isClose := congrArg not (isOpen_of_state rearranged.state)

theorem popAgain_logging {queue : Queue ι} {timedOut : Bool} :
    (if timedOut then queue.moveAvail else queue).logging = [] ↔
      queue.logging = [] ∧ (timedOut = true → queue.current.size = 0) := by
  cases timedOut with
  | false => simp only [Bool.false_eq_true, ↓reduceIte, false_implies, and_true]
  | true =>
      rw [if_pos rfl]
      rcases moveAvail_cases queue with ⟨same, empty⟩ | ⟨init, back, some, filled, moved⟩
      · rw [same, empty]
        simp only [implies_true, and_true]
      · rw [moved, current_of_concat some]
        constructor
        · exact fun nothing => absurd nothing (List.concat_ne_nil _ _)
        · exact fun ⟨_, empty⟩ => absurd (empty rfl) (Nat.ne_of_gt filled)

/-- A text that waits is cut, if it does not fit into the pack it gets. -/
theorem cuts_eq {text : Text} (fits : text.length ≤ Pack.capacity) : record.cuts text =
    (record.queue.isOpen && decide (record.queue.current.avail < text.length)) := by
  rw [Record.cuts, current]
  cases record.queue.avail.getLast? with
  | some back => rfl
  | none =>
      have room : ¬ (Option.getD none Pack.new).avail < text.length := Nat.not_lt_of_le fits
      dsimp only
      rw [decide_eq_false room, Bool.and_false]

/-- With nothing for the logging thread, all that is held is in the other packs. -/
theorem held_of_nil {queue : Queue ι} (none : queue.logging = []) :
    queue.held Pack.texts = queue.avail.flatMap Pack.texts := by
  rw [held, none]
  rfl

/-- What a thread does that goes on keeps the invariant, if it does not report the end too
early. -/
theorem Draining.goesOn (draining : Draining record) {operation : Operation}
    (fitting : operation.Fitting) {timedOut : Bool}
    (emptied : Ends record.queue timedOut operation →
      record.cut = false ∧ record.queue.avail.flatMap Pack.texts = [])
    (thread : ι) (pick again : Nat) :
    Draining (record.goesOn thread pick again timedOut operation).1 := by
  cases operation with
  | post text =>
      rw [Record.goesOn]
      split_ifs with large
      · exact draining
      · obtain ⟨ready, rearranged, enough, same⟩ :=
          post_cases draining.tidy thread text pick again
        have room := Nat.not_lt_of_le (enough (Nat.le_of_not_lt large))
        rw [same]
        apply draining.takes rearranged
        rw [decide_eq_false room, Bool.and_false]
  | waitsAvail text =>
      exact draining.takes (.refl draining.tidy) thread again (cuts_eq fitting)
  | pop pack =>
      obtain ⟨ready, rearranged, logging, same⟩ := pop_cases draining.tidy thread pack
      rw [Record.goesOn, same]
      apply draining.pops rearranged
      intro closed none
      rw [logging] at none
      rw [held_of_nil none]
      exact emptied ⟨(isClose_of_rearranged rearranged).symm.trans closed, none⟩
  | waitsLogging =>
      have rearranged := rearranged_again draining.tidy timedOut
      apply draining.pops rearranged
      intro closed none
      obtain ⟨none, empty⟩ := popAgain_logging.mp none
      rw [held_of_nil none]
      exact emptied ⟨(isClose_of_rearranged rearranged).symm.trans closed, none, empty⟩
  | notifiesAvail => exact draining.same rfl rfl rfl
  | notifiesLogging => exact draining.same rfl rfl rfl

/-- A thread that reports the end too early shows. -/
theorem Draining.goesOn_early (draining : Draining record) {operation : Operation}
    {timedOut : Bool} (ends : Ends record.queue timedOut operation)
    (early : ¬ (record.cut = false ∧ record.queue.avail.flatMap Pack.texts = []))
    (thread : ι) (pick again : Nat) :
    ¬ Drained (record.goesOn thread pick again timedOut operation).1 := by
  cases operation with
  | pop pack =>
      obtain ⟨closed, none⟩ := ends
      obtain ⟨ready, rearranged, logging, same⟩ := pop_cases draining.tidy thread pack
      rw [Record.goesOn, same]
      apply draining.pops_early rearranged
      · exact (isClose_of_rearranged rearranged).trans closed
      · exact logging.trans none
      · rw [held_of_nil none]
        exact early
  | waitsLogging =>
      obtain ⟨closed, none, empty⟩ := ends
      have rearranged := rearranged_again draining.tidy timedOut
      apply draining.pops_early rearranged
      · exact (isClose_of_rearranged rearranged).trans closed
      · exact popAgain_logging.mpr ⟨none, empty⟩
      · rw [held_of_nil none]
        exact early
  | _ => exact ends.elim

/-! ## Runs -/

theorem draining_start (capacity : UInt32) :
    (outline Draining).Holds (start capacity : Threads ι) := .idle (draining_new capacity)

section Runs

variable [DecidableEq ι] {threads : Threads ι} {choice : Choice ι}

theorem draining_step (holds : (outline Draining).Holds threads)
    (emptied : Emptied threads choice) :
    (outline Draining).Holds (program.step threads choice) := by
  refine outline_step holds (fun _ _ draining => draining.same)
    (fun _ draining => draining.closes)
    (fun thread pick again timedOut operation advances running awake fitting => ?_)
  apply holds.shared.goesOn fitting
  exact emptied thread pick again timedOut operation advances running awake

theorem not_drained_of_not_emptied (holds : (outline Draining).Holds threads)
    (early : ¬ Emptied threads choice) : ¬ Drained (program.step threads choice).shared := by
  simp only [Emptied, not_forall] at early
  obtain ⟨thread, pick, again, timedOut, operation, rfl, running, awake, ends, early⟩ := early
  rw [Program.step_advance running, advance_awake awake]
  exact holds.shared.goesOn_early ends early thread pick again

/-- **A log that is drained.** For any number of threads, in every interleaving, all that was
posted before the queue was closed is in the packs popped when a pop reports the end, exactly as
long as nothing of it is in the current pack whenever one does, and nothing of it was cut. -/
theorem drained_iff (capacity : UInt32) (choices : List (Choice ι)) :
    Run.Always program.step (fun threads => Drained threads.shared) (fun _ _ => True)
        (start capacity) choices ↔
      Run.Steps program.step Emptied (start capacity) choices :=
  Run.always_iff_steps (outline Draining).Holds (fun _ holds => holds.shared.drained)
    (fun _ _ holds emptied => ⟨trivial, draining_step holds emptied⟩)
    (fun _ _ holds early both => not_drained_of_not_emptied holds early both.2)
    (draining_start capacity) choices

end Runs

/-! ## A text that nobody pops -/

/-- A text is posted, the queue is closed, and the logging thread finds nothing to log. -/
theorem text_lost :
    ¬ Run.Always program.step (fun threads : Threads Nat => Drained threads.shared)
      (fun _ _ => True) (start queueSize)
      [.call 0 (.post [7]), .advance 0 (.goesOn 0 0 false), .call 1 .close,
        .call 2 .work, .advance 2 (.goesOn 0 0 false)] := by
  intro always
  have drained := always.final rfl
  cases drained.1

end Cube.Eco.Log.Queue
