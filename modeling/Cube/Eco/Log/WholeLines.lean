import Mathlib.Logic.Basic
import Cube.Eco.Log.LogThreads
import Cube.Eco.Log.Packs

/-! # Every line is whole

The packs popped and those still in the queue hold the posted texts one after the other, exactly
as long as no post that had to wait finds less space in the current pack than its text needs.
-/

namespace Cube.Eco.Log.Queue

open Interleaving (Program Outline)
open Thread (AtomicState Section)

variable {ι : Type} {record : Record ι}

/-- The packs popped and those in the queue hold all posted texts, each as a whole, in the order
in which they were posted. -/
def Whole (record : Record ι) : Prop :=
  record.popped.flatMap Pack.data ++ record.queue.held Pack.data = record.posted.flatten

/-- A post that goes on after its wait finds enough space. -/
def Fits [DecidableEq ι] (threads : Threads ι) (choice : Choice ι) : Prop :=
  ∀ thread pick again timedOut text,
    choice = .advance thread (.goesOn pick again timedOut) →
    threads.running thread = some (.waitsAvail text) → ¬ threads.shared.queue.Asleep thread →
    text.length ≤ threads.shared.queue.current.avail

/-! ## The invariant -/

/-- Nothing is behind the current pack, and every line is whole. -/
structure Lined (record : Record ι) : Prop where
  tidy : record.queue.Tidy
  whole : Whole record

abbrev lines : Outline ι (Record ι) Operation := outline Lined

theorem lined_new (capacity : UInt32) : Lined (Record.new capacity : Record ι) := ⟨nofun, rfl⟩

/-! ## What the steps keep -/

theorem Lined.rearranged {queue : Queue ι} (lined : Lined record)
    (rearranged : Rearranged record.queue queue) : Lined { record with queue := queue } := by
  refine ⟨rearranged.tidy, ?_⟩
  rw [Whole, rearranged.held Pack.data rfl]
  exact lined.whole

/-- Who sleeps makes no difference. -/
theorem Lined.same {queue : Queue ι} (lined : Lined record)
    (avail : queue.avail = record.queue.avail) (logging : queue.logging = record.queue.logging) :
    Lined { record with queue := queue } := by
  refine ⟨?_, ?_⟩
  · rw [Tidy, avail]
    exact lined.tidy
  · rw [Whole, held, avail, logging]
    exact lined.whole

/-- Whether the lines are whole after a text was appended. -/
theorem whole_appended {queue : Queue ι} {text : Text} {early : List Text} {cut : Bool}
    (lined : Lined record) (appended : Appended record.queue text queue) :
    Whole { record with
        queue := queue, posted := record.posted ++ [text], early := early, cut := cut } ↔
      text.length ≤ record.queue.current.avail := by
  have data : (record.queue.current.append text).data = _ := Pack.append_data
  rw [Whole, appended.held Pack.data _ rfl (by rw [filled_data, data]), ← List.append_assoc,
    lined.whole, List.flatten_append, List.flatten_singleton, List.append_cancel_left_eq]
  constructor
  · intro same
    have length := congrArg List.length same
    rw [List.length_take] at length
    omega
  · intro fits
    rw [Nat.min_eq_left fits, List.take_length]

/-- A post whose text fits keeps the lines whole. -/
theorem Lined.takes {ready : Queue ι} {text : Text} (lined : Lined record)
    (rearranged : Rearranged record.queue ready) (fits : text.length ≤ ready.current.avail)
    (thread : ι) (pick : Nat) (cut : Bool) :
    Lined (record.posts text (ready.takesPack thread text pick) cut).1 := by
  rcases takesPack_cases rearranged.tidy thread text pick with
    ⟨_, waits⟩ | ⟨after, appended, returns⟩
  · rw [waits]
    exact (lined.rearranged rearranged).same rfl rfl
  · rw [returns]
    exact ⟨appended.tidy, (whole_appended (lined.rearranged rearranged) appended).mpr fits⟩

/-- A post that goes on without enough space cuts its text. -/
theorem Lined.cuts {text : Text} (lined : Lined record) (fitting : text.length ≤ Pack.capacity)
    (short : ¬ text.length ≤ record.queue.current.avail) (thread : ι) (pick : Nat) (cut : Bool) :
    ¬ Whole (record.posts text (record.queue.takesPack thread text pick) cut).1 := by
  rcases takesPack_cases lined.tidy thread text pick with
    ⟨isNew, _⟩ | ⟨after, appended, returns⟩
  · rw [isNew, Pack.avail_new] at short
    exact absurd fitting short
  · rw [returns]
    exact fun whole => short ((whole_appended lined appended).mp whole)

/-- A pop takes the first pack out of the queue, or none. -/
theorem Lined.pops {ready : Queue ι} (lined : Lined record)
    (rearranged : Rearranged record.queue ready) (thread : ι) :
    Lined (record.pops (ready.takesLogging thread)).1 := by
  have lined := lined.rearranged rearranged
  rcases takesLogging_cases ready thread with
    ⟨_, _, ends⟩ | ⟨_, waits⟩ | ⟨pack, logging, stored, takes⟩
  · rw [ends]
    exact ⟨lined.tidy, lined.whole⟩
  · rw [waits]
    exact lined.same rfl rfl
  · rw [takes]
    refine ⟨lined.tidy, ?_⟩
    have whole := lined.whole
    rw [Whole, held, stored, List.flatMap_cons] at whole
    change (record.popped ++ [pack]).flatMap Pack.data ++
      (logging.flatMap Pack.data ++ ready.avail.flatMap Pack.data) = record.posted.flatten
    rw [← whole, List.flatMap_append, List.flatMap_singleton]
    simp only [List.append_assoc]

/-- What a thread does that goes on keeps the lines whole, if its text fits. -/
theorem Lined.goesOn (lined : Lined record) {operation : Operation} (fitting : operation.Fitting)
    (fits : ∀ text, operation = .waitsAvail text → text.length ≤ record.queue.current.avail)
    (thread : ι) (pick again : Nat) (timedOut : Bool) :
    Lined (record.goesOn thread pick again timedOut operation).1 := by
  cases operation with
  | post text =>
      rw [Record.goesOn]
      split_ifs with large
      · exact lined
      · obtain ⟨ready, rearranged, enough, same⟩ :=
          post_cases lined.tidy thread text pick again
        rw [same]
        exact lined.takes rearranged (enough (Nat.le_of_not_lt large)) thread again false
  | waitsAvail text => exact lined.takes (.refl lined.tidy) (fits text rfl) thread again _
  | pop pack =>
      obtain ⟨ready, rearranged, _, same⟩ := pop_cases lined.tidy thread pack
      rw [Record.goesOn, same]
      exact lined.pops rearranged thread
  | waitsLogging => exact lined.pops (rearranged_again lined.tidy timedOut) thread
  | notifiesAvail => exact lined.same rfl rfl
  | notifiesLogging => exact lined.same rfl rfl

/-! ## Runs -/

theorem lines_start (capacity : UInt32) : lines.Holds (start capacity : Threads ι) :=
  .idle (lined_new capacity)

section Runs

variable [DecidableEq ι] {threads : Threads ι} {choice : Choice ι}

theorem lines_step (holds : lines.Holds threads) (fits : Fits threads choice) :
    lines.Holds (program.step threads choice) := by
  refine outline_step holds (fun _ _ lined avail logging _ => lined.same avail logging)
    (fun _ lined => lined.same rfl rfl)
    (fun thread pick again timedOut operation advances running awake fitting => ?_)
  refine holds.shared.goesOn fitting (fun text same => ?_) thread pick again timedOut
  subst same
  exact fits thread pick again timedOut text advances running awake

/-- A post that goes on without enough space cuts a line. -/
theorem cut_of_not_fits (holds : lines.Holds threads) (short : ¬ Fits threads choice) :
    ¬ Whole (program.step threads choice).shared := by
  simp only [Fits, not_forall] at short
  obtain ⟨thread, pick, again, timedOut, text, rfl, running, awake, short⟩ := short
  have fitting : text.length ≤ Pack.capacity := holds.running thread _ running
  rw [Program.step_advance running, advance_awake awake]
  exact holds.shared.cuts fitting short thread again _

/-- **Every line is whole.** For any number of threads, in every interleaving, the packs popped
and those in the queue hold the posted texts one after the other, exactly as long as every post
that had to wait finds enough space when it goes on. -/
theorem whole_iff (capacity : UInt32) (choices : List (Choice ι)) :
    Run.Always program.step (fun threads => Whole threads.shared) (fun _ _ => True)
        (start capacity) choices ↔
      Run.Steps program.step Fits (start capacity) choices :=
  Run.always_iff_steps lines.Holds (fun _ holds => holds.shared.whole)
    (fun _ _ holds fits => ⟨trivial, lines_step holds fits⟩)
    (fun _ _ holds short both => cut_of_not_fits holds short both.2) (lines_start capacity)
    choices

end Runs

/-! ## A text that is cut -/

/-- A text that fills a pack. -/
def line : Text := List.replicate Pack.capacity 0

theorem line_length : line.length = Pack.capacity := List.length_replicate

def linePack : Pack := (Pack.new.append line).records line

/-- The log after so many texts that fill a pack, which are all for the logging thread. -/
def logged (count : Nat) : Record Nat where
  queue := ⟨[], List.replicate count linePack, UInt32.ofNat (count * Pack.capacity), queueSize, {},
    {}, AtomicState.none.ok⟩
  posted := List.replicate count line
  early := List.replicate count line
  popped := []
  cut := false
  ended := false

def postsLines (count : Nat) : List (Choice Nat) :=
  (List.replicate count [.call 0 (.post line), .advance 0 (.goesOn 0 0 false)]).flatten

theorem linePack_isFull : linePack.isFull = true := by
  have data : linePack.data = [] ++ line :=
    Pack.append_data_of_fits (line_length ▸ Nat.le_refl _)
  rw [Pack.isFull, beq_iff_eq, Pack.avail, Pack.size, data, List.nil_append, line_length,
    Nat.sub_self]

/-- A queue without packs that allocates one for a text that fills it. -/
theorem post_line {queue : Queue ι} (none : queue.avail = []) (opened : queue.isClose = false)
    (room : ¬ queue.curSize + UInt32.ofNat Pack.capacity > queue.capacity) (thread : ι)
    (pick again : Nat) :
    queue.post thread line pick again = ({ queue with
      avail := []
      logging := queue.logging ++ [linePack]
      curSize := queue.curSize + UInt32.ofNat Pack.capacity
      loggingCondVar := queue.loggingCondVar.notifyOne again }, .returns ()) := by
  have filled : Queue.filled { queue with
      avail := [Pack.new]
      curSize := queue.curSize + UInt32.ofNat Pack.capacity } line = linePack :=
    if_neg (fun closed => Bool.false_ne_true (opened.symm.trans closed))
  have appended := appends_of_full (show Queue.avail { queue with
      avail := [Pack.new]
      curSize := queue.curSize + UInt32.ofNat Pack.capacity } = [] ++ [Pack.new] from rfl)
    (filled ▸ linePack_isFull) again
  rw [post, none]
  change queue.takesPack thread line again = _
  rw [takesPack, getAvail_of_nil none room]
  dsimp only
  rw [appended, filled]
  rfl

/-- While a pack can be allocated, a text that fills one is for the logging thread at once. -/
theorem logged_post {count : Nat} (room : (count + 1) * Pack.capacity ≤ queueSize.toNat) :
    (logged count).goesOn 0 0 0 false (.post line) = (logged (count + 1), none) := by
  have size : UInt32.ofNat (count * Pack.capacity) + UInt32.ofNat Pack.capacity =
      UInt32.ofNat ((count + 1) * Pack.capacity) := by
    rw [← UInt32.ofNat_add, Nat.succ_mul]
  have fits : ¬ UInt32.ofNat (count * Pack.capacity) + UInt32.ofNat Pack.capacity > queueSize := by
    rw [size, gt_iff_lt, UInt32.lt_iff_toNat_lt, UInt32.toNat_ofNat']
    exact Nat.not_lt_of_le (Nat.le_trans (Nat.mod_le _ _) room)
  have opened : (logged count).queue.isClose = false := congrArg not (AtomicState.ok_isOk _)
  rw [Record.goesOn, if_neg (line_length ▸ Nat.lt_irrefl _), post_line rfl opened fits]
  dsimp only [Record.posts]
  rw [opened, if_neg Bool.false_ne_true]
  simp only [logged, size, List.replicate_succ']
  rfl

theorem run_postsLines (count : Nat) (room : count * Pack.capacity ≤ queueSize.toNat) :
    Run.final program.step (start queueSize) (postsLines count) =
      Interleaving.Threads.idle (logged count) := by
  induction count with
  | zero => rfl
  | succ count ih =>
      have before : count * Pack.capacity ≤ queueSize.toNat :=
        Nat.le_trans (Nat.mul_le_mul_right _ (Nat.le_succ _)) room
      have awake : ¬ (logged count).queue.Asleep 0 := fun asleep =>
        asleep.elim List.not_mem_nil List.not_mem_nil
      have idle : (Interleaving.Threads.idle (logged count) : Threads Nat).running 0 = none := rfl
      have posts : program.advance 0 (logged count) (.post line) (.goesOn 0 0 false) =
          (logged (count + 1), none) := by
        rw [advance_awake awake, logged_post room]
      rw [postsLines, List.replicate_succ', List.flatten_append, List.flatten_singleton,
        Run.final_append, ← postsLines, ih before, Run.final, Run.final, Run.final,
        Program.step_call_advance idle]
      refine (congrArg (Interleaving.Threads.move _ 0) posts).trans ?_
      exact congrArg (Interleaving.Threads.mk _) (Function.update_eq_self 0 _)

/-- The log when no pack is left, and the threads that wait for one. -/
def crowded (sleeping : List Nat) (logging : List Pack) (popped : List Pack) : Record Nat where
  queue := ⟨[], logging, UInt32.ofNat (384 * Pack.capacity), queueSize, ⟨sleeping⟩, {},
    AtomicState.none.ok⟩
  posted := List.replicate 384 line
  early := List.replicate 384 line
  popped := popped
  cut := false
  ended := false

/-- A post has to wait then. -/
theorem crowded_post {sleeping : List Nat} {logging popped : List Pack} {thread : Nat}
    (awake : thread ∉ sleeping) {text : Text} (fits : text.length ≤ Pack.capacity) :
    program.advance thread (crowded sleeping logging popped) (.post text) (.goesOn 0 0 false) =
      (crowded (sleeping ++ [thread]) logging popped, some (.waitsAvail text)) := by
  have full : (crowded sleeping logging popped).queue.curSize + UInt32.ofNat Pack.capacity >
      (crowded sleeping logging popped).queue.capacity := by
    change UInt32.ofNat (384 * Pack.capacity) + UInt32.ofNat Pack.capacity > queueSize
    decide
  have waits : (crowded sleeping logging popped).queue.post thread text 0 0 =
      ((crowded (sleeping ++ [thread]) logging popped).queue, .waits) := by
    change (crowded sleeping logging popped).queue.takesPack thread text 0 = _
    rw [takesPack, getAvail_of_full rfl full]
    rfl
  have awake : ¬ (crowded sleeping logging popped).queue.Asleep thread :=
    fun asleep => asleep.elim awake List.not_mem_nil
  rw [advance_awake awake, Record.goesOn, if_neg (Nat.not_lt_of_le fits), waits]
  rfl

/-- The pack that was given back, and a short text in it. -/
def shortPack : Pack := (Pack.new.append [7]).records [7]

/-- The pack that was given back is there for two threads, of which the one with the short text
goes on first. -/
def returned : Record Nat :=
  { crowded [] (List.replicate 382 linePack) [linePack, linePack] with
    queue := { (crowded [] (List.replicate 382 linePack) []).queue with avail := [Pack.new] } }

theorem returned_goesOn : (returned.goesOn 1 0 0 false (.waitsAvail [7])).1.queue =
    { returned.queue with avail := [shortPack] } := by
  have opened : returned.queue.isClose = false := congrArg not (AtomicState.ok_isOk _)
  have filled : returned.queue.filled [7] = shortPack :=
    if_neg (fun closed => Bool.false_ne_true (opened.symm.trans closed))
  have appends := appends_of_not_full (show returned.queue.avail = [] ++ [Pack.new] from rfl)
    (filled ▸ (by decide : ¬ shortPack.isFull = true)) 0
  have takes : returned.queue.takesPack 1 [7] 0 =
      ({ returned.queue with avail := [shortPack] }, .returns ()) := by
    change (returned.queue.appends [7] 0, Section.returns ()) = _
    rw [appends, filled]
    rfl
  rw [Record.goesOn, takes]
  rfl

/-- The packs for the logging thread, when no other is left. -/
def linePacks : List Pack := List.replicate 384 linePack

/-- Nobody is at the log. -/
def pressed : Threads Nat := Interleaving.Threads.idle (crowded [] linePacks [])

/-- Two threads wait. -/
def waiting : Threads Nat :=
  (pressed.move 2 (crowded [2] linePacks [], some (.waitsAvail line))).move 1
    (crowded [2, 1] linePacks [], some (.waitsAvail [7]))

theorem run_waiting : Run.final program.step pressed
    [.call 2 (.post line), .advance 2 (.goesOn 0 0 false), .call 1 (.post [7]),
      .advance 1 (.goesOn 0 0 false)] = waiting := by
  have first : program.step (program.step pressed (.call 2 (.post line)))
      (.advance 2 (.goesOn 0 0 false)) =
        pressed.move 2 (crowded [2] linePacks [], some (.waitsAvail line)) :=
    (Program.step_call_advance rfl _ _).trans (congrArg (pressed.move 2)
      (crowded_post List.not_mem_nil (Nat.le_of_eq line_length)))
  have second : program.advance 1 (crowded [2] linePacks []) (.post [7]) (.goesOn 0 0 false) =
      (crowded [2, 1] linePacks [], some (.waitsAvail [7])) :=
    crowded_post (by decide) (by decide)
  rw [Run.final, Run.final, first, Run.final, Run.final, Run.final,
    Program.step_call_advance rfl]
  exact congrArg (Interleaving.Threads.move _ 1) second

/-- The logging thread gives a pack back. -/
theorem run_returned : Run.final program.step waiting
    [.call 3 .work, .advance 3 (.goesOn 0 0 false), .advance 3 (.goesOn 0 0 false)] =
      waiting.move 3 (returned, some (.pop (some linePack))) := by
  let popped : Record Nat := crowded [2, 1] (linePack :: List.replicate 382 linePack) [linePack]
  have awake : ¬ popped.queue.Asleep 3 := fun asleep => asleep.elim (by decide) List.not_mem_nil
  have first : program.step (program.step waiting (.call 3 .work))
      (.advance 3 (.goesOn 0 0 false)) = waiting.move 3 (popped, some (.pop (some linePack))) :=
    (Program.step_call_advance rfl _ _).trans (congrArg (waiting.move 3) rfl)
  have second : program.advance 3 popped (.pop (some linePack)) (.goesOn 0 0 false) =
      (returned, some (.pop (some linePack))) := advance_awake awake _ 0 0 false
  rw [Run.final, Run.final, first, Run.final, Run.final,
    Program.step_advance (Interleaving.Threads.move_running_self ..)]
  exact (congrArg (Interleaving.Threads.move _ 3) second).trans
    (Interleaving.Threads.move_move ..)

/-- Two threads have to wait for a pack; the logging thread gives one back; and the thread that
posts the short text goes on before the one whose text needs the whole pack. -/
def crowding : List (Choice Nat) :=
  postsLines 384 ++
    ([.call 2 (.post line), .advance 2 (.goesOn 0 0 false), .call 1 (.post [7]),
      .advance 1 (.goesOn 0 0 false)] ++
    ([.call 3 .work, .advance 3 (.goesOn 0 0 false), .advance 3 (.goesOn 0 0 false)] ++
    [.advance 1 (.goesOn 0 0 false)]))

/-- Where the threads stand before the last one goes on. -/
theorem run_crowding :
    (Run.final program.step (start queueSize) crowding).running 2 = some (.waitsAvail line) ∧
      (Run.final program.step (start queueSize) crowding).shared.queue =
        { returned.queue with avail := [shortPack] } := by
  have posted : Run.final program.step (start queueSize) (postsLines 384) = pressed :=
    run_postsLines 384 (by decide)
  have awake : ¬ returned.queue.Asleep 1 := fun asleep =>
    asleep.elim List.not_mem_nil List.not_mem_nil
  have standing : (waiting.move 3 (returned, some (.pop (some linePack)))).running 1 =
      some (.waitsAvail [7]) := rfl
  rw [crowding, Run.final_append, posted, Run.final_append, run_waiting, Run.final_append,
    run_returned, Run.final, Run.final, Program.step_advance standing]
  refine ⟨rfl, ?_⟩
  have moved := congrArg (fun result : Record Nat × Option Operation => result.1.queue)
    (advance_awake awake (.waitsAvail [7]) 0 0 false)
  exact moved.trans returned_goesOn

/-- The thread that goes on last finds too little space. -/
theorem cut_of_crowded {threads : Threads Nat} (running : threads.running 2 = some (.waitsAvail line))
    (queue : threads.shared.queue = { returned.queue with avail := [shortPack] })
    (whole : Whole threads.shared) :
    ¬ Whole (program.step threads (.advance 2 (.goesOn 0 0 false))).shared := by
  have lined : Lined threads.shared := by
    refine ⟨?_, whole⟩
    rw [queue]
    exact nofun
  have awake : ¬ threads.shared.queue.Asleep 2 := by
    rw [queue]
    exact fun asleep => asleep.elim List.not_mem_nil List.not_mem_nil
  have short : ¬ line.length ≤ threads.shared.queue.current.avail := by
    rw [queue, line_length]
    decide
  rw [Program.step_advance running, advance_awake awake]
  exact lined.cuts (Nat.le_of_eq line_length) short 2 0 _

/-- A text that fits into a pack, and is cut: two threads waited for one. -/
theorem line_cut : line.length ≤ Pack.capacity ∧
    ¬ Run.Always program.step (fun threads => Whole threads.shared) (fun _ _ => True)
      (start queueSize) (crowding ++ [.advance 2 (.goesOn 0 0 false)]) := by
  refine ⟨Nat.le_of_eq line_length, fun always => ?_⟩
  obtain ⟨running, queue⟩ := run_crowding
  have last := always.drop
  exact cut_of_crowded running queue last.head last.2.2

end Cube.Eco.Log.Queue
