import Cube.Base.TQueueDelivery

/-! # A message that is overtaken

A thread that has drawn the ticket of a message but has not looked its page up yet keeps the page
from being recycled, but not from being written to: once all other tickets of all page indexes were
drawn, the next post gets the same place of the same page. All the while there are hardly any
messages that were posted and not read.
-/

namespace Cube.Base.TQueue

open Interleaving (Program)

variable {ι μ : Type} {pageBits : Nat} {record : Record ι μ} {thread : ι}

/-! ## Threads that run alone -/

/-- A thread takes so many steps, or fewer if it returns. -/
def Record.steps (pageBits : Nat) (thread : ι) :
    Nat → Record ι μ × Option (Operation μ) → Record ι μ × Option (Operation μ)
  | 0, state => state
  | _ + 1, (record, none) => (record, none)
  | count + 1, (record, some operation) =>
      steps pageBits thread count (record.step pageBits thread operation)

theorem steps_add (first second : Nat) (state : Record ι μ × Option (Operation μ)) :
    Record.steps pageBits thread (first + second) state =
      Record.steps pageBits thread second (Record.steps pageBits thread first state) := by
  induction first generalizing state with
  | zero => rw [Nat.zero_add, Record.steps]
  | succ first ih =>
      rw [Nat.succ_add]
      obtain ⟨record, _ | operation⟩ := state
      · rw [Record.steps, Record.steps]
        cases second <;> rfl
      · rw [Record.steps, Record.steps]
        exact ih _

theorem Elsewhere.trans {first second third : Record ι μ} (before : Elsewhere thread first second)
    (after : Elsewhere thread second third) : Elsewhere thread first third where
  getIndex := Nat.le_trans before.getIndex after.getIndex
  postIndex := Nat.le_trans before.postIndex after.postIndex
  poster ticket other different owned := by
    have stays := before.poster ticket other different owned
    rw [after.poster ticket other different (by rw [stays, owned]), stays]
  getter ticket other different owned := by
    have stays := before.getter ticket other different owned
    rw [after.getter ticket other different (by rw [stays, owned]), stays]
  posted ticket taken := by
    rw [after.posted ticket (Nat.lt_of_lt_of_le taken before.postIndex), before.posted ticket taken]

/-- Tickets are drawn and messages returned, never taken back. -/
theorem step_mono (record : Record ι μ) (operation : Operation μ) :
    record.queue.postIndex ≤ (record.step pageBits thread operation).1.queue.postIndex ∧
      record.results.length ≤ (record.step pageBits thread operation).1.results.length := by
  have returns (ticket : Nat) (msg : Option μ) :
      record.results.length ≤ (record.results ++ [(ticket, msg)]).length := by
    rw [List.length_append]
    exact Nat.le_add_right _ _
  cases operation with
  | postTicket msg => exact ⟨Nat.le_succ _, Nat.le_refl _⟩
  | postLookup msg ticket => exact ⟨Nat.le_of_eq (getMsgPage_postIndex ..).symm, Nat.le_refl _⟩
  | getBound index again =>
      rw [Record.step]
      split <;> exact ⟨Nat.le_refl _, Nat.le_refl _⟩
  | getExchange index =>
      rw [Record.step]
      split <;> exact ⟨Nat.le_refl _, Nat.le_refl _⟩
  | getLookup ticket => exact ⟨Nat.le_of_eq (getMsgPage_postIndex ..).symm, Nat.le_refl _⟩
  | getTest ticket page =>
      rw [Record.step]
      split <;> exact ⟨Nat.le_refl _, Nat.le_refl _⟩
  | getCount ticket msg =>
      rw [Record.step]
      dsimp only
      split
      next => exact ⟨Nat.le_refl _, Nat.le_refl _⟩
      next => exact ⟨Nat.le_refl _, returns ticket msg⟩
  | getRecycle ticket msg =>
      exact ⟨Nat.le_of_eq (recycleMsgPage_postIndex ..).symm, returns ticket msg⟩
  | _ => exact ⟨Nat.le_refl _, Nat.le_refl _⟩

theorem steps_mono (count : Nat) (state : Record ι μ × Option (Operation μ)) :
    state.1.queue.postIndex ≤ (Record.steps pageBits thread count state).1.queue.postIndex := by
  induction count generalizing state with
  | zero => exact Nat.le_refl _
  | succ count ih =>
      obtain ⟨record, _ | operation⟩ := state
      · exact Nat.le_refl _
      · exact Nat.le_trans (step_mono record operation).1 (ih _)

/-- No page index is used again in the first lap. -/
theorem readBefore_first {ticket : Nat} (below : ticket < 2 ^ pageBits * pageMsgCount) :
    record.ReadBefore pageBits ticket := by
  intro earlier before index apart
  have small {ticket : Nat} (below : ticket < 2 ^ pageBits * pageMsgCount) :
      pageNumber ticket < 2 ^ pageBits := (Nat.div_lt_iff_lt_mul pageMsgCount_pos).mpr below
  rw [pageIndex_eq, pageIndex_eq, Nat.mod_eq_of_lt (small below),
    Nat.mod_eq_of_lt (small (Nat.lt_trans before below))] at index
  exact absurd index apart

theorem Sound.pagesRead_first (sound : Sound pageBits record) {operation : Operation μ}
    (stands : Stands thread record operation)
    (lap : record.queue.postIndex ≤ 2 ^ pageBits * pageMsgCount) :
    record.PagesRead pageBits operation := by
  cases operation with
  | postLookup msg ticket =>
      apply readBefore_first
      exact Nat.lt_of_lt_of_le (sound.taken_of_poster (by rw [stands.1]; exact nofun)) lap
  | getLookup ticket =>
      apply readBefore_first
      exact Nat.lt_of_lt_of_le (sound.taken_of_getter (by rw [stands]; exact nofun)) lap
  | _ => trivial

/-- What a thread that runs alone keeps in the first lap. -/
theorem Sound.steps (state : Record ι μ × Option (Operation μ)) (sound : Sound pageBits state.1)
    (stands : ∀ operation, state.2 = some operation → Stands thread state.1 operation) {count : Nat}
    (lap : (Record.steps pageBits thread count state).1.queue.postIndex ≤
      2 ^ pageBits * pageMsgCount) :
    Sound pageBits (Record.steps pageBits thread count state).1 ∧
      Elsewhere thread state.1 (Record.steps pageBits thread count state).1 := by
  induction count generalizing state with
  | zero => exact ⟨sound, .refl _⟩
  | succ count ih =>
      have here := Nat.le_trans (steps_mono _ _) lap
      obtain ⟨record, _ | operation⟩ := state
      · exact ⟨sound, .refl _⟩
      · have standsHere := stands operation rfl
        rw [Record.steps] at lap ⊢
        obtain ⟨soundAfter, elsewhere⟩ := ih _
          (sound.step standsHere (sound.pagesRead_first standsHere here))
          (fun next goesOn => sound.stands_next standsHere goesOn) lap
        exact ⟨soundAfter, (sound.elsewhere standsHere).trans elsewhere⟩

/-! ## Posting and getting alone -/

/-- A message is posted. -/
theorem steps_post (pageBits : Nat) (thread : ι) (record : Record ι μ) (msg : μ) :
    let after := Record.steps pageBits thread 4 (record, some (.postTicket msg))
    after.2 = none ∧ after.1.queue.postIndex = record.queue.postIndex + 1 ∧
      after.1.queue.getIndex = record.queue.getIndex ∧ after.1.results = record.results ∧
      after.1.posted = Function.update record.posted record.queue.postIndex (some msg) ∧
      after.1.poster record.queue.postIndex = .done ∧
      ∀ other ≠ record.queue.postIndex, after.1.poster other = record.poster other := by
  refine ⟨rfl, getMsgPage_postIndex .., getMsgPage_getIndex .., rfl, rfl,
    Function.update_self .., fun other different => ?_⟩
  refine (Function.update_of_ne different _ _).trans ?_
  refine (Function.update_of_ne different _ _).trans ?_
  refine (Function.update_of_ne different _ _).trans ?_
  exact Function.update_of_ne different _ _

/-- The ticket of a message to be got is drawn. -/
theorem steps_exchange (posted : record.queue.getIndex < record.queue.postIndex) :
    Record.steps pageBits thread 4 (record, some .getRead) =
      (record.gets { record.queue with getIndex := record.queue.getIndex + 1 }
        record.queue.getIndex (.taken thread), some (.getLookup record.queue.getIndex)) := by
  change Record.steps pageBits thread 2
    (record, some (.getBound record.queue.getIndex record.queue.getIndex)) = _
  rw [Record.steps, Record.step, if_neg (Nat.not_le_of_lt posted), Record.steps, Record.step,
    if_pos rfl, Record.steps]

/-- A message that is in its page is read. -/
theorem steps_read (thread : ι) {ticket page : Nat} {msg : Option μ}
    (there : record.queue.pageIndexes (pageIndex pageBits ticket) = some page)
    (intact : record.queue.pages page (msgIndex ticket) = ⟨msg, true⟩) :
    ∃ after : Record ι μ, Record.steps pageBits thread 3 (record, some (.getLookup ticket)) =
        (after, some (.getCount ticket msg)) ∧ after.queue = record.queue ∧
      after.results = record.results ∧ after.posted = record.posted ∧
      after.poster = record.poster := by
  have looked : record.queue.getMsgPage (pageIndex pageBits ticket) = (record.queue, page) := by
    rw [getMsgPage, there]
  have flag : (record.queue.pages page (msgIndex ticket)).flag = true := by rw [intact]
  have slot : (record.queue.pages page (msgIndex ticket)).msg = msg := by rw [intact]
  let found := record.gets record.queue ticket (.found thread page)
  let flagged := (found.uses page).gets record.queue ticket (.flagged thread page)
  have lookup : record.step pageBits thread (.getLookup ticket) =
      (found, some (.getTest ticket page)) := by
    rw [Record.step, looked]
  have test : found.step pageBits thread (.getTest ticket page) =
      (flagged, some (.getSlot ticket page)) := if_pos flag
  have read : flagged.step pageBits thread (.getSlot ticket page) =
      ((flagged.uses page).gets record.queue ticket (.read thread),
        some (.getCount ticket msg)) := by
    rw [← slot]
    rfl
  refine ⟨(flagged.uses page).gets record.queue ticket (.read thread), ?_, rfl, rfl, rfl, rfl⟩
  rw [Record.steps, lookup, Record.steps, test, Record.steps, read, Record.steps]

/-- A message that was read is returned. -/
theorem steps_count (pageBits : Nat) (thread : ι) (record : Record ι μ) (ticket : Nat) (msg : Option μ) :
    let after := Record.steps pageBits thread 2 (record, some (.getCount ticket msg))
    after.2 = none ∧ after.1.queue.postIndex = record.queue.postIndex ∧
      after.1.queue.getIndex = record.queue.getIndex ∧
      after.1.results = record.results ++ [(ticket, msg)] ∧
      after.1.posted = record.posted ∧ after.1.poster = record.poster := by
  rw [Record.steps, Record.step]
  dsimp only
  split
  next => exact ⟨rfl, recycleMsgPage_postIndex .., recycleMsgPage_getIndex .., rfl, rfl, rfl⟩
  next => exact ⟨rfl, rfl, rfl, rfl, rfl, rfl⟩

/-- A message that is in its page is got. -/
theorem steps_lookup (record : Record ι μ) (thread : ι) {ticket page : Nat} {msg : Option μ}
    (there : record.queue.pageIndexes (pageIndex pageBits ticket) = some page)
    (intact : record.queue.pages page (msgIndex ticket) = ⟨msg, true⟩) :
    let after := Record.steps pageBits thread 5 (record, some (.getLookup ticket))
    after.2 = none ∧ after.1.queue.postIndex = record.queue.postIndex ∧
      after.1.queue.getIndex = record.queue.getIndex ∧
      after.1.results = record.results ++ [(ticket, msg)] ∧
      after.1.posted = record.posted ∧ after.1.poster = record.poster := by
  obtain ⟨read, reads, queue, results, posted, poster⟩ := steps_read thread there intact
  rw [steps_add 3 2, reads]
  have counts := steps_count pageBits thread read ticket msg
  rw [queue, results, posted, poster] at counts
  exact counts

/-- A thread that is the only one to move posts a message. -/
theorem Sound.post_alone (sound : Sound pageBits record) (msg : μ) (thread : ι)
    (lap : record.queue.postIndex < 2 ^ pageBits * pageMsgCount) :
    let after := Record.steps pageBits thread 4 (record, some (.postTicket msg))
    Sound pageBits after.1 ∧ Elsewhere thread record after.1 := by
  apply sound.steps (record, some (.postTicket msg))
  · rintro _ ⟨⟩
    trivial
  · rw [(steps_post pageBits thread record msg).2.1]
    exact lap

/-- A thread that is the only one to move gets a message that was posted. -/
theorem Sound.get_alone (sound : Sound pageBits record) (thread : ι)
    (posted : record.queue.getIndex < record.queue.postIndex)
    (done : record.poster record.queue.getIndex = .done)
    (lap : record.queue.postIndex ≤ 2 ^ pageBits * pageMsgCount) :
    let after := Record.steps pageBits thread 9 (record, some .getRead)
    Sound pageBits after.1 ∧ Elsewhere thread record after.1 ∧ after.2 = none ∧
      after.1.queue.postIndex = record.queue.postIndex ∧
      after.1.queue.getIndex = record.queue.getIndex + 1 ∧
      after.1.results.length = record.results.length + 1 ∧
      after.1.posted = record.posted ∧ after.1.poster = record.poster := by
  have untaken := (sound.getting record.queue.getIndex).mpr (Nat.le_refl _)
  have current := sound.current (.inl (by rw [done]; rfl)) (by rw [untaken]; exact nofun)
  obtain ⟨page, there⟩ := Option.ne_none_iff_exists'.mp (sound.donePage _ current done)
  have flag := (sound.flags _ page current there).mpr done
  have intact : record.queue.pages page (msgIndex record.queue.getIndex) =
      ⟨(record.queue.pages page (msgIndex record.queue.getIndex)).msg, true⟩ := by
    rw [← flag]
  have steps := steps_lookup (record.gets
    { record.queue with getIndex := record.queue.getIndex + 1 } record.queue.getIndex
    (.taken thread)) thread there intact
  rw [← steps_exchange posted, ← steps_add 4 5] at steps
  obtain ⟨returns, postIndex, getIndex, results, postedAfter, poster⟩ := steps
  obtain ⟨soundAfter, elsewhere⟩ := sound.steps (record, some .getRead)
    (by
      rintro _ ⟨⟩
      trivial) (Nat.le_trans (Nat.le_of_eq postIndex) lap)
  refine ⟨soundAfter, elsewhere, returns, postIndex, getIndex, ?_, postedAfter, poster⟩
  rw [results, List.length_append]
  rfl

/-! ## The threads -/

/-- A thread is the only one to move. -/
def alone (thread : ι) (count : Nat) : List (Choice ι μ) := List.replicate count (.advance thread ())

section Threads

variable [DecidableEq ι] {threads : Threads ι μ}

theorem final_alone (count : Nat) {running : Option (Operation μ)}
    (stands : threads.running thread = running) :
    Run.final (program pageBits).step threads (alone thread count) =
      threads.move thread (Record.steps pageBits thread count (threads.shared, running)) := by
  induction count generalizing threads running with
  | zero =>
      rw [Record.steps, ← stands, Interleaving.Threads.move, Function.update_eq_self]
      rfl
  | succ count ih =>
      rw [alone, List.replicate_succ, Run.final]
      cases running with
      | none =>
          have idle : (program pageBits).step threads (.advance thread ()) = threads := by
            simp only [Program.step, stands]
          rw [idle]
          refine (ih stands).trans ?_
          cases count <;> rfl
      | some operation =>
          rw [Program.step_advance stands]
          refine (ih (threads.move_running_self ..)).trans ?_
          rw [Interleaving.Threads.move_move]
          rfl

/-- An idle thread makes a call, and is the only one to move until it returns. -/
theorem final_call_alone (idle : threads.running thread = none) (call : Call μ) (count : Nat)
    {operation : Operation μ}
    (enters : (program pageBits).enter thread threads.shared call = (threads.shared, operation))
    (returns : (Record.steps pageBits thread count (threads.shared, some operation)).2 = none) :
    Run.final (program pageBits).step threads (.call thread call :: alone thread count) =
      ⟨(Record.steps pageBits thread count (threads.shared, some operation)).1,
        threads.running⟩ := by
  rw [Run.final, Program.step_call idle, enters,
    final_alone count (Interleaving.Threads.move_running_self ..), Interleaving.Threads.move_move]
  change (⟨_, Function.update threads.running thread
    (Record.steps pageBits thread count (threads.shared, some operation)).2⟩ : Threads ι μ) = _
  rw [returns, ← idle, Function.update_eq_self]
  rfl

end Threads

/-! ## Messages that are posted and not read -/

/-- How many messages were posted, or are being posted, and have not been returned. -/
def Record.unread (record : Record ι μ) : Nat := record.queue.postIndex - record.results.length

/-- There are no more messages than all pages but one hold. -/
def Bounded (pageBits : Nat) (threads : Threads ι μ) : Prop :=
  threads.shared.unread ≤ (2 ^ pageBits - 1) * pageMsgCount

section Bounds

variable [DecidableEq ι] {threads : Threads ι μ}

theorem threads_mono (threads : Threads ι μ) (choice : Choice ι μ) :
    threads.shared.queue.postIndex ≤
        ((program pageBits).step threads choice).shared.queue.postIndex ∧
      threads.shared.results.length ≤
        ((program pageBits).step threads choice).shared.results.length := by
  rcases (program pageBits).step_cases threads choice with
    ⟨unchanged, _⟩ | ⟨thread, call, rfl, idle⟩ | ⟨thread, input, operation, rfl, running⟩
  · rw [unchanged]
    exact ⟨Nat.le_refl _, Nat.le_refl _⟩
  · rw [Program.step_call idle]
    cases call <;> exact ⟨Nat.le_refl _, Nat.le_refl _⟩
  · rw [Program.step_advance running]
    exact step_mono threads.shared operation

theorem postIndex_le_final (threads : Threads ι μ) (choices : List (Choice ι μ)) :
    threads.shared.queue.postIndex ≤
      (Run.final (program pageBits).step threads choices).shared.queue.postIndex :=
  Run.final_of_kept
    (fun later : Threads ι μ => threads.shared.queue.postIndex ≤ later.shared.queue.postIndex)
    (fun later choice before => Nat.le_trans before (threads_mono later choice).1)
    (Nat.le_refl _) choices

/-- A run that ends with few more messages posted than were returned when it began. -/
theorem always_bounded {choices : List (Choice ι μ)} {bound : Nat}
    (last : (Run.final (program pageBits).step threads choices).shared.queue.postIndex ≤
      threads.shared.results.length + bound) :
    Run.Always (program pageBits).step
      (fun threads : Threads ι μ => threads.shared.unread ≤ bound) (fun _ _ => True) threads
      choices := by
  have here {threads : Threads ι μ} {choices : List (Choice ι μ)}
      (last : (Run.final (program pageBits).step threads choices).shared.queue.postIndex ≤
        threads.shared.results.length + bound) : threads.shared.unread ≤ bound :=
    Nat.sub_le_of_le_add (by
      rw [Nat.add_comm]
      exact Nat.le_trans (postIndex_le_final threads choices) last)
  induction choices generalizing threads with
  | nil => exact here last
  | cons choice choices ih =>
      refine ⟨here last, trivial, ih (Nat.le_trans last ?_)⟩
      exact Nat.add_le_add_right (threads_mono threads choice).2 bound

end Bounds

/-! ## The run -/

/-- The first message is posted, and its ticket is drawn. -/
def opening : List (Choice Nat Bool) :=
  (.call 1 (.post false) :: alone 1 4) ++ (.call 0 .get :: alone 0 4)

/-- A message is posted and read. -/
def exchange : List (Choice Nat Bool) :=
  (.call 1 (.post true) :: alone 1 4) ++ (.call 2 .get :: alone 2 9)

/-- A message is written to its page, and the first message is read. -/
def closing : List (Choice Nat Bool) := (.call 1 (.post true) :: alone 1 3) ++ alone 0 5

/-- All other tickets of all page indexes are drawn in between. -/
def overtaking (pageBits : Nat) : List (Choice Nat Bool) :=
  opening ++ ((List.replicate (2 ^ pageBits * pageMsgCount - 1) exchange).flatten ++ closing)

/-- One thread has drawn the first ticket, and the messages of all others were read. -/
structure Stalled (pageBits tickets : Nat) (threads : Threads Nat Bool) : Prop where
  sound : Sound pageBits threads.shared
  reader : threads.running 0 = some (.getLookup 0)
  idle : ∀ thread ≠ 0, threads.running thread = none
  drawn : threads.shared.getter 0 = .taken 0
  posted : threads.shared.posted 0 = some false
  done : threads.shared.poster 0 = .done
  postIndex : threads.shared.queue.postIndex = tickets
  getIndex : threads.shared.queue.getIndex = tickets
  results : threads.shared.results.length + 1 = tickets

/-- The ticket of the first message is drawn. -/
theorem stalled_drawn {record : Record Nat Bool} (sound : Sound pageBits record)
    (postIndex : record.queue.postIndex = 1) (getIndex : record.queue.getIndex = 0)
    (results : record.results = []) (posted : record.posted 0 = some false)
    (done : record.poster 0 = .done) :
    Stalled pageBits 1 (Run.final (program pageBits).step
      (⟨record, fun _ => none⟩ : Threads Nat Bool) (.call 0 .get :: alone 0 4)) := by
  have available : record.queue.getIndex < record.queue.postIndex := by
    rw [getIndex, postIndex]
    exact Nat.zero_lt_one
  have soundAfter : Sound pageBits (Record.steps pageBits 0 4 (record, some .getRead)).1 := by
    apply (sound.steps (record, some .getRead) _ _).1
    · rintro _ ⟨⟩
      trivial
    · rw [steps_exchange available]
      change record.queue.postIndex ≤ _
      rw [postIndex]
      exact Nat.mul_pos (Nat.two_pow_pos _) pageMsgCount_pos
  rw [steps_exchange available, getIndex] at soundAfter
  rw [Run.final, Program.step_call rfl, final_alone 4 (Interleaving.Threads.move_running_self ..),
    Interleaving.Threads.move_move]
  change Stalled pageBits 1 (Interleaving.Threads.move _ _
    (Record.steps pageBits 0 4 (record, some .getRead)))
  rw [steps_exchange available, getIndex]
  exact
    { sound := soundAfter
      reader := Interleaving.Threads.move_running_self ..
      idle := fun thread different => Interleaving.Threads.move_running_of_ne _ _ different
      drawn := by
        change Function.update record.getter 0 (.taken 0) 0 = _
        exact Function.update_self ..
      posted := posted
      done := done
      postIndex := postIndex
      getIndex := rfl
      results := by
        change record.results.length + 1 = 1
        rw [results]
        rfl }

theorem stalled_opening :
    Stalled pageBits 1 (Run.final (program pageBits).step start opening) := by
  have lap : (Record.new : Record Nat Bool).queue.postIndex < 2 ^ pageBits * pageMsgCount :=
    Nat.mul_pos (Nat.two_pow_pos _) pageMsgCount_pos
  obtain ⟨returns, postIndex, getIndex, results, posted, done, _⟩ :=
    steps_post pageBits 1 (Record.new : Record Nat Bool) false
  rw [opening, Run.final_append,
    final_call_alone (show (start : Threads Nat Bool).running 1 = none from rfl) (.post false) 4 rfl returns]
  apply stalled_drawn (sound_new.post_alone false 1 lap).1 postIndex getIndex results _ done
  rw [posted]
  exact Function.update_self ..

/-- While the first message waits to be read, another one that was posted is read. -/
theorem stalled_read {tickets : Nat} {threads : Threads Nat Bool}
    (sound : Sound pageBits threads.shared) (reader : threads.running 0 = some (.getLookup 0))
    (idle : ∀ thread ≠ 0, threads.running thread = none)
    (drawn : threads.shared.getter 0 = .taken 0) (posted : threads.shared.posted 0 = some false)
    (done : threads.shared.poster 0 = .done) (last : threads.shared.poster tickets = .done)
    (postIndex : threads.shared.queue.postIndex = tickets + 1)
    (getIndex : threads.shared.queue.getIndex = tickets)
    (results : threads.shared.results.length + 1 = tickets)
    (below : tickets < 2 ^ pageBits * pageMsgCount) :
    Stalled pageBits (tickets + 1) (Run.final (program pageBits).step threads
      (.call 2 .get :: alone 2 9)) := by
  have available : threads.shared.queue.getIndex < threads.shared.queue.postIndex := by
    rw [getIndex, postIndex]
    exact Nat.lt_succ_self _
  obtain ⟨soundAfter, elsewhere, returns, postIndexAfter, getIndexAfter, resultsAfter,
    postedAfter, posterAfter⟩ := sound.get_alone 2 available (by rw [getIndex, last])
    (by rw [postIndex]; exact below)
  rw [final_call_alone (idle 2 (by decide)) .get 9 rfl returns]
  exact
    { sound := soundAfter
      reader := reader
      idle := idle
      drawn := (elsewhere.getter 0 0 (by decide) (by rw [drawn]; rfl)).trans drawn
      posted := (congrFun postedAfter 0).trans posted
      done := (congrFun posterAfter 0).trans done
      postIndex := postIndexAfter.trans postIndex
      getIndex := by rw [getIndexAfter, getIndex]
      results := by rw [resultsAfter, results] }

/-- Another message is posted and read. -/
theorem Stalled.exchange {tickets : Nat} {threads : Threads Nat Bool}
    (stalled : Stalled pageBits tickets threads) (below : tickets < 2 ^ pageBits * pageMsgCount) :
    Stalled pageBits (tickets + 1) (Run.final (program pageBits).step threads exchange) := by
  have lap : threads.shared.queue.postIndex < 2 ^ pageBits * pageMsgCount := by
    rw [stalled.postIndex]
    exact below
  have later : 0 ≠ threads.shared.queue.postIndex := by
    rw [stalled.postIndex, ← stalled.results]
    exact (Nat.succ_ne_zero _).symm
  obtain ⟨returns, postIndex, getIndex, results, posted, done, doneOther⟩ :=
    steps_post pageBits 1 threads.shared true
  obtain ⟨sound, elsewhere⟩ := stalled.sound.post_alone true 1 lap
  rw [TQueue.exchange, Run.final_append,
    final_call_alone (stalled.idle 1 (by decide)) (.post true) 4 rfl returns]
  apply stalled_read
  · exact sound
  · exact stalled.reader
  · exact stalled.idle
  · exact (elsewhere.getter 0 0 (by decide) (by rw [stalled.drawn]; rfl)).trans stalled.drawn
  · rw [posted]
    exact (Function.update_of_ne later _ _).trans stalled.posted
  · rw [doneOther 0 later]
    exact stalled.done
  · rw [← stalled.postIndex]
    exact done
  · rw [postIndex, stalled.postIndex]
  · rw [getIndex, stalled.getIndex]
  · rw [results, stalled.results]
  · exact below

/-- There are no more than two messages that were posted and not read. -/
theorem Stalled.exchange_bounded {tickets : Nat} {threads : Threads Nat Bool}
    (stalled : Stalled pageBits tickets threads) (below : tickets < 2 ^ pageBits * pageMsgCount) :
    Run.Always (program pageBits).step (fun threads => threads.shared.unread ≤ 2)
      (fun _ _ => True) threads TQueue.exchange := by
  apply always_bounded
  rw [(stalled.exchange below).postIndex, ← stalled.results]

/-- All tickets are drawn in turn. -/
theorem Stalled.exchanges {tickets : Nat} {threads : Threads Nat Bool}
    (stalled : Stalled pageBits tickets threads) (count : Nat)
    (below : tickets + count ≤ 2 ^ pageBits * pageMsgCount) :
    Stalled pageBits (tickets + count) (Run.final (program pageBits).step threads
        (List.replicate count TQueue.exchange).flatten) ∧
      Run.Always (program pageBits).step (fun threads => threads.shared.unread ≤ 2)
        (fun _ _ => True) threads (List.replicate count TQueue.exchange).flatten := by
  induction count generalizing tickets threads with
  | zero =>
      refine ⟨stalled, always_bounded ?_⟩
      rw [← stalled.results] at below
      exact Nat.le_trans (Nat.le_of_eq (stalled.postIndex.trans stalled.results.symm))
        (Nat.add_le_add_left (by decide) _)
  | succ count ih =>
      have here : tickets < 2 ^ pageBits * pageMsgCount :=
        Nat.lt_of_lt_of_le (Nat.lt_add_of_pos_right (Nat.succ_pos count)) below
      rw [Nat.add_comm count, ← Nat.add_assoc] at below ⊢
      obtain ⟨after, bounded⟩ := ih (stalled.exchange here) below
      rw [Nat.add_comm 1, List.replicate_succ, List.flatten_cons, Run.final_append]
      exact ⟨after, (stalled.exchange_bounded here).append bounded⟩

/-! ## The first message is overtaken -/

theorem setMsg_self {queue : TQueue μ} {page index : Nat} {flag : Bool} (msg : μ)
    (flagged : (queue.pages page index).flag = flag) :
    (queue.setMsg page index msg).pages page index = ⟨some msg, flag⟩ := by
  rw [setMsg]
  dsimp only
  rw [Function.update_self, Function.update_self, flagged]

/-- A message is posted to a page that is there, up to the flag. -/
theorem steps_write (thread : ι) {page : Nat} (msg : μ)
    (there : record.queue.pageIndexes (pageIndex pageBits record.queue.postIndex) = some page) :
    let after := Record.steps pageBits thread 3 (record, some (.postTicket msg))
    after.1.queue.pageIndexes = record.queue.pageIndexes ∧
      after.1.queue.pages =
        (record.queue.setMsg page (msgIndex record.queue.postIndex) msg).pages ∧
      after.1.queue.postIndex = record.queue.postIndex + 1 ∧
      after.1.results = record.results ∧
      after.1.posted = Function.update record.posted record.queue.postIndex (some msg) := by
  let ticket := record.queue.postIndex
  let drawn := (record.step pageBits thread (.postTicket msg)).1
  let found := drawn.posts drawn.queue ticket (.found thread page)
  have lookup : drawn.step pageBits thread (.postLookup msg ticket) =
      (found, some (.postWrite msg ticket page)) := by
    have looked : drawn.queue.getMsgPage (pageIndex pageBits ticket) = (drawn.queue, page) := by
      rw [getMsgPage, show drawn.queue.pageIndexes _ = some page from there]
    rw [Record.step, looked]
  have steps : Record.steps pageBits thread 3 (record, some (.postTicket msg)) =
      found.step pageBits thread (.postWrite msg ticket page) := by
    rw [Record.steps]
    change Record.steps pageBits thread 2 (drawn, some (.postLookup msg ticket)) = _
    rw [Record.steps, lookup, Record.steps]
    rfl
  rw [steps]
  exact ⟨rfl, rfl, rfl, rfl, rfl⟩

theorem Stalled.final_closing {tickets : Nat} {threads : Threads Nat Bool}
    (stalled : Stalled pageBits tickets threads) :
    (Run.final (program pageBits).step threads closing).shared =
      (Record.steps pageBits 0 5
        ((Record.steps pageBits 1 3 (threads.shared, some (.postTicket true))).1,
          some (.getLookup 0))).1 := by
  have reader (result : Record Nat Bool × Option (Operation Bool)) :
      (threads.move 1 result).running 0 = some (.getLookup 0) :=
    (threads.move_running_of_ne result (by decide)).trans stalled.reader
  rw [closing, Run.final_append, Run.final, Program.step_call (stalled.idle 1 (by decide)),
    final_alone 3 (Interleaving.Threads.move_running_self ..), Interleaving.Threads.move_move,
    final_alone 5 (reader _)]
  rfl

/-- **The slip.** A message is written over the first one, and the thread that has drawn the ticket
of the first message gets it. -/
theorem Stalled.closing {threads : Threads Nat Bool}
    (stalled : Stalled pageBits (2 ^ pageBits * pageMsgCount) threads) :
    let after := Run.final (program pageBits).step threads closing
    (0, some true) ∈ after.shared.results ∧ after.shared.posted 0 = some false ∧
      after.shared.queue.postIndex = threads.shared.results.length + 2 := by
  have index : pageIndex pageBits threads.shared.queue.postIndex = pageIndex pageBits 0 := by
    rw [stalled.postIndex, pageIndex_eq, pageIndex_eq, pageNumber_mul, Nat.mod_self]
    exact (Nat.zero_mod _).symm
  have place : msgIndex threads.shared.queue.postIndex = msgIndex 0 := by
    rw [stalled.postIndex, msgIndex_eq, msgIndex_eq, Nat.mul_mod_left]
    exact (Nat.zero_mod _).symm
  have current : Record.Current pageBits threads.shared 0 :=
    stalled.sound.current (.inl (by rw [stalled.done]; rfl)) (by rw [stalled.drawn]; exact nofun)
  obtain ⟨page, there⟩ := Option.ne_none_iff_exists'.mp
    (stalled.sound.donePage 0 current stalled.done)
  have flag := (stalled.sound.flags 0 page current there).mpr stalled.done
  obtain ⟨pageIndexes, pages, postIndex, results, posted⟩ := steps_write 1 true
    (show threads.shared.queue.pageIndexes (pageIndex pageBits _) = some page by rw [index, there])
  have overwritten : (Record.steps pageBits 1 3 (threads.shared, some (.postTicket true))).1.queue.pages
      page (msgIndex 0) = ⟨some true, true⟩ := by
    rw [pages, place]
    exact setMsg_self true flag
  obtain ⟨_, postIndexAfter, _, resultsAfter, postedAfter, _⟩ := steps_lookup _ 0
    ((congrFun pageIndexes _).trans there) overwritten
  have later : 0 ≠ threads.shared.queue.postIndex := by
    rw [stalled.postIndex, ← stalled.results]
    exact (Nat.succ_ne_zero _).symm
  dsimp only
  rw [stalled.final_closing]
  refine ⟨?_, ?_, ?_⟩
  · rw [resultsAfter]
    exact List.mem_append_right _ List.mem_cons_self
  · rw [postedAfter, posted]
    exact (Function.update_of_ne later _ _).trans stalled.posted
  · rw [postIndexAfter, postIndex, stalled.postIndex, ← stalled.results]

/-- All tickets of the first lap are drawn, with never more than two messages unread. -/
theorem final_overtaking : Stalled pageBits (2 ^ pageBits * pageMsgCount)
    (Run.final (program pageBits).step
      (Run.final (program pageBits).step start opening)
        (List.replicate (2 ^ pageBits * pageMsgCount - 1) exchange).flatten) ∧
    Run.Always (program pageBits).step (fun threads => threads.shared.unread ≤ 2)
      (fun _ _ => True) start (overtaking pageBits) := by
  have tickets : 1 + (2 ^ pageBits * pageMsgCount - 1) = 2 ^ pageBits * pageMsgCount :=
    Nat.add_sub_cancel' (Nat.mul_pos (Nat.two_pow_pos _) pageMsgCount_pos)
  obtain ⟨stalled, bounded⟩ := stalled_opening.exchanges _ (Nat.le_of_eq tickets)
  rw [tickets] at stalled
  have opened : Run.Always (program pageBits).step (fun threads => threads.shared.unread ≤ 2)
      (fun _ _ => True) start opening := by
    apply always_bounded
    rw [stalled_opening.postIndex]
    exact Nat.le_add_left 1 _
  have closed : Run.Always (program pageBits).step (fun threads => threads.shared.unread ≤ 2)
      (fun _ _ => True) _ TQueue.closing :=
    always_bounded (Nat.le_of_eq stalled.closing.2.2)
  exact ⟨stalled, opened.append (bounded.append closed)⟩

/-- Where another message than the one posted was returned, the messages were not delivered. -/
theorem not_delivered_of_returned {threads : Threads ι μ} {ticket : Nat} {msg other : Option μ}
    (returned : (ticket, other) ∈ threads.shared.results)
    (posted : threads.shared.posted ticket = msg) (different : msg ≠ other) :
    ¬ Delivered pageBits threads := fun delivered =>
  different (posted.symm.trans (delivered.values _ returned))

theorem overtaking_not_delivered :
    ¬ Delivered pageBits (Run.final (program pageBits).step start (overtaking pageBits)) := by
  rw [overtaking, Run.final_append, Run.final_append]
  obtain ⟨returned, posted, _⟩ := final_overtaking.1.closing
  exact not_delivered_of_returned returned posted nofun

/-- **A message that is overtaken.** With never more than two messages that were posted and not
read, the first one is lost, and a later one is returned in its place. -/
theorem message_overtaken :
    Run.Always (program opQueuePageBits).step (Bounded opQueuePageBits)
        (fun _ _ => True) start (overtaking opQueuePageBits) ∧
      ¬ Delivered opQueuePageBits
        (Run.final (program opQueuePageBits).step start (overtaking opQueuePageBits)) := by
  refine ⟨final_overtaking.2.imp fun threads unread => Nat.le_trans unread ?_,
    overtaking_not_delivered⟩
  rw [opQueuePageBits, pageMsgCount]
  omega

end Cube.Base.TQueue
