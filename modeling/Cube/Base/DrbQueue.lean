import Cube.Base.MQueue

/-! # The durable queue

`drb_queue` never removes a message: any number of threads push messages and get them by their
positions. The table of the pages is extended when a page is looked up that it has no place for.
Every step of the model is one atomic step of `push` or `get`.
-/

namespace Cube.Base

open MQueue

structure DrbQueue (μ : Type) where
  pageIndexes : PageTable (Message μ)
  pageIndexCount : Nat
  postIndex : Nat
  writeIndex : Nat

namespace DrbQueue

variable {ι μ : Type}

/-! ## Sizes -/

/-- `while ((int(1) << page_msg_bits_) < page_msg_count) page_msg_bits_++`, for so many rounds at
most. -/
def widen (pageMsgCount : Int) : Nat → Nat → Nat
  | 0, pageMsgBits => pageMsgBits
  | rounds + 1, pageMsgBits =>
      if 2 ^ pageMsgBits < pageMsgCount then widen pageMsgCount rounds (pageMsgBits + 1)
      else pageMsgBits

/-- `page_msg_count`, of which a power of two that is not less is an `int`. -/
structure PageMsgCount where
  count : Int
  fits : count ≤ 2 ^ 30

def defaultPageMsgCount : PageMsgCount := ⟨8, by decide⟩

/-- `init_page_msg_count` by default. -/
def defaultPageIndexCount : Nat := 2

/-- `page_msg_bits_`. -/
def PageMsgCount.bits (pageMsgCount : PageMsgCount) : Nat :=
  widen pageMsgCount.count pageMsgCount.count.toNat 1

/-- `while (page_index > extend_size) extend_size <<= 1`, for so many rounds at most. -/
def extend (pageIndex : Nat) : Nat → Nat → Nat
  | 0, extendSize => extendSize
  | rounds + 1, extendSize =>
      if pageIndex > extendSize then extend pageIndex rounds (extendSize <<< 1) else extendSize

theorem le_widen {pageMsgCount : Int} {rounds pageMsgBits : Nat}
    (enough : pageMsgCount.toNat ≤ rounds + pageMsgBits) :
    pageMsgCount ≤ 2 ^ widen pageMsgCount rounds pageMsgBits := by
  induction rounds generalizing pageMsgBits with
  | zero =>
      have power : (pageMsgBits : Int) < 2 ^ pageMsgBits := by
        exact_mod_cast Nat.lt_two_pow_self
      rw [widen]
      omega
  | succ rounds ih =>
      rw [widen]
      split
      · exact ih (by omega)
      · omega

/-- The rounds are enough: a page has place for so many messages. -/
theorem PageMsgCount.le_bits (pageMsgCount : PageMsgCount) :
    pageMsgCount.count ≤ 2 ^ pageMsgCount.bits := le_widen (Nat.le_add_right _ _)

/-- The size is doubled some number of times. -/
theorem extend_eq (pageIndex rounds extendSize : Nat) :
    ∃ times ≤ rounds, extend pageIndex rounds extendSize = extendSize * 2 ^ times := by
  induction rounds generalizing extendSize with
  | zero => exact ⟨0, Nat.le_refl 0, by simp [extend]⟩
  | succ rounds ih =>
      rw [extend]
      split
      · obtain ⟨times, bound, extended⟩ := ih (extendSize <<< 1)
        refine ⟨times + 1, Nat.succ_le_succ bound, ?_⟩
        rw [extended, Nat.shiftLeft_eq, Nat.mul_assoc, ← Nat.pow_add, Nat.add_comm]
      · exact ⟨0, Nat.zero_le _, by simp⟩

theorem le_extend {pageIndex rounds extendSize : Nat} (enough : pageIndex ≤ rounds + extendSize)
    (positive : 0 < extendSize) : pageIndex ≤ extend pageIndex rounds extendSize := by
  induction rounds generalizing extendSize with
  | zero => simpa [extend] using enough
  | succ rounds ih =>
      rw [extend]
      split
      · rw [Nat.shiftLeft_eq]
        exact ih (by omega) (by omega)
      · omega

/-! ## The queue -/

/-- The queue behind `init`. -/
def init (pageIndexCount : Nat) : DrbQueue μ where
  pageIndexes := ((PageTable.empty Message.blank).lookup Message.blank 0).1
  pageIndexCount := pageIndexCount
  postIndex := 0
  writeIndex := 0

/-- The number of page indexes when a page has been looked up. -/
def pageIndexCountFor (queue : DrbQueue μ) (pageIndex : Nat) : Nat :=
  if pageIndex ≥ queue.pageIndexCount then
    extend pageIndex pageIndex (queue.pageIndexCount <<< 1)
  else queue.pageIndexCount

/-- The page at an index, which is allocated if there is none. -/
def getMsgPage (queue : DrbQueue μ) (pageIndex : Nat) : DrbQueue μ × Nat :=
  ({ queue with
    pageIndexes := (queue.pageIndexes.lookup Message.blank pageIndex).1
    pageIndexCount := queue.pageIndexCountFor pageIndex },
    (queue.pageIndexes.lookup Message.blank pageIndex).2)

/-- `get` of a position that is not negative, when nobody comes between: the message, if it returns
true. -/
def get (pageMsgBits : Nat) (queue : DrbQueue μ) (pos : Nat) : Option (Option μ) :=
  if queue.writeIndex ≤ pos then none
  else
    let (next, page) := queue.getMsgPage (pageNumber pageMsgBits pos)
    let message := next.pageIndexes.pages page (msgIndex pageMsgBits pos)
    if message.flag then some message.msg else none

/-! ## The threads of a queue -/

inductive Call (μ : Type) where
  | push (msg : μ)
  | get (pos : Int)

/-- The step a thread takes next, with what it has read before. -/
inductive Operation (μ : Type) where
  | pushTicket (msg : μ)
  | pushLookup (msg : μ) (postIndex : Nat)
  | pushWrite (msg : μ) (postIndex page : Nat)
  | pushFlag (postIndex page : Nat)
  | pushCount
  | getTest (pos : Int)
  | getLookup (pos : Int)
  | getFlag (pos page : Nat)
  | getRead (pos page : Nat)

/-- The queue, and what happened to it: the tickets, what the gets have answered whose position was
below the size, and whether a page index was used that is outside of the table. -/
structure Record (ι μ : Type) where
  queue : DrbQueue μ
  tickets : Tickets ι μ
  answers : List (Nat × Option (Option μ))
  fault : Bool

namespace Record

def new (pageIndexCount : Nat) : Record ι μ where
  queue := init pageIndexCount
  tickets := .empty
  answers := []
  fault := decide (¬ 0 < pageIndexCount)

variable (record : Record ι μ)

/-- A slot of a page is written by the push of a ticket. -/
def writes (pageMsgBits page postIndex : Nat) (change : Message μ → Message μ)
    (stage : PushStage ι) : Record ι μ :=
  { record with
    queue := { record.queue with pageIndexes :=
      record.queue.pageIndexes.write page (msgIndex pageMsgBits postIndex) change }
    tickets := record.tickets.move postIndex stage }

/-- A ticket is drawn. -/
def draws (thread : ι) (msg : μ) : Record ι μ :=
  { record with
    queue := { record.queue with postIndex := record.queue.postIndex + 1 }
    tickets := record.tickets.draw record.queue.postIndex thread msg }

/-- A page is looked up. -/
def looksUp (pageIndex : Nat) : Record ι μ :=
  { record with
    queue := (record.queue.getMsgPage pageIndex).1
    fault := record.fault || decide (¬ pageIndex < record.queue.pageIndexCountFor pageIndex) }

def slot (pageMsgBits pos page : Nat) : Message μ :=
  record.queue.pageIndexes.pages page (msgIndex pageMsgBits pos)

def answer (pos : Nat) (result : Option (Option μ)) : Record ι μ :=
  { record with answers := record.answers ++ [(pos, result)] }

variable (pageMsgBits : Nat) (thread : ι)

/-- One atomic step. -/
def step : Operation μ → Record ι μ × Option (Operation μ)
  | .pushTicket msg => (record.draws thread msg, some (.pushLookup msg record.queue.postIndex))
  | .pushLookup msg postIndex =>
      let pageIndex := pageNumber pageMsgBits postIndex
      let page := (record.queue.getMsgPage pageIndex).2
      ({ record.looksUp pageIndex with
        tickets := record.tickets.move postIndex (.found thread page) },
        some (.pushWrite msg postIndex page))
  | .pushWrite msg postIndex page =>
      (record.writes pageMsgBits page postIndex (Message.setMsg msg) (.written thread page),
        some (.pushFlag postIndex page))
  | .pushFlag postIndex page =>
      (record.writes pageMsgBits page postIndex Message.setFlag .done, some .pushCount)
  | .pushCount =>
      ({ record with
        queue := { record.queue with writeIndex := record.queue.writeIndex + 1 } }, none)
  | .getTest pos =>
      if record.queue.writeIndex ≤ pos then (record, none) else (record, some (.getLookup pos))
  | .getLookup (.ofNat pos) =>
      let pageIndex := pageNumber pageMsgBits pos
      (record.looksUp pageIndex, some (.getFlag pos (record.queue.getMsgPage pageIndex).2))
  | .getLookup (.negSucc _) => ({ record with fault := true }, none)
  | .getFlag pos page =>
      if (record.slot pageMsgBits pos page).flag then (record, some (.getRead pos page))
      else (record.answer pos none, none)
  | .getRead pos page => (record.answer pos (some (record.slot pageMsgBits pos page).msg), none)

end Record

/-- Any number of threads that push and get. -/
def program (pageMsgBits : Nat) :
    Interleaving.Program ι (Record ι μ) (Call μ) (Operation μ) Unit where
  enter _ record call :=
    match call with
    | .push msg => (record, .pushTicket msg)
    | .get pos => (record, .getTest pos)
  advance thread record operation _ := record.step pageMsgBits thread operation

/-- What happens next in a queue. -/
abbrev Choice (ι μ : Type) := Interleaving.Choice ι (Call μ) Unit

/-- The queue and the threads at it. -/
abbrev Threads (ι μ : Type) := Interleaving.Threads ι (Record ι μ) (Operation μ)

/-- A new queue, and nobody at it. -/
def start (pageIndexCount : Nat) : Threads ι μ :=
  Interleaving.Threads.idle (Record.new pageIndexCount)

end DrbQueue

end Cube.Base

/-! # Runs of the durable queue

As long as the messages below the size are all written, and no page is looked up whose index is what
the table is extended to, every page index is one of the table, and every message below the size is
got at its position, from then on.
-/

namespace Cube.Base.DrbQueue

open MQueue

variable {ι μ : Type} {pageMsgBits : Nat} {record : Record ι μ}

/-- What is promised: page indexes are those of the table, and a message below the size is got at
its position, now and by every get that asked for it. -/
structure Durable (pageMsgBits : Nat) (record : Record ι μ) : Prop where
  safe : record.fault = false
  answered : ∀ answer ∈ record.answers, ∃ msg,
    record.tickets.accepted[answer.1]? = some msg ∧ answer.2 = some (some msg)
  got : ∀ pos < record.queue.writeIndex, ∃ msg,
    record.tickets.accepted[pos]? = some msg ∧
      record.queue.get pageMsgBits pos = some (some msg)

/-- The answers of the messages below the size stay the same. -/
def Stays (pageMsgBits : Nat) (before after : Record ι μ) : Prop :=
  ∀ pos < before.queue.writeIndex,
    after.queue.get pageMsgBits pos = before.queue.get pageMsgBits pos

/-- A page index is none that the table is extended to; the messages below the size are written when
it is counted up; positions are not negative, and the ticket counter does not overflow. -/
def Good (pageMsgBits : Nat) (record : Record ι μ) : Operation μ → Prop
  | .pushTicket _ => record.queue.postIndex + 1 < 2 ^ 63
  | .pushLookup _ postIndex => ∀ times ≤ pageNumber pageMsgBits postIndex,
      pageNumber pageMsgBits postIndex ≠ record.queue.pageIndexCount * 2 ^ (times + 1)
  | .pushCount => ∀ index ≤ record.queue.writeIndex, record.tickets.pusher index = .done
  | .getLookup pos => 0 ≤ pos
  | _ => True

instance decidableGood [DecidableEq ι] : ∀ operation, Decidable (Good pageMsgBits record operation)
  | .pushTicket _ => inferInstanceAs (Decidable (_ < _))
  | .pushLookup _ _ => inferInstanceAs (Decidable (∀ _ ≤ _, _))
  | .pushCount => inferInstanceAs (Decidable (∀ _ ≤ _, _))
  | .getLookup _ => inferInstanceAs (Decidable (_ ≤ _))
  | .pushWrite _ _ _ | .pushFlag _ _ | .getTest _ | .getFlag _ _ | .getRead _ _ => isTrue trivial

/-! ## The invariant -/

structure Sound (pageMsgBits : Nat) (record : Record ι μ) : Prop where
  stored : Stored pageMsgBits (pageNumber pageMsgBits) (fun _ => True) record.queue.pageIndexes
    record.tickets
  drawn : record.tickets.Drawn record.queue.postIndex
  positive : 0 < record.queue.pageIndexCount
  below : ∀ pageIndex page, record.queue.pageIndexes.index pageIndex = some page →
    pageIndex < record.queue.pageIndexCount
  written : ∀ index < record.queue.writeIndex, record.tickets.pusher index = .done
  answered : ∀ answer ∈ record.answers, ∃ msg,
    record.tickets.accepted[answer.1]? = some msg ∧ answer.2 = some (some msg)
  safe : record.fault = false

/-- A page that is there is looked up without extending the table. -/
theorem getMsgPage_of_some {queue : DrbQueue μ} {pageIndex page : Nat}
    (below : pageIndex < queue.pageIndexCount)
    (found : queue.pageIndexes.index pageIndex = some page) :
    queue.getMsgPage pageIndex = (queue, page) := by
  rw [getMsgPage, pageIndexCountFor, if_neg (Nat.not_le.mpr below),
    PageTable.lookup_of_some found]

/-- The table is extended to more than the index, unless the index is what it could be extended
to. -/
theorem lt_pageIndexCountFor {queue : DrbQueue μ} {pageIndex : Nat}
    (positive : 0 < queue.pageIndexCount)
    (differs : ∀ times ≤ pageIndex, pageIndex ≠ queue.pageIndexCount * 2 ^ (times + 1)) :
    pageIndex < queue.pageIndexCountFor pageIndex := by
  rw [pageIndexCountFor]
  split
  · obtain ⟨times, bound, extended⟩ :=
      extend_eq pageIndex pageIndex (queue.pageIndexCount <<< 1)
    have enough : pageIndex ≤ extend pageIndex pageIndex (queue.pageIndexCount <<< 1) := by
      apply le_extend (Nat.le_add_right _ _)
      rw [Nat.shiftLeft_eq]
      omega
    refine Nat.lt_of_le_of_ne enough ?_
    rw [extended, Nat.shiftLeft_eq, Nat.mul_assoc, ← Nat.pow_add, Nat.add_comm]
    exact differs times bound
  · omega

theorem le_pageIndexCountFor (queue : DrbQueue μ) (pageIndex : Nat) :
    queue.pageIndexCount ≤ queue.pageIndexCountFor pageIndex := by
  rw [pageIndexCountFor]
  split
  · obtain ⟨times, _, extended⟩ := extend_eq pageIndex pageIndex (queue.pageIndexCount <<< 1)
    rw [extended, Nat.shiftLeft_eq, Nat.mul_assoc]
    exact Nat.le_mul_of_pos_right _ (Nat.mul_pos (by simp) (Nat.two_pow_pos times))
  · exact Nat.le_refl _

namespace Sound

/-- A message whose flag is set is got at its position. -/
theorem get_of_done (sound : Sound pageMsgBits record) {pos : Nat}
    (size : pos < record.queue.writeIndex) : ∃ msg,
    record.tickets.accepted[pos]? = some msg ∧
      record.queue.get pageMsgBits pos = some (some msg) := by
  have done := sound.written pos size
  obtain ⟨page, atPlace, slot⟩ := sound.stored.of_done trivial done
  have before : pos < record.tickets.accepted.length := by
    rw [sound.drawn.count]
    exact sound.drawn.lt (by simp [done])
  refine ⟨record.tickets.accepted[pos], List.getElem?_eq_getElem before, ?_⟩
  rw [get, if_neg (Nat.not_le.mpr size), getMsgPage_of_some (sound.below _ page atPlace) atPlace]
  simp [slot, before]

/-- The invariant keeps the promise. -/
theorem durable (sound : Sound pageMsgBits record) : Durable pageMsgBits record :=
  ⟨sound.safe, sound.answered, fun _ size => sound.get_of_done size⟩

/-- The answers stay the same while messages are accepted and the size grows. -/
theorem stays (sound : Sound pageMsgBits record) {after : Record ι μ}
    (soundAfter : Sound pageMsgBits after)
    (size : record.queue.writeIndex ≤ after.queue.writeIndex)
    (accepted : ∀ (index : Nat) msg, record.tickets.accepted[index]? = some msg →
      after.tickets.accepted[index]? = some msg) : Stays pageMsgBits record after := by
  intro pos below
  obtain ⟨msg, first, got⟩ := sound.get_of_done below
  obtain ⟨later, second, gotLater⟩ := soundAfter.get_of_done (Nat.lt_of_lt_of_le below size)
  rw [accepted pos msg first] at second
  rw [got, gotLater, Option.some.inj second]

theorem new {pageIndexCount : Nat} (positive : 0 < pageIndexCount) :
    Sound pageMsgBits (Record.new pageIndexCount : Record ι μ) where
  stored :=
    { paged := PageTable.paged_empty.lookup Message.blank 0
      apart := fun _ _ _ _ same slot => MQueue.index_eq same slot
      held := nofun
      present := nofun
      cells := fun index message _ known => by
        rcases PageTable.paged_empty.lookup_cell known with before | ⟨_, _, rfl⟩
        · simp [PageTable.cell, PageTable.empty] at before
        · refine ⟨⟨?_, ?_⟩, ?_⟩ <;> rintro ⟨⟩ }
  drawn := Tickets.drawn_empty
  positive := positive
  below pageIndex page known := by
    rcases PageTable.lookup_cases _ _ _ known with before | ⟨rfl, _, _⟩
    · cases before
    · exact positive
  written := nofun
  answered := nofun
  safe := by simp [Record.new, positive]

/-- A lookup of a page index that the table has, or is extended to have. -/
theorem looksUp (sound : Sound pageMsgBits record) {pageIndex : Nat}
    (inside : pageIndex < record.queue.pageIndexCountFor pageIndex) :
    Sound pageMsgBits (record.looksUp pageIndex) where
  stored := sound.stored.lookup pageIndex
  drawn := sound.drawn
  positive := Nat.lt_of_lt_of_le sound.positive (le_pageIndexCountFor _ _)
  below other page known := by
    rcases PageTable.lookup_cases _ _ _ known with before | ⟨rfl, _, _⟩
    · exact Nat.lt_of_lt_of_le (sound.below other page before) (le_pageIndexCountFor _ _)
    · exact inside
  written := sound.written
  answered := sound.answered
  safe := by simp [Record.looksUp, sound.safe, inside]

/-- A push that goes on, at a table with the same pages. -/
theorem move (sound : Sound pageMsgBits record) {index : Nat} {stage : PushStage ι}
    {table : PageTable (Message μ)} (taken : record.tickets.pusher index ≠ .untaken)
    (underWay : record.tickets.pusher index ≠ .done) (stays : stage ≠ .untaken)
    (pages : table.index = record.queue.pageIndexes.index)
    (stored : Stored pageMsgBits (pageNumber pageMsgBits) (fun _ => True) table
      (record.tickets.move index stage)) :
    Sound pageMsgBits { record with
      queue := { record.queue with pageIndexes := table }
      tickets := record.tickets.move index stage } where
  stored := stored
  drawn := sound.drawn.move taken stays
  positive := sound.positive
  below pageIndex page known := sound.below pageIndex page (pages ▸ known)
  written other size := Tickets.pusher_move_of_done underWay stage (sound.written other size)
  answered := sound.answered
  safe := sound.safe

/-- A ticket is drawn. -/
theorem draws (sound : Sound pageMsgBits record) (thread : ι) (msg : μ) :
    Sound pageMsgBits (record.draws thread msg) where
  stored := sound.stored.draw sound.drawn thread msg
  drawn := sound.drawn.draw thread msg
  positive := sound.positive
  below := sound.below
  written index size := sound.drawn.pusher_draw_of_done thread msg (sound.written index size)
  answered answer member := by
    obtain ⟨found, accepted, equal⟩ := sound.answered answer member
    exact ⟨found, Tickets.accepted_draw msg accepted, equal⟩
  safe := sound.safe

/-- A message that is counted. -/
theorem counts (sound : Sound pageMsgBits record)
    (written : ∀ index ≤ record.queue.writeIndex, record.tickets.pusher index = .done) :
    Sound pageMsgBits { record with
      queue := { record.queue with writeIndex := record.queue.writeIndex + 1 } } :=
  { sound with written := fun index size => written index (Nat.le_of_lt_succ size) }

/-- A get that answers with a message. -/
theorem answer (sound : Sound pageMsgBits record) {pos : Nat} {msg : μ}
    (accepted : record.tickets.accepted[pos]? = some msg) :
    Sound pageMsgBits (record.answer pos (some (some msg))) := by
  refine { sound with answered := fun answer member => ?_ }
  rcases List.mem_append.mp member with before | last
  · exact sound.answered answer before
  · rw [List.mem_singleton.mp last]
    exact ⟨msg, accepted, rfl⟩

end Sound

/-! ## The outline -/

/-- What a thread knows where it stands. -/
def Stands (pageMsgBits : Nat) (thread : ι) (record : Record ι μ) : Operation μ → Prop
  | .pushTicket _ => True
  | .pushLookup msg index =>
      record.tickets.pusher index = .taken thread ∧ record.tickets.accepted[index]? = some msg
  | .pushWrite msg index page =>
      record.tickets.pusher index = .found thread page ∧ record.tickets.accepted[index]? = some msg
  | .pushFlag index page => record.tickets.pusher index = .written thread page
  | .pushCount => True
  | .getTest _ => True
  | .getLookup pos => pos < record.queue.writeIndex
  | .getFlag pos page =>
      pos < record.queue.writeIndex ∧
        record.queue.pageIndexes.index (pageNumber pageMsgBits pos) = some page
  | .getRead pos page =>
      pos < record.queue.writeIndex ∧
        record.queue.pageIndexes.index (pageNumber pageMsgBits pos) = some page

/-- The invariant, and where every thread stands. -/
def outline (pageMsgBits : Nat) : Interleaving.Outline ι (Record ι μ) (Operation μ) where
  shared := Sound pageMsgBits
  running := Stands pageMsgBits

/-- The size grows, and the pages stay where they are. -/
structure Record.Grows (before after : Record ι μ) : Prop where
  size : before.queue.writeIndex ≤ after.queue.writeIndex
  index : ∀ pageIndex page, before.queue.pageIndexes.index pageIndex = some page →
    after.queue.pageIndexes.index pageIndex = some page

theorem Record.Grows.refl (record : Record ι μ) : record.Grows record :=
  ⟨Nat.le_refl _, fun _ _ known => known⟩

theorem Stands.frame {before after : Record ι μ} {thread other : ι} {operation : Operation μ}
    (stands : Stands pageMsgBits other before operation) (different : other ≠ thread)
    (grows : before.Grows after) (spares : before.tickets.Spares thread after.tickets) :
    Stands pageMsgBits other after operation := by
  have same {index : Nat} {stage : PushStage ι} (held : before.tickets.pusher index = stage)
      (own : stage.thread = some other) : after.tickets.pusher index = stage :=
    (spares.pusher index other different (held ▸ own)).trans held
  cases operation with
  | pushTicket msg => trivial
  | pushLookup msg index => exact ⟨same stands.1 rfl, spares.accepted index msg stands.2⟩
  | pushWrite msg index page => exact ⟨same stands.1 rfl, spares.accepted index msg stands.2⟩
  | pushFlag index page => exact same stands rfl
  | pushCount => trivial
  | getTest pos => trivial
  | getLookup pos =>
      have size := grows.size
      change pos < (before.queue.writeIndex : Int) at stands
      change pos < (after.queue.writeIndex : Int)
      omega
  | getFlag pos page =>
      exact ⟨Nat.lt_of_lt_of_le stands.1 grows.size, grows.index _ page stands.2⟩
  | getRead pos page =>
      exact ⟨Nat.lt_of_lt_of_le stands.1 grows.size, grows.index _ page stands.2⟩

/-- What every step of a thread establishes. -/
structure Advances (pageMsgBits : Nat) (thread : ι) (record : Record ι μ)
    (result : Record ι μ × Option (Operation μ)) : Prop where
  sound : Sound pageMsgBits result.1
  own : ∀ operation, result.2 = some operation → Stands pageMsgBits thread result.1 operation
  grows : record.Grows result.1
  spares : record.tickets.Spares thread result.1.tickets

theorem Advances.keeps {thread : ι} {result : Record ι μ × Option (Operation μ)}
    (advances : Advances pageMsgBits thread record result) :
    (outline pageMsgBits).Keeps thread record result where
  shared := advances.sound
  own := advances.own
  others _ _ different stands := stands.frame different advances.grows advances.spares

/-! ## Steps -/

/-- A write of a push that is under way. -/
theorem advances_write (sound : Sound pageMsgBits record) {thread : ι} {index page : Nat}
    {stage : PushStage ι} {change : Message μ → Message μ} {next : Option (Operation μ)}
    (holds : (record.tickets.pusher index).page = some page)
    (own : (record.tickets.pusher index).thread = some thread) (stays : stage ≠ .untaken)
    (held : ∀ other, stage.page = some other → other = page)
    (changed : ∀ message, record.tickets.Fits index message →
      ((change message).flag = true ↔ stage = .done) ∧
        (stage.isWritten = true → (change message).msg = record.tickets.accepted[index]?))
    (stands : ∀ operation, next = some operation → Stands pageMsgBits thread
      (record.writes pageMsgBits page index change stage) operation) :
    Advances pageMsgBits thread record
      (record.writes pageMsgBits page index change stage, next) := by
  obtain ⟨taken, underWay, _⟩ := PushStage.of_page holds
  have stored := sound.stored.write trivial holds held changed
  exact ⟨sound.move taken underWay stays rfl stored, stands,
    ⟨Nat.le_refl _, fun _ _ known => known⟩, .move own stage⟩

/-- Every good step of a thread. -/
theorem step_advances (sound : Sound pageMsgBits record) {thread : ι} {operation : Operation μ}
    (stands : Stands pageMsgBits thread record operation)
    (good : Good pageMsgBits record operation) :
    Advances pageMsgBits thread record (record.step pageMsgBits thread operation) := by
  cases operation with
  | pushTicket msg =>
      refine ⟨sound.draws thread msg, ?_, ⟨Nat.le_refl _, fun _ _ known => known⟩,
        sound.drawn.spares thread msg⟩
      rintro _ ⟨⟩
      exact ⟨Function.update_self .., sound.drawn.accepted_draw thread msg⟩
  | pushLookup msg index =>
      obtain ⟨taken, accepted⟩ := stands
      have looked := sound.looksUp (lt_pageIndexCountFor sound.positive good)
      have found := PageTable.lookup_found record.queue.pageIndexes Message.blank
        (pageNumber pageMsgBits index)
      refine ⟨looked.move (by simp [Record.looksUp, taken]) (by simp [Record.looksUp, taken]) nofun
        rfl (looked.stored.found taken found), ?_, ⟨Nat.le_refl _, fun _ _ known => ?_⟩,
        .move (by rw [taken]; rfl) _⟩
      · rintro _ ⟨⟩
        exact ⟨Function.update_self .., accepted⟩
      · exact PageTable.lookup_kept _ _ _ known
  | pushWrite msg index page =>
      obtain ⟨found, accepted⟩ := stands
      refine advances_write sound (by rw [found]; rfl) (by rw [found]; rfl) nofun ?_ ?_ ?_
      · rintro _ ⟨⟩
        rfl
      · intro message fits
        refine ⟨?_, fun _ => accepted.symm⟩
        simpa [found, Message.setMsg] using fits.flag
      · rintro _ ⟨⟩
        exact Function.update_self ..
  | pushFlag index page =>
      have written : record.tickets.pusher index = .written thread page := stands
      refine advances_write sound (by rw [written]; rfl) (by rw [written]; rfl) nofun nofun ?_ ?_
      · intro message fits
        exact ⟨by simp [Message.setFlag], fun _ => fits.msg (by rw [written]; rfl)⟩
      · rintro _ ⟨⟩
        trivial
  | pushCount =>
      exact ⟨sound.counts good, nofun, ⟨Nat.le_succ _, fun _ _ known => known⟩, .refl ..⟩
  | getTest pos =>
      rw [Record.step]
      split
      · exact ⟨sound, nofun, .refl record, .refl ..⟩
      next later =>
        refine ⟨sound, ?_, .refl record, .refl ..⟩
        rintro _ ⟨⟩
        exact Int.not_le.mp later
  | getLookup pos =>
      obtain ⟨pos, rfl⟩ := Int.eq_ofNat_of_zero_le good
      have size : pos < record.queue.writeIndex := Int.ofNat_lt.mp stands
      have done := sound.written pos size
      obtain ⟨page, atPlace, _⟩ := sound.stored.of_done trivial done
      have inside := Nat.lt_of_lt_of_le (sound.below _ page atPlace)
        (le_pageIndexCountFor record.queue (pageNumber pageMsgBits pos))
      refine ⟨sound.looksUp inside, ?_, ⟨Nat.le_refl _, fun _ _ known => ?_⟩, .refl ..⟩
      · rintro _ ⟨⟩
        exact ⟨size, PageTable.lookup_found ..⟩
      · exact PageTable.lookup_kept _ _ _ known
  | getFlag pos page =>
      obtain ⟨size, atPlace⟩ := stands
      have done := sound.written pos size
      have fits := sound.stored.cells _ _ trivial (PageTable.cell_of_index atPlace _)
      have flag : (record.slot pageMsgBits pos page).flag = true := fits.flag.mpr done
      rw [Record.step, if_pos flag]
      refine ⟨sound, ?_, .refl record, .refl ..⟩
      rintro _ ⟨⟩
      exact ⟨size, atPlace⟩
  | getRead pos page =>
      obtain ⟨size, atPlace⟩ := stands
      have done := sound.written pos size
      have fits := sound.stored.cells _ _ trivial (PageTable.cell_of_index atPlace _)
      have msg : (record.slot pageMsgBits pos page).msg = _ := fits.msg (by rw [done]; rfl)
      obtain ⟨accepted, known, _⟩ := sound.get_of_done size
      rw [Record.step, msg, known]
      exact ⟨sound.answer known, nofun, ⟨Nat.le_refl _, fun _ _ found => found⟩, .refl ..⟩

/-! ## Runs -/

section Runs

variable [DecidableEq ι]

theorem outline_step {threads : Threads ι μ} (holds : (outline pageMsgBits).Holds threads)
    {choice : Choice ι μ} (good : Interleaving.Meets (Good pageMsgBits) threads choice) :
    Stays pageMsgBits threads.shared ((program pageMsgBits).step threads choice).shared ∧
      (outline pageMsgBits).Holds ((program pageMsgBits).step threads choice) := by
  constructor
  · refine Interleaving.Program.step_shared (program pageMsgBits) (fun _ _ => rfl)
      (fun thread call _ => ?_) fun thread input operation chosen running => ?_
    · cases call <;> exact fun _ _ => rfl
    · have advances := step_advances holds.shared (holds.running thread operation running)
        (good thread input operation chosen running)
      exact holds.shared.stays advances.sound advances.grows.size advances.spares.accepted
  · refine holds.step (fun thread call _ _ => ?_)
      fun thread input operation chosen running stands => ?_
    · cases call with
      | push msg =>
          refine Advances.keeps ⟨holds.shared, ?_, .refl _, .refl ..⟩
          rintro _ ⟨⟩
          trivial
      | get pos =>
          refine Advances.keeps ⟨holds.shared, ?_, .refl _, .refl ..⟩
          rintro _ ⟨⟩
          trivial
    · exact (step_advances holds.shared stands (good thread input operation chosen running)).keeps

/-- **Durability.** In a run in which the size is counted up only when all messages below it are
written, and no page index is what the table could be extended to, every page index is one of the
table, and the messages below the size are got at their positions, with answers that stay the
same. -/
theorem durable_of_good (pageMsgCount : PageMsgCount) {pageIndexCount : Nat}
    (positive : 0 < pageIndexCount) (choices : List (Choice ι μ))
    (good : Run.Steps (program pageMsgCount.bits).step
      (Interleaving.Meets (Good pageMsgCount.bits)) (start pageIndexCount) choices) :
    Run.Always (program pageMsgCount.bits).step
      (fun threads => Durable pageMsgCount.bits threads.shared)
      (fun threads choice => Stays pageMsgCount.bits threads.shared
        ((program pageMsgCount.bits).step threads choice).shared)
      (start pageIndexCount) choices :=
  Run.always_of_steps (outline pageMsgCount.bits).Holds (fun _ holds => holds.shared.durable)
    (fun _ _ holds good => outline_step holds good) (.idle (.new positive)) good

end Runs

def twoMessages : PageMsgCount := ⟨2, by decide⟩

/-- A table of one page is extended when the third message is pushed, which is got afterwards. -/
def extended : List (Choice (Fin 2) String) :=
  ["a", "b", "c"].flatMap (fun msg => .call 0 (.push msg) :: List.replicate 5 (.advance 0 ())) ++
    .call 1 (.get 2) :: List.replicate 4 (.advance 1 ())

theorem durable_three : Run.Always (program twoMessages.bits).step
    (fun threads => Durable twoMessages.bits threads.shared)
    (fun threads choice => Stays twoMessages.bits threads.shared
      ((program twoMessages.bits).step threads choice).shared) (start 1) extended :=
  durable_of_good twoMessages (by decide) extended (by decide +kernel)

/-- A push stalls with the first ticket while another one is counted. -/
def stalled : List (Choice (Fin 2) String) :=
  [.call 0 (.push "a"), .advance 0 (), .call 1 (.push "b")] ++ List.replicate 5 (.advance 1 ())

/-- With the sizes by default, nothing is got at the first position, which is below the size. -/
theorem durable_lost : ¬ ∀ choices : List (Choice (Fin 2) String),
    Run.Always (program defaultPageMsgCount.bits).step
      (fun threads => Durable defaultPageMsgCount.bits threads.shared)
      (fun threads choice => Stays defaultPageMsgCount.bits threads.shared
        ((program defaultPageMsgCount.bits).step threads choice).shared)
      (start defaultPageIndexCount) choices := by
  intro all
  have last := (all stalled).final
  obtain ⟨msg, _, got⟩ := last.got 0 (by decide +kernel)
  have nothing : (Run.final (program defaultPageMsgCount.bits).step (start defaultPageIndexCount)
      stalled).shared.queue.get defaultPageMsgCount.bits 0 = none := by decide +kernel
  rw [nothing] at got
  cases got

end Cube.Base.DrbQueue
