import Cube.Base.MQueue

/-! # The queue with a single read thread

`srt_queue`: any number of threads push, and one thread pops. Every step of the model is one atomic
step of `push` or `pop`. The thread that pops does so over and over again, whenever it is its turn.
-/

namespace Cube.Base

open MQueue

structure SrtQueue (μ : Type) where
  pageIndexes : PageTable (Message μ)
  postIndex : Nat
  getIndex : Nat
  deleted : Nat → Bool

namespace SrtQueue

variable {ι μ : Type}

/-- `page_msg_bits` and `page_index_bits`, of which the numbers of messages and pages are an `int`
and a `bint64`. -/
structure Size where
  pageMsgBits : Nat
  pageIndexBits : Nat
  msgBitsFit : pageMsgBits ≤ 30
  indexBitsFit : pageIndexBits ≤ 62

namespace Size

variable (size : Size)

def pageMsgMask : Nat := 2 ^ size.pageMsgBits - 1

def pageIndexCount : Nat := 2 ^ size.pageIndexBits

def pageIndexMask : Nat := size.pageIndexCount - 1

/-- `(index >> page_msg_bits_) & page_index_mask_`. -/
def pageIndex (index : Nat) : Nat := pageNumber size.pageMsgBits index &&& size.pageIndexMask

end Size

/-- The queue behind `init`. -/
def init : SrtQueue μ where
  pageIndexes := ((PageTable.empty Message.blank).lookup Message.blank 0).1
  postIndex := 0
  getIndex := 0
  deleted := fun _ => false

/-- The page at an index, which is allocated if there is none. -/
def getMsgPage (queue : SrtQueue μ) (pageIndex : Nat) : SrtQueue μ × Nat :=
  ({ queue with pageIndexes := (queue.pageIndexes.lookup Message.blank pageIndex).1 },
    (queue.pageIndexes.lookup Message.blank pageIndex).2)

/-- `delete[] page; page_indexes_[page_index] = NULL`. -/
def releasePage (queue : SrtQueue μ) (page pageIndex : Nat) : SrtQueue μ :=
  { queue with
    pageIndexes := queue.pageIndexes.remove pageIndex
    deleted := Function.update queue.deleted page true }

/-- The queue is full for a push that tests it now. -/
def isFull (size : Size) (queue : SrtQueue μ) : Bool :=
  decide ((queue.postIndex - queue.getIndex) >>> size.pageMsgBits ≥ size.pageIndexCount - 1)

/-- The step a thread takes next, with what it has read before. -/
inductive Operation (μ : Type) where
  | pushTest (msg : μ)
  | pushTicket (msg : μ)
  | pushLookup (msg : μ) (postIndex : Nat)
  | pushWrite (msg : μ) (postIndex page : Nat)
  | pushFlag (postIndex page : Nat)
  | popTest
  | popLookup
  | popFlag (page : Nat)
  | popRead (page : Nat)
  | popRelease (page : Nat)
  | popCount

/-- The queue, and what happened to it: the tickets, the messages that were popped, how many pages
were released, and whether a page was used that was not there any more. -/
structure Record (ι μ : Type) where
  queue : SrtQueue μ
  tickets : Tickets ι μ
  popped : List (Option μ)
  released : Nat
  fault : Bool

namespace Record

def new : Record ι μ where
  queue := init
  tickets := .empty
  popped := []
  released := 0
  fault := false

variable (record : Record ι μ)

/-- A page is used. -/
def uses (page : Nat) : Record ι μ :=
  { record with fault := record.fault || record.queue.deleted page }

/-- A slot of a page is written by the push of a ticket. -/
def writes (size : Size) (page postIndex : Nat) (change : Message μ → Message μ)
    (stage : PushStage ι) : Record ι μ :=
  { record.uses page with
    queue := { record.queue with pageIndexes :=
      record.queue.pageIndexes.write page (msgIndex size.pageMsgBits postIndex) change }
    tickets := record.tickets.move postIndex stage }

/-- A ticket is drawn. -/
def draws (thread : ι) (msg : μ) : Record ι μ :=
  { record with
    queue := { record.queue with postIndex := record.queue.postIndex + 1 }
    tickets := record.tickets.draw record.queue.postIndex thread msg }

/-- The slot of a page that is popped next. -/
def slot (size : Size) (page : Nat) : Message μ :=
  record.queue.pageIndexes.pages page (msgIndex size.pageMsgBits record.queue.getIndex)

variable (size : Size) (thread : ι)

/-- One atomic step. The thread that pops calls `pop` again when it has returned. -/
def step : Operation μ → Record ι μ × Option (Operation μ)
  | .pushTest msg =>
      if record.queue.isFull size then (record, none) else (record, some (.pushTicket msg))
  | .pushTicket msg => (record.draws thread msg, some (.pushLookup msg record.queue.postIndex))
  | .pushLookup msg postIndex =>
      let (queue, page) := record.queue.getMsgPage (size.pageIndex postIndex)
      ({ record with
        queue := queue
        tickets := record.tickets.move postIndex (.found thread page) },
        some (.pushWrite msg postIndex page))
  | .pushWrite msg postIndex page =>
      (record.writes size page postIndex (Message.setMsg msg) (.written thread page),
        some (.pushFlag postIndex page))
  | .pushFlag postIndex page => (record.writes size page postIndex Message.setFlag .done, none)
  | .popTest =>
      if record.queue.getIndex ≥ record.queue.postIndex then (record, some .popTest)
      else (record, some .popLookup)
  | .popLookup =>
      let (queue, page) := record.queue.getMsgPage (size.pageIndex record.queue.getIndex)
      ({ record with queue := queue }, some (.popFlag page))
  | .popFlag page =>
      (record.uses page, some (if (record.slot size page).flag then .popRead page else .popTest))
  | .popRead page =>
      ({ record.uses page with popped := record.popped ++ [(record.slot size page).msg] },
        some (if msgIndex size.pageMsgBits record.queue.getIndex = size.pageMsgMask then
          .popRelease page else .popCount))
  | .popRelease page =>
      ({ record with
        queue := record.queue.releasePage page (size.pageIndex record.queue.getIndex)
        released := record.released + 1 }, some .popCount)
  | .popCount =>
      ({ record with
        queue := { record.queue with getIndex := record.queue.getIndex + 1 } }, some .popTest)

end Record

/-- Any number of threads that push. -/
def program (size : Size) : Interleaving.Program ι (Record ι μ) μ (Operation μ) Unit where
  enter _ record msg := (record, .pushTest msg)
  advance thread record operation _ := record.step size thread operation

/-- What happens next in a queue. -/
abbrev Choice (ι μ : Type) := Interleaving.Choice ι μ Unit

/-- The queue and the threads at it. -/
abbrev Threads (ι μ : Type) := Interleaving.Threads ι (Record ι μ) (Operation μ)

/-- A new queue, at which one thread pops and nobody pushes. -/
def start [DecidableEq ι] (reader : ι) : Threads ι μ :=
  ⟨Record.new, Function.update (fun _ => none) reader (some .popTest)⟩

end SrtQueue

end Cube.Base

/-! # The order of the queue with a single read thread

As long as a push looks its page up only when the page that had the index before was released, the
messages are popped in the order of their tickets, none is lost, and no page is released that a push
still has to write to.
-/

namespace Cube.Base.SrtQueue

open MQueue

variable {ι μ : Type} {size : Size} {record : Record ι μ}

/-- What is promised: messages are popped in the order of the tickets; those whose flags are set and
that were not popped are in their slots; and pages in use are not released. -/
structure Intact (size : Size) (record : Record ι μ) : Prop where
  order : record.popped <+: record.tickets.accepted.map some
  stored : ∀ index, record.popped.length ≤ index → record.tickets.pusher index = .done → ∃ page,
    record.queue.pageIndexes.index (size.pageIndex index) = some page ∧
      record.queue.deleted page = false ∧
      record.queue.pageIndexes.pages page (msgIndex size.pageMsgBits index) =
        ⟨record.tickets.accepted[index]?, true⟩
  held : ∀ index page, (record.tickets.pusher index).page = some page →
    record.queue.deleted page = false
  safe : record.fault = false

/-- A push finds its page index free of older messages, and the ticket counter does not overflow. -/
def Good (size : Size) (record : Record ι μ) : Operation μ → Prop
  | .pushLookup _ postIndex =>
      pageNumber size.pageMsgBits postIndex < record.released + size.pageIndexCount
  | .pushTicket _ => record.queue.postIndex + 1 < 2 ^ 63
  | _ => True

instance decidableGood : ∀ operation, Decidable (Good size record operation)
  | .pushLookup _ _ => inferInstanceAs (Decidable (_ < _))
  | .pushTicket _ => inferInstanceAs (Decidable (_ < _))
  | .pushTest _ | .pushWrite _ _ _ | .pushFlag _ _ | .popTest | .popLookup | .popFlag _ | .popRead _
  | .popRelease _ | .popCount => isTrue trivial

/-! ## The window of pages -/

/-- The page of an index is one of those that the page indexes lead to now, or later. -/
def Record.Within (size : Size) (record : Record ι μ) (index : Nat) : Prop :=
  record.released ≤ pageNumber size.pageMsgBits index ∧
    pageNumber size.pageMsgBits index < record.released + size.pageIndexCount

theorem Size.pageIndex_eq (index : Nat) :
    size.pageIndex index = pageNumber size.pageMsgBits index % 2 ^ size.pageIndexBits :=
  Nat.and_two_pow_sub_one_eq_mod ..

theorem Record.Within.pageNumber_eq {first second : Nat} (one : record.Within size first)
    (two : record.Within size second) (same : size.pageIndex first = size.pageIndex second) :
    pageNumber size.pageMsgBits first = pageNumber size.pageMsgBits second := by
  rw [Size.pageIndex_eq, Size.pageIndex_eq] at same
  apply Nat.mod_injOn_Ico record.released size.pageIndexCount _ _ same
  · simp only [Finset.coe_Ico, Set.mem_Ico]
    exact one
  · simp only [Finset.coe_Ico, Set.mem_Ico]
    exact two

/-- The memory of the pages has a slot for an index. -/
theorem Record.Within.index_eq {first second : Nat} (one : record.Within size first)
    (two : record.Within size second) (same : size.pageIndex first = size.pageIndex second)
    (slot : msgIndex size.pageMsgBits first = msgIndex size.pageMsgBits second) : first = second :=
  MQueue.index_eq (one.pageNumber_eq two same) slot

/-! ## The invariant -/

structure Sound (size : Size) (record : Record ι μ) : Prop where
  stored : Stored size.pageMsgBits size.pageIndex (record.Within size) record.queue.pageIndexes
    record.tickets
  drawn : record.tickets.Drawn record.queue.postIndex
  past : ∀ index, index < record.popped.length → record.tickets.pusher index = .done
  unread : record.released ≤ pageNumber size.pageMsgBits record.popped.length
  window : ∀ index, (record.tickets.pusher index).isFound = true →
    pageNumber size.pageMsgBits index < record.released + size.pageIndexCount
  order : record.popped <+: record.tickets.accepted.map some
  live : ∀ pageIndex page, record.queue.pageIndexes.index pageIndex = some page →
    record.queue.deleted page = false
  fresh : ∀ page, record.queue.pageIndexes.allocated ≤ page → record.queue.deleted page = false
  safe : record.fault = false

namespace Sound

section Tickets

variable (sound : Sound size record) {index : Nat}
include sound

theorem later_of_ne_done (underWay : record.tickets.pusher index ≠ .done) :
    record.popped.length ≤ index :=
  Nat.le_of_not_lt fun before => underWay (sound.past index before)

/-- A push that has looked its page up, and is under way or not read. -/
theorem within_of_later (later : record.popped.length ≤ index)
    (found : (record.tickets.pusher index).isFound = true) : record.Within size index :=
  ⟨Nat.le_trans sound.unread (pageNumber_mono later), sound.window index found⟩

/-- The invariant keeps the promise. -/
theorem intact : Intact size record := by
  refine ⟨sound.order, fun index later done => ?_, fun index page holds => ?_, sound.safe⟩
  · have within := sound.within_of_later later (by rw [done]; rfl)
    obtain ⟨page, atIndex, msg⟩ := sound.stored.of_done within done
    exact ⟨page, atIndex, sound.live _ page atIndex, msg⟩
  · exact sound.live _ page (sound.stored.held index page holds)

end Tickets

end Sound

theorem sound_new : Sound size (Record.new : Record ι μ) where
  stored :=
    { paged := PageTable.paged_empty.lookup Message.blank 0
      apart := fun _ _ one two same slot => one.index_eq two same slot
      held := nofun
      present := nofun
      cells := fun index message _ known => by
        rcases PageTable.paged_empty.lookup_cell known with before | ⟨_, _, rfl⟩
        · simp [PageTable.cell, PageTable.empty] at before
        · refine ⟨⟨?_, ?_⟩, ?_⟩ <;> rintro ⟨⟩ }
  drawn := Tickets.drawn_empty
  past index before := absurd before (Nat.not_lt_zero _)
  unread := Nat.zero_le _
  window := nofun
  order := List.nil_prefix
  live _ _ _ := rfl
  fresh _ _ := rfl
  safe := rfl

/-! ## What the steps of a push keep -/

/-- A page that is there is used without a fault. -/
theorem Record.uses_of_live {page : Nat} (live : record.queue.deleted page = false) :
    record.uses page = record := by
  rw [uses, live, Bool.or_false]

namespace Sound

/-- A lookup of any page keeps the invariant. -/
theorem lookup (sound : Sound size record) (pageIndex : Nat) :
    Sound size { record with queue := (record.queue.getMsgPage pageIndex).1 } where
  stored := sound.stored.lookup pageIndex
  drawn := sound.drawn
  past := sound.past
  unread := sound.unread
  window := sound.window
  order := sound.order
  live index page known := by
    rcases PageTable.lookup_cases _ _ _ known with before | ⟨_, _, rfl⟩
    · exact sound.live index page before
    · exact sound.fresh _ (Nat.le_refl _)
  fresh page later :=
    sound.fresh page (Nat.le_trans (PageTable.lookup_allocated _ Message.blank pageIndex) later)
  safe := sound.safe

/-- A push that goes on, at a table with the same pages. -/
theorem move (sound : Sound size record) {index : Nat} {stage : PushStage ι}
    {table : PageTable (Message μ)} (taken : record.tickets.pusher index ≠ .untaken)
    (underWay : record.tickets.pusher index ≠ .done) (stays : stage ≠ .untaken)
    (window : pageNumber size.pageMsgBits index < record.released + size.pageIndexCount)
    (pages : table.index = record.queue.pageIndexes.index)
    (allocated : table.allocated = record.queue.pageIndexes.allocated)
    (stored : Stored size.pageMsgBits size.pageIndex (record.Within size) table
      (record.tickets.move index stage)) :
    Sound size { record with
      queue := { record.queue with pageIndexes := table }
      tickets := record.tickets.move index stage } where
  stored := stored
  drawn := sound.drawn.move taken stays
  past other before := Tickets.pusher_move_of_done underWay stage (sound.past other before)
  unread := sound.unread
  window other found := by
    rw [Tickets.pusher_move] at found
    by_cases same : other = index
    · rw [same]
      exact window
    · rw [if_neg same] at found
      exact sound.window other found
  order := sound.order
  live pageIndex page known := sound.live pageIndex page (pages ▸ known)
  fresh page later := sound.fresh page (allocated ▸ later)
  safe := sound.safe

/-- A push has looked up its page. -/
theorem found (sound : Sound size record) {index page : Nat} {thread : ι}
    (taken : record.tickets.pusher index = .taken thread)
    (window : pageNumber size.pageMsgBits index < record.released + size.pageIndexCount)
    (atIndex : record.queue.pageIndexes.index (size.pageIndex index) = some page) :
    Sound size { record with tickets := record.tickets.move index (.found thread page) } :=
  sound.move (by simp [taken]) (by simp [taken]) nofun window rfl rfl
    (sound.stored.found taken atIndex)

/-- A push writes to the slot of its ticket. -/
theorem writes (sound : Sound size record) {index page : Nat} {stage : PushStage ι}
    {change : Message μ → Message μ} (holds : (record.tickets.pusher index).page = some page)
    (stays : stage ≠ .untaken) (held : ∀ other, stage.page = some other → other = page)
    (changed : ∀ message, record.tickets.Fits index message →
      ((change message).flag = true ↔ stage = .done) ∧
        (stage.isWritten = true → (change message).msg = record.tickets.accepted[index]?)) :
    Sound size (record.writes size page index change stage) := by
  obtain ⟨taken, underWay, found⟩ := PushStage.of_page holds
  have within := sound.within_of_later (sound.later_of_ne_done underWay) found
  have live := sound.live _ page (sound.stored.held index page holds)
  rw [Record.writes, Record.uses_of_live live]
  exact sound.move taken underWay stays within.2 rfl rfl
    (sound.stored.write within holds held changed)

/-- A ticket is drawn. -/
theorem draws (sound : Sound size record) (thread : ι) (msg : μ) :
    Sound size (record.draws thread msg) where
  stored := sound.stored.draw sound.drawn thread msg
  drawn := sound.drawn.draw thread msg
  past index before := sound.drawn.pusher_draw_of_done thread msg (sound.past index before)
  unread := sound.unread
  window index found := by
    rw [Record.draws, Tickets.pusher_draw] at found
    by_cases same : index = record.queue.postIndex
    · simp [same, PushStage.isFound] at found
    · rw [if_neg same] at found
      exact sound.window index found
  order := by
    rw [Record.draws, Tickets.draw, List.map_append]
    exact sound.order.trans (List.prefix_append _ _)
  live := sound.live
  fresh := sound.fresh
  safe := sound.safe

end Sound

/-! ## What the reader does -/

/-- The reader is at the message behind the popped ones, whose page is not released. -/
structure Record.AtFront (size : Size) (record : Record ι μ) : Prop where
  next : record.popped.length = record.queue.getIndex
  page : record.released = pageNumber size.pageMsgBits record.queue.getIndex

/-- The page at the index of the message that is read next. -/
def Record.pageOfNext (size : Size) (record : Record ι μ) : Option Nat :=
  record.queue.pageIndexes.index (size.pageIndex record.queue.getIndex)

theorem Record.AtFront.within (front : record.AtFront size) :
    record.Within size record.queue.getIndex := by
  refine ⟨Nat.le_of_eq front.page, ?_⟩
  rw [front.page]
  exact Nat.lt_add_of_pos_right (Nat.two_pow_pos _)

namespace Sound

/-- A message that is read is the next one of those that were accepted. -/
theorem popRead (sound : Sound size record) (front : record.AtFront size) {page : Nat}
    (atNext : record.pageOfNext size = some page)
    (done : record.tickets.pusher record.queue.getIndex = .done) :
    Sound size { record.uses page with
      popped := record.popped ++ [(record.slot size page).msg] } := by
  have fits := sound.stored.cells _ _ front.within (PageTable.cell_of_index atNext _)
  have msg : (record.slot size page).msg = _ := fits.msg (by rw [done]; rfl)
  have taken : record.queue.getIndex < record.tickets.accepted.length := by
    rw [sound.drawn.count]
    exact sound.drawn.lt (by simp [done])
  rw [Record.uses_of_live (sound.live _ page atNext)]
  refine
    { sound with
      past := fun index before => ?_
      unread := ?_
      order := ?_ }
  · rw [List.length_append, List.length_singleton] at before
    rcases Nat.lt_succ_iff_lt_or_eq.mp before with old | rfl
    · exact sound.past index old
    · rw [front.next]
      exact done
  · rw [List.length_append]
    exact Nat.le_trans sound.unread (pageNumber_mono (Nat.le_add_right _ _))
  · obtain ⟨rest, split⟩ := sound.order
    have atFront : (record.popped ++ rest)[record.popped.length]? =
        some (record.slot size page).msg := by
      rw [split, List.getElem?_map, front.next, msg]
      simp [taken]
    rw [List.getElem?_append_right (Nat.le_refl _), Nat.sub_self] at atFront
    obtain ⟨rest, rfl⟩ : ∃ tail, rest = (record.slot size page).msg :: tail := by
      cases rest with
      | nil => cases atFront
      | cons head tail => exact ⟨tail, by simpa using atFront⟩
    exact ⟨rest, by rw [← split]; simp⟩

/-- The page of the last message is released when the message is read. -/
theorem popRelease (sound : Sound size record) {page : Nat}
    (next : record.popped.length = record.queue.getIndex + 1)
    (released : record.released = pageNumber size.pageMsgBits record.queue.getIndex)
    (last : msgIndex size.pageMsgBits record.queue.getIndex = size.pageMsgMask)
    (atNext : record.pageOfNext size = some page) :
    Sound size { record with
      queue := record.queue.releasePage page (size.pageIndex record.queue.getIndex)
      released := record.released + 1 } := by
  have succ : pageNumber size.pageMsgBits (record.queue.getIndex + 1) = record.released + 1 := by
    rw [released]
    exact (pageNumber_succ _).trans (if_pos last)
  -- The pages of the window, but for the released one, are at other indexes.
  have elsewhere {index : Nat} (later : record.released + 1 ≤ pageNumber size.pageMsgBits index)
      (window : pageNumber size.pageMsgBits index < record.released + size.pageIndexCount) :
      size.pageIndex index ≠ size.pageIndex record.queue.getIndex := fun same => by
    have front : record.Within size record.queue.getIndex :=
      ⟨Nat.le_of_eq released, by rw [← released]; exact Nat.lt_add_of_pos_right (Nat.two_pow_pos _)⟩
    have equal := Record.Within.pageNumber_eq ⟨Nat.le_of_succ_le later, window⟩ front same
    omega
  refine
    { sound with
      stored := sound.stored.remove _ (fun _ _ one two same slot => one.index_eq two same slot)
        (fun index other holds => ?_) (fun index within done => ?_) fun index within apart => ?_
      unread := by rw [next, succ]
      window := fun index found => ?_
      live := fun pageIndex other known => ?_
      fresh := fun other later => ?_ }
  · obtain ⟨_, underWay, found⟩ := PushStage.of_page holds
    apply elsewhere _ (sound.window index found)
    rw [← succ, ← next]
    exact pageNumber_mono (sound.later_of_ne_done underWay)
  · have window := sound.window index (by rw [done]; rfl)
    exact ⟨elsewhere within.1 window, Nat.le_of_succ_le within.1, window⟩
  · -- The page that comes into the window has the index of the released one.
    refine ⟨Nat.le_of_succ_le within.1, Nat.lt_of_le_of_ne ?_ fun full => apart ?_⟩
    · have below := within.2
      change _ < record.released + 1 + _ at below
      omega
    · rw [Size.pageIndex_eq, Size.pageIndex_eq, full, released]
      exact Nat.add_mod_right _ _
  · have window := sound.window index found
    change _ < record.released + 1 + _
    omega
  · obtain ⟨differs, before⟩ := PageTable.remove_cases known
    have others : other ≠ page := fun same =>
      differs (sound.stored.paged.apart _ _ page (same ▸ before) atNext)
    exact (Function.update_of_ne others _ _).trans (sound.live pageIndex other before)
  · have old := sound.stored.paged.numbered _ page atNext
    have others : other ≠ page := fun same => absurd later (Nat.not_le.mpr (same ▸ old))
    exact (Function.update_of_ne others _ _).trans (sound.fresh other later)

/-- The counter of the reader is not part of the invariant. -/
theorem popCount (sound : Sound size record) (getIndex : Nat) :
    Sound size { record with queue := { record.queue with getIndex := getIndex } } :=
  { sound with }

end Sound

end Cube.Base.SrtQueue

/-! ## Runs of the queue with a single read thread

Where the threads stand, what each of their steps keeps, and what holds of every interleaving.
-/

namespace Cube.Base.SrtQueue

open MQueue

variable {ι μ : Type} {size : Size} {record : Record ι μ}

/-! ## The outline -/

/-- Where a push stands, its ticket does. -/
def Pushes (thread : ι) (record : Record ι μ) : Operation μ → Prop
  | .pushTest _ => True
  | .pushTicket _ => True
  | .pushLookup msg index =>
      record.tickets.pusher index = .taken thread ∧ record.tickets.accepted[index]? = some msg
  | .pushWrite msg index page =>
      record.tickets.pusher index = .found thread page ∧ record.tickets.accepted[index]? = some msg
  | .pushFlag index page => record.tickets.pusher index = .written thread page
  | _ => False

/-- What the reader knows where it stands. -/
def Reads (size : Size) (record : Record ι μ) : Operation μ → Prop
  | .popTest => record.AtFront size
  | .popLookup => record.AtFront size
  | .popFlag page => record.AtFront size ∧ record.pageOfNext size = some page
  | .popRead page =>
      record.AtFront size ∧ record.pageOfNext size = some page ∧
        record.tickets.pusher record.queue.getIndex = .done
  | .popRelease page =>
      record.popped.length = record.queue.getIndex + 1 ∧
        record.released = pageNumber size.pageMsgBits record.queue.getIndex ∧
        msgIndex size.pageMsgBits record.queue.getIndex = size.pageMsgMask ∧
        record.pageOfNext size = some page
  | .popCount =>
      record.popped.length = record.queue.getIndex + 1 ∧
        record.released = pageNumber size.pageMsgBits (record.queue.getIndex + 1)
  | _ => False

/-- The invariant, and where every thread stands. -/
def outline (size : Size) (reader : ι) :
    Interleaving.Outline ι (Record ι μ) (Operation μ) where
  shared := Sound size
  running thread record operation :=
    Pushes thread record operation ∨ thread = reader ∧ Reads size record operation

/-- What a step of a push leaves as it is for the reader. -/
structure Record.Grows (before after : Record ι μ) : Prop where
  getIndex : after.queue.getIndex = before.queue.getIndex
  popped : after.popped = before.popped
  released : after.released = before.released
  done : ∀ index, before.tickets.pusher index = .done → after.tickets.pusher index = .done
  index : ∀ pageIndex page, before.queue.pageIndexes.index pageIndex = some page →
    after.queue.pageIndexes.index pageIndex = some page

section Frames

variable {before after : Record ι μ} {operation : Operation μ}

theorem Record.Grows.atFront (grows : before.Grows after) (front : before.AtFront size) :
    after.AtFront size :=
  ⟨by rw [grows.popped, grows.getIndex, front.next],
    by rw [grows.released, grows.getIndex, front.page]⟩

theorem Record.Grows.pageOfNext (grows : before.Grows after) {page : Nat}
    (atNext : before.pageOfNext size = some page) : after.pageOfNext size = some page := by
  rw [Record.pageOfNext, grows.getIndex]
  exact grows.index _ page atNext

theorem Reads.grow (reads : Reads size before operation) (grows : before.Grows after) :
    Reads size after operation := by
  cases operation with
  | popTest => exact grows.atFront reads
  | popLookup => exact grows.atFront reads
  | popFlag page => exact ⟨grows.atFront reads.1, grows.pageOfNext reads.2⟩
  | popRead page =>
      refine ⟨grows.atFront reads.1, grows.pageOfNext reads.2.1, ?_⟩
      rw [grows.getIndex]
      exact grows.done _ reads.2.2
  | popRelease page =>
      obtain ⟨next, released, last, atNext⟩ := reads
      refine ⟨?_, ?_, ?_, grows.pageOfNext atNext⟩
      · rw [grows.popped, grows.getIndex, next]
      · rw [grows.released, grows.getIndex, released]
      · rw [grows.getIndex, last]
  | popCount =>
      obtain ⟨next, released⟩ := reads
      refine ⟨?_, ?_⟩
      · rw [grows.popped, grows.getIndex, next]
      · rw [grows.released, grows.getIndex, released]
  | _ => exact reads.elim

theorem Pushes.spare {thread other : ι} (stands : Pushes other before operation)
    (different : other ≠ thread) (spares : before.tickets.Spares thread after.tickets) :
    Pushes other after operation := by
  have same {index : Nat} {stage : PushStage ι} (held : before.tickets.pusher index = stage)
      (own : stage.thread = some other) : after.tickets.pusher index = stage :=
    (spares.pusher index other different (held ▸ own)).trans held
  cases operation with
  | pushTest msg => trivial
  | pushTicket msg => trivial
  | pushLookup msg index => exact ⟨same stands.1 rfl, spares.accepted index msg stands.2⟩
  | pushWrite msg index page => exact ⟨same stands.1 rfl, spares.accepted index msg stands.2⟩
  | pushFlag index page => exact same stands rfl
  | _ => exact stands.elim

end Frames

/-- What a step of a push has to establish. -/
theorem keeps_push {reader thread : ι} {result : Record ι μ × Option (Operation μ)}
    (sound : Sound size result.1)
    (own : ∀ operation, result.2 = some operation → Pushes thread result.1 operation)
    (grows : record.Grows result.1) (spares : record.tickets.Spares thread result.1.tickets) :
    (outline size reader).Keeps thread record result where
  shared := sound
  own operation next := .inl (own operation next)
  others other operation different stands := by
    rcases stands with pushes | ⟨rfl, reads⟩
    · exact .inl (pushes.spare different spares)
    · exact .inr ⟨rfl, reads.grow grows⟩

/-- What a step of the reader has to establish. -/
theorem keeps_read {reader : ι} {result : Record ι μ × Option (Operation μ)}
    (sound : Sound size result.1)
    (own : ∀ operation, result.2 = some operation → Reads size result.1 operation)
    (same : result.1.tickets = record.tickets) :
    (outline size reader).Keeps reader record result where
  shared := sound
  own operation next := .inr ⟨rfl, own operation next⟩
  others other operation different stands := by
    rcases stands with pushes | ⟨rfl, _⟩
    · exact .inl (pushes.spare different (same ▸ .refl reader record.tickets))
    · exact absurd rfl different

/-! ## Steps -/

theorem Record.Grows.refl (record : Record ι μ) : record.Grows record :=
  ⟨rfl, rfl, rfl, fun _ done => done, fun _ _ known => known⟩

/-- A push that goes on, at a table that has grown. -/
theorem Record.grows_move {table : PageTable (Message μ)} {index : Nat} (stage : PushStage ι)
    (underWay : record.tickets.pusher index ≠ .done)
    (kept : ∀ pageIndex page, record.queue.pageIndexes.index pageIndex = some page →
      table.index pageIndex = some page) :
    record.Grows { record with
      queue := { record.queue with pageIndexes := table }
      tickets := record.tickets.move index stage } :=
  ⟨rfl, rfl, rfl, fun _ done => Tickets.pusher_move_of_done underWay stage done, kept⟩

/-- A write of a push that is under way. -/
theorem keeps_write (sound : Sound size record) {reader thread : ι} {index page : Nat}
    {stage : PushStage ι} {change : Message μ → Message μ} {next : Option (Operation μ)}
    (holds : (record.tickets.pusher index).page = some page)
    (own : (record.tickets.pusher index).thread = some thread)
    (after : Sound size (record.writes size page index change stage))
    (stands : ∀ operation, next = some operation →
      Pushes thread (record.writes size page index change stage) operation) :
    (outline size reader).Keeps thread record
      (record.writes size page index change stage, next) := by
  obtain ⟨_, underWay, _⟩ := PushStage.of_page holds
  have live := sound.live _ page (sound.stored.held index page holds)
  refine keeps_push after stands ?_ (.move own stage)
  rw [Record.writes, Record.uses_of_live live]
  exact Record.grows_move stage underWay fun _ _ known => known

/-- Every good step of a push keeps the outline. -/
theorem push_keeps (sound : Sound size record) {reader thread : ι} {operation : Operation μ}
    (stands : Pushes thread record operation) (good : Good size record operation) :
    (outline size reader).Keeps thread record (record.step size thread operation) := by
  cases operation with
  | pushTest msg =>
      rw [Record.step]
      split
      · exact keeps_push sound nofun (.refl record) (.refl ..)
      · refine keeps_push sound ?_ (.refl record) (.refl ..)
        rintro _ ⟨⟩
        trivial
  | pushTicket msg =>
      refine keeps_push (sound.draws thread msg) ?_ ?_ (sound.drawn.spares thread msg)
      · rintro _ ⟨⟩
        exact ⟨Function.update_self .., sound.drawn.accepted_draw thread msg⟩
      · exact ⟨rfl, rfl, rfl, fun _ done => sound.drawn.pusher_draw_of_done thread msg done,
          fun _ _ known => known⟩
  | pushLookup msg index =>
      obtain ⟨taken, accepted⟩ := stands
      have found := PageTable.lookup_found record.queue.pageIndexes Message.blank
        (size.pageIndex index)
      refine keeps_push ((sound.lookup _).found taken good found) ?_ ?_
        (.move (by rw [taken]; rfl) _)
      · rintro _ ⟨⟩
        exact ⟨Function.update_self .., accepted⟩
      · exact Record.grows_move _ (by simp [taken]) fun _ _ known =>
          PageTable.lookup_kept _ _ _ known
  | pushWrite msg index page =>
      obtain ⟨found, accepted⟩ := stands
      have holds : (record.tickets.pusher index).page = some page := by rw [found]; rfl
      refine keeps_write sound holds (by rw [found]; rfl) (sound.writes holds nofun ?_ ?_) ?_
      · rintro _ ⟨⟩
        rfl
      · intro message fits
        refine ⟨?_, fun _ => accepted.symm⟩
        simpa [found, Message.setMsg] using fits.flag
      · rintro _ ⟨⟩
        exact Function.update_self ..
  | pushFlag index page =>
      have written : record.tickets.pusher index = .written thread page := stands
      have holds : (record.tickets.pusher index).page = some page := by rw [written]; rfl
      refine keeps_write sound holds (by rw [written]; rfl) (sound.writes holds nofun nofun ?_)
        nofun
      intro message fits
      exact ⟨by simp [Message.setFlag], fun _ => fits.msg (by rw [written]; rfl)⟩
  | _ => exact stands.elim

/-- Every step of the reader keeps the outline. -/
theorem read_keeps (sound : Sound size record) {reader : ι} {operation : Operation μ}
    (reads : Reads size record operation) :
    (outline size reader).Keeps reader record (record.step size reader operation) := by
  cases operation with
  | popTest =>
      rw [Record.step]
      split
      · refine keeps_read sound ?_ rfl
        rintro _ ⟨⟩
        exact reads
      · refine keeps_read sound ?_ rfl
        rintro _ ⟨⟩
        exact reads
  | popLookup =>
      refine keeps_read (sound.lookup _) ?_ rfl
      rintro _ ⟨⟩
      exact ⟨⟨reads.next, reads.page⟩, PageTable.lookup_found ..⟩
  | popFlag page =>
      obtain ⟨front, atNext⟩ := reads
      rw [Record.step, Record.uses_of_live (sound.live _ page atNext)]
      refine keeps_read sound ?_ rfl
      rintro _ ⟨⟩
      split
      next flagged =>
        have fits := sound.stored.cells _ _ front.within (PageTable.cell_of_index atNext _)
        exact ⟨front, atNext, fits.flag.mp flagged⟩
      next => exact front
  | popRead page =>
      obtain ⟨front, atNext, done⟩ := reads
      have length : (record.popped ++ [(record.slot size page).msg]).length =
          record.queue.getIndex + 1 := by
        rw [List.length_append, front.next]
        rfl
      refine keeps_read (sound.popRead front atNext done) ?_ rfl
      rintro _ ⟨⟩
      split
      next last => exact ⟨length, front.page, last, atNext⟩
      next inside =>
        have same := (pageNumber_succ record.queue.getIndex).trans (if_neg inside)
        exact ⟨length, front.page.trans same.symm⟩
  | popRelease page =>
      obtain ⟨next, released, last, atNext⟩ := reads
      refine keeps_read (sound.popRelease next released last atNext) ?_ rfl
      rintro _ ⟨⟩
      have succ := (pageNumber_succ record.queue.getIndex).trans (if_pos last)
      exact ⟨next, (congrArg (· + 1) released).trans succ.symm⟩
  | popCount =>
      obtain ⟨next, released⟩ := reads
      refine keeps_read (sound.popCount _) ?_ rfl
      rintro _ ⟨⟩
      exact ⟨next, released⟩
  | _ => exact reads.elim

/-! ## Runs -/

section Runs

variable [DecidableEq ι] {reader : ι}

theorem outline_start : (outline size reader).Holds (start reader : Threads ι μ) := by
  refine ⟨sound_new, fun thread operation running => ?_⟩
  simp only [start] at running
  rcases eq_or_ne thread reader with rfl | different
  · rw [Function.update_self] at running
    cases running
    exact .inr ⟨rfl, rfl, by simp [start, Record.new, init, pageNumber]⟩
  · rw [Function.update_of_ne different] at running
    cases running

theorem outline_step {threads : Threads ι μ} (holds : (outline size reader).Holds threads)
    {choice : Choice ι μ} (good : Interleaving.Meets (Good size) threads choice) :
    (outline size reader).Holds ((program size).step threads choice) := by
  refine holds.step (fun thread call _ _ => ?_)
    fun thread input operation chosen running stands => ?_
  · refine keeps_push holds.shared ?_ (.refl _) (.refl ..)
    rintro _ ⟨⟩
    trivial
  · rcases stands with pushes | ⟨rfl, reads⟩
    · exact push_keeps holds.shared pushes (good thread input operation chosen running)
    · exact read_keeps holds.shared reads

/-- **Order without loss.** Where every push finds its page index free of older messages, in every
state of every interleaving the popped messages are the first of the accepted ones, the other ones
with a flag are in their slots, and no page is released that is in use. -/
theorem intact_of_good (size : Size) (reader : ι) (choices : List (Choice ι μ))
    (good : Run.Steps (program size).step (Interleaving.Meets (Good size)) (start reader) choices) :
    Run.Always (program size).step (fun threads => Intact size threads.shared) (fun _ _ => True)
      (start reader) choices :=
  Run.always_of_steps (outline size reader).Holds (fun _ holds => holds.shared.intact)
    (fun _ _ holds good => ⟨trivial, outline_step holds good⟩) outline_start good

end Runs

/-! ## A run in which a message is lost -/

/-- Pages of four messages, at two indexes. -/
def smallSize : Size := ⟨2, 1, by decide, by decide⟩

/-- A thread pushes a message. -/
def pushed (thread : Fin 4) (msg : Nat) : List (Choice (Fin 4) Nat) :=
  .call thread msg :: List.replicate 5 (.advance thread ())

/-- Three messages of four are read when three threads test whether the queue is full, and then draw
tickets; the last of these leads to the page whose last message is not read yet. -/
def overrun : List (Choice (Fin 4) Nat) :=
  pushed 1 0 ++ pushed 1 1 ++ pushed 1 2 ++ pushed 1 3 ++ List.replicate 15 (.advance 0 ()) ++
    pushed 1 4 ++ pushed 1 5 ++ [.call 1 6, .advance 1 (), .call 2 7, .advance 2 (), .call 3 8] ++
    [.advance 3 (), .advance 1 (), .advance 2 ()] ++ List.replicate 4 (.advance 3 ()) ++
    List.replicate 6 (.advance 0 ())

/-- Two messages, the first of which is popped. -/
theorem intact_two : Run.Always (program smallSize).step
    (fun threads : Threads (Fin 4) Nat => Intact smallSize threads.shared) (fun _ _ => True)
    (start 0) (pushed 1 7 ++ [.call 2 8] ++ List.replicate 5 (.advance 0 ()) ++ [.advance 2 ()]) :=
  intact_of_good smallSize 0 _ (by decide +kernel)

/-- The message of the last ticket is lost with the page. -/
theorem intact_lost : ¬ ∀ choices : List (Choice (Fin 4) Nat), Run.Always (program smallSize).step
    (fun threads => Intact smallSize threads.shared) (fun _ _ => True) (start 0) choices := by
  intro all
  have last := (all overrun).final
  obtain ⟨page, atIndex, _⟩ := last.stored 8 (by decide +kernel) (by decide +kernel)
  have missing :
      (Run.final (program smallSize).step (start 0) overrun).shared.queue.pageIndexes.index
        (smallSize.pageIndex 8) = none := by decide +kernel
  rw [missing] at atIndex
  cases atIndex

end Cube.Base.SrtQueue
