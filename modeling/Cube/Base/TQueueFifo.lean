import Mathlib.Tactic.Common
import Cube.Base.TQueue
import Cube.Lib.Run

/-! # The ticket queue with one writer and one reader

`post_msg` and `get_msg`, called one after the other by a writer and a reader. The queue refines a
list of messages as long as no post leads to a page index whose page still has messages to be read.
-/

namespace Cube.Base.TQueue

variable {μ : Type}

/-- `int((index >> kTQueuePageMsgCountBits) & page_index_mask_)`, where it is an index of the
table. -/
def intPageIndex (pageBits index : Nat) : Option Nat :=
  let page := (pageIndex pageBits index : Int).bmod (2 ^ 32)
  if 0 ≤ page then some page.toNat else none

/-- `post_index_++`. -/
def takePost (queue : TQueue μ) : TQueue μ := { queue with postIndex := queue.postIndex + 1 }

/-- `post_msg`, unless the counter overflows or the page index is outside of the table. -/
def postMsg (pageBits : Nat) (queue : TQueue μ) (msg : μ) : Option (TQueue μ) :=
  if queue.postIndex + 1 < 2 ^ 63 then do
    let index ← intPageIndex pageBits queue.postIndex
    let (next, page) := queue.takePost.getMsgPage index
    return (next.setMsg page (msgIndex queue.postIndex) msg).setFlag page (msgIndex queue.postIndex)
  else none

/-- `get_msg`: the queue after it, and the message if it returns true. -/
def getMsg (pageBits : Nat) (queue : TQueue μ) : Option (TQueue μ × Option (Option μ)) :=
  if queue.getIndex ≥ queue.postIndex then some (queue, none)
  else do
    let index ← intPageIndex pageBits queue.getIndex
    let (next, page) := queue.getMsgPage index
    let slot := next.pages page (msgIndex queue.getIndex)
    if slot.flag = false then return (next, none)
    else
      let recycled :=
        if msgIndex queue.getIndex = pageMsgIndexMask then (next.recycleMsgPage index).1 else next
      return ({ recycled with getIndex := queue.getIndex + 1 }, some slot.msg)

/-- The queue, and the messages that were posted and not read yet. -/
structure Fifo (μ : Type) where
  queue : TQueue μ
  unread : List μ

/-- A call of the writer or of the reader. -/
inductive FifoCall (μ : Type) where
  | postMsg (msg : μ)
  | getMsg

namespace Fifo

variable (pageBits : Nat)

def new : Fifo μ := ⟨init, []⟩

/-- The state after a call. Nothing is said about a queue behind an undefined access. -/
def step (fifo : Fifo μ) : FifoCall μ → Fifo μ
  | .postMsg msg =>
      match fifo.queue.postMsg pageBits msg with
      | some queue => ⟨queue, fifo.unread ++ [msg]⟩
      | none => fifo
  | .getMsg =>
      match fifo.queue.getMsg pageBits with
      | some (queue, some _) => ⟨queue, fifo.unread.tail⟩
      | some (queue, none) => ⟨queue, fifo.unread⟩
      | none => fifo

/-- The reader gets these messages, one after the other, and then none. -/
def Drains : TQueue μ → List μ → Prop
  | queue, [] => ∃ next, queue.getMsg pageBits = some (next, none)
  | queue, msg :: unread =>
      ∃ next, queue.getMsg pageBits = some (next, some (some msg)) ∧ Drains next unread

/-- A post returns, and a get returns true with the oldest unread message, or false if there is
none. -/
def Right (fifo : Fifo μ) : FifoCall μ → Prop
  | .postMsg msg => (fifo.queue.postMsg pageBits msg).isSome
  | .getMsg => ∃ queue, fifo.queue.getMsg pageBits = some (queue, fifo.unread.head?.map some)

/-- A post leads to a page whose index is not in use for older messages, and is an `int`. -/
def Good (fifo : Fifo μ) : FifoCall μ → Prop
  | .postMsg _ =>
      pageNumber fifo.queue.postIndex < pageNumber fifo.queue.getIndex + 2 ^ pageBits ∧
        pageIndex pageBits fifo.queue.postIndex < 2 ^ 31 ∧ fifo.queue.postIndex + 1 < 2 ^ 63
  | .getMsg => True

instance decidableGood (fifo : Fifo μ) : ∀ call, Decidable (fifo.Good pageBits call)
  | .postMsg _ => inferInstanceAs (Decidable (_ ∧ _ ∧ _))
  | .getMsg => isTrue trivial

end Fifo

/-! ## Pages in a window -/

variable {pageBits : Nat}

theorem intPageIndex_eq {index : Nat} (fits : pageIndex pageBits index < 2 ^ 31) :
    intPageIndex pageBits index = some (pageIndex pageBits index) := by
  unfold intPageIndex
  generalize pageIndex pageBits index = page at fits ⊢
  have same : (page : Int).bmod (2 ^ 32) = page :=
    Int.bmod_eq_of_le_mul_two (by omega) (by omega)
  simp only [same]
  simp

/-! ## Looking up a page -/

/-- The indexes of the table have pages of their own, which are among those that were allocated. -/
structure Paged (queue : TQueue μ) : Prop where
  apart : ∀ first second page, queue.pageIndexes first = some page →
    queue.pageIndexes second = some page → first = second
  numbered : ∀ index page, queue.pageIndexes index = some page → page < queue.allocated

section Lookup

variable {queue : TQueue μ} {index : Nat}

theorem getMsgPage_of_some {page : Nat} (found : queue.pageIndexes index = some page) :
    queue.getMsgPage index = (queue, page) := by
  simp [getMsgPage, found]

theorem getMsgPage_of_none (missing : queue.pageIndexes index = none) :
    queue.getMsgPage index =
      ({ queue with
        pageIndexes := Function.update queue.pageIndexes index (some queue.allocated)
        pages := Function.update queue.pages queue.allocated emptyPage
        allocated := queue.allocated + 1 }, queue.allocated) := by
  simp [getMsgPage, missing]

/-- A lookup leaves the counters as they are. -/
theorem getMsgPage_counters (queue : TQueue μ) (index : Nat) :
    (queue.getMsgPage index).1.postIndex = queue.postIndex ∧
      (queue.getMsgPage index).1.getIndex = queue.getIndex := by
  cases found : queue.pageIndexes index with
  | some page => simp [getMsgPage_of_some found]
  | none => simp [getMsgPage_of_none found]

/-- A lookup finds a page at the index. -/
theorem getMsgPage_found (queue : TQueue μ) (index : Nat) :
    (queue.getMsgPage index).1.pageIndexes index = some (queue.getMsgPage index).2 := by
  cases found : queue.pageIndexes index with
  | some page => simp [getMsgPage_of_some found, found]
  | none => simp [getMsgPage_of_none found]

/-- A lookup keeps the pages that are there. -/
theorem Paged.getMsgPage_kept (paged : Paged queue) (index : Nat) {other page : Nat}
    (known : queue.pageIndexes other = some page) :
    (queue.getMsgPage index).1.pageIndexes other = some page ∧
      (queue.getMsgPage index).1.pages page = queue.pages page := by
  cases found : queue.pageIndexes index with
  | some _ => simp [getMsgPage_of_some found, known]
  | none =>
      have differs : other ≠ index := fun same => by
        rw [same, found] at known
        cases known
      have old := paged.numbered other page known
      rw [getMsgPage_of_none found]
      exact ⟨(Function.update_of_ne differs _ _).trans known,
        Function.update_of_ne (Nat.ne_of_lt old) _ _⟩

/-- A page with a new number is of its own. -/
theorem Paged.allocate (paged : Paged queue) (index : Nat) {first second page : Nat}
    (one : Function.update queue.pageIndexes index (some queue.allocated) first = some page)
    (two : Function.update queue.pageIndexes index (some queue.allocated) second = some page) :
    first = second ∧ page < queue.allocated + 1 := by
  rw [Function.update_apply] at one two
  by_cases atFirst : first = index
  · rw [if_pos atFirst, Option.some.injEq] at one
    by_cases atSecond : second = index
    · exact ⟨atFirst.trans atSecond.symm, by omega⟩
    · rw [if_neg atSecond] at two
      exact absurd (paged.numbered second page two) (by omega)
  · rw [if_neg atFirst] at one
    have old := paged.numbered first page one
    by_cases atSecond : second = index
    · rw [if_pos atSecond, Option.some.injEq] at two
      omega
    · rw [if_neg atSecond] at two
      exact ⟨paged.apart first second page one two, by omega⟩

/-- A lookup gives every index a page of its own. -/
theorem Paged.getMsgPage (paged : Paged queue) (index : Nat) :
    Paged (queue.getMsgPage index).1 := by
  cases found : queue.pageIndexes index with
  | some _ =>
      rw [getMsgPage_of_some found]
      exact paged
  | none =>
      rw [getMsgPage_of_none found]
      exact ⟨fun _ _ _ one two => (paged.allocate index one two).1,
        fun _ _ known => (paged.allocate index known known).2⟩

end Lookup

/-- Where a post is to a page index of the table, it writes its message to the page there. -/
theorem postMsg_of_int {queue : TQueue μ} (msg : μ) (counter : queue.postIndex + 1 < 2 ^ 63)
    (int : pageIndex pageBits queue.postIndex < 2 ^ 31) :
    queue.postMsg pageBits msg = some
      (let looked := queue.takePost.getMsgPage (pageIndex pageBits queue.postIndex)
      (looked.1.setMsg looked.2 (msgIndex queue.postIndex) msg).setFlag looked.2
        (msgIndex queue.postIndex)) := by
  rw [postMsg, if_pos counter, intPageIndex_eq int]
  rfl

/-- The queue behind the recycling of a page that is there. -/
theorem recycleMsgPage_of_some {queue : TQueue μ} {index page : Nat}
    (found : queue.pageIndexes index = some page) :
    (queue.recycleMsgPage index).1 =
      { queue with
        pageIndexes := Function.update queue.pageIndexes index none
        pageCounter := Function.update queue.pageCounter index 0
        deleted := Function.update queue.deleted page true } := by
  simp only [recycleMsgPage, found]

/-- A message that is written with its flag. -/
theorem pages_write (queue : TQueue μ) (page slot : Nat) (msg : μ) (other index : Nat) :
    ((queue.setMsg page slot msg).setFlag page slot).pages other index =
      if other = page ∧ index = slot then ⟨some msg, true⟩ else queue.pages other index := by
  by_cases same : other = page
  · subst same
    by_cases here : index = slot
    · subst here
      simp [setMsg, setFlag]
    · simp [setMsg, setFlag, here]
  · simp [setMsg, setFlag, same]

/-! ## The invariant -/

/-- The unread messages are in their slots, and the messages that were posted are in one window of
the table from the next one to read on. -/
structure Holds (pageBits : Nat) (fifo : Fifo μ) : Prop where
  paged : Paged fifo.queue
  count : fifo.queue.postIndex = fifo.queue.getIndex + fifo.unread.length
  window : ∀ index, index < fifo.queue.postIndex →
    pageNumber index < pageNumber fifo.queue.getIndex + 2 ^ pageBits
  int : ∀ index, index < fifo.queue.postIndex → pageIndex pageBits index < 2 ^ 31
  slots : ∀ (i : Nat) (msg : μ), fifo.unread[i]? = some msg → ∃ page,
    fifo.queue.pageIndexes (pageIndex pageBits (fifo.queue.getIndex + i)) = some page ∧
      fifo.queue.pages page (msgIndex (fifo.queue.getIndex + i)) = ⟨some msg, true⟩

/-- Messages of one page index, in one window, are in one page of the numbering. -/
theorem pageNumber_eq_of_window {low first second : Nat} (lowFirst : low ≤ first)
    (highFirst : pageNumber first < pageNumber low + 2 ^ pageBits) (lowSecond : low ≤ second)
    (highSecond : pageNumber second < pageNumber low + 2 ^ pageBits)
    (same : pageIndex pageBits first = pageIndex pageBits second) :
    pageNumber first = pageNumber second := by
  rw [pageIndex_eq, pageIndex_eq] at same
  apply Nat.mod_injOn_Ico (pageNumber low) (2 ^ pageBits) _ _ same
  · simpa using ⟨Nat.div_le_div_right lowFirst, highFirst⟩
  · simpa using ⟨Nat.div_le_div_right lowSecond, highSecond⟩

namespace Holds

variable {fifo : Fifo μ}

/-- The invariant behind a get, with a table that leads to the pages of the later messages. -/
theorem next (holds : Holds pageBits fifo) {msg : μ} {unread : List μ}
    (front : fifo.unread = msg :: unread) {queue : TQueue μ} (paged : Paged queue)
    (postIndex : queue.postIndex = fifo.queue.postIndex)
    (getIndex : queue.getIndex = fifo.queue.getIndex + 1) (pages : queue.pages = fifo.queue.pages)
    (kept : ∀ ticket page, fifo.queue.getIndex < ticket → ticket < fifo.queue.postIndex →
      fifo.queue.pageIndexes (pageIndex pageBits ticket) = some page →
      queue.pageIndexes (pageIndex pageBits ticket) = some page) :
    Holds pageBits ⟨queue, unread⟩ := by
  have count := holds.count
  rw [front, List.length_cons] at count
  refine ⟨paged, ?_, ?_, ?_, ?_⟩
  · simp only [postIndex, getIndex, count]
    omega
  · simp only [postIndex, getIndex]
    intro index before
    have later : pageNumber fifo.queue.getIndex ≤ pageNumber (fifo.queue.getIndex + 1) :=
      Nat.div_le_div_right (Nat.le_succ _)
    exact Nat.lt_of_lt_of_le (holds.window index before) (Nat.add_le_add_right later _)
  · simp only [postIndex]
    exact holds.int
  · simp only [getIndex, pages]
    intro i other found
    have inside := (List.getElem?_eq_some_iff.mp found).1
    obtain ⟨page, table, slot⟩ := holds.slots (i + 1) other (by simpa [front] using found)
    have same : fifo.queue.getIndex + 1 + i = fifo.queue.getIndex + (i + 1) := by omega
    rw [same]
    exact ⟨page, kept _ page (by omega) (by omega) table, slot⟩

/-- Behind the last message of a page there are no messages of its index. -/
theorem pageIndex_ne_of_last (holds : Holds pageBits fifo)
    (last : msgIndex fifo.queue.getIndex = pageMsgIndexMask) {ticket : Nat}
    (later : fifo.queue.getIndex < ticket) (before : ticket < fifo.queue.postIndex) :
    pageIndex pageBits ticket ≠ pageIndex pageBits fifo.queue.getIndex := by
  intro same
  have number := pageNumber_eq_of_window (Nat.le_of_lt later) (holds.window ticket before)
    (Nat.le_refl _) (Nat.lt_add_of_pos_right (Nat.two_pow_pos pageBits)) same
  have split := Nat.div_add_mod ticket pageMsgCount
  have split' := Nat.div_add_mod fifo.queue.getIndex pageMsgCount
  have bound : ticket % pageMsgCount < pageMsgCount := Nat.mod_lt _ (by simp [pageMsgCount])
  rw [msgIndex_eq] at last
  simp only [pageNumber] at number
  rw [number] at split
  simp only [pageMsgCount, pageMsgIndexMask] at *
  omega

/-- A get of an unread message takes it from the front. -/
theorem get (holds : Holds pageBits fifo) {msg : μ} {unread : List μ}
    (front : fifo.unread = msg :: unread) :
    ∃ queue, fifo.queue.getMsg pageBits = some (queue, some (some msg)) ∧
      Holds pageBits ⟨queue, unread⟩ := by
  have count := holds.count
  rw [front, List.length_cons] at count
  have before : fifo.queue.getIndex < fifo.queue.postIndex := by omega
  obtain ⟨page, table, slot⟩ := holds.slots 0 msg (by rw [front]; rfl)
  rw [Nat.add_zero] at table slot
  have returned : fifo.queue.getMsg pageBits = some
      ({ (if msgIndex fifo.queue.getIndex = pageMsgIndexMask
          then (fifo.queue.recycleMsgPage (pageIndex pageBits fifo.queue.getIndex)).1
          else fifo.queue) with getIndex := fifo.queue.getIndex + 1 }, some (some msg)) := by
    simp [getMsg, Nat.not_le.mpr before, intPageIndex_eq (holds.int _ before),
      getMsgPage_of_some table, slot]
  refine ⟨_, returned, ?_⟩
  by_cases last : msgIndex fifo.queue.getIndex = pageMsgIndexMask
  · rw [if_pos last, recycleMsgPage_of_some table]
    refine holds.next front ⟨fun first second page one two => ?_, fun index page known => ?_⟩
      rfl rfl rfl fun ticket page later before known => ?_
    · exact holds.paged.apart first second page (of_update_none one).2 (of_update_none two).2
    · exact holds.paged.numbered index page (of_update_none known).2
    · exact (Function.update_of_ne (holds.pageIndex_ne_of_last last later before) _ _).trans known
  · rw [if_neg last]
    exact holds.next front ⟨holds.paged.apart, holds.paged.numbered⟩ rfl rfl rfl
      fun _ _ _ _ known => known

/-- A get of an empty queue returns false. -/
theorem get_empty (holds : Holds pageBits fifo) (empty : fifo.unread = []) :
    fifo.queue.getMsg pageBits = some (fifo.queue, none) := by
  have count := holds.count
  rw [empty, List.length_nil, Nat.add_zero] at count
  simp [getMsg, count]

/-- A ticket within the window does not lead to the message of an unread one. -/
theorem msgIndex_ne (holds : Holds pageBits fifo)
    (within : pageNumber fifo.queue.postIndex < pageNumber fifo.queue.getIndex + 2 ^ pageBits)
    {i : Nat} (inside : i < fifo.unread.length)
    (index : pageIndex pageBits (fifo.queue.getIndex + i) =
      pageIndex pageBits fifo.queue.postIndex) :
    msgIndex (fifo.queue.getIndex + i) ≠ msgIndex fifo.queue.postIndex := by
  intro slot
  have early : fifo.queue.getIndex + i < fifo.queue.postIndex := by
    rw [holds.count]
    omega
  have number := pageNumber_eq_of_window (Nat.le_add_right _ _) (holds.window _ early)
    (Nat.le_of_lt (Nat.lt_of_le_of_lt (Nat.le_add_right _ i) early)) within index
  exact absurd (ticket_eq number slot) (Nat.ne_of_lt early)

/-- A good post puts its message behind the unread ones. -/
theorem post (holds : Holds pageBits fifo) {msg : μ} (good : fifo.Good pageBits (.postMsg msg)) :
    ∃ queue, fifo.queue.postMsg pageBits msg = some queue ∧
      queue.getIndex = fifo.queue.getIndex ∧ Holds pageBits ⟨queue, fifo.unread ++ [msg]⟩ := by
  obtain ⟨within, int, counter⟩ := good
  have paged : Paged fifo.queue.takePost := ⟨holds.paged.apart, holds.paged.numbered⟩
  have posted := postMsg_of_int msg counter int
  obtain ⟨postIndex, getIndex⟩ :=
    getMsgPage_counters fifo.queue.takePost (pageIndex pageBits fifo.queue.postIndex)
  have here := getMsgPage_found fifo.queue.takePost (pageIndex pageBits fifo.queue.postIndex)
  have next := paged.getMsgPage (pageIndex pageBits fifo.queue.postIndex)
  have kept : ∀ other page, fifo.queue.pageIndexes other = some page → _ := fun _ _ known =>
    paged.getMsgPage_kept (pageIndex pageBits fifo.queue.postIndex) known
  generalize fifo.queue.takePost.getMsgPage (pageIndex pageBits fifo.queue.postIndex) = looked at *
  obtain ⟨queue, page⟩ := looked
  change queue.postIndex = fifo.queue.postIndex + 1 at postIndex
  change queue.getIndex = fifo.queue.getIndex at getIndex
  change queue.pageIndexes _ = some page at here
  change Paged queue at next
  refine ⟨_, posted, getIndex, ⟨next.apart, next.numbered⟩, ?_, ?_, ?_, ?_⟩
  · simp only [List.length_append, List.length_singleton]
    change queue.postIndex = queue.getIndex + _
    rw [postIndex, getIndex, holds.count, Nat.add_assoc]
  · intro index before
    change pageNumber index < pageNumber queue.getIndex + _
    rw [getIndex]
    rcases Nat.lt_succ_iff_lt_or_eq.mp (postIndex ▸ before) with old | rfl
    · exact holds.window index old
    · exact within
  · intro index before
    rcases Nat.lt_succ_iff_lt_or_eq.mp (postIndex ▸ before) with old | rfl
    · exact holds.int index old
    · exact int
  · intro i other found
    change ∃ place, queue.pageIndexes (pageIndex pageBits (queue.getIndex + i)) = some place ∧
      ((queue.setMsg page (msgIndex fifo.queue.postIndex) msg).setFlag page
        (msgIndex fifo.queue.postIndex)).pages place (msgIndex (queue.getIndex + i)) =
          ⟨some other, true⟩
    simp only [pages_write, getIndex]
    rcases Nat.lt_or_ge i fifo.unread.length with inside | behind
    · rw [List.getElem?_append_left inside] at found
      obtain ⟨old, table, slot⟩ := holds.slots i other found
      obtain ⟨still, same⟩ := kept _ _ table
      change queue.pageIndexes _ = some old at still
      change queue.pages old = fifo.queue.pages old at same
      refine ⟨old, still, ?_⟩
      rw [if_neg, same]
      · exact slot
      · rintro ⟨samePage, sameSlot⟩
        have index := next.apart _ _ page (samePage ▸ still) here
        exact holds.msgIndex_ne within inside index sameSlot
    · rw [List.getElem?_append_right behind] at found
      obtain ⟨last, rfl⟩ : i - fifo.unread.length = 0 ∧ other = msg := by
        cases place : i - fifo.unread.length with
        | zero => simpa [place] using found.symm
        | succ _ => simp [place] at found
      have index : fifo.queue.getIndex + i = fifo.queue.postIndex := by
        rw [holds.count]
        omega
      rw [index]
      exact ⟨page, here, if_pos ⟨rfl, rfl⟩⟩

/-- The reader gets the unread messages in their order. -/
theorem drains {queue : TQueue μ} {unread : List μ} (holds : Holds pageBits ⟨queue, unread⟩) :
    Fifo.Drains pageBits queue unread := by
  induction unread generalizing queue with
  | nil => exact ⟨queue, holds.get_empty rfl⟩
  | cons msg unread ih =>
      obtain ⟨next, returned, after⟩ := holds.get rfl
      exact ⟨next, returned, ih after⟩

/-- A good call is right, and keeps the invariant. -/
theorem step (holds : Holds pageBits fifo) {call : FifoCall μ} (good : fifo.Good pageBits call) :
    fifo.Right pageBits call ∧ Holds pageBits (fifo.step pageBits call) := by
  cases call with
  | postMsg msg =>
      obtain ⟨queue, posted, _, after⟩ := holds.post good
      simp [Fifo.Right, Fifo.step, posted, after]
  | getMsg =>
      obtain ⟨queue, unread⟩ := fifo
      cases unread with
      | nil => simp [Fifo.Right, Fifo.step, holds.get_empty rfl, holds]
      | cons msg unread =>
          obtain ⟨next, returned, after⟩ := holds.get rfl
          simp only at returned
          simp [Fifo.Right, Fifo.step, returned, after]

/-- The invariant of a new queue. -/
theorem new : Holds pageBits (Fifo.new : Fifo μ) := by
  refine ⟨⟨fun first second page one two => ?_, fun index page known => ?_⟩, rfl, ?_, ?_, ?_⟩
  · simp only [Fifo.new, init, Function.update_apply] at one two
    grind
  · simp only [Fifo.new, init, Function.update_apply] at known ⊢
    grind
  · simp [Fifo.new, init]
  · simp [Fifo.new, init]
  · simp [Fifo.new]

end Holds

/-! ## Runs -/

/-- **First in, first out.** In a run in which every post finds its page index free of older
messages, every get returns the oldest unread message, or false if there is none, and in every state
the unread messages are what the reader gets. -/
theorem fifo_of_good (pageBits : Nat) (calls : List (FifoCall μ))
    (good : Run.Steps (Fifo.step pageBits) (Fifo.Good pageBits) Fifo.new calls) :
    Run.Always (Fifo.step pageBits) (fun fifo => Fifo.Drains pageBits fifo.queue fifo.unread)
      (Fifo.Right pageBits) Fifo.new calls :=
  Run.always_of_steps (Holds pageBits) (fun _ holds => holds.drains)
    (fun _ _ holds good => holds.step good) Holds.new good

/-- Two messages, of which one is read before the other is posted. -/
theorem fifo_two : Run.Always (Fifo.step 2)
    (fun fifo : Fifo String => Fifo.Drains 2 fifo.queue fifo.unread) (Fifo.Right 2) Fifo.new
    [.postMsg "a", .getMsg, .postMsg "b", .getMsg, .getMsg] :=
  fifo_of_good 2 _ (by decide +kernel)

/-- A post to a queue whose pages are full of unread messages overwrites the oldest of them. -/
theorem Holds.overwritten {fifo : Fifo μ} (holds : Holds pageBits fifo) (msg : μ)
    (full : fifo.unread.length = pageMsgCount * 2 ^ pageBits)
    (counter : fifo.queue.postIndex + 1 < 2 ^ 63) :
    ∃ queue, fifo.queue.postMsg pageBits msg = some queue ∧
      (queue.getMsg pageBits).map Prod.snd = some (some (some msg)) := by
  have count := holds.count
  rw [full] at count
  have unread : 0 < fifo.unread.length := by
    rw [full]
    exact Nat.mul_pos (by simp [pageMsgCount]) (Nat.two_pow_pos pageBits)
  have before : fifo.queue.getIndex < fifo.queue.postIndex := by
    rw [holds.count]
    omega
  have slot : msgIndex fifo.queue.postIndex = msgIndex fifo.queue.getIndex := by
    rw [msgIndex_eq, msgIndex_eq, count, Nat.add_mul_mod_self_left]
  have index : pageIndex pageBits fifo.queue.postIndex =
      pageIndex pageBits fifo.queue.getIndex := by
    rw [pageIndex_eq, pageIndex_eq, count, pageNumber, pageNumber,
      Nat.add_mul_div_left _ _ (by simp [pageMsgCount]), Nat.add_mod_right]
  obtain ⟨page, table, _⟩ := holds.slots 0 _ (List.getElem?_eq_getElem unread)
  have int := holds.int _ before
  have posted := postMsg_of_int msg counter (index ▸ int)
  have looked : fifo.queue.takePost.getMsgPage (pageIndex pageBits fifo.queue.postIndex) =
      (fifo.queue.takePost, page) := getMsgPage_of_some (by rw [index]; exact table)
  simp only [looked, slot] at posted
  generalize written : (fifo.queue.takePost.setMsg page (msgIndex fifo.queue.getIndex) msg).setFlag
    page (msgIndex fifo.queue.getIndex) = queue at posted
  have place : queue.pages page (msgIndex fifo.queue.getIndex) = ⟨some msg, true⟩ := by
    rw [← written, pages_write, if_pos ⟨rfl, rfl⟩]
  have getIndex : queue.getIndex = fifo.queue.getIndex := by
    rw [← written]
    rfl
  have postIndex : queue.postIndex = fifo.queue.postIndex + 1 := by
    rw [← written]
    rfl
  have found : queue.pageIndexes (pageIndex pageBits fifo.queue.getIndex) = some page := by
    rw [← written]
    exact table
  refine ⟨queue, posted, ?_⟩
  simp [getMsg, getIndex, postIndex, Nat.not_le.mpr (Nat.lt_succ_of_lt before), intPageIndex_eq int,
    getMsgPage_of_some found, place]

/-- The numbers that are posted to a new queue, while they fill the pages of the table. -/
theorem Holds.numbers {count : Nat} (fits : count ≤ pageMsgCount * 2 ^ pageBits)
    (int : 2 ^ pageBits ≤ 2 ^ 31) :
    ∃ queue, Run.final (Fifo.step pageBits) Fifo.new ((List.range count).map .postMsg) =
        ⟨queue, List.range count⟩ ∧ queue.getIndex = 0 ∧
      Holds pageBits ⟨queue, List.range count⟩ := by
  induction count with
  | zero => exact ⟨init, rfl, rfl, Holds.new⟩
  | succ count ih =>
      obtain ⟨queue, reached, getIndex, holds⟩ := ih (Nat.le_of_succ_le fits)
      have postIndex : queue.postIndex = count := by simpa [getIndex] using holds.count
      have number : pageNumber count < 2 ^ pageBits := Nat.div_lt_of_lt_mul fits
      have most : pageMsgCount * 2 ^ pageBits ≤ pageMsgCount * 2 ^ 31 := Nat.mul_le_mul_left _ int
      have good : Fifo.Good pageBits ⟨queue, List.range count⟩ (.postMsg count) := by
        refine ⟨?_, ?_, ?_⟩
        · simp only [postIndex, getIndex]
          exact Nat.lt_of_lt_of_le number (Nat.le_add_left _ _)
        · simp only [postIndex, pageIndex_eq]
          exact Nat.lt_of_lt_of_le (Nat.mod_lt _ (Nat.two_pow_pos pageBits)) int
        · simp only [postIndex]
          simp only [pageMsgCount] at fits most
          omega
      obtain ⟨next, posted, still, after⟩ := holds.post good
      rw [← List.range_succ] at after
      refine ⟨next, ?_, still.trans getIndex, after⟩
      simp only [List.range_succ, List.map_append, Run.final_append, reached, List.map_singleton]
      simp [Run.final, Fifo.step, posted]

/-- One message more than the pages hold, and the oldest of them is lost. -/
theorem Holds.lost (int : 2 ^ pageBits ≤ 2 ^ 31) {count : Nat}
    (full : count = pageMsgCount * 2 ^ pageBits) (counter : count + 1 < 2 ^ 63) :
    ¬ Run.Always (Fifo.step pageBits) (fun fifo => Fifo.Drains pageBits fifo.queue fifo.unread)
      (Fifo.Right pageBits) Fifo.new ((List.range count).map .postMsg ++ [.postMsg count]) := by
  intro run
  obtain ⟨queue, reached, getIndex, holds⟩ := Holds.numbers (Nat.le_of_eq full) int
  have postIndex := holds.count
  simp only [getIndex, Nat.zero_add, List.length_range] at postIndex
  obtain ⟨next, posted, returned⟩ := holds.overwritten count (List.length_range.trans full)
    (by rw [postIndex]; exact counter)
  have last := run.drop
  rw [reached] at last
  obtain ⟨_, _, drains⟩ := last
  simp only [Run.Always, Fifo.step, posted] at drains
  -- The reader should get the first number of all, but gets the last one.
  obtain ⟨rest, numbers⟩ : ∃ rest, List.range count ++ [count] = 0 :: rest := by
    rw [← List.range_succ, List.range_succ_eq_map]
    exact ⟨_, rfl⟩
  rw [numbers] at drains
  obtain ⟨_, first, _⟩ := drains
  rw [first, Option.map_some, Option.some.injEq, Option.some.injEq, Option.some.injEq] at returned
  have positive : 0 < count :=
    full ▸ Nat.mul_pos (by simp [pageMsgCount]) (Nat.two_pow_pos pageBits)
  exact Nat.ne_of_lt positive returned

/-- A queue of 2^8 pages loses its first message to the post of the last number. -/
theorem fifo_lost : ¬ ∀ calls : List (FifoCall Nat), Run.Always (Fifo.step 8)
    (fun fifo => Fifo.Drains 8 fifo.queue fifo.unread) (Fifo.Right 8) Fifo.new calls :=
  fun all => Holds.lost (by simp) rfl (by simp [pageMsgCount]) (all _)

end Cube.Base.TQueue
