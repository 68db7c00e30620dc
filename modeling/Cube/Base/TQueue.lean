import Mathlib.Data.Finset.Card
import Mathlib.Order.Interval.Finset.Nat
import Cube.Lib.Interleaving

/-! # The ticket queue

Threads post and get messages by tickets, which they draw from two counters. The messages lie in
pages, which are allocated when a ticket first leads to them, and given back when all of their
messages have been read; the index of the pages is used over and over again. Every step of the
model is one atomic step of `post_msg_mul` or `get_msg_mul`; the lookup of a page and the recycling
of one hold the mutex.
-/

namespace Cube.Base

/-- `page_bits` of the queue of dispatched operations. -/
def opQueuePageBits : Nat := 8

def pageMsgCount : Nat := 65536

def pageMsgCountBits : Nat := 16

def pageMsgIndexMask : Nat := 0xFFFF

structure TMsg (μ : Type) where
  msg : Option μ
  flag : Bool
  deriving DecidableEq

/-- The queue, and the memory of the pages that were allocated, which are numbered. -/
structure TQueue (μ : Type) where
  pageIndexes : Nat → Option Nat
  pageCounter : Nat → Nat
  postIndex : Nat
  getIndex : Nat
  pages : Nat → Nat → TMsg μ
  allocated : Nat
  deleted : Nat → Bool

namespace TQueue

variable {ι μ : Type}

/-- Where a ticket leads to: the index of the page, and the one of the message in it. -/
def pageIndex (pageBits ticket : Nat) : Nat := (ticket >>> pageMsgCountBits) &&& (2 ^ pageBits - 1)

def msgIndex (ticket : Nat) : Nat := ticket &&& pageMsgIndexMask

/-- A page that `memset` has cleared. -/
def emptyPage : Nat → TMsg μ := fun _ => ⟨none, false⟩

def init : TQueue μ where
  pageIndexes := Function.update (fun _ => none) 0 (some 0)
  pageCounter := fun _ => 0
  postIndex := 0
  getIndex := 0
  pages := fun _ => emptyPage
  allocated := 1
  deleted := fun _ => false

variable (queue : TQueue μ)

/-- The page at an index, which is allocated if there is none. -/
def getMsgPage (pageIndex : Nat) : TQueue μ × Nat :=
  match queue.pageIndexes pageIndex with
  | some page => (queue, page)
  | none =>
      ({ queue with
        pageIndexes := Function.update queue.pageIndexes pageIndex (some queue.allocated)
        pages := Function.update queue.pages queue.allocated emptyPage
        allocated := queue.allocated + 1 }, queue.allocated)

def setMsg (page msgIndex : Nat) (msg : μ) : TQueue μ :=
  { queue with pages := Function.update queue.pages page (Function.update (queue.pages page) msgIndex
      { queue.pages page msgIndex with msg := some msg }) }

def setFlag (page msgIndex : Nat) : TQueue μ :=
  { queue with pages := Function.update queue.pages page (Function.update (queue.pages page) msgIndex
      { queue.pages page msgIndex with flag := true }) }

/-- The page at an index is deleted; whether there was one. -/
def recycleMsgPage (pageIndex : Nat) : TQueue μ × Bool :=
  match queue.pageIndexes pageIndex with
  | some page =>
      ({ queue with
        pageIndexes := Function.update queue.pageIndexes pageIndex none
        pageCounter := Function.update queue.pageCounter pageIndex 0
        deleted := Function.update queue.deleted page true }, true)
  | none => (queue, false)

/-! ## The threads of a queue -/

inductive Call (μ : Type) where
  | post (msg : μ)
  | get

/-- The step a thread takes next, with what it has read before. -/
inductive Operation (μ : Type) where
  | postTicket (msg : μ)
  | postLookup (msg : μ) (ticket : Nat)
  | postWrite (msg : μ) (ticket page : Nat)
  | postFlag (ticket page : Nat)
  | getRead
  | getCheck (index : Nat)
  | getBound (index again : Nat)
  | getExchange (index : Nat)
  | getLookup (ticket : Nat)
  | getTest (ticket page : Nat)
  | getSlot (ticket page : Nat)
  | getCount (ticket : Nat) (msg : Option μ)
  | getRecycle (ticket : Nat) (msg : Option μ)

/-- How far the post of a ticket has come, and by which thread. -/
inductive PostStage (ι : Type) where
  | untaken
  | taken (thread : ι)
  | found (thread : ι) (page : Nat)
  | written (thread : ι) (page : Nat)
  | done

/-- How far the get of a ticket has come, and by which thread. -/
inductive GetStage (ι : Type) where
  | untaken
  | taken (thread : ι)
  | found (thread : ι) (page : Nat)
  | flagged (thread : ι) (page : Nat)
  | read (thread : ι)
  | counted (thread : ι)
  | done

/-- The queue, and what happened to it: the messages posted and how far the posts and gets have
come, by their tickets; what the gets have returned; how often each page index was recycled; and
whether a page was used that was not there any more. -/
structure Record (ι μ : Type) where
  queue : TQueue μ
  posted : Nat → Option μ
  poster : Nat → PostStage ι
  getter : Nat → GetStage ι
  results : List (Nat × Option μ)
  laps : Nat → Nat
  fault : Bool

namespace Record

def new : Record ι μ where
  queue := init
  posted := fun _ => none
  poster := fun _ => .untaken
  getter := fun _ => .untaken
  results := []
  laps := fun _ => 0
  fault := false

variable (record : Record ι μ)

def posts (queue : TQueue μ) (ticket : Nat) (stage : PostStage ι) : Record ι μ :=
  { record with queue := queue, poster := Function.update record.poster ticket stage }

def gets (queue : TQueue μ) (ticket : Nat) (stage : GetStage ι) : Record ι μ :=
  { record with queue := queue, getter := Function.update record.getter ticket stage }

/-- A page is used. -/
def uses (page : Nat) : Record ι μ :=
  { record with fault := record.fault || record.queue.deleted page }

def returns (ticket : Nat) (msg : Option μ) : Record ι μ :=
  { record with results := record.results ++ [(ticket, msg)] }

variable (pageBits : Nat) (thread : ι)

/-- One atomic step. -/
def step : Operation μ → Record ι μ × Option (Operation μ)
  | .postTicket msg =>
      let ticket := record.queue.postIndex
      ({ record.posts { record.queue with postIndex := ticket + 1 } ticket (.taken thread) with
        posted := Function.update record.posted ticket (some msg) },
        some (.postLookup msg ticket))
  | .postLookup msg ticket =>
      let (queue, page) := record.queue.getMsgPage (pageIndex pageBits ticket)
      (record.posts queue ticket (.found thread page), some (.postWrite msg ticket page))
  | .postWrite msg ticket page =>
      ((record.uses page).posts (record.queue.setMsg page (msgIndex ticket) msg) ticket
        (.written thread page), some (.postFlag ticket page))
  | .postFlag ticket page =>
      ((record.uses page).posts (record.queue.setFlag page (msgIndex ticket)) ticket .done, none)
  | .getRead => (record, some (.getCheck record.queue.getIndex))
  | .getCheck index => (record, some (.getBound index record.queue.getIndex))
  | .getBound index again =>
      if again ≥ record.queue.postIndex then (record, none) else (record, some (.getExchange index))
  | .getExchange index =>
      if record.queue.getIndex = index then
        (record.gets { record.queue with getIndex := index + 1 } index (.taken thread),
          some (.getLookup index))
      else (record, some .getRead)
  | .getLookup ticket =>
      let (queue, page) := record.queue.getMsgPage (pageIndex pageBits ticket)
      (record.gets queue ticket (.found thread page), some (.getTest ticket page))
  | .getTest ticket page =>
      if (record.queue.pages page (msgIndex ticket)).flag then
        ((record.uses page).gets record.queue ticket (.flagged thread page),
          some (.getSlot ticket page))
      else (record.uses page, some (.getTest ticket page))
  | .getSlot ticket page =>
      ((record.uses page).gets record.queue ticket (.read thread),
        some (.getCount ticket (record.queue.pages page (msgIndex ticket)).msg))
  | .getCount ticket msg =>
      let index := pageIndex pageBits ticket
      let count := record.queue.pageCounter index
      let queue := { record.queue with
        pageCounter := Function.update record.queue.pageCounter index (count + 1) }
      if count = pageMsgIndexMask then
        (record.gets queue ticket (.counted thread), some (.getRecycle ticket msg))
      else ((record.gets queue ticket .done).returns ticket msg, none)
  | .getRecycle ticket msg =>
      let index := pageIndex pageBits ticket
      let (queue, found) := record.queue.recycleMsgPage index
      (({ record with
        laps := Function.update record.laps index (record.laps index + 1)
        fault := record.fault || !found }.gets queue ticket .done).returns ticket msg, none)

end Record

/-- Any number of threads that post and get. -/
def program (pageBits : Nat) :
    Interleaving.Program ι (Record ι μ) (Call μ) (Operation μ) Unit where
  enter _ record call :=
    match call with
    | .post msg => (record, .postTicket msg)
    | .get => (record, .getRead)
  advance thread record operation _ := record.step pageBits thread operation

/-- What happens next in a queue. -/
abbrev Choice (ι μ : Type) := Interleaving.Choice ι (Call μ) Unit

/-- The queue and the threads at it. -/
abbrev Threads (ι μ : Type) := Interleaving.Threads ι (Record ι μ) (Operation μ)

/-- A new queue, and nobody at it. -/
def start : Threads ι μ := Interleaving.Threads.idle Record.new

end TQueue

end Cube.Base

/-! ## The pages of the ticket queue

What holds between the tickets, the pages and the counters of a ticket queue in which a page is
looked up only after those that had its index before were recycled.
-/

namespace Cube.Base.TQueue

variable {ι μ : Type} {pageBits : Nat}

/-! ## Where tickets lead to -/

/-- Which page a ticket leads to, counting all pages one after the other. -/
def pageNumber (ticket : Nat) : Nat := ticket / pageMsgCount

/-- How often the page index of a ticket was used before. -/
def turn (pageBits ticket : Nat) : Nat := pageNumber ticket / 2 ^ pageBits

theorem pageIndex_eq (ticket : Nat) : pageIndex pageBits ticket = pageNumber ticket % 2 ^ pageBits := by
  rw [pageIndex, Nat.and_two_pow_sub_one_eq_mod, Nat.shiftRight_eq_div_pow]
  rfl

theorem msgIndex_eq (ticket : Nat) : msgIndex ticket = ticket % pageMsgCount :=
  Nat.and_two_pow_sub_one_eq_mod ticket 16

/-- Tickets that lead to one page index at the same turn lead to one page. -/
theorem pageNumber_eq {first second : Nat} (index : pageIndex pageBits first = pageIndex pageBits second)
    (same : turn pageBits first = turn pageBits second) : pageNumber first = pageNumber second := by
  rw [pageIndex_eq, pageIndex_eq] at index
  rw [← Nat.div_add_mod (pageNumber first) (2 ^ pageBits), index,
    ← Nat.div_add_mod (pageNumber second) (2 ^ pageBits)]
  rw [turn, turn] at same
  rw [same]
  simp only [Nat.mul_add_mod_self_left, Nat.mod_mod]

theorem pageIndex_of_pageNumber {first second : Nat} (same : pageNumber first = pageNumber second) :
    pageIndex pageBits first = pageIndex pageBits second := by
  rw [pageIndex_eq, pageIndex_eq, same]

theorem turn_of_pageNumber {first second : Nat} (same : pageNumber first = pageNumber second) :
    turn pageBits first = turn pageBits second := by
  rw [turn, turn, same]

/-- Tickets of one page that lead to the same message are the same. -/
theorem ticket_eq {first second : Nat} (page : pageNumber first = pageNumber second)
    (msg : msgIndex first = msgIndex second) : first = second := by
  rw [msgIndex_eq, msgIndex_eq] at msg
  rw [← Nat.div_add_mod first pageMsgCount, msg, show first / pageMsgCount = _ from page]
  exact Nat.div_add_mod second pageMsgCount

/-- What is found in a table after the page of an index was taken out of it. -/
theorem of_update_none {table : Nat → Option Nat} {index other page : Nat}
    (found : Function.update table index none other = some page) :
    other ≠ index ∧ table other = some page := by
  rw [Function.update_apply] at found
  by_cases same : other = index
  · simp [same] at found
  · exact ⟨same, by simpa [same] using found⟩

/-! ## Stages -/

/-- The page that a thread holds for its ticket. -/
def PostStage.page : PostStage ι → Option Nat
  | .found _ page => some page
  | .written _ page => some page
  | _ => none

/-- The page was looked up. -/
def PostStage.isFound : PostStage ι → Bool
  | .found _ _ => true
  | .written _ _ => true
  | .done => true
  | _ => false

/-- The message is in its page. -/
def PostStage.isWritten : PostStage ι → Bool
  | .written _ _ => true
  | .done => true
  | _ => false

def GetStage.page : GetStage ι → Option Nat
  | .found _ page => some page
  | .flagged _ page => some page
  | _ => none

def GetStage.isFound : GetStage ι → Bool
  | .untaken => false
  | .taken _ => false
  | _ => true

/-- The flag of the message was seen. -/
def GetStage.isSeen : GetStage ι → Bool
  | .flagged _ _ => true
  | .read _ => true
  | .counted _ => true
  | .done => true
  | _ => false

/-- The message is counted as read. -/
def GetStage.isCounted : GetStage ι → Bool
  | .counted _ => true
  | .done => true
  | _ => false

variable {record : Record ι μ}

/-- The tickets of a page that are counted. -/
def Record.countedOf (record : Record ι μ) (number : Nat) : Finset Nat :=
  (Finset.range pageMsgCount).filter fun index =>
    (record.getter (number * pageMsgCount + index)).isCounted = true

/-! ## The invariant -/

/-- Some thread has looked up the page of a ticket. -/
def Record.LookedUp (record : Record ι μ) (ticket : Nat) : Prop :=
  (record.poster ticket).isFound = true ∨ (record.getter ticket).isFound = true

/-- The ticket leads to the page that is at its index now, or will be there next. -/
def Record.Current (pageBits : Nat) (record : Record ι μ) (ticket : Nat) : Prop :=
  turn pageBits ticket = record.laps (pageIndex pageBits ticket)

/-- Tickets, pages and counters fit together. -/
structure Sound (pageBits : Nat) (record : Record ι μ) : Prop where
  ordered : record.queue.getIndex ≤ record.queue.postIndex
  posting : ∀ ticket, record.poster ticket = .untaken ↔ record.queue.postIndex ≤ ticket
  getting : ∀ ticket, record.getter ticket = .untaken ↔ record.queue.getIndex ≤ ticket
  turns : ∀ ticket, record.LookedUp ticket →
    turn pageBits ticket ≤ record.laps (pageIndex pageBits ticket)
  past : ∀ ticket, turn pageBits ticket < record.laps (pageIndex pageBits ticket) →
    record.getter ticket = .done
  seen : ∀ ticket, (record.getter ticket).isSeen = true → record.poster ticket = .done
  postPage : ∀ ticket page, (record.poster ticket).page = some page →
    record.queue.pageIndexes (pageIndex pageBits ticket) = some page
  getPage : ∀ ticket page, (record.getter ticket).page = some page →
    record.queue.pageIndexes (pageIndex pageBits ticket) = some page
  donePage : ∀ ticket, record.Current pageBits ticket → record.poster ticket = .done →
    record.queue.pageIndexes (pageIndex pageBits ticket) ≠ none
  flags : ∀ ticket page, record.Current pageBits ticket →
    record.queue.pageIndexes (pageIndex pageBits ticket) = some page →
    ((record.queue.pages page (msgIndex ticket)).flag = true ↔ record.poster ticket = .done)
  msgs : ∀ ticket page, record.Current pageBits ticket →
    record.queue.pageIndexes (pageIndex pageBits ticket) = some page →
    (record.poster ticket).isWritten = true →
    (record.queue.pages page (msgIndex ticket)).msg = record.posted ticket
  live : ∀ index page, record.queue.pageIndexes index = some page →
    page < record.queue.allocated ∧ record.queue.deleted page = false
  apart : ∀ first second page, record.queue.pageIndexes first = some page →
    record.queue.pageIndexes second = some page → first = second
  fresh : ∀ page, record.queue.allocated ≤ page → record.queue.deleted page = false
  counts : ∀ ticket, record.Current pageBits ticket →
    record.queue.pageCounter (pageIndex pageBits ticket) =
      (record.countedOf (pageNumber ticket)).card
  unread : ∀ ticket, record.Current pageBits ticket →
    ∃ other, pageNumber other = pageNumber ticket ∧ record.getter other ≠ .done
  recycler : ∀ ticket thread, record.getter ticket = .counted thread →
    ∀ other, pageNumber other = pageNumber ticket → other ≠ ticket → record.getter other = .done
  returned : ∀ ticket, ticket ∈ record.results.map Prod.fst ↔ record.getter ticket = .done
  once : (record.results.map Prod.fst).Nodup
  values : ∀ result ∈ record.results, record.posted result.1 = result.2
  safe : record.fault = false

end Cube.Base.TQueue
