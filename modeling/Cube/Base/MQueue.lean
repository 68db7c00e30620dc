import Mathlib.Order.Interval.Finset.Nat
import Cube.Lib.Interleaving
import Cube.Lib.PageTable

/-! # Messages by tickets

`srt_queue` and `drb_queue` number their messages by tickets, which lead to a page and to a slot in
it by shifts and masks. A push draws a ticket, looks its page up, writes the message, and sets its
flag.
-/

namespace Cube.Base.MQueue

variable {ι μ : Type}

structure Message (μ : Type) where
  msg : Option μ
  flag : Bool
  deriving DecidableEq

namespace Message

/-- What `memset` leaves of a message. -/
def blank : Message μ := ⟨none, false⟩

def setMsg (msg : μ) (message : Message μ) : Message μ := { message with msg := some msg }

def setFlag (message : Message μ) : Message μ := { message with flag := true }

end Message

/-! ## Pages and slots -/

/-- `index >> page_msg_bits_`. -/
def pageNumber (pageMsgBits index : Nat) : Nat := index >>> pageMsgBits

/-- `index & page_msg_mask_`. -/
def msgIndex (pageMsgBits index : Nat) : Nat := index &&& (2 ^ pageMsgBits - 1)

variable {pageMsgBits : Nat}

theorem pageNumber_eq (index : Nat) : pageNumber pageMsgBits index = index / 2 ^ pageMsgBits :=
  Nat.shiftRight_eq_div_pow ..

theorem msgIndex_eq (index : Nat) : msgIndex pageMsgBits index = index % 2 ^ pageMsgBits :=
  Nat.and_two_pow_sub_one_eq_mod ..

theorem pageNumber_mono {first second : Nat} (before : first ≤ second) :
    pageNumber pageMsgBits first ≤ pageNumber pageMsgBits second := by
  rw [pageNumber_eq, pageNumber_eq]
  exact Nat.div_le_div_right before

/-- A page and a slot have one index. -/
theorem index_eq {first second : Nat}
    (page : pageNumber pageMsgBits first = pageNumber pageMsgBits second)
    (slot : msgIndex pageMsgBits first = msgIndex pageMsgBits second) : first = second := by
  rw [pageNumber_eq, pageNumber_eq] at page
  rw [msgIndex_eq, msgIndex_eq] at slot
  rw [← Nat.div_add_mod first (2 ^ pageMsgBits), page, slot, Nat.div_add_mod]

/-- Behind the last slot of a page comes the next page. -/
theorem pageNumber_succ (index : Nat) : pageNumber pageMsgBits (index + 1) =
    if msgIndex pageMsgBits index = 2 ^ pageMsgBits - 1 then pageNumber pageMsgBits index + 1
    else pageNumber pageMsgBits index := by
  rw [pageNumber_eq, pageNumber_eq, msgIndex_eq, Nat.succ_div]
  have positive := Nat.two_pow_pos pageMsgBits
  have bound := Nat.mod_lt index positive
  by_cases last : index % 2 ^ pageMsgBits = 2 ^ pageMsgBits - 1
  · have whole : 2 ^ pageMsgBits ∣ index + 1 := by
      rw [Nat.dvd_iff_mod_eq_zero, Nat.add_mod, last]
      by_cases one : 2 ^ pageMsgBits = 1
      · rw [one, Nat.mod_one]
      · rw [Nat.mod_eq_of_lt (show 1 < 2 ^ pageMsgBits by omega), Nat.sub_add_cancel positive,
          Nat.mod_self]
    rw [if_pos whole, if_pos last]
  · rw [if_neg, if_neg last, Nat.add_zero]
    rintro ⟨count, split⟩
    apply last
    have below : index = 2 ^ pageMsgBits * (count - 1) + (2 ^ pageMsgBits - 1) := by
      cases count with
      | zero => omega
      | succ count =>
          rw [Nat.mul_succ] at split
          simp only [Nat.add_sub_cancel]
          omega
    rw [below, Nat.mul_add_mod_self_left, Nat.mod_eq_of_lt (by omega)]

/-! ## Stages -/

/-- How far the push of a ticket has come, and by which thread. -/
inductive PushStage (ι : Type) where
  | untaken
  | taken (thread : ι)
  | found (thread : ι) (page : Nat)
  | written (thread : ι) (page : Nat)
  | done
  deriving DecidableEq

namespace PushStage

/-- The thread whose push is under way. -/
def thread : PushStage ι → Option ι
  | .taken thread => some thread
  | .found thread _ => some thread
  | .written thread _ => some thread
  | _ => none

/-- The page that a thread holds for its ticket. -/
def page : PushStage ι → Option Nat
  | .found _ page => some page
  | .written _ page => some page
  | _ => none

/-- The page was looked up. -/
def isFound : PushStage ι → Bool
  | .found _ _ => true
  | .written _ _ => true
  | .done => true
  | _ => false

/-- The message is in its page. -/
def isWritten : PushStage ι → Bool
  | .written _ _ => true
  | .done => true
  | _ => false

/-- A push that holds a page is under way. -/
theorem of_page {stage : PushStage ι} {page : Nat} (holds : stage.page = some page) :
    stage ≠ .untaken ∧ stage ≠ .done ∧ stage.isFound = true := by
  cases stage with
  | found thread page => simp [isFound]
  | written thread page => simp [isFound]
  | _ => cases holds

end PushStage

/-- The accepted messages by their tickets, and how far their pushes have come. -/
structure Tickets (ι μ : Type) where
  accepted : List μ
  pusher : Nat → PushStage ι

namespace Tickets

def empty : Tickets ι μ := ⟨[], fun _ => .untaken⟩

/-- A thread draws a ticket. -/
def draw (tickets : Tickets ι μ) (postIndex : Nat) (thread : ι) (msg : μ) : Tickets ι μ :=
  ⟨tickets.accepted ++ [msg], Function.update tickets.pusher postIndex (.taken thread)⟩

/-- The push of a ticket comes on. -/
def move (tickets : Tickets ι μ) (index : Nat) (stage : PushStage ι) : Tickets ι μ :=
  { tickets with pusher := Function.update tickets.pusher index stage }

/-- As many tickets were drawn. -/
structure Drawn (tickets : Tickets ι μ) (postIndex : Nat) : Prop where
  count : tickets.accepted.length = postIndex
  untaken : ∀ index, tickets.pusher index = .untaken ↔ postIndex ≤ index

/-- What is in the slot of a ticket, by the stage of its push. -/
structure Fits (tickets : Tickets ι μ) (index : Nat) (message : Message μ) : Prop where
  flag : message.flag = true ↔ tickets.pusher index = .done
  msg : (tickets.pusher index).isWritten = true → message.msg = tickets.accepted[index]?

/-- What a step of a thread leaves as it is for the pushes of other threads. -/
structure Spares (thread : ι) (before after : Tickets ι μ) : Prop where
  pusher : ∀ index other, other ≠ thread → (before.pusher index).thread = some other →
    after.pusher index = before.pusher index
  accepted : ∀ (index : Nat) msg, before.accepted[index]? = some msg →
    after.accepted[index]? = some msg

variable {tickets : Tickets ι μ} {postIndex index : Nat} {thread : ι}

theorem pusher_move (tickets : Tickets ι μ) (index : Nat) (stage : PushStage ι) (other : Nat) :
    (tickets.move index stage).pusher other =
      if other = index then stage else tickets.pusher other :=
  Function.update_apply ..

@[simp] theorem accepted_move (tickets : Tickets ι μ) (index : Nat) (stage : PushStage ι) :
    (tickets.move index stage).accepted = tickets.accepted := rfl

theorem pusher_draw (tickets : Tickets ι μ) (postIndex : Nat) (thread : ι) (msg : μ) (other : Nat) :
    (tickets.draw postIndex thread msg).pusher other =
      if other = postIndex then .taken thread else tickets.pusher other :=
  Function.update_apply ..

theorem drawn_empty : (empty : Tickets ι μ).Drawn 0 := ⟨rfl, by simp [empty]⟩

theorem Drawn.lt (drawn : tickets.Drawn postIndex) (taken : tickets.pusher index ≠ .untaken) :
    index < postIndex :=
  Nat.lt_of_not_le fun untaken => taken ((drawn.untaken index).mpr untaken)

theorem Drawn.next (drawn : tickets.Drawn postIndex) : tickets.pusher postIndex = .untaken :=
  (drawn.untaken postIndex).mpr (Nat.le_refl _)

theorem Drawn.move (drawn : tickets.Drawn postIndex) {stage : PushStage ι}
    (taken : tickets.pusher index ≠ .untaken) (stays : stage ≠ .untaken) :
    (tickets.move index stage).Drawn postIndex := by
  refine ⟨drawn.count, fun other => ?_⟩
  rw [pusher_move]
  rcases eq_or_ne other index with rfl | different
  · simp only [if_true, stays, false_iff]
    exact fun late => taken ((drawn.untaken other).mpr late)
  · rw [if_neg different]
    exact drawn.untaken other

theorem Drawn.draw (drawn : tickets.Drawn postIndex) (thread : ι) (msg : μ) :
    (tickets.draw postIndex thread msg).Drawn (postIndex + 1) := by
  refine ⟨by simp [Tickets.draw, drawn.count], fun other => ?_⟩
  rw [pusher_draw]
  rcases eq_or_ne other postIndex with rfl | different
  · simp
  · rw [if_neg different, drawn.untaken]
    omega

/-- A message that was accepted stays so. -/
theorem accepted_draw (msg : μ) {other : μ} (known : tickets.accepted[index]? = some other) :
    (tickets.draw postIndex thread msg).accepted[index]? = some other :=
  (List.getElem?_append_left (List.getElem?_eq_some_iff.mp known).1).trans known

/-- The new ticket is for its message. -/
theorem Drawn.accepted_draw (drawn : tickets.Drawn postIndex) (thread : ι) (msg : μ) :
    (tickets.draw postIndex thread msg).accepted[postIndex]? = some msg := by
  rw [← drawn.count]
  simp [Tickets.draw]

theorem Spares.refl (thread : ι) (tickets : Tickets ι μ) : Spares thread tickets tickets :=
  ⟨fun _ _ _ _ => rfl, fun _ _ known => known⟩

/-- A ticket that no other thread holds comes on. -/
theorem Spares.move (own : (tickets.pusher index).thread = some thread) (stage : PushStage ι) :
    Spares thread tickets (tickets.move index stage) := by
  refine ⟨fun place other differs held => ?_, fun _ _ known => known⟩
  have different : place ≠ index := fun same => by
    rw [same, own] at held
    exact differs (Option.some.inj held).symm
  rw [pusher_move, if_neg different]

theorem Drawn.spares (drawn : tickets.Drawn postIndex) (thread : ι) (msg : μ) :
    Spares thread tickets (tickets.draw postIndex thread msg) := by
  refine ⟨fun place other _ held => ?_, fun _ _ known => Tickets.accepted_draw msg known⟩
  have different : place ≠ postIndex := fun same => by
    rw [same, drawn.next] at held
    cases held
  rw [pusher_draw, if_neg different]

/-- A push that sets its flag is under way before. -/
theorem pusher_move_of_done (underWay : tickets.pusher index ≠ .done) (stage : PushStage ι)
    {other : Nat} (done : tickets.pusher other = .done) :
    (tickets.move index stage).pusher other = .done := by
  have different : other ≠ index := fun same => underWay (same ▸ done)
  rw [pusher_move, if_neg different, done]

theorem Drawn.pusher_draw_of_done (drawn : tickets.Drawn postIndex) (thread : ι) (msg : μ)
    {other : Nat} (done : tickets.pusher other = .done) :
    (tickets.draw postIndex thread msg).pusher other = .done := by
  have different : other ≠ postIndex := fun same => by
    rw [same, drawn.next] at done
    cases done
  rw [pusher_draw, if_neg different, done]

end Tickets

/-! ## Messages in their slots -/

/-- The pushes that have looked up their pages hold them, and the slots of the current tickets have
what their pushes have written. -/
structure Stored (pageMsgBits : Nat) (place : Nat → Nat) (current : Nat → Prop)
    (table : PageTable (Message μ)) (tickets : Tickets ι μ) : Prop where
  paged : table.Paged
  apart : ∀ first second, current first → current second → place first = place second →
    msgIndex pageMsgBits first = msgIndex pageMsgBits second → first = second
  held : ∀ index page, (tickets.pusher index).page = some page →
    table.index (place index) = some page
  present : ∀ index, current index → tickets.pusher index = .done → table.index (place index) ≠ none
  cells : ∀ index message, current index →
    table.cell (place index) (msgIndex pageMsgBits index) = some message →
      tickets.Fits index message

namespace Stored

variable {place : Nat → Nat} {current : Nat → Prop} {table : PageTable (Message μ)}
  {tickets : Tickets ι μ} {index page : Nat}

/-- A push has a page at its index as soon as it has looked it up. -/
theorem index_ne_none (stored : Stored pageMsgBits place current table tickets)
    (now : current index) (found : (tickets.pusher index).isFound = true) :
    table.index (place index) ≠ none := by
  cases stage : tickets.pusher index with
  | untaken => simp [stage, PushStage.isFound] at found
  | taken thread => simp [stage, PushStage.isFound] at found
  | found thread page => simp [stored.held index page (by rw [stage]; rfl)]
  | written thread page => simp [stored.held index page (by rw [stage]; rfl)]
  | done => exact stored.present index now stage

/-- The message of a push that has set its flag. -/
theorem of_done (stored : Stored pageMsgBits place current table tickets) (now : current index)
    (done : tickets.pusher index = .done) : ∃ page, table.index (place index) = some page ∧
      table.pages page (msgIndex pageMsgBits index) = ⟨tickets.accepted[index]?, true⟩ := by
  obtain ⟨page, atPlace⟩ := Option.ne_none_iff_exists'.mp (stored.present index now done)
  have fits := stored.cells index _ now (PageTable.cell_of_index atPlace _)
  have msg := fits.msg (by rw [done]; rfl)
  have flag := fits.flag.mpr done
  refine ⟨page, atPlace, ?_⟩
  rw [← msg, ← flag]

/-- A lookup of any page leaves the messages where they are. -/
theorem lookup (stored : Stored pageMsgBits place current table tickets) (pageIndex : Nat) :
    Stored pageMsgBits place current (table.lookup Message.blank pageIndex).1 tickets where
  paged := stored.paged.lookup Message.blank pageIndex
  apart := stored.apart
  held index page holds := PageTable.lookup_kept _ _ _ (stored.held index page holds)
  present index now done := by
    obtain ⟨page, known⟩ := Option.ne_none_iff_exists'.mp (stored.present index now done)
    have kept := PageTable.lookup_kept _ Message.blank pageIndex known
    exact Option.ne_none_iff_exists'.mpr ⟨page, kept⟩
  cells index message now known := by
    rcases stored.paged.lookup_cell known with before | ⟨same, missing, rfl⟩
    · exact stored.cells index message now before
    · -- Where a page is missing, no push of a current ticket has looked it up.
      have unfound : (tickets.pusher index).isFound ≠ true := fun found =>
        stored.index_ne_none now found (same ▸ missing)
      refine ⟨⟨nofun, fun done => (unfound ?_).elim⟩, fun written => (unfound ?_).elim⟩
      · rw [done]
        rfl
      · cases stage : tickets.pusher index <;> simp_all [PushStage.isFound, PushStage.isWritten]

/-- A push has looked up its page. -/
theorem found (stored : Stored pageMsgBits place current table tickets) {thread : ι}
    (taken : tickets.pusher index = .taken thread)
    (atPlace : table.index (place index) = some page) :
    Stored pageMsgBits place current table (tickets.move index (.found thread page)) := by
  refine ⟨stored.paged, stored.apart, fun other held holds => ?_, fun other now done => ?_,
    fun other message now known => ?_⟩
  · rw [Tickets.pusher_move] at holds
    by_cases same : other = index
    · rw [if_pos same] at holds
      cases holds
      rw [same]
      exact atPlace
    · rw [if_neg same] at holds
      exact stored.held other held holds
  · rw [Tickets.pusher_move] at done
    by_cases same : other = index
    · simp [same] at done
    · rw [if_neg same] at done
      exact stored.present other now done
  · have fits := stored.cells other message now known
    by_cases same : other = index
    · subst same
      constructor
      · simpa [Tickets.pusher_move, taken] using fits.flag
      · simp [Tickets.pusher_move, PushStage.isWritten]
    · constructor
      · simpa [Tickets.pusher_move, same] using fits.flag
      · rw [Tickets.pusher_move, if_neg same]
        exact fits.msg

/-- A push writes to the slot of its ticket. -/
theorem write (stored : Stored pageMsgBits place current table tickets) {stage : PushStage ι}
    {change : Message μ → Message μ} (now : current index)
    (holds : (tickets.pusher index).page = some page)
    (held : ∀ other, stage.page = some other → other = page)
    (changed : ∀ message, tickets.Fits index message →
      ((change message).flag = true ↔ stage = .done) ∧
        (stage.isWritten = true → (change message).msg = tickets.accepted[index]?)) :
    Stored pageMsgBits place current (table.write page (msgIndex pageMsgBits index) change)
      (tickets.move index stage) := by
  have atPlace := stored.held index page holds
  refine ⟨stored.paged.write .., stored.apart, fun other page' holds' => ?_,
    fun other nowOther done => ?_, fun other message nowOther known => ?_⟩
  · rw [Tickets.pusher_move] at holds'
    by_cases same : other = index
    · rw [if_pos same] at holds'
      rw [same, held page' holds']
      exact atPlace
    · rw [if_neg same] at holds'
      exact stored.held other page' holds'
  · rw [Tickets.pusher_move] at done
    by_cases same : other = index
    · rw [same]
      exact Option.ne_none_iff_exists'.mpr ⟨page, atPlace⟩
    · rw [if_neg same] at done
      exact stored.present other nowOther done
  · rw [stored.paged.write_cell atPlace] at known
    by_cases same : other = index
    · subst same
      rw [if_pos ⟨rfl, rfl⟩] at known
      obtain ⟨old, before, rfl⟩ := Option.map_eq_some_iff.mp known
      obtain ⟨flag, msg⟩ := changed old (stored.cells other old now before)
      constructor
      · simpa [Tickets.pusher_move] using flag
      · simpa [Tickets.pusher_move] using msg
    · have elsewhere : ¬ (place other = place index ∧
          msgIndex pageMsgBits other = msgIndex pageMsgBits index) :=
        fun ⟨samePlace, slot⟩ => same (stored.apart other index nowOther now samePlace slot)
      rw [if_neg elsewhere] at known
      have fits := stored.cells other message nowOther known
      constructor
      · simpa [Tickets.pusher_move, same] using fits.flag
      · rw [Tickets.pusher_move, if_neg same]
        exact fits.msg

/-- A new ticket leaves the messages where they are. -/
theorem draw (stored : Stored pageMsgBits place current table tickets) {postIndex : Nat}
    (drawn : tickets.Drawn postIndex) (thread : ι) (msg : μ) :
    Stored pageMsgBits place current table (tickets.draw postIndex thread msg) := by
  refine ⟨stored.paged, stored.apart, fun other held holds => ?_, fun other now done => ?_,
    fun other message now known => ?_⟩
  · rw [Tickets.pusher_draw] at holds
    by_cases same : other = postIndex
    · simp [same, PushStage.page] at holds
    · rw [if_neg same] at holds
      exact stored.held other held holds
  · rw [Tickets.pusher_draw] at done
    by_cases same : other = postIndex
    · simp [same] at done
    · rw [if_neg same] at done
      exact stored.present other now done
  · have fits := stored.cells other message now known
    by_cases same : other = postIndex
    · constructor
      · simpa [Tickets.pusher_draw, same, drawn.next] using fits.flag
      · simp [Tickets.pusher_draw, same, PushStage.isWritten]
    · constructor
      · simpa [Tickets.pusher_draw, same] using fits.flag
      · rw [Tickets.pusher_draw, if_neg same]
        intro written
        have before : other < tickets.accepted.length := by
          rw [drawn.count]
          exact drawn.lt fun untaken => by simp [untaken, PushStage.isWritten] at written
        exact (fits.msg written).trans (List.getElem?_append_left before).symm

/-- A page is removed at whose index no push is under way. -/
theorem remove (stored : Stored pageMsgBits place current table tickets) {next : Nat → Prop}
    (pageIndex : Nat)
    (apart : ∀ first second, next first → next second → place first = place second →
      msgIndex pageMsgBits first = msgIndex pageMsgBits second → first = second)
    (held : ∀ index page, (tickets.pusher index).page = some page → place index ≠ pageIndex)
    (present : ∀ index, next index → tickets.pusher index = .done →
      place index ≠ pageIndex ∧ current index)
    (still : ∀ index, next index → place index ≠ pageIndex → current index) :
    Stored pageMsgBits place next (table.remove pageIndex) tickets where
  paged := stored.paged.remove pageIndex
  apart := apart
  held index page holds := by
    rw [PageTable.remove_index, if_neg (held index page holds)]
    exact stored.held index page holds
  present index now done := by
    obtain ⟨elsewhere, before⟩ := present index now done
    rw [PageTable.remove_index, if_neg elsewhere]
    exact stored.present index before done
  cells index message now known := by
    rw [PageTable.remove_cell] at known
    by_cases same : place index = pageIndex
    · simp [same] at known
    · rw [if_neg same] at known
      exact stored.cells index message (still index now same) known

end Stored

end Cube.Base.MQueue
