import Mathlib.Algebra.Group.Nat.Defs
import Mathlib.Data.List.Perm.Basic
import Cube.Eco.Log.Stock
import Cube.Eco.Log.WholeLines

/-! # What a log queue holds

The size of a queue is to be that of the packs that it holds and of the one in the hand of the
thread that logs. It is counted in 32 bits.
-/

namespace Cube.Eco.Log.Stock

variable {ι : Type} {stock before after : Stock ι}

/-- Where the packs are. -/
def held (stock : Stock ι) : List PackPtr := stock.hand.toList ++ (stock.logging ++ stock.avail)

def addresses (stock : Stock ι) : List Nat := stock.held.map PackPtr.address

/-- The size is that of the packs held and within the capacity, no pack is in two places, and of the
packs to append to only the last one is not empty. -/
structure Accounted (stock : Stock ι) : Prop where
  size : stock.curSize.toNat =
    Pack.capacity * (stock.avail.length + stock.logging.length + stock.hand.toList.length)
  bounded : stock.curSize ≤ stock.capacity
  apart : stock.addresses.Nodup
  empty : ∀ ptr ∈ stock.avail.dropLast, ptr.pack.size = 0

/-- The packs are counted, and have addresses of their own. -/
structure Counted (stock : Stock ι) : Prop where
  size : stock.curSize.toNat = Pack.capacity * stock.addresses.length
  bounded : stock.curSize ≤ stock.capacity
  apart : stock.addresses.Nodup
  below : ∀ address ∈ stock.addresses, address < stock.allocated

/-- Packs are where others were, and none was allocated. -/
structure Shuffled (before after : Stock ι) : Prop where
  addresses : after.addresses.Perm before.addresses
  allocated : after.allocated = before.allocated
  curSize : after.curSize = before.curSize
  capacity : after.capacity = before.capacity

theorem Shuffled.refl (stock : Stock ι) : Shuffled stock stock := ⟨.refl _, rfl, rfl, rfl⟩

theorem Shuffled.trans {middle : Stock ι} (first : Shuffled before middle)
    (second : Shuffled middle after) : Shuffled before after where
  addresses := second.addresses.trans first.addresses
  allocated := second.allocated.trans first.allocated
  curSize := second.curSize.trans first.curSize
  capacity := second.capacity.trans first.capacity

theorem Counted.accounted (counted : Counted stock) (tidy : stock.queue.Tidy) :
    Accounted stock where
  size := by
    rw [counted.size, addresses, List.length_map, held, List.length_append, List.length_append]
    refine congrArg (Pack.capacity * ·) ?_
    omega
  bounded := counted.bounded
  apart := counted.apart
  empty ptr member := by
    have isNew : ptr.pack = Pack.new := by
      apply tidy
      change _ ∈ (stock.avail.map PackPtr.pack).dropLast
      rw [← List.map_dropLast]
      exact List.mem_map_of_mem member
    rw [isNew]
    rfl

theorem Counted.shuffled (counted : Counted before) (shuffled : Shuffled before after) :
    Counted after where
  size := by rw [shuffled.curSize, counted.size, shuffled.addresses.length_eq]
  bounded := by
    rw [shuffled.curSize, shuffled.capacity]
    exact counted.bounded
  apart := shuffled.addresses.nodup_iff.mpr counted.apart
  below address member := by
    rw [shuffled.allocated]
    exact counted.below address (shuffled.addresses.mem_iff.mp member)

theorem counted_new (capacity : UInt32) : Counted (new capacity : Stock ι) where
  size := rfl
  bounded := UInt32.le_iff_toNat_le.mpr (Nat.zero_le _)
  apart := List.nodup_nil
  below := nofun

/-! ## Packs change their place -/

theorem addresses_eq (stock : Stock ι) : stock.addresses =
    stock.hand.toList.map PackPtr.address ++
      (stock.logging.map PackPtr.address ++ stock.avail.map PackPtr.address) := by
  rw [addresses, held, List.map_append, List.map_append]

theorem shuffled_moveAvail (stock : Stock ι) : Shuffled stock stock.moveAvail := by
  rcases List.eq_nil_or_concat' stock.avail with vacant | ⟨init, back, stocked⟩
  · rw [moveAvail, vacant]
    exact .refl stock
  · rw [moveAvail, stocked, List.getLast?_concat, List.dropLast_concat]
    by_cases filled : back.pack.size > 0
    · simp only [filled, if_true]
      refine ⟨List.Perm.map _ ?_, rfl, rfl, rfl⟩
      rw [held, held, stocked, List.append_assoc]
      exact (List.perm_append_comm.append_left stock.logging).append_left stock.hand.toList
    · simp only [filled, if_false]
      exact .refl stock

theorem shuffled_recycleAvail {ptr : PackPtr} (inHand : stock.hand = some ptr) :
    Shuffled stock (stock.recycleAvail ptr) := by
  have inserted (front back : List Nat)
      (here : (stock.recycleAvail ptr).avail.map PackPtr.address = front ++ ptr.address :: back)
      (there : stock.avail.map PackPtr.address = front ++ back) :
      Shuffled stock (stock.recycleAvail ptr) := by
    refine ⟨?_, rfl, rfl, rfl⟩
    rw [addresses_eq, addresses_eq, here, there, inHand]
    change (stock.logging.map PackPtr.address ++ (front ++ ptr.address :: back)).Perm
      (ptr.address :: (stock.logging.map PackPtr.address ++ (front ++ back)))
    rw [← List.append_assoc, ← List.append_assoc]
    exact List.perm_middle
  rcases List.eq_nil_or_concat' stock.avail with vacant | ⟨init, back, stocked⟩
  · refine inserted [] [] ?_ ?_
    · rw [recycleAvail, vacant]
      rfl
    · rw [vacant]
      rfl
  · refine inserted (init.map PackPtr.address) [back.address] ?_ ?_
    · rw [recycleAvail, stocked, List.getLast?_concat, List.dropLast_concat, List.map_append]
      rfl
    · rw [stocked, List.map_append]
      rfl

/-- A text does not change where the packs are. -/
theorem shuffled_appends (stock : Stock ι) (text : Text) (pick : Nat) :
    Shuffled stock (stock.appends text pick) := by
  rcases List.eq_nil_or_concat' stock.avail with vacant | ⟨init, back, stocked⟩
  · rw [appends, vacant]
    exact .refl stock
  · have written (pack : Pack) :
        Shuffled stock { stock with avail := init ++ [⟨back.address, pack⟩] } := by
      refine ⟨?_, rfl, rfl, rfl⟩
      rw [addresses_eq, addresses_eq, stocked, List.map_append, List.map_append]
      exact .refl _
    rw [appends, stocked, List.getLast?_concat, List.dropLast_concat]
    dsimp only
    generalize (if stock.isClose = true then back.pack.append text
      else (back.pack.append text).records text) = pack
    by_cases full : pack.isFull = true
    · rw [if_pos full]
      have moved := (written pack).trans (shuffled_moveAvail _)
      exact ⟨moved.addresses, moved.allocated, moved.curSize, moved.capacity⟩
    · rw [if_neg full]
      exact written pack

theorem shuffled_takesLogging (empty : stock.hand = none) (thread : ι) :
    Shuffled stock (stock.takesLogging thread) := by
  unfold takesLogging
  split
  next =>
    split
    next => exact .refl stock
    next => exact ⟨.refl _, rfl, rfl, rfl⟩
  next ptr logging stored =>
    refine ⟨?_, rfl, rfl, rfl⟩
    rw [addresses_eq, addresses_eq, stored, empty]
    exact .refl _

/-! ## Packs are allocated -/

/-- A size below which the next pack is counted without wrapping. -/
def sizeLimit : Nat := 2 ^ 32 - 64

/-- One pack more is counted. -/
theorem size_succ (small : stock.capacity.toNat < sizeLimit) (counted : Counted stock) :
    (stock.curSize + UInt32.ofNat Pack.capacity).toNat =
      Pack.capacity * (stock.addresses.length + 1) := by
  have size := counted.size
  have bounded := UInt32.le_iff_toNat_le.mp counted.bounded
  have capacity : Pack.capacity = 8191 := rfl
  rw [sizeLimit] at small
  rw [UInt32.toNat_add, UInt32.toNat_ofNat']
  rw [capacity] at size ⊢
  omega

/-- A queue that had no pack to append to, once one is allocated. -/
def grown (stock : Stock ι) : Stock ι :=
  { stock with
    avail := [⟨stock.allocated, Pack.new⟩]
    allocated := stock.allocated + 1
    curSize := stock.curSize + UInt32.ofNat Pack.capacity }

/-- A pack that is allocated is new, and there is room for it. -/
theorem Counted.grown (counted : Counted stock) (small : stock.capacity.toNat < sizeLimit)
    (vacant : stock.avail = [])
    (room : ¬ stock.curSize + UInt32.ofNat Pack.capacity > stock.capacity) :
    Counted stock.grown := by
  have perm : stock.grown.addresses.Perm (stock.allocated :: stock.addresses) := by
    rw [addresses_eq, addresses_eq, vacant, ← List.append_assoc, ← List.append_assoc]
    exact List.perm_middle
  refine ⟨?_, UInt32.not_lt.mp room, ?_, fun address member => ?_⟩
  · rw [perm.length_eq, List.length_cons]
    exact size_succ small counted
  · rw [perm.nodup_iff, List.nodup_cons]
    exact ⟨fun member => Nat.lt_irrefl _ (counted.below _ member), counted.apart⟩
  · rcases List.mem_cons.mp (perm.mem_iff.mp member) with rfl | earlier
    · exact Nat.lt_succ_self _
    · exact Nat.lt_succ_of_lt (counted.below address earlier)

/-- There is a pack to append to, or one is allocated, or there is no room. -/
theorem getAvail_cases (stock : Stock ι) :
    stock.getAvail = none ∨ stock.getAvail = some stock ∨
      (stock.getAvail = some stock.grown ∧ stock.avail = [] ∧
        ¬ stock.curSize + UInt32.ofNat Pack.capacity > stock.capacity) := by
  rcases List.eq_nil_or_concat' stock.avail with vacant | ⟨init, back, stocked⟩
  · by_cases full : stock.curSize + UInt32.ofNat Pack.capacity > stock.capacity
    · left
      rw [getAvail, vacant, if_neg (by decide), if_pos full]
    · refine .inr (.inr ⟨?_, vacant, full⟩)
      rw [getAvail, vacant, if_neg (by decide), if_neg full]
      rfl
  · refine .inr (.inl ?_)
    rw [getAvail, if_pos]
    rw [stocked, List.isEmpty_eq_false_iff.mpr (List.concat_ne_nil _ _)]
    rfl

/-! ## Critical sections -/

/-- What a critical section keeps. -/
def Kept (before after : Stock ι) : Prop := Counted after ∧ after.capacity = before.capacity

theorem Counted.kept (counted : Counted before) (shuffled : Shuffled before after) :
    Kept before after := ⟨counted.shuffled shuffled, shuffled.capacity⟩

theorem Counted.takesPack (counted : Counted stock) (small : stock.capacity.toNat < sizeLimit)
    (thread : ι) (text : Text) (pick : Nat) : Kept stock (stock.takesPack thread text pick) := by
  rw [Stock.takesPack]
  rcases getAvail_cases stock with waits | same | ⟨grows, vacant, room⟩
  · rw [waits]
    exact counted.kept ⟨.refl _, rfl, rfl, rfl⟩
  · rw [same]
    exact counted.kept (shuffled_appends stock text pick)
  · rw [grows]
    exact (counted.grown small vacant room).kept (shuffled_appends stock.grown text pick)

theorem Counted.post (counted : Counted stock) (small : stock.capacity.toNat < sizeLimit)
    (thread : ι) (text : Text) (pick again : Nat) :
    Kept stock (stock.post thread text pick again) := by
  have takes {ready : Stock ι} (shuffled : Shuffled stock ready) :
      Kept stock (ready.takesPack thread text again) := by
    obtain ⟨took, capacity⟩ := (counted.shuffled shuffled).takesPack (shuffled.capacity ▸ small)
      thread text again
    exact ⟨took, capacity.trans shuffled.capacity⟩
  rw [Stock.post]
  refine takes ?_
  split
  next back _ =>
    split
    next =>
      have moved := shuffled_moveAvail stock
      exact ⟨moved.addresses, moved.allocated, moved.curSize, moved.capacity⟩
    next => exact .refl stock
  next => exact .refl stock

theorem shuffled_pop (stock : Stock ι) (thread : ι) : Shuffled stock (stock.pop thread) := by
  rw [pop]
  split
  next ptr inHand => exact (shuffled_recycleAvail inHand).trans (shuffled_takesLogging rfl thread)
  next empty => exact shuffled_takesLogging empty thread

theorem hand_moveAvail (stock : Stock ι) : stock.moveAvail.hand = stock.hand := by
  unfold moveAvail
  split
  · split <;> rfl
  · rfl

theorem shuffled_popAgain (empty : stock.hand = none) (thread : ι) (timedOut : Bool) :
    Shuffled stock (stock.popAgain thread timedOut) := by
  rw [popAgain]
  cases timedOut with
  | false => exact shuffled_takesLogging empty thread
  | true =>
      have stillEmpty := (hand_moveAvail stock).trans empty
      exact (shuffled_moveAvail stock).trans (shuffled_takesLogging stillEmpty thread)

theorem Counted.step (counted : Counted stock) (small : stock.capacity.toNat < sizeLimit)
    (turn : Turn ι) : Kept stock (stock.step turn) := by
  cases turn with
  | post thread text pick again =>
      rw [Stock.step]
      split
      · exact ⟨counted, rfl⟩
      · exact counted.post small thread text pick again
  | postAgain thread text pick => exact counted.takesPack small thread text pick
  | pop thread => exact counted.kept (shuffled_pop stock thread)
  | popAgain thread timedOut =>
      rw [Stock.step]
      split
      next => exact ⟨counted, rfl⟩
      next notHeld =>
        have empty : stock.hand = none := Option.not_isSome_iff_eq_none.mp notHeld
        exact counted.kept (shuffled_popAgain empty thread timedOut)
  | close => exact counted.kept ⟨.refl _, rfl, rfl, rfl⟩

/-! ## Only the current pack is filled -/

section Tidy

variable {queue : Queue ι}

theorem tidy_takesPack (tidy : queue.Tidy) (thread : ι) (text : Text) (pick : Nat) :
    (queue.takesPack thread text pick).1.Tidy := by
  rcases Queue.takesPack_cases tidy thread text pick with ⟨_, waits⟩ | ⟨_, appended, took⟩
  · rw [waits]
    exact tidy
  · rw [took]
    exact appended.tidy

theorem tidy_takesLogging (tidy : queue.Tidy) (thread : ι) :
    (queue.takesLogging thread).1.Tidy := by
  rcases Queue.takesLogging_cases queue thread with
    ⟨_, _, ended⟩ | ⟨_, waits⟩ | ⟨_, _, _, took⟩
  · rw [ended]
    exact tidy
  · rw [waits]
    exact tidy
  · rw [took]
    exact tidy

theorem tidy_onQueue (tidy : queue.Tidy) (hand : Option Pack) (turn : Turn ι) :
    (turn.onQueue queue hand).Tidy := by
  cases turn with
  | post thread text pick again =>
      rw [Turn.onQueue]
      split
      · exact tidy
      · obtain ⟨ready, rearranged, _, took⟩ := Queue.post_cases tidy thread text pick again
        rw [took]
        exact tidy_takesPack rearranged.tidy thread text again
  | postAgain thread text pick => exact tidy_takesPack tidy thread text pick
  | pop thread =>
      obtain ⟨ready, rearranged, _, took⟩ := Queue.pop_cases tidy thread hand
      rw [Turn.onQueue, took]
      exact tidy_takesLogging rearranged.tidy thread
  | popAgain thread timedOut =>
      rw [Turn.onQueue]
      split
      · exact tidy
      · exact tidy_takesLogging (Queue.rearranged_again tidy timedOut).tidy thread
  | close => exact tidy

end Tidy

/-! ## Runs -/

/-- Below the limit of the capacity, every run keeps the accounts. -/
theorem accounted_run {capacity : UInt32} (small : capacity.toNat < sizeLimit)
    (turns : List (Turn ι)) : Accounted (Run.final step (new capacity) turns) := by
  have counted := Run.final_of_kept
    (fun stock : Stock ι => Counted stock ∧ stock.capacity = capacity)
    (fun stock turn ⟨counted, same⟩ =>
      have ⟨next, unchanged⟩ := counted.step (same ▸ small) turn
      ⟨next, unchanged.trans same⟩)
    ⟨counted_new capacity, rfl⟩ turns
  have start : (new capacity : Stock ι).queue.Tidy := nofun
  have tidy := Run.final_of_kept (fun stock : Stock ι => stock.queue.Tidy)
    (fun stock turn tidy => by
      rw [queue_step]
      exact tidy_onQueue tidy _ turn)
    start turns
  exact counted.1.accounted tidy

/-- A number of packs are full, and there is no other one. -/
structure Filled (packs : Nat) (stock : Stock ι) : Prop where
  avail : stock.queue.avail = []
  logging : stock.queue.logging.length = packs
  curSize : stock.queue.curSize = UInt32.ofNat (packs * Pack.capacity)
  opened : stock.queue.isClose = false
  large : sizeLimit ≤ stock.queue.capacity.toNat

/-- The packs whose size is counted without wrapping, and one more. -/
def packsLimit : Nat := 524353

theorem Filled.post {packs : Nat} (filled : Filled packs stock) (few : packs < packsLimit)
    (thread : ι) :
    Filled (packs + 1) (stock.step (.post thread Queue.line 0 0)) := by
  have fits : ¬ Queue.line.length > Pack.capacity := Queue.line_length ▸ Nat.lt_irrefl _
  have size : stock.queue.curSize + UInt32.ofNat Pack.capacity =
      UInt32.ofNat ((packs + 1) * Pack.capacity) := by
    rw [filled.curSize, ← UInt32.ofNat_add, Nat.succ_mul]
  have wrapped : (packs + 1) * Pack.capacity % 2 ^ 32 ≤ sizeLimit := by
    have capacity : Pack.capacity = 8191 := rfl
    rw [capacity, sizeLimit]
    rcases Nat.lt_succ_iff_lt_or_eq.mp few with fewer | rfl
    · rw [Nat.mod_eq_of_lt (by omega)]
      omega
    · decide
  have room : ¬ stock.queue.curSize + UInt32.ofNat Pack.capacity > stock.queue.capacity := by
    rw [size, gt_iff_lt, UInt32.lt_iff_toNat_lt, UInt32.toNat_ofNat']
    exact Nat.not_lt_of_le (Nat.le_trans wrapped filled.large)
  have posted : (stock.step (.post thread Queue.line 0 0)).queue = { stock.queue with
      avail := []
      logging := stock.queue.logging ++ [Queue.linePack]
      curSize := stock.queue.curSize + UInt32.ofNat Pack.capacity
      loggingCondVar := stock.queue.loggingCondVar.notifyOne 0 } := by
    rw [step, if_neg fits, queue_post,
      Queue.post_line filled.avail filled.opened room]
  refine ⟨?_, ?_, ?_, ?_, ?_⟩
  · rw [posted]
  · rw [posted, List.length_append, filled.logging, List.length_singleton]
  · rw [posted, size]
  · rw [posted]
    exact filled.opened
  · rw [posted]
    exact filled.large

theorem Filled.run {packs : Nat} (filled : Filled packs stock) (thread : ι) {count : Nat}
    (few : packs + count ≤ packsLimit) :
    Filled (packs + count)
      (Run.final step stock (List.replicate count (.post thread Queue.line 0 0))) := by
  induction count generalizing packs stock with
  | zero => exact filled
  | succ count ih =>
      rw [List.replicate_succ, Run.final, ← Nat.succ_add_eq_add_succ]
      exact ih (filled.post (by omega) thread) (by omega)

/-- With one pack more than can be counted, the size is that of a part of a pack. -/
theorem not_accounted (filled : Filled packsLimit stock) : ¬ Accounted stock := by
  intro accounted
  have size := accounted.size
  have logging : stock.logging.length = packsLimit := by
    rw [← filled.logging]
    exact (List.length_map _).symm
  have wrapped : stock.curSize.toNat = 8127 := congrArg UInt32.toNat filled.curSize
  have capacity : Pack.capacity = 8191 := rfl
  rw [wrapped, logging, capacity, packsLimit] at size
  omega

/-- A queue of such a capacity takes more packs than can be counted. -/
theorem overfilled {capacity : UInt32} (large : sizeLimit ≤ capacity.toNat) (thread : ι) :
    ∃ turns : List (Turn ι), ¬ Accounted (Run.final step (new capacity) turns) := by
  have start : Filled 0 (new capacity : Stock ι) :=
    ⟨rfl, rfl, rfl, congrArg not (Thread.AtomicState.ok_isOk _), large⟩
  have full := start.run thread (Nat.le_of_eq (Nat.zero_add packsLimit))
  rw [Nat.zero_add] at full
  exact ⟨_, not_accounted full⟩

/-- **Accounting.** Whatever the order of the critical sections, the accounts of the queue are
right if and only if its capacity is below the limit. -/
theorem accounted_iff [Inhabited ι] (capacity : UInt32) :
    (∀ turns : List (Turn ι), Accounted (Run.final step (new capacity) turns)) ↔
      capacity.toNat < sizeLimit := by
  constructor
  · intro always
    by_contra large
    have wrong : ∃ turns : List (Turn ι), ¬ Accounted (Run.final step (new capacity) turns) :=
      overfilled (Nat.le_of_not_lt large) default
    exact wrong.elim fun turns broken => broken (always turns)
  · intro small turns
    exact accounted_run small turns

/-- The largest capacity there is. -/
theorem size_wrapped :
    ¬ ∀ turns : List (Turn Nat), Accounted (Run.final step (new 0xFFFFFFFF) turns) := by
  intro always
  have wrong : ∃ turns : List (Turn Nat), ¬ Accounted (Run.final step (new 0xFFFFFFFF) turns) :=
    overfilled (by decide) 0
  exact wrong.elim fun turns broken => broken (always turns)

end Cube.Eco.Log.Stock
