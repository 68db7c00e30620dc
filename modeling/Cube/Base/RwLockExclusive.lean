import Mathlib.Tactic.SplitIfs
import Cube.Base.RwLock

/-! # Exclusive writers

What a lock's counters say agrees with where the threads stand: `activeWriterReaders` counts
the readers that hold the lock, and in its high word the writer that holds it or that it was
handed to. Every step keeps these books, so readers and writers exclude each other.
-/

namespace Cube.Base.RwLock

open Interleaving

variable {ι : Type}

/-! ## The words of the counter -/

theorem hiword_pos_iff (value : UInt32) : 0 < hiword value ↔ 65536 ≤ value.toNat := by
  rw [UInt32.lt_iff_toNat_lt, hiword, UInt32.toNat_shiftRight]
  simp only [UInt32.reduceToNat, Nat.reduceMod, Nat.shiftRight_eq_div_pow, Nat.reducePow]
  omega

theorem hiword_eq_zero_iff (value : UInt32) : hiword value = 0 ↔ value.toNat < 65536 := by
  rw [← Nat.not_le, ← hiword_pos_iff, UInt32.pos_iff_ne_zero, ne_eq, not_not]

theorem toNat_writerOwned : (makelong 0 1).toNat = 65536 := rfl

/-! ## The books -/

/-- The books of a lock: how many threads stand inside its section, hold it to read, hold it
to write, are about to release its semaphore, wait to read and wait to write. -/
structure Books (lock : RwLock ι)
    (inSection readers writers hands waitsReading waitsWriting : Nat) : Prop where
  cs : inSection = lock.cs.toNat
  active : lock.activeWriterReaders.toNat =
    readers + 65536 * (writers + (lock.readyToWrite + hands))
  single : writers + (lock.readyToWrite + hands) ≤ 1
  apart : readers = 0 ∨ writers + (lock.readyToWrite + hands) = 0
  fits : readers ≤ 65536
  nonneg : 0 ≤ lock.numWritersWaiting
  waitingWriters : lock.numWritersWaiting + ((lock.readyToWrite + hands : Nat) : Int) =
    (waitsWriting : Int)
  waitingReaders : lock.numReadersWaiting = (waitsReading : Int)

namespace Books

variable {lock : RwLock ι} {s r w h wr ww : Nat}

/-- Entering the critical section. -/
theorem entered (books : Books lock s r w h wr ww) (free : lock.cs = false) :
    Books { lock with cs := true } (s + 1) r w h wr ww :=
  { books with
    cs := by
      have none := books.cs
      rw [free] at none
      rw [none]
      rfl }

/-- Leaving it. -/
theorem left (books : Books lock (s + 1) r w h wr ww) :
    Books { lock with cs := false } s r w h wr ww :=
  { books with
    cs := by
      have inside := books.cs
      have most := Bool.toNat_le lock.cs
      rw [Bool.toNat_false]
      omega }

/-- What happens to the event is not in the books. -/
theorem event (books : Books lock s r w h wr ww) (event : Event ι) :
    Books { lock with readyToRead := event } s r w h wr ww := { books with }

/-- One reader more, where no writer owns the lock. -/
theorem reads (books : Books lock s r w h wr ww)
    (admitted : lock.activeWriterReaders.toNat < 65536) :
    Books { lock with activeWriterReaders := lock.activeWriterReaders + 1 } s (r + 1) w h wr
      ww := by
  have counted : (lock.activeWriterReaders + 1).toNat = lock.activeWriterReaders.toNat + 1 := by
    simp only [UInt32.toNat_add, UInt32.reduceToNat]
    omega
  have ⟨_, active, single, apart, fits, _, _, _⟩ := books
  exact
    { books with
      active := by
        dsimp only
        omega
      apart := by
        dsimp only
        omega
      fits := by omega }

/-- One reader less. -/
theorem unreads (books : Books lock s (r + 1) w h wr ww) :
    Books { lock with activeWriterReaders := lock.activeWriterReaders - 1 } s r w h wr ww := by
  have ⟨_, active, single, apart, fits, _, _, _⟩ := books
  have counted : (lock.activeWriterReaders - 1).toNat = lock.activeWriterReaders.toNat - 1 := by
    have small := lock.activeWriterReaders.toNat_lt
    simp only [UInt32.toNat_sub, UInt32.reduceToNat]
    omega
  exact
    { books with
      active := by
        dsimp only
        omega
      apart := by
        dsimp only
        omega
      fits := by omega }

/-- A writer takes a lock that nobody owns. -/
theorem writes (books : Books lock s r w h wr ww) (free : lock.activeWriterReaders = 0) :
    Books { lock with activeWriterReaders := makelong 0 1 } s r (w + 1) h wr ww := by
  have ⟨_, active, single, apart, fits, _, _, _⟩ := books
  rw [free, UInt32.toNat_zero] at active
  exact
    { books with
      active := by
        dsimp only
        rw [toNat_writerOwned]
        omega
      single := by
        dsimp only
        omega
      apart := by
        dsimp only
        omega }

/-- A lock that nobody owns is handed over to a waiting writer. -/
theorem handsOver (books : Books lock s r w h wr ww) (free : lock.activeWriterReaders = 0)
    (waiting : lock.numWritersWaiting ≠ 0) :
    Books { lock with
      numWritersWaiting := lock.numWritersWaiting - 1
      activeWriterReaders := makelong 0 1 } s r w (h + 1) wr ww := by
  have ⟨_, active, single, apart, fits, nonneg, waitingWriters, _⟩ := books
  rw [free, UInt32.toNat_zero] at active
  exact
    { books with
      active := by
        dsimp only
        rw [toNat_writerOwned]
        omega
      single := by
        dsimp only
        omega
      apart := by
        dsimp only
        omega
      nonneg := by
        dsimp only
        omega
      waitingWriters := by
        dsimp only
        omega }

/-- A writer that leaves hands the lock over to another. -/
theorem passesOn (books : Books lock s r (w + 1) h wr ww) (waiting : lock.numWritersWaiting ≠ 0) :
    Books { lock with numWritersWaiting := lock.numWritersWaiting - 1 } s r w (h + 1) wr ww := by
  have ⟨_, active, single, apart, fits, nonneg, waitingWriters, _⟩ := books
  exact
    { books with
      active := by
        dsimp only
        omega
      single := by
        dsimp only
        omega
      apart := by
        dsimp only
        omega
      nonneg := by
        dsimp only
        omega
      waitingWriters := by
        dsimp only
        omega }

/-- A writer leaves a lock that no writer waits for. -/
theorem frees (books : Books lock s r (w + 1) h wr ww) :
    Books { lock with activeWriterReaders := 0 } s r w h wr ww := by
  have ⟨_, active, single, apart, fits, _, _, _⟩ := books
  exact
    { books with
      active := by
        dsimp only
        rw [UInt32.toNat_zero]
        omega
      single := by
        dsimp only
        omega
      apart := by
        dsimp only
        omega }

/-- A release of the semaphore never finds it at its maximum. -/
theorem semaphore_free (books : Books lock s r w (h + 1) wr ww) : lock.readyToWrite = 0 := by
  have single := books.single
  omega

theorem releases (books : Books lock s r w (h + 1) wr ww) :
    Books lock.releaseSemaphore s r w h wr ww := by
  have empty := books.semaphore_free
  have ⟨_, active, single, apart, _, _, waitingWriters, _⟩ := books
  rw [releaseSemaphore, if_pos (by omega)]
  exact
    { books with
      active := by
        dsimp only
        omega
      single := by
        dsimp only
        omega
      apart := by
        dsimp only
        omega
      waitingWriters := by
        dsimp only
        omega }

/-- A waiting writer takes the ownership that was handed over, whoever it was meant for. -/
theorem wakes (books : Books lock s r w h wr (ww + 1)) (released : 0 < lock.readyToWrite) :
    Books { lock with readyToWrite := lock.readyToWrite - 1 } s r (w + 1) h wr ww := by
  have ⟨_, active, single, apart, _, _, waitingWriters, _⟩ := books
  exact
    { books with
      active := by
        dsimp only
        omega
      single := by
        dsimp only
        omega
      apart := by
        dsimp only
        omega
      waitingWriters := by
        dsimp only
        omega }

/-- A reader starts to wait. -/
theorem waitsToRead (books : Books lock s r w h wr ww) :
    Books { lock with numReadersWaiting := lock.numReadersWaiting + 1 } s r w h (wr + 1) ww :=
  { books with
    waitingReaders := by
      have waiting := books.waitingReaders
      dsimp only
      omega }

/-- A reader is done waiting. -/
theorem waitedToRead (books : Books lock s r w h (wr + 1) ww) :
    Books { lock with numReadersWaiting := lock.numReadersWaiting - 1 } s r w h wr ww :=
  { books with
    waitingReaders := by
      have waiting := books.waitingReaders
      dsimp only
      omega }

/-- A writer starts to wait. -/
theorem waitsToWrite (books : Books lock s r w h wr ww) :
    Books { lock with numWritersWaiting := lock.numWritersWaiting + 1 } s r w h wr (ww + 1) :=
  { books with
    nonneg := by
      have nonneg := books.nonneg
      dsimp only
      omega
    waitingWriters := by
      have waiting := books.waitingWriters
      dsimp only
      omega }

end Books

/-! ## Every step keeps the books -/

/-- The threads besides one, as the books count them. -/
structure Others where
  inSection : Nat
  readers : Nat
  writers : Nat
  hands : Nat
  waitsReading : Nat
  waitsWriting : Nat

/-- The books are right when the one thread stands at a point, or is gone. -/
def Balanced (lock : RwLock ι) (others : Others) (point : Option Point) : Prop :=
  Books lock (others.inSection + weigh Point.inSection point)
    (others.readers + weigh Point.reads point) (others.writers + weigh Point.writes point)
    (others.hands + weigh Point.hands point)
    (others.waitsReading + weigh Point.waitsReading point)
    (others.waitsWriting + weigh Point.waitsWriting point)

namespace Balanced

variable {lock : RwLock ι} {others : Others} {point : Point}

/-- A section is entered from outside, and its body has the lock as it was found. -/
theorem enter (balanced : Balanced lock others (some point)) {body : RwLock ι → RwLock ι × Point}
    (kept : lock.cs = false →
      Balanced (body { lock with cs := true }).1 others (some (body { lock with cs := true }).2)) :
    Balanced (lock.enter point body).1 others (lock.enter point body).2 := by
  unfold RwLock.enter
  cases taken : lock.cs with
  | true => exact balanced
  | false => exact kept taken

theorem lockRead (balanced : Balanced lock others (some .lockRead)) (free : lock.cs = false) :
    Balanced ({ lock with cs := true } : RwLock ι).lockRead.1 others
      (some ({ lock with cs := true } : RwLock ι).lockRead.2) := by
  have books := Books.entered balanced free
  unfold RwLock.lockRead
  split_ifs with blocked
  · exact books.waitsToRead
  · rw [blocksReaders, Bool.or_eq_true, decide_eq_true_eq, decide_eq_true_eq, gt_iff_lt,
      gt_iff_lt, hiword_pos_iff, not_or] at blocked
    exact books.reads (Nat.lt_of_not_le blocked.2)

theorem wokenRead (balanced : Balanced lock others (some .inWaitToRead))
    (free : lock.cs = false) :
    Balanced ({ lock with cs := true } : RwLock ι).wokenRead.1 others
      (some ({ lock with cs := true } : RwLock ι).wokenRead.2) := by
  have books := Books.entered balanced free
  unfold RwLock.wokenRead
  split_ifs with admitted
  · rw [admitsReader, Bool.and_eq_true, beq_iff_eq, hiword_eq_zero_iff] at admitted
    exact books.waitedToRead.reads admitted.2
  · exact books

theorem unlockRead (balanced : Balanced lock others (some .reading)) (free : lock.cs = false) :
    Balanced ({ lock with cs := true } : RwLock ι).unlockRead.1 others
      (some ({ lock with cs := true } : RwLock ι).unlockRead.2) := by
  have books := (Books.entered balanced free).unreads
  unfold RwLock.unlockRead
  split_ifs with last
  · exact books
  · exact books

theorem resetLast (balanced : Balanced lock others (some .resetsLast)) :
    Balanced lock.resetLast.1 others (some lock.resetLast.2) := by
  have books := Books.event balanced lock.readyToRead.reset
  unfold RwLock.resetLast
  dsimp only
  split_ifs with waiting
  · exact books.handsOver waiting.2 waiting.1
  · exact books

theorem lockWrite (balanced : Balanced lock others (some .lockWrite)) (free : lock.cs = false) :
    Balanced ({ lock with cs := true } : RwLock ι).lockWrite.1 others
      (some ({ lock with cs := true } : RwLock ι).lockWrite.2) := by
  have books := Books.entered balanced free
  unfold RwLock.lockWrite
  split_ifs with taken
  · exact books.waitsToWrite
  · exact books.writes (not_not.mp taken)

theorem unlockWrite (balanced : Balanced lock others (some .writing)) (free : lock.cs = false) :
    Balanced ({ lock with cs := true } : RwLock ι).unlockWrite.1 others
      (some ({ lock with cs := true } : RwLock ι).unlockWrite.2) := by
  have books := Books.entered balanced free
  unfold RwLock.unlockWrite
  split_ifs with waiting
  · exact books.passesOn waiting
  · exact books.frees

theorem afterUnlockWrite {notifyWriter notifyReaders : Bool}
    (balanced : Balanced lock others (some (.leavesUnlockWrite notifyWriter notifyReaders))) :
    Balanced { lock with cs := false } others
      (RwLock.afterUnlockWrite notifyWriter notifyReaders) := by
  have books := Books.left balanced
  cases notifyWriter with
  | true => exact books
  | false =>
      cases notifyReaders with
      | true => exact books
      | false => exact books

/-- **Every step keeps the books.** -/
theorem advance [DecidableEq ι] (thread : ι) (balanced : Balanced lock others (some point)) :
    Balanced (lock.advance thread point).1 others (lock.advance thread point).2 := by
  cases point with
  | lockRead => exact balanced.enter balanced.lockRead
  | resetsEvent => exact Books.event balanced lock.readyToRead.reset
  | leavesToWait => exact Books.left balanced
  | waitsToRead => exact Books.event balanced (lock.readyToRead.wait thread)
  | inWaitToRead =>
      rw [RwLock.advance]
      split_ifs with asleep
      · exact balanced
      · exact balanced.enter balanced.wokenRead
  | leavesReading notifyReaders =>
      have books := Books.left balanced
      cases notifyReaders with
      | true => exact books
      | false => exact books
  | notifiesReading => exact Books.event balanced lock.readyToRead.set
  | reading => exact balanced.enter balanced.unlockRead
  | resetsLast => exact balanced.resetLast
  | releasesLast => exact Books.releases balanced
  | leavesUnlockRead => exact Books.left balanced
  | lockWrite => exact balanced.enter balanced.lockWrite
  | leavesToWaitWrite => exact Books.left balanced
  | inWaitToWrite =>
      rw [RwLock.advance]
      split_ifs with released
      · exact Books.wakes balanced released
      · exact balanced
  | leavesWriting => exact Books.left balanced
  | writing => exact balanced.enter balanced.unlockWrite
  | leavesUnlockWrite notifyWriter notifyReaders => exact balanced.afterUnlockWrite
  | releasesWriter => exact Books.releases balanced
  | notifiesReaders => exact Books.event balanced lock.readyToRead.set

end Balanced

/-! ## Over any interleaving -/

section Threads

variable [Fintype ι]

/-- The books of a lock, over all threads. -/
def Sound (threads : Threads ι) : Prop :=
  Books threads.shared (threads.tally Point.inSection) (readers threads) (writers threads)
    (threads.tally Point.hands) (threads.tally Point.waitsReading)
    (threads.tally Point.waitsWriting)

theorem sound_start : Sound (start : Threads ι) := by
  rw [Sound, readers, writers]
  simp only [start, Threads.tally_idle]
  exact
    { cs := rfl
      active := rfl
      single := Nat.zero_le 1
      apart := .inl rfl
      fits := Nat.zero_le _
      nonneg := Int.le_refl 0
      waitingWriters := rfl
      waitingReaders := rfl }

variable [DecidableEq ι] {threads : Threads ι}

/-- A thread that leaves the books of the others right leaves all of them right. -/
theorem Sound.move (sound : Sound threads) {thread : ι} {result : RwLock ι × Option Point}
    (kept : ∀ others, Balanced threads.shared others (threads.running thread) →
      Balanced result.1 others result.2) : Sound (threads.move thread result) := by
  obtain ⟨inSection, before1, after1⟩ := threads.exists_rest Point.inSection thread
  obtain ⟨reading, before2, after2⟩ := threads.exists_rest Point.reads thread
  obtain ⟨writing, before3, after3⟩ := threads.exists_rest Point.writes thread
  obtain ⟨hands, before4, after4⟩ := threads.exists_rest Point.hands thread
  obtain ⟨waitsReading, before5, after5⟩ := threads.exists_rest Point.waitsReading thread
  obtain ⟨waitsWriting, before6, after6⟩ := threads.exists_rest Point.waitsWriting thread
  have balanced : Balanced threads.shared
      ⟨inSection, reading, writing, hands, waitsReading, waitsWriting⟩
      (threads.running thread) := by
    rw [Balanced, ← before1, ← before2, ← before3, ← before4, ← before5, ← before6]
    exact sound
  have next := kept _ balanced
  rw [Balanced, ← after1, ← after2, ← after3, ← after4, ← after5, ← after6] at next
  exact next

/-- **Every step of the threads keeps the books.** -/
theorem Sound.step (sound : Sound threads) (choice : Choice ι) :
    Sound (program.step threads choice) := by
  rcases program.step_cases threads choice with
    ⟨unchanged, _⟩ | ⟨thread, use, rfl, idle⟩ | ⟨thread, input, point, rfl, running⟩
  · rw [unchanged]
    exact sound
  · rw [Program.step_call idle]
    apply sound.move
    intro others balanced
    rw [idle] at balanced
    cases use with
    | read => exact balanced
    | write => exact balanced
  · rw [Program.step_advance running]
    apply sound.move
    intro others balanced
    rw [running] at balanced
    exact balanced.advance thread

/-- The books are right after every run. -/
theorem sound_run (choices : List (Choice ι)) :
    Sound (Run.final program.step (start : Threads ι) choices) :=
  Run.final_of_kept Sound (fun _ choice sound => sound.step choice) sound_start choices

/-- A lock whose writers are exclusive, with the counters to match. -/
structure ExclusiveWriters (threads : Threads ι) : Prop where
  /-- Nobody holds the lock, or readers only, or one writer only. -/
  exclusive : (readers threads = 0 ∧ writers threads = 0) ∨
    (0 < readers threads ∧ writers threads = 0) ∨
    (readers threads = 0 ∧ writers threads = 1)
  /-- The word counts the readers, and in its high half the writer or the hand-over. -/
  counts : threads.shared.activeWriterReaders.toNat =
    readers threads + 65536 * (writers threads + handedOver threads)
  /-- A lock that is handed over has no holder. -/
  handedOver : handedOver threads ≤ 1 ∧
    (handedOver threads = 1 → readers threads = 0 ∧ writers threads = 0)
  /-- Whoever is about to release the semaphore finds it empty. -/
  released : ∀ thread point, threads.running thread = some point → Point.hands point ≠ 0 →
    threads.shared.readyToWrite = 0
  semaphore : threads.shared.readyToWrite ≤ 1
  writersWaiting : 0 ≤ threads.shared.numWritersWaiting
  readersWaiting : 0 ≤ threads.shared.numReadersWaiting

/-- **Exclusive writers.** In every interleaving of readers and writers, the lock is free, or
held by readers only, or by one writer only; its counters count the holders and the one
hand-over there can be, and no counter becomes negative. -/
theorem writers_exclusive (choices : List (Choice ι)) :
    ExclusiveWriters (Run.final program.step (start : Threads ι) choices) := by
  have ⟨_, active, single, apart, fits, nonneg, _, waitingReaders⟩ := sound_run choices
  exact
    { exclusive := by omega
      counts := active
      handedOver := by
        rw [RwLock.handedOver]
        omega
      released := by
        intro thread point running hands
        have most := Threads.weight_le_tally Point.hands running
        omega
      semaphore := by omega
      writersWaiting := nonneg
      readersWaiting := by omega }

end Threads

end Cube.Base.RwLock
