import Cube.Base.RwLockExclusive

/-! # Waiters that nobody wakes

A reader that is about to wait for the event may find it reset: the writer it waits for has
set it, and a reader that came and went since has reset it. Where the last reader never resets
the event in front of such a reader, every waiter is woken. A writer always is.
-/

namespace Cube.Base.RwLock

open Interleaving

variable {ι : Type}

namespace Point

/-- On the way to `SetEvent`. -/
def signals : Point → Nat
  | .leavesReading notifyReaders => notifyReaders.toNat
  | .notifiesReading | .notifiesReaders => 1
  | .leavesUnlockWrite notifyWriter notifyReaders => (!notifyWriter && notifyReaders).toNat
  | _ => 0

/-- Going to wait, still inside the section. -/
def goesToWait : Point → Nat
  | .resetsEvent | .leavesToWait => 1
  | _ => 0

/-- In front of `WaitForSingleObject`. -/
def aboutToWait : Point → Nat
  | .waitsToRead => 1
  | _ => 0

/-- The last reader, in front of its `ResetEvent`. -/
def lastToLeave : Point → Nat
  | .resetsLast => 1
  | _ => 0

end Point

/-! ## Being stranded -/

/-- The thread waits, and nothing that has happened lets it pass. -/
def Blocked (lock : RwLock ι) (thread : ι) : Point → Prop
  | .inWaitToRead => thread ∈ lock.readyToRead.waiting
  | .inWaitToWrite => lock.readyToWrite = 0
  | _ => False

instance [DecidableEq ι] (lock : RwLock ι) (thread : ι) (point : Point) :
    Decidable (Blocked lock thread point) := by
  unfold Blocked
  split <;> infer_instance

section Threads

variable [Fintype ι]

/-- Nobody holds the lock, it is not handed over, and no thread can do anything but wait. -/
structure AtRest (threads : Threads ι) : Prop where
  readers : readers threads = 0
  writers : writers threads = 0
  handedOver : handedOver threads = 0
  blocked : ∀ thread point, threads.running thread = some point →
    Blocked threads.shared thread point

/-- At rest, a thread waits for a lock that nobody holds. -/
def Stranded (threads : Threads ι) : Prop :=
  AtRest threads ∧ ∃ thread point, threads.running thread = some point

/-! ## Steps that lose no wake-up -/

/-- A reader that enters the section to lock finds fewer than 65536 readers, or writers
waiting: it takes no readers for a writer. And when the last reader resets the event, writers
wait, or no reader is about to wait for the event, or the event is about to be set again. -/
def LosesNoWakeUp (threads : Threads ι) : Choice ι → Prop
  | .call _ _ => True
  | .advance thread _ =>
      match threads.running thread with
      | some .lockRead | some .inWaitToRead =>
          readers threads < 65536 ∨ threads.shared.numWritersWaiting ≠ 0
      | some .resetsLast =>
          threads.shared.numWritersWaiting ≠ 0 ∨ threads.tally Point.aboutToWait = 0 ∨
            threads.tally Point.signals ≠ 0
      | _ => True

instance [DecidableEq ι] (threads : Threads ι) (choice : Choice ι) :
    Decidable (LosesNoWakeUp threads choice) := by
  unfold LosesNoWakeUp
  split
  · infer_instance
  · split <;> infer_instance

end Threads

/-! ## What a lock owes its waiters -/

/-- Writers that wait are owed the lock by whoever owns it, up to the last reader. -/
def Served (lock : RwLock ι) (lastToLeave : Nat) : Prop :=
  0 < lock.numWritersWaiting → lock.activeWriterReaders ≠ 0 ∨ lastToLeave ≠ 0

/-- While no writer owns the lock or waits for it, readers that wait are owed a signal:
`owned` counts the writers and the hand-overs. -/
structure Alert (lock : RwLock ι) (owned signals goesToWait aboutToWait : Nat) : Prop where
  going : goesToWait ≠ 0 → owned ≠ 0 ∨ lock.numWritersWaiting ≠ 0
  asleep : owned = 0 → lock.numWritersWaiting = 0 → lock.readyToRead.waiting ≠ [] → signals ≠ 0
  about : owned = 0 → lock.numWritersWaiting = 0 → aboutToWait ≠ 0 →
    lock.readyToRead.signaled = true ∨ signals ≠ 0

/-- The threads besides one, with those that matter to waiters. -/
structure Crowd extends Others where
  signals : Nat
  goesToWait : Nat
  aboutToWait : Nat
  lastToLeave : Nat
  inside : goesToWait ≤ inSection

def Crowd.served (crowd : Crowd) (lock : RwLock ι) (point : Option Point) : Prop :=
  Served lock (crowd.lastToLeave + weigh Point.lastToLeave point)

def Crowd.alert (crowd : Crowd) (lock : RwLock ι) (point : Option Point) : Prop :=
  Alert lock
    (crowd.writers + weigh Point.writes point +
      (lock.readyToWrite + (crowd.hands + weigh Point.hands point)))
    (crowd.signals + weigh Point.signals point)
    (crowd.goesToWait + weigh Point.goesToWait point)
    (crowd.aboutToWait + weigh Point.aboutToWait point)

section Writers

variable {lock : RwLock ι} {crowd : Crowd} {point : Point}

theorem Served.of_active {last : Nat} (active : lock.activeWriterReaders ≠ 0) :
    Served lock last := fun _ => .inl active

theorem served_enter {body : RwLock ι → RwLock ι × Point}
    (served : crowd.served lock (some point))
    (kept : crowd.served (body { lock with cs := true }).1
      (some (body { lock with cs := true }).2)) :
    crowd.served (lock.enter point body).1 (lock.enter point body).2 := by
  unfold enter
  split_ifs with taken
  · exact served
  · exact kept

/-- Every step keeps what waiting writers are owed. -/
theorem served_advance [DecidableEq ι] (thread : ι)
    (balanced : Balanced lock crowd.toOthers (some point))
    (served : crowd.served lock (some point)) :
    crowd.served (lock.advance thread point).1 (lock.advance thread point).2 := by
  have one : (1 : UInt32) ≠ 0 := by decide
  have owner : makelong 0 1 ≠ 0 := by decide
  cases point with
  | lockRead =>
      apply served_enter served
      unfold lockRead
      split_ifs with blocked
      · exact served
      · rw [blocksReaders, Bool.or_eq_true, decide_eq_true_eq, not_or] at blocked
        exact fun waiting => (blocked.1 waiting).elim
  | inWaitToRead =>
      rw [advance]
      split_ifs with asleep
      · exact served
      · apply served_enter served
        unfold wokenRead
        split_ifs with admitted
        · rw [admitsReader, Bool.and_eq_true, decide_eq_true_eq] at admitted
          intro waiting
          rw [admitted.1] at waiting
          exact absurd waiting (lt_irrefl 0)
        · exact served
  | reading =>
      apply served_enter served
      unfold unlockRead
      split_ifs with last
      · exact fun _ => .inr (Nat.succ_ne_zero _)
      · exact .of_active fun zero => last (beq_iff_eq.mpr zero)
  | resetsLast =>
      rw [advance]
      unfold resetLast
      dsimp only
      split_ifs with waiting
      · exact .of_active owner
      · intro some
        left
        exact fun zero => waiting ⟨Int.ne_of_gt some, zero⟩
  | releasesLast =>
      rw [advance, releaseSemaphore]
      split_ifs
      · exact served
      · exact served
  | releasesWriter =>
      rw [advance, releaseSemaphore]
      split_ifs
      · exact served
      · exact served
  | lockWrite =>
      apply served_enter served
      unfold lockWrite
      split_ifs with taken
      · exact .of_active taken
      · exact .of_active owner
  | inWaitToWrite =>
      rw [advance]
      split_ifs with released
      · exact served
      · exact served
  | writing =>
      apply served_enter served
      unfold unlockWrite
      split_ifs with waiting
      · apply Served.of_active
        intro zero
        have active := balanced.active
        change lock.activeWriterReaders = 0 at zero
        rw [zero] at active
        simp only [UInt32.toNat_zero, weigh_some, Point.writes] at active
        omega
      · intro some
        change 0 < lock.numWritersWaiting at some
        exact (waiting (Int.ne_of_gt some)).elim
  | leavesReading notifyReaders =>
      cases notifyReaders with
      | true => exact served
      | false => exact served
  | leavesUnlockWrite notifyWriter notifyReaders =>
      cases notifyWriter with
      | true => exact served
      | false =>
          cases notifyReaders with
          | true => exact served
          | false => exact served
  | _ => exact served

end Writers

section Readers

variable {lock : RwLock ι} {crowd : Crowd} {point : Point}

theorem alert_enter {body : RwLock ι → RwLock ι × Point}
    (alert : crowd.alert lock (some point))
    (kept : lock.cs = false → crowd.alert (body { lock with cs := true }).1
      (some (body { lock with cs := true }).2)) :
    crowd.alert (lock.enter point body).1 (lock.enter point body).2 := by
  unfold enter
  split_ifs with taken
  · exact alert
  · exact kept (Bool.eq_false_iff.mpr taken)

/-- A reader that finds the high word set, but not by readers, waits for a writer. -/
theorem owned_of_hiword {readers owned : Nat}
    (active : lock.activeWriterReaders.toNat = readers + 65536 * owned)
    (found : 65536 ≤ lock.activeWriterReaders.toNat)
    (few : readers < 65536 ∨ lock.numWritersWaiting ≠ 0) :
    owned ≠ 0 ∨ lock.numWritersWaiting ≠ 0 := by
  omega

theorem alert_lockRead (active : lock.activeWriterReaders.toNat =
      crowd.readers + 65536 * (crowd.writers + (lock.readyToWrite + crowd.hands)))
    (alert : crowd.alert lock (some .lockRead))
    (few : crowd.readers < 65536 ∨ lock.numWritersWaiting ≠ 0) :
    crowd.alert lock.lockRead.1 (some lock.lockRead.2) := by
  unfold lockRead
  split_ifs with blocked
  · refine { alert with going := fun _ => ?_ }
    rw [blocksReaders, Bool.or_eq_true, decide_eq_true_eq, decide_eq_true_eq, gt_iff_lt,
      gt_iff_lt, hiword_pos_iff] at blocked
    rcases blocked with waiting | owned
    · exact .inr (Int.ne_of_gt waiting)
    · have found := owned_of_hiword active owned few
      exact found
  · have more {signals extra : Nat} (some : signals + 0 ≠ 0) : signals + extra ≠ 0 := by omega
    exact
      { going := alert.going
        asleep := fun unowned none waiting => more (alert.asleep unowned none waiting)
        about := fun unowned none about => (alert.about unowned none about).imp id more }

theorem alert_wokenRead (active : lock.activeWriterReaders.toNat =
      crowd.readers + 65536 * (crowd.writers + (lock.readyToWrite + crowd.hands)))
    (alert : crowd.alert lock (some .inWaitToRead))
    (few : crowd.readers < 65536 ∨ lock.numWritersWaiting ≠ 0) :
    crowd.alert lock.wokenRead.1 (some lock.wokenRead.2) := by
  unfold wokenRead
  split_ifs with admitted
  · exact ⟨alert.going, alert.asleep, alert.about⟩
  · refine { alert with going := fun _ => ?_ }
    rw [admitsReader, Bool.and_eq_true, decide_eq_true_eq, beq_iff_eq, hiword_eq_zero_iff,
      not_and_or, Nat.not_lt] at admitted
    rcases admitted with waiting | owned
    · exact .inr waiting
    · have found := owned_of_hiword active owned few
      exact found

theorem alert_resetLast (alert : crowd.alert lock (some .resetsLast))
    (nobody : lock.numWritersWaiting ≠ 0 ∨ crowd.aboutToWait = 0 ∨ crowd.signals ≠ 0) :
    crowd.alert lock.resetLast.1 (some lock.resetLast.2) := by
  unfold resetLast
  dsimp only
  split_ifs with waiting
  · have owned {writers hands : Nat} :
        writers + 0 + (lock.readyToWrite + (hands + 1)) ≠ 0 := by omega
    exact
      { going := fun _ => .inl owned
        asleep := fun unowned => (owned unowned).elim
        about := fun unowned => (owned unowned).elim }
  · refine { alert with about := fun _ none about => .inr ?_ }
    rcases nobody with waitingWriters | nobody | signalled
    · exact (waitingWriters none).elim
    · exact (about nobody).elim
    · exact signalled

theorem alert_lockWrite (nonneg : 0 ≤ lock.numWritersWaiting) :
    crowd.alert lock.lockWrite.1 (some lock.lockWrite.2) := by
  unfold lockWrite
  split_ifs with taken
  · have waiting : lock.numWritersWaiting + 1 ≠ 0 := by omega
    exact
      { going := fun _ => .inr waiting
        asleep := fun _ none => (waiting none).elim
        about := fun _ none => (waiting none).elim }
  · have owned {writers hands : Nat} :
        writers + 1 + (lock.readyToWrite + hands) ≠ 0 := by omega
    exact
      { going := fun _ => .inl owned
        asleep := fun unowned => (owned unowned).elim
        about := fun unowned => (owned unowned).elim }

/-- A writer that leaves signals the readers that wait; nobody else is in the section. -/
theorem alert_unlockWrite (nobody : crowd.goesToWait = 0)
    (counted : lock.numReadersWaiting = 0 →
      crowd.aboutToWait = 0 ∧ lock.readyToRead.waiting = []) :
    crowd.alert lock.unlockWrite.1 (some lock.unlockWrite.2) := by
  unfold unlockWrite
  split_ifs with waiting
  · have owned {writers hands : Nat} :
        writers + 0 + (lock.readyToWrite + (hands + 1)) ≠ 0 := by omega
    exact
      { going := fun some => (some nobody).elim
        asleep := fun unowned => (owned unowned).elim
        about := fun unowned => (owned unowned).elim }
  · have signalled (some : lock.numReadersWaiting ≠ 0) :
        (lock.numReadersWaiting != 0).toNat = 1 := by
      rw [bne_iff_ne.mpr some, Bool.toNat_true]
    refine
      { going := fun some => (some nobody).elim
        asleep := fun _ _ waiting => ?_
        about := fun _ _ about => ?_ }
    · by_cases none : lock.numReadersWaiting = 0
      · exact (waiting (counted none).2).elim
      · simp only [weigh_some, Point.signals, Bool.not_false, Bool.true_and, signalled none]
        omega
    · by_cases none : lock.numReadersWaiting = 0
      · exact (about (counted none).1).elim
      · right
        simp only [weigh_some, Point.signals, Bool.not_false, Bool.true_and, signalled none]
        omega

/-- The ownership handed over moves from the thread that hands it to the semaphore. -/
theorem alert_release (balanced : Balanced lock crowd.toOthers (some point))
    (hands : point.hands = 1) {next : Option Point} (handed : weigh Point.hands next = 0)
    (writes : weigh Point.writes next = point.writes)
    (signals : weigh Point.signals next = point.signals)
    (going : weigh Point.goesToWait next = point.goesToWait)
    (about : weigh Point.aboutToWait next = point.aboutToWait)
    (alert : crowd.alert lock (some point)) : crowd.alert lock.releaseSemaphore next := by
  have single := balanced.single
  simp only [weigh_some, hands] at single
  rw [Crowd.alert, releaseSemaphore, if_pos (by omega), handed, writes, signals, going, about]
  rw [Crowd.alert, weigh_some, weigh_some, weigh_some, weigh_some, weigh_some, hands] at alert
  have same : crowd.writers + point.writes + (lock.readyToWrite + 1 + (crowd.hands + 0)) =
      crowd.writers + point.writes + (lock.readyToWrite + (crowd.hands + 1)) := by omega
  exact
    { going := by
        rw [same]
        exact alert.going
      asleep := by
        rw [same]
        exact alert.asleep
      about := by
        rw [same]
        exact alert.about }

/-- What is asked of a step of one thread, in front of the others. -/
def Crowd.losesNoWakeUp (crowd : Crowd) (lock : RwLock ι) : Point → Prop
  | .lockRead | .inWaitToRead => crowd.readers < 65536 ∨ lock.numWritersWaiting ≠ 0
  | .resetsLast =>
      lock.numWritersWaiting ≠ 0 ∨ crowd.aboutToWait = 0 ∨ crowd.signals ≠ 0
  | _ => True

/-- Every step that loses no wake-up keeps what waiting readers are owed. -/
theorem alert_advance [DecidableEq ι] (thread : ι)
    (balanced : Balanced lock crowd.toOthers (some point))
    (counted : point = .writing → lock.numReadersWaiting = 0 →
      crowd.aboutToWait = 0 ∧ lock.readyToRead.waiting = [])
    (good : crowd.losesNoWakeUp lock point) (alert : crowd.alert lock (some point)) :
    crowd.alert (lock.advance thread point).1 (lock.advance thread point).2 := by
  cases point with
  | lockRead =>
      apply alert_enter alert
      intro free
      exact alert_lockRead balanced.active ⟨alert.going, alert.asleep, alert.about⟩ good
  | resetsEvent =>
      have owned := alert.going (Nat.succ_ne_zero _)
      exact
        { alert with
          about := fun unowned none => owned.elim (absurd unowned) (absurd none) }
  | leavesToWait =>
      have owned := alert.going (Nat.succ_ne_zero _)
      exact
        { going := fun _ => owned
          asleep := alert.asleep
          about := fun unowned none => owned.elim (absurd unowned) (absurd none) }
  | waitsToRead =>
      have owed := fun unowned none => alert.about unowned none (Nat.succ_ne_zero _)
      rw [advance, Event.wait]
      cases signaled : lock.readyToRead.signaled with
      | true =>
          exact
            { going := alert.going
              asleep := alert.asleep
              about := fun _ _ _ => .inl signaled }
      | false =>
          rw [signaled] at owed
          have signal := fun unowned none => (owed unowned none).resolve_left Bool.false_ne_true
          exact
            { going := alert.going
              asleep := fun unowned none _ => signal unowned none
              about := fun unowned none _ => .inr (signal unowned none) }
  | inWaitToRead =>
      rw [advance]
      split_ifs with asleep
      · exact alert
      · apply alert_enter alert
        intro free
        exact alert_wokenRead balanced.active ⟨alert.going, alert.asleep, alert.about⟩ good
  | leavesReading notifyReaders =>
      cases notifyReaders with
      | true => exact ⟨alert.going, alert.asleep, alert.about⟩
      | false => exact ⟨alert.going, alert.asleep, alert.about⟩
  | notifiesReading =>
      exact
        { going := alert.going
          asleep := fun _ _ waiting => (waiting rfl).elim
          about := fun _ _ _ => .inl rfl }
  | reading =>
      apply alert_enter alert
      intro free
      unfold unlockRead
      split_ifs with last
      · exact ⟨alert.going, alert.asleep, alert.about⟩
      · exact ⟨alert.going, alert.asleep, alert.about⟩
  | resetsLast => exact alert_resetLast alert good
  | releasesLast => exact alert_release balanced rfl rfl rfl rfl rfl rfl alert
  | leavesUnlockRead => exact ⟨alert.going, alert.asleep, alert.about⟩
  | lockWrite =>
      apply alert_enter alert
      intro free
      exact alert_lockWrite balanced.nonneg
  | leavesToWaitWrite => exact ⟨alert.going, alert.asleep, alert.about⟩
  | inWaitToWrite =>
      rw [advance]
      split_ifs with released
      · have same {writers hands : Nat} : writers + 1 + (lock.readyToWrite - 1 + hands) =
            writers + 0 + (lock.readyToWrite + hands) := by omega
        rw [Crowd.alert, weigh_some, Point.writes, same]
        exact ⟨alert.going, alert.asleep, alert.about⟩
      · exact alert
  | leavesWriting => exact ⟨alert.going, alert.asleep, alert.about⟩
  | writing =>
      apply alert_enter alert
      intro free
      have nobody : crowd.goesToWait = 0 := by
        have inSection := balanced.cs
        have inside := crowd.inside
        rw [free, Bool.toNat_false] at inSection
        omega
      exact alert_unlockWrite nobody (counted rfl)
  | leavesUnlockWrite notifyWriter notifyReaders =>
      cases notifyWriter with
      | true => exact ⟨alert.going, alert.asleep, alert.about⟩
      | false =>
          cases notifyReaders with
          | true => exact ⟨alert.going, alert.asleep, alert.about⟩
          | false => exact ⟨alert.going, alert.asleep, alert.about⟩
  | releasesWriter => exact alert_release balanced rfl rfl rfl rfl rfl rfl alert
  | notifiesReaders =>
      exact
        { going := alert.going
          asleep := fun _ _ waiting => (waiting rfl).elim
          about := fun _ _ _ => .inl rfl }

end Readers

/-! ## Who sleeps -/

section Asleep

variable {lock : RwLock ι}

theorem waiting_enter {point : Point} {body : RwLock ι → RwLock ι × Point}
    (kept : ∀ lock : RwLock ι, (body lock).1.readyToRead.waiting = lock.readyToRead.waiting) :
    (lock.enter point body).1.readyToRead.waiting = lock.readyToRead.waiting := by
  unfold enter
  split_ifs
  · rfl
  · exact kept _

theorem waiting_releaseSemaphore :
    lock.releaseSemaphore.readyToRead.waiting = lock.readyToRead.waiting := by
  unfold releaseSemaphore
  split_ifs <;> rfl

/-- A step leaves the sleepers alone, or wakes all of them, or its thread falls asleep. -/
theorem waiting_advance [DecidableEq ι] (lock : RwLock ι) (thread : ι) (point : Point) :
    (lock.advance thread point).1.readyToRead.waiting = lock.readyToRead.waiting ∨
      (lock.advance thread point).1.readyToRead.waiting = [] ∨
      (lock.advance thread point).2 = some .inWaitToRead ∧
        ∀ other ∈ (lock.advance thread point).1.readyToRead.waiting,
          other = thread ∨ other ∈ lock.readyToRead.waiting := by
  cases point with
  | lockRead =>
      left
      apply waiting_enter
      intro lock
      unfold lockRead
      split_ifs <;> rfl
  | waitsToRead =>
      right; right
      refine ⟨rfl, fun other member => ?_⟩
      rw [advance, Event.wait] at member
      split_ifs at member with signaled
      · exact .inr member
      · exact (List.mem_append.mp member).symm.imp List.mem_singleton.mp id
  | inWaitToRead =>
      left
      rw [advance]
      split_ifs with asleep
      · rfl
      · apply waiting_enter
        intro lock
        unfold wokenRead
        split_ifs <;> rfl
  | notifiesReading => exact .inr (.inl rfl)
  | notifiesReaders => exact .inr (.inl rfl)
  | reading =>
      left
      apply waiting_enter
      intro lock
      rfl
  | resetsLast =>
      left
      rw [advance]
      unfold resetLast
      dsimp only
      split_ifs <;> rfl
  | releasesLast => exact .inl waiting_releaseSemaphore
  | releasesWriter => exact .inl waiting_releaseSemaphore
  | lockWrite =>
      left
      apply waiting_enter
      intro lock
      unfold lockWrite
      split_ifs <;> rfl
  | inWaitToWrite =>
      left
      rw [advance]
      split_ifs <;> rfl
  | writing =>
      left
      apply waiting_enter
      intro lock
      unfold unlockWrite
      split_ifs <;> rfl
  | _ => exact .inl rfl

variable [DecidableEq ι] {threads : Threads ι}

/-- Whoever sleeps on the event stands in the wait for it. -/
def Sleepers (threads : Threads ι) : Prop :=
  ∀ thread ∈ threads.shared.readyToRead.waiting, threads.running thread = some .inWaitToRead

theorem Sleepers.advance (sleepers : Sleepers threads) {thread : ι} {point : Point}
    (running : threads.running thread = some point) :
    Sleepers (threads.move thread (threads.shared.advance thread point)) := by
  have others {other : ι} (different : other ≠ thread)
      (asleep : other ∈ threads.shared.readyToRead.waiting) :
      (threads.move thread (threads.shared.advance thread point)).running other =
        some .inWaitToRead := by
    rw [Threads.move_running_of_ne _ _ different]
    exact sleepers other asleep
  intro other member
  rcases waiting_advance threads.shared thread point with same | none | ⟨waits, only⟩
  · have asleep : other ∈ threads.shared.readyToRead.waiting := same ▸ member
    by_cases self : other = thread
    · subst self
      have inWait := sleepers other asleep
      rw [running, Option.some.injEq] at inWait
      subst inWait
      rw [Threads.move_running_self, RwLock.advance, if_pos asleep]
    · exact others self asleep
  · have nobody : other ∈ ([] : List ι) := none ▸ member
    exact (List.not_mem_nil nobody).elim
  · by_cases self : other = thread
    · subst self
      rw [Threads.move_running_self, waits]
    · exact others self ((only other member).resolve_left self)

theorem Sleepers.call (sleepers : Sleepers threads) {thread : ι}
    (idle : threads.running thread = none) (next : Option Point) :
    Sleepers (threads.move thread (threads.shared, next)) := by
  intro other asleep
  have standing := sleepers other asleep
  have different : other ≠ thread := by
    intro same
    rw [same, idle] at standing
    cases standing
  rw [Threads.move_running_of_ne _ _ different]
  exact standing

end Asleep

/-! ## Over any interleaving -/

section Runs

variable [Fintype ι]

/-- The crowd besides one thread, which stands at a point or is gone. -/
structure Crowd.Counts (crowd : Crowd) (threads : Threads ι) (point : Option Point) : Prop where
  inSection : threads.tally Point.inSection = crowd.inSection + weigh Point.inSection point
  readers : threads.tally Point.reads = crowd.readers + weigh Point.reads point
  writers : threads.tally Point.writes = crowd.writers + weigh Point.writes point
  hands : threads.tally Point.hands = crowd.hands + weigh Point.hands point
  waitsReading :
    threads.tally Point.waitsReading = crowd.waitsReading + weigh Point.waitsReading point
  waitsWriting :
    threads.tally Point.waitsWriting = crowd.waitsWriting + weigh Point.waitsWriting point
  signals : threads.tally Point.signals = crowd.signals + weigh Point.signals point
  goesToWait : threads.tally Point.goesToWait = crowd.goesToWait + weigh Point.goesToWait point
  aboutToWait :
    threads.tally Point.aboutToWait = crowd.aboutToWait + weigh Point.aboutToWait point
  lastToLeave :
    threads.tally Point.lastToLeave = crowd.lastToLeave + weigh Point.lastToLeave point

/-- What readers that wait are owed, over all threads. -/
def AllAlert (threads : Threads ι) : Prop :=
  Alert threads.shared (writers threads + handedOver threads) (threads.tally Point.signals)
    (threads.tally Point.goesToWait) (threads.tally Point.aboutToWait)

section Counts

variable {crowd : Crowd} {threads : Threads ι} {point : Option Point}

theorem Crowd.Counts.sound_iff (counts : crowd.Counts threads point) :
    Sound threads ↔ Balanced threads.shared crowd.toOthers point := by
  rw [Sound, RwLock.readers, RwLock.writers, Balanced, counts.inSection, counts.readers,
    counts.writers, counts.hands, counts.waitsReading, counts.waitsWriting]

theorem Crowd.Counts.alert_iff (counts : crowd.Counts threads point) :
    AllAlert threads ↔ crowd.alert threads.shared point := by
  rw [AllAlert, RwLock.writers, handedOver, Crowd.alert, counts.writers, counts.hands,
    counts.signals, counts.goesToWait, counts.aboutToWait]

theorem Crowd.Counts.served_iff (counts : crowd.Counts threads point) :
    Served threads.shared (threads.tally Point.lastToLeave) ↔
      crowd.served threads.shared point := by
  rw [Crowd.served, counts.lastToLeave]

end Counts

/-- The crowd besides a thread is the same wherever that thread goes. -/
theorem exists_crowd [DecidableEq ι] (threads : Threads ι) (thread : ι) :
    ∃ crowd : Crowd, crowd.Counts threads (threads.running thread) ∧
      ∀ result, crowd.Counts (threads.move thread result) result.2 := by
  obtain ⟨inSection, before1, after1⟩ := threads.exists_rest Point.inSection thread
  obtain ⟨readers, before2, after2⟩ := threads.exists_rest Point.reads thread
  obtain ⟨writers, before3, after3⟩ := threads.exists_rest Point.writes thread
  obtain ⟨hands, before4, after4⟩ := threads.exists_rest Point.hands thread
  obtain ⟨waitsReading, before5, after5⟩ := threads.exists_rest Point.waitsReading thread
  obtain ⟨waitsWriting, before6, after6⟩ := threads.exists_rest Point.waitsWriting thread
  obtain ⟨signals, before7, after7⟩ := threads.exists_rest Point.signals thread
  obtain ⟨goesToWait, before8, after8⟩ := threads.exists_rest Point.goesToWait thread
  obtain ⟨aboutToWait, before9, after9⟩ := threads.exists_rest Point.aboutToWait thread
  obtain ⟨lastToLeave, before10, after10⟩ := threads.exists_rest Point.lastToLeave thread
  have inside : goesToWait ≤ inSection := by
    have weaker (point : Point) : point.goesToWait ≤ point.inSection := by
      cases point with
      | resetsEvent => exact Nat.le_refl 1
      | leavesToWait => exact Nat.le_refl 1
      | _ => exact Nat.zero_le _
    have le := Threads.tally_le_tally weaker (threads.move thread (threads.shared, none))
    rw [after8, after1] at le
    exact le
  let others : Others := ⟨inSection, readers, writers, hands, waitsReading, waitsWriting⟩
  exact ⟨⟨others, signals, goesToWait, aboutToWait, lastToLeave, inside⟩,
    ⟨before1, before2, before3, before4, before5, before6, before7, before8, before9, before10⟩,
    fun result => ⟨after1 result, after2 result, after3 result, after4 result, after5 result,
      after6 result, after7 result, after8 result, after9 result, after10 result⟩⟩

/-- What holds of a lock whatever its threads do. -/
structure Kept (threads : Threads ι) : Prop where
  sound : Sound threads
  served : Served threads.shared (threads.tally Point.lastToLeave)
  sleepers : Sleepers threads

variable {threads : Threads ι}

theorem Kept.step [DecidableEq ι] (kept : Kept threads) (choice : Choice ι) :
    Kept (program.step threads choice) := by
  refine ⟨kept.sound.step choice, ?_, ?_⟩
  all_goals
    rcases program.step_cases threads choice with
      ⟨unchanged, _⟩ | ⟨thread, use, rfl, idle⟩ | ⟨thread, input, point, rfl, running⟩
  · rw [unchanged]
    exact kept.served
  · rw [Program.step_call idle]
    obtain ⟨crowd, before, after⟩ := exists_crowd threads thread
    have served := before.served_iff.mp kept.served
    rw [idle] at served
    rw [(after _).served_iff]
    cases use with
    | read => exact served
    | write => exact served
  · rw [Program.step_advance running]
    obtain ⟨crowd, before, after⟩ := exists_crowd threads thread
    have served := before.served_iff.mp kept.served
    have balanced := before.sound_iff.mp kept.sound
    rw [running] at served balanced
    exact (after _).served_iff.mpr (served_advance thread balanced served)
  · rw [unchanged]
    exact kept.sleepers
  · rw [Program.step_call idle]
    exact kept.sleepers.call idle _
  · rw [Program.step_advance running]
    exact kept.sleepers.advance running

/-- Where no reader is counted as waiting, none is about to wait and none sleeps. -/
theorem Kept.nobody_waits (kept : Kept threads) (none : threads.shared.numReadersWaiting = 0) :
    threads.tally Point.aboutToWait = 0 ∧ threads.shared.readyToRead.waiting = [] := by
  have waiting := kept.sound.waitingReaders
  rw [none] at waiting
  constructor
  · have weaker (point : Point) : point.aboutToWait ≤ point.waitsReading := by
      cases point with
      | waitsToRead => exact Nat.le_refl 1
      | _ => exact Nat.zero_le _
    have le := Threads.tally_le_tally weaker threads
    omega
  · apply List.eq_nil_iff_forall_not_mem.mpr
    intro thread asleep
    have heavy := Threads.weight_le_tally Point.waitsReading
      (kept.sleepers thread asleep)
    rw [Point.waitsReading] at heavy
    omega

/-- A step that loses no wake-up keeps what readers are owed. -/
theorem alert_step [DecidableEq ι] (kept : Kept threads) (alert : AllAlert threads) {choice : Choice ι}
    (good : LosesNoWakeUp threads choice) : AllAlert (program.step threads choice) := by
  rcases program.step_cases threads choice with
    ⟨unchanged, _⟩ | ⟨thread, use, rfl, idle⟩ | ⟨thread, input, point, rfl, running⟩
  · rw [unchanged]
    exact alert
  · rw [Program.step_call idle]
    obtain ⟨crowd, before, after⟩ := exists_crowd threads thread
    have watched := before.alert_iff.mp alert
    rw [idle] at watched
    rw [(after _).alert_iff]
    cases use with
    | read => exact watched
    | write => exact watched
  · rw [Program.step_advance running]
    obtain ⟨crowd, before, after⟩ := exists_crowd threads thread
    have watched := before.alert_iff.mp alert
    have balanced := before.sound_iff.mp kept.sound
    rw [running] at watched balanced before
    have asked : crowd.losesNoWakeUp threads.shared point := by
      rw [LosesNoWakeUp, readers, before.readers, before.aboutToWait, before.signals,
        running] at good
      cases point <;> exact good
    apply (after _).alert_iff.mpr
    refine alert_advance thread balanced (fun _ none => ?_) asked watched
    obtain ⟨about, asleep⟩ := kept.nobody_waits none
    rw [before.aboutToWait] at about
    exact ⟨Nat.le_zero.mp (about ▸ Nat.le_add_right _ _), asleep⟩

/-! ## At rest -/

theorem kept_start : Kept (start : Threads ι) :=
  ⟨sound_start, fun waiting => absurd waiting (lt_irrefl 0), nofun⟩

theorem alert_start : AllAlert (start : Threads ι) := by
  rw [AllAlert]
  simp only [start, Threads.tally_idle]
  exact ⟨fun waiting => (waiting rfl).elim, fun _ _ waiting => (waiting rfl).elim,
    fun _ _ waiting => (waiting rfl).elim⟩

/-- At rest nobody owns the lock, and so no writer waits for it. -/
theorem AtRest.no_writer_waits (rest : AtRest threads) (kept : Kept threads) :
    threads.shared.numWritersWaiting = 0 := by
  have ⟨_, active, _, _, _, nonneg, _, _⟩ := kept.sound
  have free : threads.shared.activeWriterReaders = 0 := by
    have owned := rest.handedOver
    rw [RwLock.handedOver] at owned
    rw [rest.readers, rest.writers, owned] at active
    exact UInt32.toNat_inj.mp active
  by_contra waiting
  rcases kept.served (by omega) with owned | last
  · exact owned free
  · obtain ⟨thread, point, running, heavy⟩ := Threads.exists_of_tally last
    have blocked := rest.blocked thread point running
    cases point <;> first | exact blocked | exact heavy rfl

theorem AtRest.writer_not_blocked (rest : AtRest threads) (kept : Kept threads) (thread : ι) :
    threads.running thread ≠ some .inWaitToWrite := by
  intro running
  have none := rest.no_writer_waits kept
  have owned := rest.handedOver
  rw [RwLock.handedOver] at owned
  have waiting := kept.sound.waitingWriters
  have heavy := Threads.weight_le_tally Point.waitsWriting running
  rw [Point.waitsWriting] at heavy
  omega

/-- A lock that owes its readers nothing strands nobody. -/
theorem not_stranded (kept : Kept threads) (alert : AllAlert threads) : ¬ Stranded threads := by
  rintro ⟨rest, thread, point, running⟩
  have blocked := rest.blocked thread point running
  have unowned : writers threads + handedOver threads = 0 := by
    rw [rest.writers, rest.handedOver]
  cases point with
  | inWaitToWrite => exact rest.writer_not_blocked kept thread running
  | inWaitToRead =>
      have signalled := alert.asleep unowned (rest.no_writer_waits kept)
        (List.ne_nil_of_mem blocked)
      obtain ⟨other, there, stands, heavy⟩ := Threads.exists_of_tally signalled
      have waits := rest.blocked other there stands
      cases there <;> first | exact waits | exact heavy rfl
  | _ => exact blocked

/-- **Nobody is stranded.** No writer ever waits for a lock at rest; and in every interleaving
whose steps lose no wake-up, no thread at all is left waiting for a lock that nobody holds. -/
theorem strands_nobody [DecidableEq ι] (choices : List (Choice ι)) :
    (∀ thread, AtRest (Run.final program.step (start : Threads ι) choices) →
      (Run.final program.step (start : Threads ι) choices).running thread ≠
        some .inWaitToWrite) ∧
    (Run.Steps program.step LosesNoWakeUp (start : Threads ι) choices →
      Run.Always program.step (fun threads => ¬ Stranded threads) (fun _ _ => True)
        (start : Threads ι) choices) := by
  constructor
  · intro thread rest
    have kept := Run.final_of_kept (Kept (ι := ι)) (fun _ choice kept => kept.step choice)
      kept_start choices
    exact rest.writer_not_blocked kept thread
  · apply Run.always_of_steps fun threads => Kept threads ∧ AllAlert threads
    · intro threads ⟨kept, alert⟩
      exact not_stranded kept alert
    · intro threads choice ⟨kept, alert⟩ good
      exact ⟨trivial, kept.step choice, alert_step kept alert good⟩
    · exact ⟨kept_start, alert_start⟩

end Runs

/-! ## A missed signal -/

/-- Thread 0 writes. Thread 1 is counted as a waiting reader and has left the section when
thread 0 leaves and sets the event. -/
def readerWaitsWhileWriting : List (Choice (Fin 3)) :=
  [.call 0 .write, .advance 0 (), .advance 0 (), .call 1 .read, .advance 1 (), .advance 1 (),
    .advance 1 (), .advance 0 (), .advance 0 (), .advance 0 ()]

/-- Thread 2 reads and is the last reader to leave. -/
def otherReads : List (Choice (Fin 3)) :=
  .call 2 .read :: List.replicate 6 (.advance 2 ())

/-- A reader that waits before another comes and goes is woken. -/
theorem strands_nobody_woken :
    Run.Steps program.step LosesNoWakeUp start
        (readerWaitsWhileWriting ++ .advance 1 () :: otherReads) ∧
      ¬ Stranded (Run.final program.step start
        (readerWaitsWhileWriting ++ .advance 1 () :: otherReads)) := by
  have good : Run.Steps program.step LosesNoWakeUp start
      (readerWaitsWhileWriting ++ .advance 1 () :: otherReads) := by decide
  have always := (strands_nobody (readerWaitsWhileWriting ++ .advance 1 () :: otherReads)).2 good
  exact ⟨good, always.final⟩

/-- A reader that waits after another has come and gone sleeps for ever. -/
theorem reader_stranded :
    Stranded (Run.final program.step start
      (readerWaitsWhileWriting ++ otherReads ++ [.advance 1 ()])) := by
  refine ⟨⟨by decide, by decide, by decide, ?_⟩, 1, .inWaitToRead, by decide⟩
  intro thread point running
  match thread with
  | 0 => exact absurd running (by decide +revert)
  | 1 =>
      obtain rfl : point = .inWaitToRead := by
        apply Option.some.inj
        rw [← running]
        decide
      decide
  | 2 => exact absurd running (by decide +revert)

end Cube.Base.RwLock
