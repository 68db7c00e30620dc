import Cube.Eco.Persist.Persist
import Cube.Eco.Persist.TransactionUnwinding

/-! # Upgrades and their record

The version row of an upgrade is kept in the transaction of its function, so a row stands for
the whole of its effects, and the next tick goes on where the last one was stopped. This fails
where an upgrade function goes on after it has abandoned a nested scope: the version row is then
written outside of the transaction that was taken back.
-/

namespace Cube.Eco.Persist

variable {S M : Type}

/-- What an upgrade keeps: all that its function executed, and the version row. -/
def upgradeKept (run : Nat × List S) : List (Stored S) :=
  run.2.map (.effect run.1) ++ [.row run.1]

/-- What is sent for an upgrade whose function returns and is committed. -/
def upgradeSent (run : Nat × List S) : List (Sql (Stored S)) :=
  .begin :: (upgradeKept run).map .statement ++ [.commit]

/-- The calls of upgrade functions that are behind what is kept: each with its version and with
all that it executed. -/
structure RecordedBy (registered stored : List Nat) (impl : Impl S M)
    (runs : List (Nat × List S)) : Prop where
  kept : effects impl.master.db.kept =
    runs.flatMap fun run => run.2.map fun sql => (run.1, sql)
  whole : ∀ run ∈ runs, upgradeSent run <:+: impl.master.db.sent
  ascending : (runs.map Prod.fst).Pairwise (· < ·)
  above : ∀ version ∈ runs.map Prod.fst, version ∈ registered ∧ highest stored < version
  recorded : rows impl.master.db.kept = stored ++ runs.map Prod.fst
  complete : ∀ version ∈ registered, highest stored < version →
    version ≤ highest (rows impl.master.db.kept) → version ∈ runs.map Prod.fst

/-- The upgrades that are kept ran once, in order, and are recorded exactly when their effects
are kept. -/
def Recorded (registered stored : List Nat) (impl : Impl S M) : Prop :=
  ∃ runs, RecordedBy registered stored impl runs

/-- No upgrade function goes on after a nested scope that it has abandoned. -/
def LiveEvent.Settled : LiveEvent S M → Prop
  | .onLive _ _ => True
  | .turn attempt => attempt.func.Settled ∧ attempt.func.depth + 1 < 2 ^ 32

/-! ## What is kept -/

theorem rows_append (first second : List (Stored S)) :
    rows (first ++ second) = rows first ++ rows second := List.filterMap_append

theorem rows_stored (stored : List Nat) : rows (stored.map (.row : Nat → Stored S)) = stored := by
  rw [rows, List.filterMap_map]
  exact List.filterMap_some

theorem rows_upgradeKept (run : Nat × List S) : rows (upgradeKept run) = [run.1] := by
  have none : rows (run.2.map (.effect run.1)) = [] := by
    rw [rows, List.filterMap_map, List.filterMap_eq_nil_iff]
    exact fun _ _ => rfl
  rw [upgradeKept, rows_append, none]
  rfl

theorem rows_runs (runs : List (Nat × List S)) :
    rows (runs.flatMap upgradeKept) = runs.map Prod.fst := by
  induction runs with
  | nil => rfl
  | cons run runs ih =>
      rw [List.flatMap_cons, rows_append, rows_upgradeKept, ih]
      rfl

theorem readVersion_value (timestamp : Timestamp) (kept : List (Stored S)) :
    (readVersion timestamp kept).value = highest (rows kept) := by
  unfold readVersion
  by_cases none : rows kept = []
  · rw [if_pos none, none]
    rfl
  · rw [if_neg none]

/-! ## The code of an upgrade function -/

section Lift

variable {S' : Type} (f : S → S')

theorem throws_lift (block : Block S M) : (block.lift f).throws = block.throws := by
  induction block with
  | skip => rfl
  | assign change => rfl
  | execute sql fails => rfl
  | throw => rfl
  | seq first second former latter => rw [Block.lift, Block.throws, former, latter, Block.throws]
  | attempt body ih => rfl
  | scope failing body commits ih => exact ih

theorem depth_lift (block : Block S M) : (block.lift f).depth = block.depth := by
  induction block with
  | skip => rfl
  | assign change => rfl
  | execute sql fails => rfl
  | throw => rfl
  | seq first second former latter =>
      rw [Block.lift, Block.depth, former, latter, throws_lift, Block.depth]
  | attempt body ih => exact ih
  | scope failing body commits ih => exact congrArg (· + 1) ih

theorem committing_lift {block : Block S M} (committing : block.Committing) :
    (block.lift f).Committing := by
  induction block with
  | skip => trivial
  | assign change => trivial
  | execute sql fails => trivial
  | throw => trivial
  | seq first second former latter =>
      refine ⟨former committing.1, fun returns => latter (committing.2 ?_)⟩
      rw [← throws_lift f first]
      exact returns
  | attempt body ih => exact ih committing
  | scope failing body commits ih =>
      exact ⟨ih committing.1, (throws_lift f body).trans committing.2.1, committing.2.2⟩

theorem settled_lift {block : Block S M} (settled : block.Settled) :
    (block.lift f).Settled := by
  induction block with
  | skip => trivial
  | assign change => trivial
  | execute sql fails => trivial
  | throw => trivial
  | seq first second former latter =>
      refine ⟨former settled.1, fun returns => latter (settled.2 ?_)⟩
      rw [← throws_lift f first]
      exact returns
  | attempt body ih => exact committing_lift f settled
  | scope failing body commits ih =>
      exact ⟨ih settled.1, settled.2.imp_left (throws_lift f body).trans⟩

theorem executed_lift (block : Block S M) : (block.lift f).executed = block.executed.map f := by
  induction block with
  | skip => rfl
  | assign change => rfl
  | execute sql fails => cases fails <;> rfl
  | throw => rfl
  | seq first second former latter =>
      rw [Block.lift, Block.executed, former, latter, throws_lift, Block.executed, List.map_append,
        apply_ite (List.map f)]
      rfl
  | attempt body ih => exact ih
  | scope failing body commits ih => exact ih

end Lift

/-! ## One upgrade -/

/-- The code in the transaction of an upgrade. -/
def upgradeBlock (v : Nat) (attempt : Attempt S M) : Block (Stored S) M :=
  .seq (attempt.func.lift (.effect v)) (.execute (.row v) attempt.saveFails)

theorem upgrade_eq (engine : Engine) (v : Nat) (attempt : Attempt S M)
    (session : Session (Stored S) M) : upgrade engine (.ofValue v) attempt session =
      Transaction.scope engine { Failing.none with commit := attempt.commitFails }
        ((upgradeBlock v attempt).run engine) true session := rfl

theorem settled_upgradeBlock (v : Nat) {attempt : Attempt S M} (settled : attempt.func.Settled) :
    (upgradeBlock v attempt).Settled :=
  ⟨settled_lift _ settled, fun _ => trivial⟩

theorem depth_upgradeBlock (v : Nat) (attempt : Attempt S M) :
    (upgradeBlock v attempt).depth = attempt.func.depth := by
  rw [upgradeBlock, Block.depth, depth_lift]
  exact Nat.max_eq_left (by rw [Block.depth, ite_self]; exact Nat.zero_le _)

theorem executed_upgradeBlock {v : Nat} {attempt : Attempt S M}
    (returns : (upgradeBlock v attempt).throws = false) :
    (upgradeBlock v attempt).executed = upgradeKept (v, attempt.func.executed) := by
  obtain ⟨funcReturns, saves⟩ := Bool.or_eq_false_iff.mp returns
  have works : attempt.saveFails = false := saves
  rw [upgradeBlock, Block.executed, executed_lift, funcReturns, Block.executed, works]
  rfl

/-- What has become of the session of an upgrade that threw. -/
structure TakenBack (before after : Session S M) : Prop where
  idle : Idle after
  kept : after.db.kept = before.db.kept
  sent : before.db.sent <+: after.db.sent

theorem takenBack_destruct (engine : Engine) {failing : Failing}
    (works : failing.rollback = false) {session inner : Session S M} (idle : Idle session)
    (left : Left session.entered inner) :
    TakenBack session (Transaction.destruct engine failing inner) where
  idle := destruct_idle engine works left
  kept := by
    rw [(destruct_left engine failing left).kept]
    change session.db.kept ++ session.db.pending = session.db.kept
    rw [idle.pending, List.append_nil]
  sent := List.IsPrefix.trans (List.prefix_append _ _) (destruct_left engine failing left).sent

/-- The code in the transaction is executed to its end, or it leaves the transaction. -/
theorem upgradeBlock_cases (engine : Engine) (v : Nat) {attempt : Attempt S M}
    (settled : attempt.func.Settled) (shallow : attempt.func.depth + 1 < 2 ^ 32)
    {session : Session (Stored S) M} (level : session.level = 1)
    (opened : session.db.opened = true) :
    (∃ inner, (upgradeBlock v attempt).run engine session = .returned inner ∧
        Inside session inner ∧
        inner.db.pending = session.db.pending ++ upgradeKept (v, attempt.func.executed)) ∨
      ∃ inner, (upgradeBlock v attempt).run engine session = .thrown inner ∧
        Left session inner := by
  have blockSettled := settled_upgradeBlock v settled
  have room : Room session (upgradeBlock v attempt) := by
    refine ⟨?_, ?_, opened⟩
    · rw [level]
      exact Nat.one_pos
    · rw [level, depth_upgradeBlock, Nat.add_comm]
      exact shallow
  cases throws : (upgradeBlock v attempt).throws with
  | true => exact .inr (Block.run_left engine blockSettled throws room)
  | false =>
      have committing := blockSettled.committing throws
      obtain ⟨threw, inside⟩ := Block.run_inside engine _ committing room
      have pending := Block.run_pending engine committing room
      rw [executed_upgradeBlock throws] at pending
      exact .inl ⟨_, Ending.eq_returned (threw.trans throws), inside, pending⟩

/-- An upgrade is committed with its version row, or nothing of it is kept. -/
theorem upgrade_cases (engine : Engine) (v : Nat) {attempt : Attempt S M}
    (settled : attempt.func.Settled) (shallow : attempt.func.depth + 1 < 2 ^ 32)
    {session : Session (Stored S) M} (idle : Idle session) :
    (∃ after, upgrade engine (.ofValue v) attempt session = .returned after ∧ Idle after ∧
        after.db.kept = session.db.kept ++ upgradeKept (v, attempt.func.executed) ∧
        after.db.sent = session.db.sent ++ upgradeSent (v, attempt.func.executed)) ∨
      ∃ after, upgrade engine (.ofValue v) attempt session = .thrown after ∧
        TakenBack session after := by
  have rollback : ({ Failing.none with commit := attempt.commitFails } : Failing).rollback =
      false := rfl
  rw [upgrade_eq]
  rcases upgradeBlock_cases engine v settled shallow
      (rfl : session.entered.level = 1) rfl with
    ⟨inner, returned, inside, pending⟩ | ⟨inner, thrown, left⟩
  · rw [scope_outermost engine idle.level idle.opened rfl
      (fun after ended => by
        rw [returned] at ended
        cases ended
        exact ⟨inside.level, inside.opened⟩), returned, Transaction.finish]
    cases commits : attempt.commitFails with
    | true => exact .inr ⟨_, rfl, takenBack_destruct engine rfl idle (inside.left rfl)⟩
    | false =>
        refine .inl ⟨_, rfl, ⟨rfl, rfl, rfl⟩, ?_, ?_⟩
        · have kept : inner.db.kept = session.db.kept ++ session.db.pending := inside.kept
          change inner.db.kept ++ inner.db.pending = _
          rw [kept, idle.pending, List.append_nil]
          exact congrArg (session.db.kept ++ ·) pending
        · obtain ⟨done, sent, pendingDone⟩ := inside.done
          have same : done = upgradeKept (v, attempt.func.executed) :=
            List.append_cancel_left (pendingDone.symm.trans pending)
          have begun : inner.db.sent = session.db.sent ++ [.begin] ++ done.map .statement := sent
          change inner.db.sent ++ [.commit] = _
          rw [begun, same, upgradeSent]
          simp only [List.append_assoc, List.cons_append, List.nil_append]
  · rw [scope_outermost engine idle.level idle.opened rfl
      (fun after ended => by rw [thrown] at ended; cases ended), thrown]
    exact .inr ⟨_, rfl, takenBack_destruct engine rollback idle left⟩

/-! ## Runs of the loop -/

/-- The upgrades ran so far in the order of what is due, and the loop goes on behind them. -/
structure Upgrading (upgradeSeq stored : List Nat) (impl : Impl S M)
    (runs : List (Nat × List S)) : Prop where
  idle : Idle impl.master
  kept : impl.master.db.kept = stored.map .row ++ runs.flatMap upgradeKept
  whole : ∀ run ∈ runs, upgradeSent run <:+: impl.master.db.sent
  due : runs.map Prod.fst <+: upgradeSeq.filter (highest stored < ·)
  loop : ∀ version rest, impl.loop = some (version, rest) →
    version.value = highest (stored ++ runs.map Prod.fst) ∧ rest.Pairwise (· < ·) ∧
      upgradeSeq.filter (highest stored < ·) =
        runs.map Prod.fst ++ rest.filter (version.value < ·)

namespace Upgrading

variable {upgradeSeq registered stored : List Nat} {impl : Impl S M}
  {runs : List (Nat × List S)}

theorem rows_kept (upgrading : Upgrading upgradeSeq stored impl runs) :
    rows impl.master.db.kept = stored ++ runs.map Prod.fst := by
  rw [upgrading.kept, rows_append, rows_stored, rows_runs]

theorem onLive (upgrading : Upgrading upgradeSeq stored impl runs)
    (ascending : upgradeSeq.Pairwise (· < ·)) (reads : Bool) (timestamp : Timestamp) :
    Upgrading upgradeSeq stored (impl.onLive upgradeSeq reads timestamp) runs := by
  unfold Impl.onLive
  split
  next => exact upgrading
  next =>
    refine ⟨upgrading.idle, upgrading.kept, upgrading.whole, upgrading.due, ?_⟩
    intro version rest entered
    cases entered
    obtain ⟨left, split⟩ := upgrading.due
    have value : (readVersion timestamp (impl.master.db.kept ++ impl.master.db.pending)).value =
        highest (stored ++ runs.map Prod.fst) := by
      rw [upgrading.idle.pending, List.append_nil, readVersion_value, upgrading.rows_kept]
    refine ⟨value, ascending, ?_⟩
    rw [value, filter_highest split.symm (by rw [split]; exact ascending.filter _)]
    exact split.symm

/-- An upgrade of the loop was taken back: what ran before stays. -/
theorem takenBack (upgrading : Upgrading upgradeSeq stored impl runs)
    {master : Session (Stored S) M} (taken : TakenBack impl.master master) :
    Upgrading upgradeSeq stored { impl with master := master, loop := none } runs where
  idle := taken.idle
  kept := taken.kept.trans upgrading.kept
  whole := fun run member => (upgrading.whole run member).trans taken.sent.isInfix
  due := upgrading.due
  loop := nofun

/-- An upgrade of the loop was committed. -/
theorem committed (upgrading : Upgrading upgradeSeq stored impl runs) {version : Version}
    {it : Nat} {rest : List Nat} (at_loop : impl.loop = some (version, it :: rest))
    (newer : version.value < it) {executed : List S} {master : Session (Stored S) M}
    (idle : Idle master)
    (kept : master.db.kept = impl.master.db.kept ++ upgradeKept (it, executed))
    (sent : master.db.sent = impl.master.db.sent ++ upgradeSent (it, executed)) :
    Upgrading upgradeSeq stored
      { impl with master := master, loop := some ((Version.ofValue it).saved, rest) }
      (runs ++ [(it, executed)]) := by
  obtain ⟨value, ascending, left⟩ := upgrading.loop version (it :: rest) at_loop
  obtain ⟨above, restAscending⟩ := List.pairwise_cons.mp ascending
  have ran : (runs ++ [(it, executed)]).map Prod.fst = runs.map Prod.fst ++ [it] := List.map_append
  have due : upgradeSeq.filter (highest stored < ·) = runs.map Prod.fst ++ [it] ++ rest := by
    have all : (it :: rest).filter (version.value < ·) = it :: rest := by
      refine List.filter_eq_self.mpr fun each member => decide_eq_true ?_
      rcases List.mem_cons.mp member with rfl | later
      · exact newer
      · exact newer.trans (above each later)
    rw [left, all, List.append_assoc]
    rfl
  refine ⟨idle, ?_, ?_, ?_, ?_⟩
  · change master.db.kept = _
    rw [kept, upgrading.kept, List.flatMap_append, List.flatMap_singleton, List.append_assoc]
  · change ∀ run ∈ runs ++ [(it, executed)], upgradeSent run <:+: master.db.sent
    rw [sent]
    intro run member
    rcases List.mem_append.mp member with earlier | last
    · exact (upgrading.whole run earlier).trans (List.prefix_append _ _).isInfix
    · rw [List.mem_singleton.mp last]
      exact (List.suffix_append _ _).isInfix
  · rw [ran, due]
    exact List.prefix_append _ _
  · intro next remaining entered
    cases entered
    have rises : it = highest (stored ++ (runs.map Prod.fst ++ [it])) := by
      rw [← List.append_assoc, highest_append, ← value, highest_singleton]
      exact (Nat.max_eq_right newer.le).symm
    have all : rest.filter ((Version.ofValue it).saved.value < ·) = rest :=
      List.filter_eq_self.mpr fun each member => decide_eq_true (above each member)
    rw [ran, all]
    exact ⟨rises, restAscending, due⟩

/-- A turn of the loop, by what becomes of its upgrade. -/
theorem turn (engine : Engine) (upgrading : Upgrading upgradeSeq stored impl runs)
    {attempt : Attempt S M} (settled : attempt.func.Settled)
    (shallow : attempt.func.depth + 1 < 2 ^ 32) :
    ∃ runs, Upgrading upgradeSeq stored (impl.turn engine attempt) runs := by
  unfold Impl.turn
  cases at_loop : impl.loop with
  | none => exact ⟨runs, upgrading⟩
  | some loop =>
      obtain ⟨version, rest⟩ := loop
      cases rest with
      | nil =>
          exact ⟨runs, upgrading.idle, upgrading.kept, upgrading.whole, upgrading.due, nofun⟩
      | cons it rest =>
          by_cases newer : it > version.value
          · simp only [if_pos newer]
            rcases upgrade_cases engine it settled shallow upgrading.idle with
              ⟨after, returned, idle, kept, sent⟩ | ⟨after, thrown, taken⟩
            · rw [returned]
              exact ⟨_, upgrading.committed at_loop newer idle kept sent⟩
            · rw [thrown]
              exact ⟨runs, upgrading.takenBack taken⟩
          · simp only [if_neg newer]
            refine ⟨runs, upgrading.idle, upgrading.kept, upgrading.whole, upgrading.due, ?_⟩
            intro next remaining entered
            cases entered
            obtain ⟨value, ascending, left⟩ := upgrading.loop version (it :: rest) at_loop
            refine ⟨value, (List.pairwise_cons.mp ascending).2, ?_⟩
            rw [left, List.filter_cons_of_neg (by rw [decide_eq_true_iff]; exact newer)]

end Upgrading

end Cube.Eco.Persist
