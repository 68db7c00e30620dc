import Cube.Eco.Persist.TransactionBalance

/-! # Exceptions that leave a transaction

A nested scope that is left by an exception takes the transaction back at once. Where nothing
catches the exception before it leaves the outermost scope too, nothing is executed behind that
rollback, and nothing of the transaction is kept.
-/

namespace Cube.Eco.Persist

variable {S M : Type}

namespace Block

/-- A scope that does not get to its commit is left by an exception that nothing catches. -/
def Settled : Block S M → Prop
  | .skip => True
  | .assign _ => True
  | .execute _ _ => True
  | .throw => True
  | .seq first second => first.Settled ∧ (first.throws = false → second.Settled)
  | .attempt body => body.Committing
  | .scope _ body commits => body.Settled ∧ (body.throws = true ∨ commits = true)

/-- What the code executes, when its scopes are committed. -/
def executed : Block S M → List S
  | .skip => []
  | .assign _ => []
  | .execute sql fails => if fails then [] else [sql]
  | .throw => []
  | .seq first second => first.executed ++ if first.throws then [] else second.executed
  | .attempt body => body.executed
  | .scope _ body _ => body.executed

theorem Settled.committing {block : Block S M} (settled : block.Settled)
    (returns : block.throws = false) : block.Committing := by
  induction block with
  | skip => trivial
  | assign change => trivial
  | execute sql fails => trivial
  | throw => trivial
  | seq first second former latter =>
      obtain ⟨firstReturns, secondReturns⟩ := Bool.or_eq_false_iff.mp returns
      exact ⟨former settled.1 firstReturns,
        fun _ => latter (settled.2 firstReturns) secondReturns⟩
  | attempt body ih => exact settled
  | scope failing body commits ih =>
      have bodyReturns : body.throws = false := returns
      refine ⟨ih settled.1 bodyReturns, bodyReturns, settled.2.resolve_left ?_⟩
      rw [bodyReturns]
      exact Bool.false_ne_true

end Block

/-! ## Left transactions -/

/-- What code that may have been left by an exception has done to the transaction: nothing more
is kept, and the transaction is still open or was taken back. -/
structure Left (before after : Session S M) : Prop where
  kept : after.db.kept = before.db.kept
  sent : before.db.sent <+: after.db.sent
  transaction : after.db.opened = true ∨ Idle after

theorem Inside.left {before after : Session S M} (inside : Inside before after)
    (opened : before.db.opened = true) : Left before after where
  kept := inside.kept
  sent := by
    obtain ⟨done, sent, _⟩ := inside.done
    exact ⟨done.map .statement, sent.symm⟩
  transaction := .inl (inside.opened.trans opened)

theorem Inside.trans_left {first second third : Session S M} (former : Inside first second)
    (latter : Left second third) : Left first third where
  kept := latter.kept.trans former.kept
  sent := by
    obtain ⟨done, sent, _⟩ := former.done
    exact List.IsPrefix.trans ⟨done.map .statement, sent.symm⟩ latter.sent
  transaction := latter.transaction

theorem destruct_left (engine : Engine) (failing : Failing) {before session : Session S M}
    (left : Left before session) : Left before (Transaction.destruct engine failing session) := by
  obtain ⟨kept, -, sent, ended⟩ := destruct_cases engine failing session
  refine ⟨kept.trans left.kept, left.sent.trans sent, ?_⟩
  rcases ended with idle | ⟨-, level, opened, pending⟩
  · exact .inr idle
  · rcases left.transaction with stillOpen | idle
    · exact .inl (opened.trans stillOpen)
    · exact .inr ⟨level.trans idle.level, opened.trans idle.opened, pending.trans idle.pending⟩

/-- A working ROLLBACK leaves no transaction. -/
theorem destruct_idle (engine : Engine) {failing : Failing} (works : failing.rollback = false)
    {before session : Session S M} (left : Left before session) :
    Idle (Transaction.destruct engine failing session) := by
  obtain ⟨-, -, -, ended⟩ := destruct_cases engine failing session
  rcases ended with idle | ⟨fails | closed, level, opened, pending⟩
  · exact idle
  · rw [works] at fails
    cases fails
  · rcases left.transaction with stillOpen | idle
    · rw [closed] at stillOpen
      cases stillOpen
    · exact ⟨level.trans idle.level, opened.trans idle.opened, pending.trans idle.pending⟩

/-! ## Code that throws -/

/-- A nested scope whose body throws. -/
theorem scope_left (engine : Engine) (failing : Failing)
    {body : Session S M → Ending (Session S M)} {session inner : Session S M} (commits : Bool)
    (positive : 0 < session.level.toNat) (shallow : session.level.toNat + 1 < 2 ^ 32)
    (throws : body session.nested = .thrown inner) :
    Transaction.scope engine failing body commits session =
      .thrown (Transaction.destruct engine failing inner) := by
  simp only [Transaction.scope, construct_nested engine failing positive shallow,
    Ending.andThen_returned, Transaction.leave, throws, Ending.andThen_thrown,
    Ending.onExit_thrown, ite_self]

/-- Settled code that throws leaves its transaction. -/
theorem Block.run_left (engine : Engine) {block : Block S M} (settled : block.Settled)
    (throws : block.throws = true) {session : Session S M} (room : Room session block) :
    ∃ after, block.run engine session = .thrown after ∧ Left session after := by
  have unchanged : Left session session := (Inside.refl session).left room.opened
  induction block generalizing session with
  | skip => cases throws
  | assign change => cases throws
  | execute sql fails =>
      have fails : fails = true := throws
      refine ⟨session, ?_, unchanged⟩
      rw [run_execute, Session.executeSql, if_pos (hasTransaction_of_pos room.positive),
        Session.query, if_pos fails]
  | throw => exact ⟨session, rfl, unchanged⟩
  | seq first second former latter =>
      cases firstThrows : first.throws with
      | true =>
          obtain ⟨after, thrown, left⟩ := former settled.1 firstThrows room.former unchanged
          exact ⟨after, by rw [run_seq, thrown, Ending.andThen_thrown], left⟩
      | false =>
          obtain ⟨threw, inside⟩ :=
            first.run_inside engine (settled.1.committing firstThrows) room.former
          have returned := Ending.eq_returned (threw.trans firstThrows)
          have secondThrows : second.throws = true := by
            rw [Block.throws, firstThrows, Bool.false_or] at throws
            exact throws
          have secondRoom := room.latter firstThrows inside
          obtain ⟨after, thrown, left⟩ := latter (settled.2 firstThrows) secondThrows secondRoom
            ((Inside.refl _).left secondRoom.opened)
          refine ⟨after, ?_, inside.trans_left left⟩
          rw [run_seq, returned, Ending.andThen_returned, thrown]
  | attempt body ih => cases throws
  | scope failing body commits ih =>
      obtain ⟨inner, thrown, left⟩ := ih settled.1 throws room.nested
        ((Inside.refl _).left room.nested.opened)
      refine ⟨_, scope_left engine failing commits room.positive room.level thrown, ?_⟩
      exact destruct_left engine failing ⟨left.kept, left.sent, left.transaction⟩

/-! ## Code that returns -/

/-- What code inside a transaction adds to it. -/
theorem Block.run_pending (engine : Engine) {block : Block S M} (committing : block.Committing)
    {session : Session S M} (room : Room session block) :
    (block.run engine session).state.db.pending = session.db.pending ++ block.executed := by
  induction block generalizing session with
  | skip => exact (List.append_nil _).symm
  | assign change => exact (List.append_nil _).symm
  | execute sql fails =>
      rw [run_execute, Session.executeSql, if_pos (hasTransaction_of_pos room.positive),
        Session.query]
      cases fails with
      | true => exact (List.append_nil _).symm
      | false =>
          simp only [Bool.false_eq_true, if_false, Engine.perform, room.opened, Bool.true_or,
            if_true]
          rfl
  | throw => exact (List.append_nil _).symm
  | seq first second former latter =>
      obtain ⟨threw, inside⟩ := first.run_inside engine committing.1 room.former
      have pending := former committing.1 room.former
      rw [run_seq, executed]
      cases firstThrows : first.throws with
      | true =>
          rw [Ending.eq_thrown (threw.trans firstThrows), if_pos rfl, List.append_nil]
          exact pending
      | false =>
          have more := latter (committing.2 firstThrows) (room.latter firstThrows inside)
          rw [Ending.eq_returned (threw.trans firstThrows), Ending.andThen_returned, more, pending,
            if_neg Bool.false_ne_true, List.append_assoc]
  | attempt body ih => exact ih committing room.attempted
  | scope failing body commits ih =>
      obtain ⟨bodyCommitting, returns, rfl⟩ := committing
      obtain ⟨threw, inside⟩ := body.run_inside engine bodyCommitting room.nested
      have returned := Ending.eq_returned (threw.trans returns)
      rw [run_scope, scope_inside engine failing room.positive room.level returned inside]
      exact ih bodyCommitting room.nested

end Cube.Eco.Persist
