import Mathlib.Algebra.Group.Nat.Defs
import Cube.Lib.Run
import Cube.Eco.Persist.Transaction

/-! # Balanced transactions

The code that runs inside a scope, with its nested scopes and what is caught where. As long
as every nested scope is committed, the outermost scope is one transaction: its level, its
lock and its commands are balanced, and its statements are kept together or not at all. A
nested scope that is left without a commit rolls the outermost transaction back while its
scopes go on.
-/

namespace Cube.Eco.Persist

variable {S M : Type}

/-- Code at a database. -/
inductive Block (S M : Type) where
  | skip
  | assign (change : M → M)
  | execute (sql : S) (fails : Bool)
  | throw
  | seq (first second : Block S M)
  | attempt (body : Block S M)
  | scope (failing : Failing) (body : Block S M) (commits : Bool)

namespace Block

def run (engine : Engine) : Block S M → Session S M → Ending (Session S M)
  | .skip => .returned
  | .assign change => fun session => .returned { session with memory := change session.memory }
  | .execute sql fails => fun session => session.executeSql engine fails (.statement sql)
  | .throw => .thrown
  | .seq first second => fun session => (run engine first session).andThen (run engine second)
  | .attempt body => fun session => (run engine body session).caught
  | .scope failing body commits => Transaction.scope engine failing (run engine body) commits

@[simp] theorem run_execute (engine : Engine) (sql : S) (fails : Bool) (session : Session S M) :
    (execute sql fails).run engine session = session.executeSql engine fails (.statement sql) := rfl

@[simp] theorem run_seq (engine : Engine) (first second : Block S M) (session : Session S M) :
    (seq first second).run engine session =
      (first.run engine session).andThen (second.run engine) := rfl

@[simp] theorem run_scope (engine : Engine) (failing : Failing) (body : Block S M) (commits : Bool)
    (session : Session S M) : (scope failing body commits).run engine session =
      Transaction.scope engine failing (body.run engine) commits session := rfl

/-- The code ends by an exception, when its scopes are committed. -/
def throws : Block S M → Bool
  | .skip => false
  | .assign _ => false
  | .execute _ fails => fails
  | .throw => true
  | .seq first second => first.throws || second.throws
  | .attempt _ => false
  | .scope _ body _ => body.throws

/-- Every scope that is entered gets to its commit. -/
def Committing : Block S M → Prop
  | .skip => True
  | .assign _ => True
  | .execute _ _ => True
  | .throw => True
  | .seq first second => first.Committing ∧ (first.throws = false → second.Committing)
  | .attempt body => body.Committing
  | .scope _ body commits => body.Committing ∧ body.throws = false ∧ commits = true

/-- How many scopes are open at once. -/
def depth : Block S M → Nat
  | .skip => 0
  | .assign _ => 0
  | .execute _ _ => 0
  | .throw => 0
  | .seq first second => max first.depth (if first.throws then 0 else second.depth)
  | .attempt body => body.depth
  | .scope _ body _ => body.depth + 1

end Block

/-- An outermost scope. -/
structure Outermost (S M : Type) where
  failing : Failing
  body : Block S M
  commits : Bool

namespace Outermost

def run (engine : Engine) (session : Session S M) (outermost : Outermost S M) :
    Ending (Session S M) :=
  Transaction.scope engine outermost.failing (outermost.body.run engine) outermost.commits session

/-- One outermost scope after the other; what they throw is caught between them. -/
def step (engine : Engine) (session : Session S M) (outermost : Outermost S M) : Session S M :=
  (outermost.run engine session).state

/-- The scope is left without a commit. -/
def abandoned (outermost : Outermost S M) : Bool :=
  outermost.body.throws || !outermost.commits || outermost.failing.commit

end Outermost

/-! ## What is asked for -/

/-- The commands come in pairs; the result says whether a transaction is open after them. -/
def transactions : Bool → List (Sql S) → Option Bool
  | opened, [] => some opened
  | opened, .statement _ :: sent => transactions opened sent
  | false, .begin :: sent => transactions true sent
  | true, .commit :: sent => transactions false sent
  | true, .rollback :: sent => transactions false sent
  | _, _ => none

/-- The statements among what was sent. -/
def statements (sent : List (Sql S)) : List S :=
  sent.filterMap fun
    | .statement sql => some sql
    | _ => none

/-- No transaction is left: the level is 0, the lock is free, every BEGIN is followed by its
COMMIT or ROLLBACK. -/
structure Balanced (session : Session S M) : Prop where
  level : session.level = 0
  lock : session.db.released = session.db.taken
  commands : transactions false session.db.sent = some false

/-- Nothing fails that leaves a transaction half-way: the BEGIN of the scope and the ROLLBACK
it needs work, every nested scope gets to its commit, and the level does not wrap. -/
structure Clean (outermost : Outermost S M) : Prop where
  begin : outermost.failing.begin = false
  rollback : outermost.abandoned = true → outermost.failing.rollback = false
  committing : outermost.body.Committing
  shallow : outermost.body.depth + 1 < 2 ^ 32

/-! ## Inside a transaction -/

/-- What code inside a transaction does to the session: it executes statements. -/
structure Inside (before after : Session S M) : Prop where
  level : after.level = before.level
  taken : after.db.taken = before.db.taken
  released : after.db.released = before.db.released
  opened : after.db.opened = before.db.opened
  kept : after.db.kept = before.db.kept
  done : ∃ done, after.db.sent = before.db.sent ++ done.map .statement ∧
    after.db.pending = before.db.pending ++ done

namespace Inside

theorem refl (session : Session S M) : Inside session session where
  level := rfl
  taken := rfl
  released := rfl
  opened := rfl
  kept := rfl
  done := ⟨[], (List.append_nil _).symm, (List.append_nil _).symm⟩

theorem remember {before after : Session S M} (inside : Inside before after) (memory : M) :
    Inside before { after with memory := memory } :=
  ⟨inside.level, inside.taken, inside.released, inside.opened, inside.kept, inside.done⟩

theorem trans {first second third : Session S M} (former : Inside first second)
    (latter : Inside second third) : Inside first third where
  level := latter.level.trans former.level
  taken := latter.taken.trans former.taken
  released := latter.released.trans former.released
  opened := latter.opened.trans former.opened
  kept := latter.kept.trans former.kept
  done := by
    obtain ⟨done, sent, pending⟩ := former.done
    obtain ⟨more, sentMore, pendingMore⟩ := latter.done
    refine ⟨done ++ more, ?_, ?_⟩
    · rw [sentMore, sent, List.map_append, List.append_assoc]
    · rw [pendingMore, pending, List.append_assoc]

end Inside

theorem hasTransaction_of_pos {session : Session S M} (positive : 0 < session.level.toNat) :
    session.hasTransaction = true :=
  decide_eq_true (UInt32.lt_iff_toNat_lt.mpr positive)

theorem level_succ {level : UInt32} (small : level.toNat + 1 < 2 ^ 32) :
    (level + 1).toNat = level.toNat + 1 := by
  rw [UInt32.toNat_add]
  exact Nat.mod_eq_of_lt small

/-- A statement inside a transaction throws and does nothing, or it is executed. -/
theorem executeSql_cases (engine : Engine) (fails : Bool) (sql : S) {session : Session S M}
    (positive : 0 < session.level.toNat) (opened : session.db.opened = true) :
    fails = true ∧ session.executeSql engine fails (.statement sql) = .thrown session ∨
      fails = false ∧ ∃ after, session.executeSql engine fails (.statement sql) = .returned after ∧
        Inside session after ∧ after.memory = session.memory := by
  rw [Session.executeSql, if_pos (hasTransaction_of_pos positive), Session.query]
  cases fails with
  | true => exact .inl ⟨rfl, rfl⟩
  | false =>
      simp only [Bool.false_eq_true, if_false, Engine.perform, opened, Bool.true_or, if_true]
      refine .inr ⟨trivial, _, rfl, ?_, rfl⟩
      exact ⟨rfl, rfl, rfl, opened.symm ▸ rfl, rfl, [sql], rfl, rfl⟩

theorem executeSql_inside (engine : Engine) (fails : Bool) (sql : S) {session : Session S M}
    (positive : 0 < session.level.toNat) (opened : session.db.opened = true) :
    (session.executeSql engine fails (.statement sql)).threw = fails ∧
      Inside session (session.executeSql engine fails (.statement sql)).state := by
  rcases executeSql_cases engine fails sql positive opened with
    ⟨rfl, thrown⟩ | ⟨rfl, after, returned, inside, -⟩
  · rw [thrown]
    exact ⟨rfl, Inside.refl session⟩
  · rw [returned]
    exact ⟨rfl, inside⟩

/-- The session in a nested scope. -/
def Session.nested (session : Session S M) : Session S M :=
  { session with level := session.level + 1 }

theorem nested_ne_one {session : Session S M} (positive : 0 < session.level.toNat)
    (shallow : session.level.toNat + 1 < 2 ^ 32) : session.level + 1 ≠ 1 := by
  intro one
  have next := level_succ shallow
  rw [one] at next
  have : (1 : UInt32).toNat = 1 := rfl
  omega

/-- A nested scope sends nothing when it is entered. -/
theorem construct_nested (engine : Engine) (failing : Failing) {session : Session S M}
    (positive : 0 < session.level.toNat) (shallow : session.level.toNat + 1 < 2 ^ 32) :
    Transaction.construct engine failing session = .returned session.nested := by
  simp only [Transaction.construct, if_neg (nested_ne_one positive shallow), Session.nested]

/-- A nested scope that commits leaves the level as it was. -/
theorem scope_inside (engine : Engine) (failing : Failing)
    {body : Session S M → Ending (Session S M)} {session inner : Session S M}
    (positive : 0 < session.level.toNat) (shallow : session.level.toNat + 1 < 2 ^ 32)
    (returns : body session.nested = .returned inner) (inside : Inside session.nested inner) :
    Transaction.scope engine failing body true session =
      .returned { inner with level := session.level } := by
  have level : inner.level = session.level + 1 := inside.level
  have notZero : session.level + 1 ≠ 0 := by
    intro zero
    have next := level_succ shallow
    rw [zero] at next
    exact Nat.succ_ne_zero _ next.symm
  simp only [Transaction.scope, construct_nested engine failing positive shallow,
    Ending.andThen_returned, Transaction.leave, if_true, returns, Transaction.commit, level,
    if_neg notZero, if_neg (nested_ne_one positive shallow), UInt32.add_sub_cancel]

/-- A transaction is open, and the level has room for the nested scopes of the code. -/
structure Room (session : Session S M) (block : Block S M) : Prop where
  positive : 0 < session.level.toNat
  shallow : session.level.toNat + block.depth < 2 ^ 32
  opened : session.db.opened = true

namespace Room

variable {session after : Session S M} {first second body : Block S M} {failing : Failing}
  {commits : Bool}

theorem former (room : Room session (.seq first second)) : Room session first where
  positive := room.positive
  shallow := Nat.lt_of_le_of_lt (Nat.add_le_add_left (Nat.le_max_left _ _) _) room.shallow
  opened := room.opened

theorem latter (room : Room session (.seq first second)) (returns : first.throws = false)
    (inside : Inside session after) : Room after second where
  positive := inside.level ▸ room.positive
  shallow := by
    have shallow := room.shallow
    rw [Block.depth, returns, if_neg Bool.false_ne_true] at shallow
    rw [inside.level]
    exact Nat.lt_of_le_of_lt (Nat.add_le_add_left (Nat.le_max_right _ _) _) shallow
  opened := inside.opened.trans room.opened

theorem attempted (room : Room session (.attempt body)) : Room session body :=
  ⟨room.positive, room.shallow, room.opened⟩

theorem level (room : Room session (.scope failing body commits)) :
    session.level.toNat + 1 < 2 ^ 32 :=
  Nat.lt_of_le_of_lt (Nat.add_le_add_left (Nat.le_add_left 1 body.depth) _) room.shallow

theorem nested (room : Room session (.scope failing body commits)) : Room session.nested body := by
  have next : session.nested.level.toNat = session.level.toNat + 1 := level_succ room.level
  have shallow := room.shallow
  rw [Block.depth] at shallow
  exact ⟨by omega, by omega, room.opened⟩

end Room

/-- **Code inside a transaction** throws as it says and does nothing but execute statements. -/
theorem Block.run_inside (engine : Engine) (block : Block S M) (committing : block.Committing)
    {session : Session S M} (room : Room session block) :
    (block.run engine session).threw = block.throws ∧
      Inside session (block.run engine session).state := by
  induction block generalizing session with
  | skip => exact ⟨rfl, Inside.refl session⟩
  | assign change => exact ⟨rfl, (Inside.refl session).remember _⟩
  | execute sql fails => exact executeSql_inside engine fails sql room.positive room.opened
  | throw => exact ⟨rfl, Inside.refl session⟩
  | seq first second former latter =>
      obtain ⟨threw, inside⟩ := former committing.1 room.former
      rw [run_seq, throws]
      cases ending : first.run engine session with
      | thrown after =>
          rw [ending] at threw inside
          rw [← threw]
          exact ⟨rfl, inside⟩
      | returned after =>
          rw [ending] at threw inside
          have returns : first.throws = false := threw.symm
          obtain ⟨threwToo, insideToo⟩ :=
            latter (committing.2 returns) (room.latter returns inside)
          rw [returns, Bool.false_or]
          exact ⟨threwToo, inside.trans insideToo⟩
  | attempt body ih => exact ⟨rfl, (ih committing room.attempted).2⟩
  | scope failing body commits ih =>
      obtain ⟨bodyCommitting, returns, rfl⟩ := committing
      obtain ⟨threw, inside⟩ := ih bodyCommitting room.nested
      have returned := Ending.eq_returned (threw.trans returns)
      rw [run_scope, throws, returns,
        scope_inside engine failing room.positive room.level returned inside]
      exact ⟨rfl, rfl, inside.taken, inside.released, inside.opened, inside.kept, inside.done⟩

/-! ## The commands of a transaction -/

/-- Between the outermost scopes no transaction is open. -/
structure Quiet (session : Session S M) : Prop where
  balanced : Balanced session
  opened : session.db.opened = false
  pending : session.db.pending = []

/-- The session in the transaction that an outermost scope has begun. -/
def Session.begun (session : Session S M) : Session S M :=
  { session with
    level := 1
    db := { session.db with
      taken := session.db.taken + 1
      sent := session.db.sent ++ [.begin]
      opened := true } }

/-- The session after the transaction. -/
def Session.ended (session : Session S M) (last : Sql S) (kept : List S) : Session S M :=
  { session with
    level := 0
    db := { session.db with
      released := session.db.released + 1
      sent := session.db.sent ++ [last]
      opened := false
      pending := []
      kept := session.db.kept ++ kept } }

/-- The session that a BEGIN leaves: it keeps what was executed outside of a transaction. -/
def Session.entered (session : Session S M) : Session S M :=
  { session.begun with
    db := { session.begun.db with
      pending := []
      kept := session.db.kept ++ session.db.pending } }

theorem construct_idle (engine : Engine) {failing : Failing} {session : Session S M}
    (outermost : session.level = 0) (closed : session.db.opened = false)
    (works : failing.begin = false) :
    Transaction.construct engine failing session = .returned session.entered := by
  have level : session.level + 1 = 1 := by
    rw [outermost]
    rfl
  have inTransaction : Session.hasTransaction
      (Session.lock { session with level := 1 }) = true := rfl
  simp only [Transaction.construct, level, if_true, Session.begin, Session.executeSql,
    inTransaction, Session.query, works, Bool.false_eq_true, if_false, Engine.perform]
  simp only [Session.lock, closed, Bool.false_and, Bool.false_eq_true, if_false, Session.entered,
    Session.begun]

theorem level_ne_zero {session : Session S M} (level : session.level = 1) :
    session.level ≠ 0 := by
  rw [level]
  decide

theorem hasTransaction_outermost {session : Session S M} (level : session.level = 1) :
    session.hasTransaction = true := by
  rw [Session.hasTransaction, level]
  rfl

theorem commit_outermost (engine : Engine) {failing : Failing} {session : Session S M}
    (level : session.level = 1) (opened : session.db.opened = true)
    (works : failing.commit = false) : Transaction.commit engine failing session =
      .returned (session.ended .commit session.db.pending) := by
  simp only [Transaction.commit, if_neg (level_ne_zero level), if_pos level, Session.commit,
    Session.executeSql, hasTransaction_outermost level, if_true, Session.query, works,
    Bool.false_eq_true, if_false, Engine.perform, opened, Bool.not_true, Bool.false_and,
    Ending.andThen_returned]
  simp only [Session.unlock, level, Session.ended]
  rfl

theorem commit_fails (engine : Engine) {failing : Failing} {session : Session S M}
    (level : session.level = 1) (fails : failing.commit = true) :
    Transaction.commit engine failing session = .thrown session := by
  simp only [Transaction.commit, if_neg (level_ne_zero level), if_pos level, Session.commit,
    Session.executeSql, hasTransaction_outermost level, if_true, Session.query, fails,
    Ending.andThen_thrown]

/-- No transaction is open in the thread or at the connection. -/
structure Idle (session : Session S M) : Prop where
  level : session.level = 0
  opened : session.db.opened = false
  pending : session.db.pending = []

/-- The ROLLBACK of a scope: it is done, or the session stays as it was but for its lock. -/
theorem destruct_cases (engine : Engine) (failing : Failing) (session : Session S M) :
    (Transaction.destruct engine failing session).db.kept = session.db.kept ∧
      (Transaction.destruct engine failing session).memory = session.memory ∧
      session.db.sent <+: (Transaction.destruct engine failing session).db.sent ∧
      (Idle (Transaction.destruct engine failing session) ∨
        (failing.rollback = true ∨ session.db.opened = false) ∧
          (Transaction.destruct engine failing session).level = session.level ∧
          (Transaction.destruct engine failing session).db.opened = session.db.opened ∧
          (Transaction.destruct engine failing session).db.pending = session.db.pending) := by
  have grows : session.db.sent <+: session.db.sent ++ [.rollback] := List.prefix_append _ _
  unfold Transaction.destruct Session.rollback Session.executeSql Session.query
  cases fails : failing.rollback with
  | true =>
      cases locked : session.hasTransaction with
      | true => exact ⟨rfl, rfl, List.prefix_rfl, .inr ⟨.inl rfl, rfl, rfl, rfl⟩⟩
      | false => exact ⟨rfl, rfl, List.prefix_rfl, .inr ⟨.inl rfl, rfl, rfl, rfl⟩⟩
  | false =>
      cases misfit : !session.db.opened && engine.strict with
      | true =>
          have closed : session.db.opened = false := by
            rw [Bool.and_eq_true, Bool.not_eq_true'] at misfit
            exact misfit.1
          cases locked : session.hasTransaction with
          | true =>
              simp only [if_true, Bool.false_eq_true, if_false, Engine.perform, misfit]
              exact ⟨rfl, rfl, List.prefix_rfl, .inr ⟨.inr closed, rfl, rfl, rfl⟩⟩
          | false =>
              simp only [Session.lock, Bool.false_eq_true, if_false, Engine.perform, misfit, if_true]
              exact ⟨rfl, rfl, List.prefix_rfl, .inr ⟨.inr closed, rfl, rfl, rfl⟩⟩
      | false =>
          cases locked : session.hasTransaction with
          | true =>
              simp only [if_true, Bool.false_eq_true, if_false, Engine.perform, misfit]
              exact ⟨rfl, rfl, grows, .inl ⟨rfl, rfl, rfl⟩⟩
          | false =>
              simp only [Session.lock, Bool.false_eq_true, if_false, Engine.perform, misfit]
              exact ⟨rfl, rfl, grows, .inl ⟨rfl, rfl, rfl⟩⟩

/-- How an outermost scope ends after its body. -/
def Transaction.finish (engine : Engine) (failing : Failing) :
    Ending (Session S M) → Ending (Session S M)
  | .thrown inner => .thrown (Transaction.destruct engine failing inner)
  | .returned inner =>
      if failing.commit then .thrown (Transaction.destruct engine failing inner)
      else .returned (inner.ended .commit inner.db.pending)

/-- An outermost scope whose body leaves it at its level. -/
theorem scope_outermost (engine : Engine) {failing : Failing}
    {body : Session S M → Ending (Session S M)} {session : Session S M}
    (outermost : session.level = 0) (closed : session.db.opened = false)
    (works : failing.begin = false)
    (stays : ∀ inner, body session.entered = .returned inner →
      inner.level = 1 ∧ inner.db.opened = true) :
    Transaction.scope engine failing body true session =
      Transaction.finish engine failing (body session.entered) := by
  rw [Transaction.scope, construct_idle engine outermost closed works, Ending.andThen_returned,
    Transaction.leave, if_pos rfl]
  cases ending : body session.entered with
  | thrown inner => rfl
  | returned inner =>
      obtain ⟨level, opened⟩ := stays inner ending
      rw [Ending.andThen_returned, Transaction.finish]
      cases fails : failing.commit with
      | true =>
          rw [commit_fails engine level fails]
          rfl
      | false =>
          rw [commit_outermost engine level opened fails]
          rfl

def Failing.none : Failing := ⟨false, false, false⟩

end Cube.Eco.Persist
