import Cube.Lib.Ending
import Mathlib.Data.List.Basic

/-! # Transactions

`Transaction` of `Database.h` over the drivers: the nesting level is thread-local and shared
by all databases of a driver, the outermost scope sends BEGIN and COMMIT, and a scope that
was not committed sends ROLLBACK when it is left. A connection has a mutex that a statement
takes for itself when the thread has no transaction, and that `begin` holds until `commit`
or `rollback`. What fails is part of the code that is run: a call that fails throws.
-/

namespace Cube.Eco.Persist

variable {S M : Type}

/-- What a connection is sent: the transaction commands, or a statement. -/
inductive Sql (S : Type) where
  | begin
  | commit
  | rollback
  | statement (s : S)
  deriving DecidableEq

/-- The database engine: whether a statement outside of a transaction is kept at once, and
whether a command that does not fit the open transaction is an error. -/
structure Engine where
  autocommit : Bool
  strict : Bool
  deriving DecidableEq

/-- MySQL: the driver switches autocommit off, and BEGIN commits what is open. -/
def Engine.mysql : Engine := ⟨false, false⟩

/-- A connection: how often its mutex was taken and released, what the engine has executed,
the transaction that is open, and the statements that are kept. -/
structure Connection (S : Type) where
  taken : Nat
  released : Nat
  sent : List (Sql S)
  opened : Bool
  pending : List S
  kept : List S
  deriving DecidableEq

def Connection.fresh : Connection S := ⟨0, 0, [], false, [], []⟩

/-- What the engine does with a command or statement, none if it is an error. -/
def Engine.perform (engine : Engine) (db : Connection S) (sql : Sql S) : Option (Connection S) :=
  let db' := { db with sent := db.sent ++ [sql] }
  match sql with
  | .statement s =>
      if db.opened || !engine.autocommit then some { db' with pending := db.pending ++ [s] }
      else some { db' with kept := db.kept ++ [s] }
  | .begin =>
      if db.opened && engine.strict then none
      else some { db' with opened := true, pending := [], kept := db.kept ++ db.pending }
  | .commit =>
      if !db.opened && engine.strict then none
      else some { db' with opened := false, pending := [], kept := db.kept ++ db.pending }
  | .rollback =>
      if !db.opened && engine.strict then none
      else some { db' with opened := false, pending := [] }

/-- A thread at a database: the transaction level, the connection, and the memory that the
code inside a scope changes. -/
structure Session (S M : Type) where
  level : UInt32
  db : Connection S
  memory : M
  deriving DecidableEq

namespace Session

def start (memory : M) : Session S M := ⟨0, .fresh, memory⟩

def hasTransaction (session : Session S M) : Bool := decide (session.level > 0)

def lock (session : Session S M) : Session S M :=
  { session with db := { session.db with taken := session.db.taken + 1 } }

def unlock (session : Session S M) : Session S M :=
  { session with db := { session.db with released := session.db.released + 1 } }

/-- The query inside `execute_sql`. -/
def query (engine : Engine) (fails : Bool) (sql : Sql S) (session : Session S M) :
    Ending (Session S M) :=
  if fails then .thrown session
  else
    match engine.perform session.db sql with
    | none => .thrown session
    | some db => .returned { session with db := db }

/-- `execute_sql`: the scoped lock is taken unless the thread has a transaction. -/
def executeSql (engine : Engine) (fails : Bool) (sql : Sql S) (session : Session S M) :
    Ending (Session S M) :=
  if session.hasTransaction then session.query engine fails sql
  else (session.lock.query engine fails sql).onExit unlock

/-- `begin()` of a driver. -/
def begin (engine : Engine) (fails : Bool) (session : Session S M) : Ending (Session S M) :=
  session.lock.executeSql engine fails .begin

/-- `commit()` of a driver. -/
def commit (engine : Engine) (fails : Bool) (session : Session S M) : Ending (Session S M) :=
  (session.executeSql engine fails .commit).andThen fun session => .returned session.unlock

/-- `rollback()` of a driver. -/
def rollback (engine : Engine) (fails : Bool) (session : Session S M) : Ending (Session S M) :=
  (session.executeSql engine fails .rollback).andThen fun session => .returned session.unlock

end Session

/-- Which of the calls that a scope makes of its own fail. -/
structure Failing where
  begin : Bool
  commit : Bool
  rollback : Bool
  deriving DecidableEq

namespace Transaction

open Session

/-- The constructor. -/
def construct (engine : Engine) (failing : Failing) (session : Session S M) :
    Ending (Session S M) :=
  let session := { session with level := session.level + 1 }
  if session.level = 1 then session.begin engine failing.begin else .returned session

/-- The destructor of a scope that was not committed; it lets no exception out. -/
def destruct (engine : Engine) (failing : Failing) (session : Session S M) : Session S M :=
  match session.rollback engine failing.rollback with
  | .returned session => { session with level := 0 }
  | .thrown session => session

/-- `Transaction::commit`. -/
def commit (engine : Engine) (failing : Failing) (session : Session S M) :
    Ending (Session S M) :=
  if session.level = 0 then .thrown session
  else
    (if session.level = 1 then session.commit engine failing.commit
      else .returned session).andThen
        fun session => .returned { session with level := session.level - 1 }

/-- What follows the constructor of a scope: its body, a commit at the end of it or none, and
the destructor. -/
def leave (engine : Engine) (failing : Failing) (body : Session S M → Ending (Session S M))
    (commits : Bool) (session : Session S M) : Ending (Session S M) :=
  if commits then
    match (body session).andThen (commit engine failing) with
    | .returned session => .returned session
    | .thrown session => .thrown (destruct engine failing session)
  else (body session).onExit (destruct engine failing)

/-- A scope. -/
def scope (engine : Engine) (failing : Failing) (body : Session S M → Ending (Session S M))
    (commits : Bool) (session : Session S M) : Ending (Session S M) :=
  (construct engine failing session).andThen (leave engine failing body commits)

end Transaction

end Cube.Eco.Persist
