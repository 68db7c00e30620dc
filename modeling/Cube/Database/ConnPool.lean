import Cube.Lib.Interleaving

/-! # The connection pool

`db_conn_pool` of `unidbpool.cpp`: a list of connections that users get and return, and that
a thread of the pool throws away and builds anew once a day. Every operation holds the mutex
of the pool; the nightly rebuild takes it twice.
-/

namespace Cube.Database

/-- `STATUS`. -/
inductive Status where
  | use
  | idle
  | exception
  deriving DecidableEq

/-- A `db_conn_pool`. An instance is named by the number of its allocation; `instances` is the
status of those that are not deleted. `db` says whether there is a database object. -/
structure ConnPool where
  vecConn : List (Option Nat)
  nconns : Nat
  db : Bool
  instances : Nat → Option Status
  allocated : Nat

/-- What the database answers: whether a connection is still connected, whether a new one can
be initialised, and whether the database can be opened. -/
structure Answers where
  connected : Nat → Bool
  initConn : Nat → Bool
  opens : Bool

namespace ConnPool

/-- The pool as its constructor leaves it. -/
def new (nconns : Nat) : ConnPool := ⟨[], nconns, false, fun _ => none, 0⟩

section Operations

variable (answers : Answers)

/-- The loop of `getconn` over the list. -/
def findIdle (instances : Nat → Option Status) :
    List (Option Nat) → (Nat → Option Status) × Option Nat
  | [] => (instances, none)
  | none :: vecConn => findIdle instances vecConn
  | some id :: vecConn =>
      if instances id = some .idle then
        if answers.connected id then (Function.update instances id (some .use), some id)
        else findIdle (Function.update instances id (some .exception)) vecConn
      else findIdle instances vecConn

/-- `createconn`: an instance that cannot be initialised is deleted again. -/
def createconn (pool : ConnPool) : ConnPool × Option Nat :=
  if answers.initConn pool.allocated then
    ({ pool with
      instances := Function.update pool.instances pool.allocated (some .idle)
      allocated := pool.allocated + 1 }, some pool.allocated)
  else ({ pool with allocated := pool.allocated + 1 }, none)

/-- The attempts of `getconn` to make another connection. -/
def createUsed : Nat → ConnPool → ConnPool × Option Nat
  | 0, pool => (pool, none)
  | tries + 1, pool =>
      match createconn answers pool with
      | (pool, none) => createUsed tries pool
      | (pool, some id) =>
          ({ pool with
            vecConn := pool.vecConn ++ [some id]
            instances := Function.update pool.instances id (some .use) }, some id)

def getconn (pool : ConnPool) : ConnPool × Option Nat :=
  match findIdle answers pool.instances pool.vecConn with
  | (instances, some id) => ({ pool with instances := instances }, some id)
  | (instances, none) => createUsed answers 5 { pool with instances := instances }

/-- `getconn` finds no idle instance that is connected. -/
def Builds (pool : ConnPool) : Prop :=
  (findIdle answers pool.instances pool.vecConn).2 = none

instance (pool : ConnPool) : Decidable (Builds answers pool) :=
  inferInstanceAs (Decidable (_ = none))

/-- `retconn`: the instance is idle again if it is still in the list. A transaction that its
user left open is rolled back before, on the instance, which says nothing to the pool. -/
def retconn (pool : ConnPool) (id : Nat) : ConnPool :=
  if some id ∈ pool.vecConn then
    { pool with instances := Function.update pool.instances id (some .idle) }
  else pool

/-- `release_all_conns`: the instances are deleted, and their slots are null. -/
def releaseAllConns (pool : ConnPool) : ConnPool :=
  { pool with
    vecConn := pool.vecConn.map fun _ => none
    instances := fun id => if some id ∈ pool.vecConn then none else pool.instances id }

/-- The loop of `init_db_conn`. -/
def createIdle : Nat → ConnPool → ConnPool
  | 0, pool => pool
  | conns + 1, pool =>
      match createconn answers pool with
      | (pool, none) => createIdle conns pool
      | (pool, some id) => createIdle conns { pool with vecConn := pool.vecConn ++ [some id] }

/-- `init_db_conn`: the list is cleared, and filled if the database opens. -/
def initDbConn (pool : ConnPool) : ConnPool :=
  if answers.opens then createIdle answers pool.nconns { pool with vecConn := [], db := true }
  else { pool with vecConn := [], db := false }

end Operations

/-! ## The threads of a pool -/

/-- A user gets a connection and returns it; the thread of the pool is alarmed. -/
inductive Call where
  | getconn
  | alarm
  deriving DecidableEq

/-- In front of a critical section, or between two. -/
inductive Point where
  | getsConn
  | holds (id : Nat)
  | releasesAll
  | initsDb
  deriving DecidableEq

def Call.point : Call → Point
  | .getconn => .getsConn
  | .alarm => .releasesAll

def advance (pool : ConnPool) (answers : Answers) : Point → ConnPool × Option Point
  | .getsConn => ((pool.getconn answers).1, (pool.getconn answers).2.map .holds)
  | .holds id => (pool.retconn id, none)
  | .releasesAll => (pool.releaseAllConns, some .initsDb)
  | .initsDb => (pool.initDbConn answers, none)

/-- Any number of users, and of alarms. -/
def program (ι : Type) : Interleaving.Program ι ConnPool Call Point Answers where
  enter _ pool call := (pool, call.point)
  advance _ pool point answers := pool.advance answers point

abbrev Threads (ι : Type) := Interleaving.Threads ι ConnPool Point

abbrev Choice (ι : Type) := Interleaving.Choice ι Call Answers

/-- A pool that was initialised, and nobody at it. -/
def start {ι : Type} (nconns : Nat) (answers : Answers) : Threads ι :=
  Interleaving.Threads.idle ((new nconns).initDbConn answers)

end ConnPool

end Cube.Database
