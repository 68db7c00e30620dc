import Mathlib.Data.List.Sort
import Cube.Eco.Timestamp
import Cube.Lib.Highest
import Cube.Eco.Persist.TransactionBalance

/-! # Schema upgrades

`Persist` of `Persist.cpp` and `Version` of `Persist.h`. A tick of `on_live` reads the highest
version that is stored and runs the upgrade functions above it, each in a transaction that
writes a version row at its end. An exception ends the tick, and the next tick starts again
from what is stored. The rows are those of the module; a statement of an upgrade function is
marked by the version of the upgrade.
-/

namespace Cube.Eco.Persist

open Timestamp

variable {S S' M : Type}

/-- `persist::Version`. -/
structure Version where
  value : Nat
  timestamp : Timestamp
  deriving DecidableEq

/-- What is executed at the master database: a statement of an upgrade function, or the one
that writes a version object as its timestamp says. -/
inductive Stored (S : Type) where
  | effect (version : Nat) (sql : S)
  | version (object : Version)
  deriving DecidableEq

namespace Version

/-- `value(v, new_record)`. -/
def ofValue (v : Nat) (newRecord : Bool := true) : Version where
  value := v
  timestamp := if newRecord then vInsert else vUpdate

/-- The statement of `Database::save`; the caller clears the timestamp. -/
def save (engine : Engine) (fails : Bool) (version : Version) (session : Session (Stored S) M) :
    Ending (Session (Stored S) M) :=
  if cleared version.timestamp then .returned session
  else if inserted version.timestamp || updated version.timestamp || removed version.timestamp then
    session.executeSql engine fails (.statement (.version version))
  else .thrown session

/-- The object after it was saved. -/
def saved (version : Version) : Version :=
  { version with timestamp := clear version.timestamp }

end Version

/-- The row of a version. -/
def Stored.row (v : Nat) : Stored S := .version (.ofValue v)

/-- The version rows among what is kept. -/
def rows (kept : List (Stored S)) : List Nat :=
  kept.filterMap fun
    | .effect _ _ => none
    | .version object => if inserted object.timestamp then some object.value else none

/-- The statements of upgrade functions among what is kept. -/
def effects (kept : List (Stored S)) : List (Nat × S) :=
  kept.filterMap fun
    | .effect version sql => some (version, sql)
    | .version _ => none

/-- The version object after `read`: nothing is read into it where there is no row. -/
def readVersion (timestamp : Timestamp) (kept : List (Stored S)) : Version :=
  if rows kept = [] then ⟨0, timestamp⟩ else ⟨highest (rows kept), vClear⟩

/-- The same code with other statements. -/
def Block.lift (f : S → S') : Block S M → Block S' M
  | .skip => .skip
  | .assign change => .assign change
  | .execute sql fails => .execute (f sql) fails
  | .throw => .throw
  | .seq first second => .seq (lift f first) (lift f second)
  | .attempt body => .attempt (lift f body)
  | .scope failing body commits => .scope failing (lift f body) commits

/-- How an upgrade goes: what its function does, and whether `save` and `commit` fail. -/
structure Attempt (S M : Type) where
  func : Block S M
  saveFails : Bool
  commitFails : Bool

/-- One upgrade of the loop in `on_live`. -/
def upgrade (engine : Engine) (version : Version) (attempt : Attempt S M)
    (session : Session (Stored S) M) : Ending (Session (Stored S) M) :=
  Transaction.scope engine { Failing.none with commit := attempt.commitFails }
    (fun session => ((attempt.func.lift (.effect version.value)).run engine session).andThen
      (version.save engine attempt.saveFails))
    true session

/-- `Persist::Impl`: the master database, the state `_a` that says that it was upgraded, and
where `on_live` stands in its loop: the version object and the upgrades that are left. -/
structure Impl (S M : Type) where
  master : Session (Stored S) M
  upgraded : Bool
  loop : Option (Version × List Nat)
  deriving DecidableEq

namespace Impl

/-- No transaction is open, and some versions are stored. -/
def start (stored : List Nat) (memory : M) : Impl S M where
  master := ⟨0, { Connection.fresh with kept := stored.map .row }, memory⟩
  upgraded := false
  loop := none

/-- `on_live` is called and gets to its loop, or what comes before it throws; the timestamp is
what the constructor of the version object leaves there. -/
def onLive (upgradeSeq : List Nat) (reads : Bool) (timestamp : Timestamp) (impl : Impl S M) :
    Impl S M :=
  if impl.upgraded || impl.loop.isSome || !reads then impl
  else
    let version := readVersion timestamp (impl.master.db.kept ++ impl.master.db.pending)
    { impl with loop := some (version, upgradeSeq) }

/-- A turn of the loop. -/
def turn (engine : Engine) (attempt : Attempt S M) (impl : Impl S M) : Impl S M :=
  match impl.loop with
  | none => impl
  | some (_, []) => { impl with upgraded := true, loop := none }
  | some (version, it :: rest) =>
      if it > version.value then
        let version := Version.ofValue it
        match upgrade engine version attempt impl.master with
        | .returned master => { impl with master := master, loop := some (version.saved, rest) }
        | .thrown master => { impl with master := master, loop := none }
      else { impl with loop := some (version, rest) }

end Impl

/-- A call of `on_live`, and the turns of its loop. -/
inductive LiveEvent (S M : Type) where
  | onLive (reads : Bool) (timestamp : Timestamp)
  | turn (attempt : Attempt S M)

def Impl.step (engine : Engine) (upgradeSeq : List Nat) (impl : Impl S M) :
    LiveEvent S M → Impl S M
  | .onLive reads timestamp => impl.onLive upgradeSeq reads timestamp
  | .turn attempt => impl.turn engine attempt

end Cube.Eco.Persist
