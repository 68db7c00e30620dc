import Cube.Lib.Run

/-! # A connection to a MySQL server

`db_mysql_conn` of `dbmysql.cpp`: transactions and statements over one connection, which is
opened again inside a call when it was lost. The server is known by what it promises: a
statement outside a transaction is kept at once, one inside is kept when the transaction is
committed, and a lost connection takes its open transaction with it.
-/

namespace Cube.Libmysql

/-- A statement, with the number of the call that executed it. -/
structure Statement where
  number : Nat
  sql : String
  deriving DecidableEq

/-- The server, as one connection sees it. An open transaction has the number of the call that
began it. -/
structure Server where
  connected : Bool
  transaction : Option (Nat × List Statement)
  kept : List Statement
  deriving DecidableEq

inductive Request where
  | begin_ (number : Nat)
  | statement (statement : Statement)
  | select
  | commit
  | rollback
  deriving DecidableEq

/-- What becomes of a request: it is done, or refused, or the connection is lost before or
after it is done. -/
inductive Fate where
  | done
  | refused
  | lostBefore
  | lostAfter
  deriving DecidableEq

/-- What becomes of an attempt to connect: none is made, or the connection stands but cannot
be set up, or it stands and is set up. -/
inductive Reconnection where
  | none
  | incomplete
  | complete
  deriving DecidableEq

/-- What happens during a call. -/
structure Luck where
  fate : Fate
  pingLoses : Bool
  reconnection : Reconnection
  again : Fate
  deriving DecidableEq

namespace Server

variable (server : Server)

/-- The statements of the open transaction. -/
def pending : List Statement :=
  match server.transaction with
  | some (_, statements) => statements
  | none => []

/-- The connection is lost. -/
def drop : Server := { server with connected := false, transaction := none }

/-- Beginning a transaction commits the one that is open. -/
def performs : Request → Server
  | .begin_ number =>
      { server with transaction := some (number, []), kept := server.kept ++ server.pending }
  | .statement statement =>
      match server.transaction with
      | some (number, statements) =>
          { server with transaction := some (number, statements ++ [statement]) }
      | none => { server with kept := server.kept ++ [statement] }
  | .select => server
  | .commit => { server with transaction := none, kept := server.kept ++ server.pending }
  | .rollback => { server with transaction := none }

/-- `mysql_real_query`, `mysql_commit` and `mysql_rollback`: whether they return zero. -/
def request (request : Request) (fate : Fate) : Server × Bool :=
  if server.connected then
    match fate with
    | .done => (server.performs request, true)
    | .refused => (server, false)
    | .lostBefore => (server.drop, false)
    | .lostAfter => ((server.performs request).drop, false)
  else (server, false)

/-- `mysql_ping`. -/
def ping (loses : Bool) : Server × Bool :=
  if server.connected then (if loses then (server.drop, false) else (server, true))
  else (server, false)

/-- `reconnect`: a fresh connection has no transaction. -/
def reconnect : Reconnection → Server × Bool
  | .none => (server, false)
  | .incomplete => ({ server with connected := true, transaction := none }, false)
  | .complete => ({ server with connected := true, transaction := none }, true)

end Server

/-- A `db_mysql_conn` with the server it is connected to. What it reports of errors is left
out. -/
structure DbMysqlConn where
  initialized : Bool
  isTransaction : Bool
  server : Server
  deriving DecidableEq

namespace DbMysqlConn

variable (conn : DbMysqlConn)

/-- A request of `begin_transaction`, `execute` or `query`: where it fails and the connection
turns out to be lost, it is made once more over a fresh one. -/
def sends (server : Server) (request : Request) (luck : Luck) : Server × Bool :=
  let (server, returned) := server.request request luck.fate
  if returned then (server, true)
  else
    let (server, connected) := server.ping luck.pingLoses
    if connected then (server, false)
    else
      let (server, connected) := server.reconnect luck.reconnection
      if connected then server.request request luck.again else (server, false)

def beginTransaction (number : Nat) (luck : Luck) : DbMysqlConn × Bool :=
  if conn.initialized then
    let (server, returned) := sends conn.server (.begin_ number) luck
    ({ conn with server := server, isTransaction := conn.isTransaction || returned }, returned)
  else (conn, false)

def execute (statement : Statement) (luck : Luck) : DbMysqlConn × Bool :=
  if conn.initialized then
    let (server, returned) := sends conn.server (.statement statement) luck
    ({ conn with server := server }, returned)
  else (conn, false)

/-- `query`, of a statement that changes nothing. -/
def query (luck : Luck) : DbMysqlConn × Bool :=
  if conn.initialized then
    let (server, returned) := sends conn.server .select luck
    ({ conn with server := server }, returned)
  else (conn, false)

def commit (fate : Fate) : DbMysqlConn × Bool :=
  if conn.initialized then
    let (server, returned) := conn.server.request .commit fate
    ({ conn with server := server, isTransaction := false }, returned)
  else (conn, false)

def rollback (fate : Fate) : DbMysqlConn × Bool :=
  if conn.initialized then
    let (server, returned) := conn.server.request .rollback fate
    ({ conn with server := server, isTransaction := false }, returned)
  else (conn, false)

/-- `release_conn`: it commits, whatever is open, and closes the connection. -/
def releaseConn (fate : Fate) : DbMysqlConn × Bool :=
  if conn.initialized then
    ({ (conn.commit fate).1 with
        initialized := false
        server := (conn.commit fate).1.server.drop }, false)
  else (conn, false)

end DbMysqlConn

/-! ## A sequence of calls -/

inductive Call where
  | beginTransaction
  | execute (sql : String)
  | query
  | commit
  | rollback
  | releaseConn
  deriving DecidableEq

/-- A call is made, or the connection is lost between calls. -/
inductive Input where
  | call (call : Call) (luck : Luck)
  | loses
  deriving DecidableEq

/-- A transaction that was begun and has not ended: the statements executed in it. Another
`begin_transaction` made inside it has committed some of them, or has lost the connection and
with it some of them. -/
structure Begun where
  number : Nat
  statements : List Statement := []
  committed : Bool := false
  lost : Bool := false
  deriving DecidableEq

/-- A transaction that has ended, and whether by a commit that returned true. -/
structure Ended where
  committed : Bool
  statements : List Statement
  deriving DecidableEq

/-- The connection, how many calls were made, and the transactions begun: those that have not
ended, the last one first, and those that have. -/
structure Record where
  conn : DbMysqlConn
  calls : Nat
  begun : List Begun
  ended : List Ended
  deriving DecidableEq

namespace Record

/-- A connection that was initialised. -/
def new : Record := ⟨⟨true, false, ⟨true, none, []⟩⟩, 0, [], []⟩

variable (record : Record)

/-- The statements executed since the last begin. -/
def inner : List Statement :=
  match record.begun with
  | begun :: _ => begun.statements
  | [] => []

/-- The first request of a call is done by the server. -/
def reaches (fate : Fate) : Bool :=
  record.conn.initialized && record.conn.server.connected && (fate == .done || fate == .lostAfter)

/-- A call loses the connection before its request is done. -/
def breaksOff (luck : Luck) : Bool :=
  record.conn.initialized && record.conn.server.connected &&
    (luck.fate == .lostBefore || luck.fate == .refused && luck.pingLoses)

/-- A transaction inside which `begin_transaction` is called again, after statements. -/
def interrupted (luck : Luck) (begun : Begun) : Begun :=
  if record.inner = [] then begun
  else { begun with
    committed := begun.committed || record.reaches luck.fate
    lost := begun.lost || record.breaksOff luck }

/-- All transactions end. -/
def ends (committed : Bool) : List Ended :=
  record.ended ++ record.begun.map fun begun => ⟨committed, begun.statements⟩

/-- The record after a call. -/
def called (luck : Luck) : Call → Record
  | .beginTransaction =>
      let (conn, returned) := record.conn.beginTransaction record.calls luck
      { record with
        conn := conn
        calls := record.calls + 1
        begun := (if returned then [⟨record.calls, [], false, false⟩] else []) ++
          record.begun.map (record.interrupted luck) }
  | .execute sql =>
      let (conn, returned) := record.conn.execute ⟨record.calls, sql⟩ luck
      { record with
        conn := conn
        calls := record.calls + 1
        begun := if returned then
            record.begun.map fun begun =>
              { begun with statements := begun.statements ++ [⟨record.calls, sql⟩] }
          else record.begun }
  | .query => { record with conn := (record.conn.query luck).1, calls := record.calls + 1 }
  | .commit =>
      let (conn, returned) := record.conn.commit luck.fate
      ⟨conn, record.calls + 1, [], record.ends returned⟩
  | .rollback =>
      ⟨(record.conn.rollback luck.fate).1, record.calls + 1, [], record.ends false⟩
  | .releaseConn =>
      ⟨(record.conn.releaseConn luck.fate).1, record.calls + 1, [], record.ends false⟩

def step : Input → Record
  | .call call luck => record.called luck call
  | .loses => { record with conn := { record.conn with server := record.conn.server.drop } }

end Record

end Cube.Libmysql
