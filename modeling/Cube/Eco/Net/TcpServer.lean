import Cube.Lib.OrderedSet
import Cube.Lib.Run
import Cube.Eco.Net.Protocol
import Mathlib.Data.List.AList

/-! # Sessions of the TCP server

`TcpServer.ipp`: the sessions by their id, the ids that can be used again, and for each
connection the ids of the sessions it has authenticated. A session is closed by whatever
connection its closer carries.
-/

namespace Cube.Eco.Net

abbrev ConnectionId := UInt64
abbrev SessionSet := OrderedSet SessionId

/-- What the server knows of sessions. `D` is the session data, and a session pointer can
be null. `sessionMode` says whether a function that makes sessions is registered,
`m_next_session_id` is the id issued last, and the id recycled last comes first. -/
structure TcpServer (D : Type) where
  sessionMode : Bool
  maxSessionSize : UInt32
  lastSessionId : SessionId
  leftSessionIds : List SessionId
  sessionMap : AList fun _ : SessionId => Option D
  connSession : AList fun _ : ConnectionId => SessionSet

namespace TcpServer

variable {D : Type}

/-- A server before its first session. -/
def start (sessionMode : Bool) (maxSessionSize : UInt32) : TcpServer D where
  sessionMode := sessionMode
  maxSessionSize := maxSessionSize
  lastSessionId := noneSession
  leftSessionIds := []
  sessionMap := ∅
  connSession := ∅

/-- `next_session_id`: reuse a recycled id, or issue a new one. -/
def nextSessionId (server : TcpServer D) : SessionId × TcpServer D :=
  match server.leftSessionIds with
  | id :: left => (id, { server with leftSessionIds := left })
  | [] => (server.lastSessionId + 1, { server with lastSessionId := server.lastSessionId + 1 })

/-- `find_session`: the stored pointer, null if there is none. -/
def findSession (server : TcpServer D) (id : SessionId) : Option D :=
  (server.sessionMap.lookup id).join

/-- The ids of the sessions of a connection. -/
def sessionsOf (server : TcpServer D) (connId : ConnectionId) : SessionSet :=
  (server.connSession.lookup connId).getD .empty

def addConnSession (server : TcpServer D) (connId : ConnectionId) (sessId : SessionId) :
    TcpServer D :=
  { server with
    connSession := server.connSession.insert connId ((server.sessionsOf connId).insert sessId) }

def eraseConnSession (server : TcpServer D) (connId : ConnectionId) (sessId : SessionId) :
    TcpServer D :=
  match server.connSession.lookup connId with
  | some set => { server with connSession := server.connSession.insert connId (set.erase sessId) }
  | none => server

/-- `add_session`: the id and the session stored under it, none if no session is added.
`newSess` is what the function that makes sessions returns. -/
def addSession (server : TcpServer D) (conn : ConnectionId) (newSess : Option D) :
    Option (SessionId × Option D) × TcpServer D :=
  if !server.sessionMode then (none, server)
  else if server.sessionMap.keys.length ≥ server.maxSessionSize.toNat then (none, server)
  else
    let (sessId, server) := server.nextSessionId
    let server := { server with sessionMap := server.sessionMap.insert sessId newSess }
    (some (sessId, newSess), server.addConnSession conn sessId)

def eraseSession (server : TcpServer D) (sessId : SessionId) (connId : ConnectionId) :
    TcpServer D :=
  let server :=
    if sessId ∈ server.sessionMap then
      { server with
        sessionMap := server.sessionMap.erase sessId
        leftSessionIds := sessId :: server.leftSessionIds }
    else server
  server.eraseConnSession connId sessId

/-- One turn of the loop of `clear_conn_session`. -/
def recycle (server : TcpServer D) (sessId : SessionId) : TcpServer D :=
  { server with
    sessionMap := server.sessionMap.erase sessId
    leftSessionIds := sessId :: server.leftSessionIds }

def clearConnSession (server : TcpServer D) (connId : ConnectionId) : TcpServer D :=
  match server.connSession.lookup connId with
  | some set =>
      let server := set.toList.foldl recycle server
      { server with connSession := server.connSession.erase connId }
  | none => server

/-- A call that changes the sessions of the server. A session is erased under the connection
id that its closer carries. -/
inductive Call (D : Type) where
  | addSession (conn : ConnectionId) (newSess : Option D)
  | eraseSession (sessId : SessionId) (connId : ConnectionId)
  | clearConnSession (connId : ConnectionId)
  deriving DecidableEq, Repr

/-- The connection a call is made for. -/
def Call.connection : Call D → ConnectionId
  | .addSession conn _ => conn
  | .eraseSession _ connId => connId
  | .clearConnSession connId => connId

def step (server : TcpServer D) : Call D → TcpServer D
  | .addSession conn newSess => (server.addSession conn newSess).2
  | .eraseSession sessId connId => server.eraseSession sessId connId
  | .clearConnSession connId => server.clearConnSession connId

/-! ## What the operations change -/

section Operations

variable (server : TcpServer D) (connId other : ConnectionId) (sessId id : SessionId)

@[simp] theorem nextSessionId_sessionMap :
    server.nextSessionId.2.sessionMap = server.sessionMap := by
  unfold nextSessionId
  split <;> rfl

@[simp] theorem nextSessionId_sessionsOf :
    server.nextSessionId.2.sessionsOf connId = server.sessionsOf connId := by
  unfold nextSessionId
  split <;> rfl

theorem mem_sessionsOf_addConnSession :
    id ∈ (server.addConnSession connId sessId).sessionsOf other ↔
      (other = connId ∧ id = sessId) ∨ id ∈ server.sessionsOf other := by
  by_cases same : other = connId
  · subst same
    rw [sessionsOf, addConnSession, AList.lookup_insert, Option.getD_some, OrderedSet.mem_insert]
    simp only [true_and]
  · rw [sessionsOf, addConnSession, AList.lookup_insert_ne same, sessionsOf]
    simp only [same, false_and, false_or]

theorem mem_sessionsOf_eraseConnSession :
    id ∈ (server.eraseConnSession connId sessId).sessionsOf other ↔
      id ∈ server.sessionsOf other ∧ ¬ (other = connId ∧ id = sessId) := by
  unfold eraseConnSession
  cases found : server.connSession.lookup connId with
  | none =>
      refine ⟨fun member => ⟨member, fun same => ?_⟩, fun member => member.1⟩
      rw [sessionsOf, same.1, found] at member
      exact OrderedSet.not_mem_empty _ member
  | some set =>
      by_cases same : other = connId
      · subst same
        simp only [sessionsOf, AList.lookup_insert, found, Option.getD_some,
          OrderedSet.mem_erase, true_and, ne_eq]
      · simp only [sessionsOf, AList.lookup_insert_ne same, same, false_and, not_false_eq_true,
          and_true]

@[simp] theorem eraseConnSession_sessionMap :
    (server.eraseConnSession connId sessId).sessionMap = server.sessionMap := by
  unfold eraseConnSession
  split <;> rfl

@[simp] theorem eraseConnSession_leftSessionIds :
    (server.eraseConnSession connId sessId).leftSessionIds = server.leftSessionIds := by
  unfold eraseConnSession
  split <;> rfl

@[simp] theorem eraseConnSession_lastSessionId :
    (server.eraseConnSession connId sessId).lastSessionId = server.lastSessionId := by
  unfold eraseConnSession
  split <;> rfl

/-- Recycling ids removes their sessions and nothing else. -/
theorem foldl_recycle (ids : List SessionId) :
    (ids.foldl recycle server).leftSessionIds = ids.reverse ++ server.leftSessionIds ∧
      (ids.foldl recycle server).lastSessionId = server.lastSessionId ∧
      (ids.foldl recycle server).connSession = server.connSession ∧
      ∀ id, (ids.foldl recycle server).sessionMap.lookup id =
        if id ∈ ids then none else server.sessionMap.lookup id := by
  induction ids generalizing server with
  | nil => exact ⟨rfl, rfl, rfl, fun id => (if_neg List.not_mem_nil).symm⟩
  | cons first ids ih =>
      obtain ⟨left, last, conns, found⟩ := ih (server.recycle first)
      refine ⟨?_, last, conns, fun id => ?_⟩
      · rw [List.foldl_cons, left, List.reverse_cons, List.append_assoc]
        rfl
      · rw [List.foldl_cons, found]
        by_cases later : id ∈ ids
        · rw [if_pos later, if_pos (List.mem_cons_of_mem _ later)]
        · rw [if_neg later, recycle]
          by_cases same : id = first
          · rw [same, AList.lookup_erase, if_pos List.mem_cons_self]
          · have absent : id ∉ first :: ids := fun member =>
              (List.mem_cons.mp member).elim same later
            rw [AList.lookup_erase_ne same, if_neg absent]

/-- What `erase_session` does: the session and its id under the connection are gone, and the
id is recycled if there was a session. -/
theorem eraseSession_spec :
    (server.eraseSession sessId connId).leftSessionIds =
        (if sessId ∈ server.sessionMap then sessId :: server.leftSessionIds
          else server.leftSessionIds) ∧
      (server.eraseSession sessId connId).lastSessionId = server.lastSessionId ∧
      (∀ id, (server.eraseSession sessId connId).sessionMap.lookup id =
        if id = sessId then none else server.sessionMap.lookup id) ∧
      ∀ other id, id ∈ (server.eraseSession sessId connId).sessionsOf other ↔
        id ∈ server.sessionsOf other ∧ ¬ (other = connId ∧ id = sessId) := by
  unfold eraseSession
  by_cases stored : sessId ∈ server.sessionMap
  · simp only [stored, if_true, eraseConnSession_leftSessionIds, eraseConnSession_lastSessionId,
      eraseConnSession_sessionMap, true_and]
    refine ⟨fun id => ?_, fun other id => mem_sessionsOf_eraseConnSession _ _ _ _ _⟩
    split
    next same => rw [same, AList.lookup_erase]
    next different => rw [AList.lookup_erase_ne different]
  · simp only [stored, if_false, eraseConnSession_leftSessionIds,
      eraseConnSession_lastSessionId, eraseConnSession_sessionMap, true_and]
    refine ⟨fun id => ?_, fun other id => mem_sessionsOf_eraseConnSession _ _ _ _ _⟩
    split
    next same => rw [same, AList.lookup_eq_none.mpr stored]
    next => rfl

/-- What `clear_conn_session` does: every session of the connection is removed and its id
recycled, and the connection is forgotten. -/
theorem clearConnSession_spec :
    (server.clearConnSession connId).leftSessionIds =
        (server.sessionsOf connId).toList.reverse ++ server.leftSessionIds ∧
      (server.clearConnSession connId).lastSessionId = server.lastSessionId ∧
      (∀ id, (server.clearConnSession connId).sessionMap.lookup id =
        if id ∈ server.sessionsOf connId then none else server.sessionMap.lookup id) ∧
      ∀ other id, id ∈ (server.clearConnSession connId).sessionsOf other ↔
        other ≠ connId ∧ id ∈ server.sessionsOf other := by
  unfold clearConnSession
  cases found : server.connSession.lookup connId with
  | none =>
      have nothing : server.sessionsOf connId = .empty := by
        rw [sessionsOf, found, Option.getD_none]
      refine ⟨by rw [nothing]; rfl, rfl, fun id => ?_, fun other id => ?_⟩
      · rw [nothing, if_neg (OrderedSet.not_mem_empty id)]
      · refine ⟨fun member => ⟨fun same => ?_, member⟩, fun member => member.2⟩
        rw [same, nothing] at member
        exact OrderedSet.not_mem_empty id member
  | some set =>
      have sessions : server.sessionsOf connId = set := by
        rw [sessionsOf, found, Option.getD_some]
      obtain ⟨left, last, conns, lookups⟩ := foldl_recycle server set.toList
      refine ⟨by rw [sessions]; exact left, last, fun id => ?_, fun other id => ?_⟩
      · rw [sessions]
        exact lookups id
      · simp only [sessionsOf, conns]
        by_cases same : other = connId
        · rw [same, AList.lookup_erase, Option.getD_none]
          exact ⟨fun member => (OrderedSet.not_mem_empty id member).elim,
            fun member => (member.1 rfl).elim⟩
        · rw [AList.lookup_erase_ne same]
          exact ⟨fun member => ⟨same, member⟩, fun member => member.2⟩

/-- What `add_session` does: nothing, or it stores the session under the next id. -/
theorem addSession_cases (newSess : Option D) :
    server.addSession connId newSess = (none, server) ∨
      (server.sessionMap.keys.length < server.maxSessionSize.toNat ∧
        ∃ sessId taken, server.nextSessionId = (sessId, taken) ∧
          server.addSession connId newSess =
            (some (sessId, newSess), { taken with
              sessionMap := taken.sessionMap.insert sessId newSess }.addConnSession connId
                sessId)) := by
  unfold addSession
  split
  · exact .inl rfl
  · split
    · exact .inl rfl
    next room => exact .inr ⟨Nat.lt_of_not_le room, _, _, rfl, rfl⟩

end Operations

end TcpServer

end Cube.Eco.Net
