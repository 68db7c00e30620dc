import Cube.Eco.Net.TcpServer
import Cube.Eco.Net.TcpProtocol

/-! # Dispatching received messages to sessions

`DispatchServer.cpp`, the server's side: a received message is decoded, the session it names
is opened and the message goes to the handler of its type. A session is looked up by its id
alone, so it is opened on whatever connection presents the id.
-/

namespace Cube.Eco.Net

variable {D : Type}

/-- A received message with what it came from: `m_peer_wptr` as the id of the peer it locks
to, none once the peer has expired, and the protocol, which a heartbeat does not have. -/
structure DataContext where
  data : EcoString
  category : MessageCategory
  prot : Option Protocol
  peer : Option ConnectionId

structure TcpSession (D : Type) where
  sessionId : SessionId
  session : Option D
  conn : ConnectionId
  deriving DecidableEq, Repr

structure Context (D : Type) where
  data : EcoString
  message : Bytes
  messageMeta : MessageMeta
  session : TcpSession D
  deriving DecidableEq, Repr

/-- `TcpSessionOuter::open` for a session of a server: whether there is one, and the session
opened. -/
def TcpSession.open (sess : TcpSession D) (server : TcpServer D) (sessionId : SessionId) :
    Bool × TcpSession D :=
  match server.findSession sessionId with
  | some found => (true, { sess with session := some found, sessionId := sessionId })
  | none => (false, sess)

/-- `handle_server_context`: whether to dispatch, and the context with its session opened. -/
def handleServerContext (server : TcpServer D) (c : Context D) : Bool × Context D :=
  if c.messageMeta.sessionId ≠ noneSession then
    let (opened, sess) := c.session.open server c.messageMeta.sessionId
    let c := { c with session := sess }
    if !opened then (false, c)
    else (has16 c.messageMeta.category categoryMessage, c)
  else (has16 c.messageMeta.category categoryMessage, c)

/-- What becomes of a received message: its peer has expired, it is a heartbeat and answered
or not, it is refused, or it is dispatched by its type. -/
inductive Handled (D : Type) where
  | expired
  | heartbeat (answered : Bool)
  | refused
  | dispatched (type : UInt32) (c : Context D)
  deriving DecidableEq, Repr

/-- `DispatchHandler::operator()`. The sessions of the server stay as they are. -/
def dispatchHandler (server : TcpServer D) (responseHeartbeat : Bool) (dc : DataContext) :
    Outcome Error (Handled D) :=
  match dc.peer with
  | none => .ok .expired
  | some peerId =>
      if has16 dc.category categoryHeartbeat then .ok (.heartbeat responseHeartbeat)
      else
        match dc.prot with
        | none => .fault
        | some prot => do
            let (messageMeta, message, data) ← prot.decode (.ofCategory dc.category) dc.data
            let sess := { sessionId := noneSession, session := none, conn := peerId }
            let (handled, c) := handleServerContext server ⟨data, message, messageMeta, sess⟩
            if handled then .ok (.dispatched c.messageMeta.messageType c) else .ok .refused

/-- What happens at a server: one of its sessions changes, or a message is received. -/
inductive Event (D : Type) where
  | call (call : TcpServer.Call D)
  | received (dc : DataContext)

def TcpServer.turn (server : TcpServer D) : Event D → TcpServer D
  | .call call => server.step call
  | .received _ => server

/-- The session id that a received message carries. -/
def DataContext.Carries (dc : DataContext) (id : SessionId) : Prop :=
  ∃ prot read, dc.prot = some prot ∧ prot.decode (.ofCategory dc.category) dc.data = .ok read ∧
    read.1.sessionId = id

/-- A session was added under the id by a call of the run, and is stored under it ever
since. -/
def AddedBy (initial : TcpServer D) (events : List (Event D)) (id : SessionId) (session : D) :
    Prop :=
  ∃ before conn after, events = before ++ .call (.addSession conn (some session)) :: after ∧
    ((Run.final TcpServer.turn initial before).addSession conn (some session)).1 =
      some (id, some session) ∧
    ∀ between later, after = between ++ later →
      (Run.final TcpServer.turn initial
        (before ++ .call (.addSession conn (some session)) :: between)).findSession id =
          some session

/-! ## Sessions are found under the id they were added with -/

namespace TcpServer

/-- Only adding a session makes it found. -/
theorem findSession_step {server : TcpServer D} {call : Call D} {id : SessionId} {session : D}
    (absent : server.findSession id ≠ some session)
    (present : (server.step call).findSession id = some session) :
    ∃ conn, call = .addSession conn (some session) ∧
      (server.addSession conn (some session)).1 = some (id, some session) := by
  cases call with
  | addSession conn newSess =>
      rcases addSession_cases server conn newSess with refused | ⟨_, sessId, taken, next, added⟩
      · rw [step, refused] at present
        exact (absent present).elim
      · have sessions : taken.sessionMap = server.sessionMap := by
          unfold nextSessionId at next
          split at next
          all_goals exact congrArg (fun pair => pair.2.sessionMap) next.symm
        rw [step, added] at present
        change ((taken.sessionMap.insert sessId newSess).lookup id).join = some session at present
        by_cases same : id = sessId
        · rw [same, AList.lookup_insert, Option.join_some] at present
          subst present
          rw [same]
          exact ⟨conn, rfl, congrArg Prod.fst added⟩
        · rw [AList.lookup_insert_ne same, sessions] at present
          exact (absent present).elim
  | eraseSession sessId connId =>
      obtain ⟨_, _, lookups, _⟩ := eraseSession_spec server connId sessId
      rw [step, findSession, lookups] at present
      split at present
      · cases present
      · exact (absent present).elim
  | clearConnSession connId =>
      obtain ⟨_, _, lookups, _⟩ := clearConnSession_spec server connId
      rw [step, findSession, lookups] at present
      split at present
      · cases present
      · exact (absent present).elim

/-- **Provenance.** A session that is found was added by a call of the run. -/
theorem addedBy_of_findSession {sessionMode : Bool} {maxSessionSize : UInt32}
    {events : List (Event D)} {id : SessionId} {session : D}
    (found : (Run.final turn (start sessionMode maxSessionSize) events).findSession id =
      some session) :
    AddedBy (start sessionMode maxSessionSize) events id session := by
  have absent : ¬ (start sessionMode maxSessionSize : TcpServer D).findSession id =
      some session := by
    rw [findSession, start, AList.lookup_empty, Option.join_none]
    exact Option.some_ne_none session ∘ Eq.symm
  obtain ⟨before, event, after, split, absentBefore, since⟩ := Run.exists_established
    (fun server : TcpServer D => server.findSession id = some session) absent found
  have present := since [] after rfl
  rw [Run.final_append] at present
  cases event with
  | received dc => exact (absentBefore present).elim
  | call call =>
      obtain ⟨conn, rfl, added⟩ := findSession_step absentBefore present
      exact ⟨before, conn, after, split, added, since⟩

end TcpServer

/-! ## Dispatched messages -/

/-- A session that is opened for a message is the one stored under the id the message
carries. -/
theorem handleServerContext_opened {server : TcpServer D} {c opened : Context D}
    (handled : handleServerContext server c = (true, opened)) :
    opened.messageMeta = c.messageMeta ∧
      (c.messageMeta.sessionId ≠ noneSession →
        opened.session.sessionId = c.messageMeta.sessionId ∧
          ∃ session, opened.session.session = some session ∧
            server.findSession c.messageMeta.sessionId = some session) := by
  unfold handleServerContext at handled
  split at handled
  · unfold TcpSession.open at handled
    cases found : server.findSession c.messageMeta.sessionId with
    | none =>
        rw [found] at handled
        cases handled
    | some session =>
        rw [found] at handled
        obtain ⟨_, rfl⟩ := Prod.mk.inj handled
        exact ⟨rfl, fun _ => ⟨rfl, session, rfl, rfl⟩⟩
  next anonymous =>
    obtain ⟨_, rfl⟩ := Prod.mk.inj handled
    exact ⟨rfl, fun named => (anonymous named).elim⟩

theorem TcpSession.open_congr {first second : TcpServer D} {id : SessionId}
    (same : first.findSession id = second.findSession id) (sess : TcpSession D) :
    sess.open first id = sess.open second id := by
  rw [TcpSession.open, same]
  rfl

theorem handleServerContext_congr {first second : TcpServer D} {c : Context D}
    (same : first.findSession c.messageMeta.sessionId =
      second.findSession c.messageMeta.sessionId) :
    handleServerContext first c = handleServerContext second c := by
  rw [handleServerContext, TcpSession.open_congr same]
  rfl

theorem dispatchHandler_opened {server : TcpServer D} {responseHeartbeat : Bool}
    {dc : DataContext} {type : UInt32} {c : Context D}
    (dispatched : dispatchHandler server responseHeartbeat dc = .ok (.dispatched type c))
    (named : c.messageMeta.sessionId ≠ noneSession) :
    c.session.sessionId = c.messageMeta.sessionId ∧
      ∃ session, c.session.session = some session ∧
        server.findSession c.messageMeta.sessionId = some session := by
  unfold dispatchHandler at dispatched
  split at dispatched
  · cases dispatched
  · split at dispatched
    · cases dispatched
    · split at dispatched
      · cases dispatched
      · obtain ⟨⟨messageMeta, message, data⟩, _, rest⟩ := Outcome.bind_eq_ok.mp dispatched
        dsimp only at rest
        split at rest
        next succeeded =>
          obtain ⟨_, rfl⟩ := Handled.dispatched.inj (Outcome.ok.inj rest)
          obtain ⟨keeps, opened⟩ := handleServerContext_opened (Prod.ext succeeded rfl)
          rw [keeps] at named ⊢
          exact opened named
        next => cases rest

/-- Servers that store the same session under the id of a message do the same with it. -/
theorem dispatchHandler_congr {first second : TcpServer D} {responseHeartbeat : Bool}
    {dc : DataContext}
    (same : ∀ id, dc.Carries id → first.findSession id = second.findSession id) :
    dispatchHandler first responseHeartbeat dc = dispatchHandler second responseHeartbeat dc := by
  unfold dispatchHandler
  split
  · rfl
  · split
    · rfl
    · split
      · rfl
      next prot known =>
        cases decoded : prot.decode (.ofCategory dc.category) dc.data with
        | ok read =>
            have agree := same read.1.sessionId ⟨prot, read, known, decoded, rfl⟩
            obtain ⟨messageMeta, message, data⟩ := read
            simp only [Outcome.ok_bind]
            rw [handleServerContext_congr agree]
        | reject error => rfl
        | fault => rfl

/-- **Sessions of dispatched messages.** In every run a message that carries a session id is
dispatched with a session that was added under this id and has been stored since, on whatever
connection; and in two runs that store the same session under the id a message carries, the
same becomes of the message. -/
theorem dispatched_session :
    (∀ (sessionMode : Bool) (maxSessionSize : UInt32) (events : List (Event D))
        (responseHeartbeat : Bool) (dc : DataContext) (type : UInt32) (c : Context D),
      dispatchHandler (Run.final TcpServer.turn (.start sessionMode maxSessionSize) events)
        responseHeartbeat dc = .ok (.dispatched type c) →
      c.messageMeta.sessionId ≠ noneSession →
      c.session.sessionId = c.messageMeta.sessionId ∧
        ∃ session, c.session.session = some session ∧
          AddedBy (.start sessionMode maxSessionSize) events c.session.sessionId session) ∧
    ∀ (sessionMode : Bool) (maxSessionSize : UInt32) (first second : List (Event D))
        (responseHeartbeat : Bool) (dc : DataContext),
      (∀ id, dc.Carries id →
        (Run.final TcpServer.turn (.start sessionMode maxSessionSize) first).findSession id =
          (Run.final TcpServer.turn (.start sessionMode maxSessionSize) second).findSession id) →
      dispatchHandler (Run.final TcpServer.turn (.start sessionMode maxSessionSize) first)
          responseHeartbeat dc =
        dispatchHandler (Run.final TcpServer.turn (.start sessionMode maxSessionSize) second)
          responseHeartbeat dc := by
  refine ⟨?_, ?_⟩
  · intro sessionMode maxSessionSize events responseHeartbeat dc type c dispatched named
    obtain ⟨opened, session, attached, found⟩ := dispatchHandler_opened dispatched named
    rw [opened]
    exact ⟨rfl, session, attached, TcpServer.addedBy_of_findSession found⟩
  · intro sessionMode maxSessionSize first second responseHeartbeat dc same
    exact dispatchHandler_congr same

/-- A message of type 258 for session 1, received on connection 2. -/
def orderBytes : EcoString := ⟨[1, 0x41, 0, 10, 0, 0x12, 0, 0, 0, 1, 1, 2, 104, 105], by decide⟩

def order : DataContext where
  data := orderBytes
  category := 0x41
  prot := some TcpProtocol.new.toProtocol
  peer := some 2

/-- The order as it is dispatched with session 1. -/
def orderContext : Context Unit where
  data := orderBytes
  message := ⟨12, 2⟩
  messageMeta := ⟨0x41, 0, 0x12, 1, 258, 0, none⟩
  session := ⟨1, some (), 2⟩

/-- The order is dispatched with the session of connection 1, and it is refused in the run
without the session of connection 1. -/
theorem dispatched_with_other_session :
    let events : List (Event Unit) := [.call (.addSession 1 (some ()))]
    dispatchHandler (Run.final TcpServer.turn (.start true 8) events) true order =
        .ok (.dispatched 258 orderContext) ∧
      (∀ newSess, .call (.addSession orderContext.session.conn newSess) ∉ events) ∧
      dispatchHandler (Run.final TcpServer.turn (.start true 8 : TcpServer Unit) []) true order =
        .ok .refused := by
  refine ⟨by decide, ?_, by decide⟩
  intro newSess member
  cases List.mem_singleton.mp member

private theorem order_carries {id : SessionId} (carries : order.Carries id) : id = 1 := by
  obtain ⟨prot, read, known, decoded, rfl⟩ := carries
  cases known
  have evaluated : TcpProtocol.new.toProtocol.decode (.ofCategory order.category) order.data =
      .ok (orderContext.messageMeta, orderContext.message, orderContext.data) := by decide
  rw [evaluated] at decoded
  cases decoded
  rfl

/-- The session of the order was added for connection 1, and a session that is added for
connection 3 does not matter to it. -/
theorem dispatched_session_order :
    let events : List (Event Unit) := [.call (.addSession 1 (some ()))]
    let more := events ++ [.call (.addSession 3 (some ()))]
    (orderContext.session.sessionId = orderContext.messageMeta.sessionId ∧
      ∃ session, orderContext.session.session = some session ∧
        AddedBy (.start true 8) events orderContext.session.sessionId session) ∧
      dispatchHandler (Run.final TcpServer.turn (.start true 8) events) true order =
        dispatchHandler (Run.final TcpServer.turn (.start true 8) more) true order := by
  refine ⟨dispatched_session.1 true 8 _ true order 258 orderContext (by decide) (by decide),
    dispatched_session.2 true 8 _ _ true order fun id carries => ?_⟩
  rw [order_carries carries]
  decide

end Cube.Eco.Net
