import Cube.Lib.IdPool
import Cube.Lib.Interleaving
import Cube.Eco.Net.TcpServer

/-! # The lifetime of a session

Business threads add and erase sessions while connections are closed. `add_session` stores the
session before it enters its id under the connection, and `erase_session` recycles the id
before it takes it out there, each under a lock of its own. `clear_conn_session` holds the lock
of the connections over its loop, which erases each session under the lock of the sessions and
recycles its id when it has left that. No session outlives its connection, and no id is lost,
as long as what happens in between leaves the second half something to do.
-/

namespace Cube.Eco.Net

namespace TcpServer

variable {D : Type}

/-- The first half of `erase_session`, under the mutex of the session map. -/
def recycleSession (server : TcpServer D) (sessId : SessionId) : TcpServer D :=
  if sessId ∈ server.sessionMap then
    { server with
      sessionMap := server.sessionMap.erase sessId
      leftSessionIds := sessId :: server.leftSessionIds }
  else server

theorem eraseSession_eq (server : TcpServer D) (sessId : SessionId) (connId : ConnectionId) :
    server.eraseSession sessId connId =
      (server.recycleSession sessId).eraseConnSession connId sessId := rfl

end TcpServer

/-- The server, whether a thread holds the mutex of the connections between two steps, the ids
that `next_session_id` has returned so far, and the connections whose `on_close` has run. -/
structure Sessions (D : Type) where
  server : TcpServer D
  connLocked : Bool
  handedOut : List SessionId
  closed : List ConnectionId

namespace Sessions

variable {ι D : Type}

/-- What a thread can do. `newSess` is what the function that makes sessions returns. -/
inductive Call (D : Type) where
  | addSession (conn : ConnectionId) (newSess : Option D)
  | eraseSession (sessId : SessionId) (connId : ConnectionId)
  | onClose (connId : ConnectionId)
  deriving DecidableEq

/-- Where a thread stands: at the check of `add_session`, before `next_session_id`, before
`m_session_map.set`, before `add_conn_session`; at the two halves of `erase_session`; before
`on_close` locks the mutex of the connections, and holding it, in the loop of
`clear_conn_session` with the ids to come, and there between the erasure of a session and the
recycling of its id. -/
inductive Operation (D : Type) where
  | check (conn : ConnectionId) (newSess : Option D)
  | next (conn : ConnectionId) (newSess : Option D)
  | set (conn : ConnectionId) (newSess : Option D) (sessId : SessionId)
  | addConn (conn : ConnectionId) (sessId : SessionId)
  | recycle (sessId : SessionId) (connId : ConnectionId)
  | eraseConn (sessId : SessionId) (connId : ConnectionId)
  | close (connId : ConnectionId)
  | clear (connId : ConnectionId) (sessIds : List SessionId)
  | pushBack (connId : ConnectionId) (sessId : SessionId) (sessIds : List SessionId)
  deriving DecidableEq

def Call.operation : Call D → Operation D
  | .addSession conn newSess => .check conn newSess
  | .eraseSession sessId connId => .recycle sessId connId
  | .onClose connId => .close connId

def start (sessionMode : Bool) (maxSessionSize : UInt32) : Sessions D :=
  ⟨.start sessionMode maxSessionSize, false, [], []⟩

section Operations

variable (sessions : Sessions D)

/-- An id counts once, however often it is reused. -/
def handOut (sessId : SessionId) : List SessionId :=
  if sessId ∈ sessions.handedOut then sessions.handedOut else sessId :: sessions.handedOut

/-- One step. A thread that needs the mutex of the connections while another one holds it stays
where it is. -/
def advance : Operation D → Sessions D × Option (Operation D)
  | .check conn newSess =>
      if !sessions.server.sessionMode then (sessions, none)
      else if sessions.server.sessionMap.keys.length ≥ sessions.server.maxSessionSize.toNat then
        (sessions, none)
      else (sessions, some (.next conn newSess))
  | .next conn newSess =>
      let (sessId, server) := sessions.server.nextSessionId
      ({ sessions with server := server, handedOut := sessions.handOut sessId },
        some (.set conn newSess sessId))
  | .set conn newSess sessId =>
      ({ sessions with server :=
          { sessions.server with
            sessionMap := sessions.server.sessionMap.insert sessId newSess } },
        some (.addConn conn sessId))
  | .addConn conn sessId =>
      if sessions.connLocked then (sessions, some (.addConn conn sessId))
      else ({ sessions with server := sessions.server.addConnSession conn sessId }, none)
  | .recycle sessId connId =>
      ({ sessions with server := sessions.server.recycleSession sessId },
        some (.eraseConn sessId connId))
  | .eraseConn sessId connId =>
      if sessions.connLocked then (sessions, some (.eraseConn sessId connId))
      else ({ sessions with server := sessions.server.eraseConnSession connId sessId }, none)
  | .close connId =>
      if sessions.connLocked then (sessions, some (.close connId))
      else
        match sessions.server.connSession.lookup connId with
        | some set => ({ sessions with connLocked := true }, some (.clear connId set.toList))
        | none => ({ sessions with closed := connId :: sessions.closed }, none)
  | .clear connId (sessId :: sessIds) =>
      ({ sessions with server :=
          { sessions.server with sessionMap := sessions.server.sessionMap.erase sessId } },
        some (.pushBack connId sessId sessIds))
  | .clear connId [] =>
      ({ sessions with
          server :=
            { sessions.server with connSession := sessions.server.connSession.erase connId }
          connLocked := false
          closed := connId :: sessions.closed }, none)
  | .pushBack connId sessId sessIds =>
      ({ sessions with server :=
          { sessions.server with leftSessionIds := sessId :: sessions.server.leftSessionIds } },
        some (.clear connId sessIds))

end Operations

def program (ι D : Type) : Interleaving.Program ι (Sessions D) (Call D) (Operation D) Unit where
  enter _ sessions call := (sessions, call.operation)
  advance _ sessions operation _ := sessions.advance operation

abbrev Choice (ι D : Type) := Interleaving.Choice ι (Call D) Unit
abbrev Threads (ι D : Type) := Interleaving.Threads ι (Sessions D) (Operation D)

/-- The id is an element of the set of a connection whose `on_close` has not run. -/
def Home (sessions : Sessions D) (sessId : SessionId) : Prop :=
  ∃ conn, conn ∉ sessions.closed ∧ sessId ∈ sessions.server.sessionsOf conn

/-- No session outlives its connection and no id is lost, unless an operation is half done. -/
def Settled (threads : Threads ι D) : Prop :=
  threads.Quiescent →
    (∀ sessId ∈ threads.shared.server.sessionMap, threads.shared.Home sessId) ∧
    (threads.shared.server.sessionMap.keys ++ threads.shared.server.leftSessionIds).Perm
      threads.shared.handedOut

/-- What has to be so when an operation takes its step: the counter of ids does not overflow;
the connection that a stored session is entered under is open; the id that is taken out of a
set is not stored again; and what a close recycles is stored. -/
def Timely (sessions : Sessions D) : Operation D → Prop
  | .next _ _ => sessions.server.leftSessionIds = [] →
      sessions.server.lastSessionId.toNat + 1 < UInt32.size
  | .addConn conn sessId => sessions.connLocked = false →
      sessId ∈ sessions.server.sessionMap → conn ∉ sessions.closed
  | .eraseConn sessId connId => sessions.connLocked = false →
      sessId ∈ sessions.server.sessionMap → sessId ∉ sessions.server.sessionsOf connId
  | .clear _ (sessId :: _) => sessId ∈ sessions.server.sessionMap
  | _ => True

instance (sessions : Sessions D) (operation : Operation D) :
    Decidable (sessions.Timely operation) :=
  match operation with
  | .check _ _ | .set _ _ _ | .recycle _ _ | .close _ | .clear _ [] | .pushBack _ _ _ =>
      isTrue trivial
  | .next _ _ => inferInstanceAs (Decidable (_ = [] → _ < _))
  | .addConn _ _ => inferInstanceAs (Decidable (_ = false → _ ∈ _ → _ ∉ _))
  | .eraseConn _ _ => inferInstanceAs (Decidable (_ = false → _ ∈ _ → _ ∉ _))
  | .clear _ (_ :: _) => inferInstanceAs (Decidable (_ ∈ _))

/-- The step of the choice is timely. -/
def TimelyStep (threads : Threads ι D) (choice : Choice ι D) : Prop :=
  Interleaving.Meets Timely threads choice

instance (threads : Threads ι D) (choice : Choice ι D) : Decidable (TimelyStep threads choice) :=
  inferInstanceAs (Decidable (Interleaving.Meets Timely threads choice))

/-! ## One call at a time -/

/-- The call of the server that a call of a thread is, if nobody interrupts it. -/
def Call.toServer : Call D → TcpServer.Call D
  | .addSession conn newSess => .addSession conn newSess
  | .eraseSession sessId connId => .eraseSession sessId connId
  | .onClose connId => .clearConnSession connId

section Alone

variable {thread : ι} {sessions : Sessions D}

theorem clear_alone (connId : ConnectionId) (sessIds : List SessionId) (sessions : Sessions D) :
    (program ι D).Alone thread sessions (.clear connId sessIds)
      { sessions with
        server :=
          { sessIds.foldl TcpServer.recycle sessions.server with
            connSession :=
              (sessIds.foldl TcpServer.recycle sessions.server).connSession.erase connId }
        connLocked := false
        closed := connId :: sessions.closed } := by
  induction sessIds generalizing sessions with
  | nil => exact .returns () rfl
  | cons sessId sessIds ih => exact .goesOn () rfl (.goesOn () rfl (ih _))

/-- A call that nobody interrupts does what the server does. -/
theorem call_alone (thread : ι) (free : sessions.connLocked = false) (call : Call D) :
    ∃ after, (program ι D).Alone thread sessions call.operation after ∧
      after.server = sessions.server.step call.toServer ∧ after.connLocked = false := by
  cases call with
  | addSession conn newSess =>
      have check (operation : Option (Operation D))
          (step : sessions.advance (.check conn newSess) = (sessions, operation)) :
          (program ι D).advance thread sessions (.check conn newSess) () =
            (sessions, operation) := step
      rw [Call.toServer, TcpServer.step, TcpServer.addSession]
      by_cases mode : sessions.server.sessionMode
      · by_cases full : sessions.server.sessionMap.keys.length ≥
            sessions.server.maxSessionSize.toNat
        · simp only [mode, full, Bool.not_true, Bool.false_eq_true, ↓reduceIte]
          refine ⟨sessions, .returns () (check none ?_), rfl, free⟩
          simp only [advance, mode, full, Bool.not_true, Bool.false_eq_true, ↓reduceIte]
        · simp only [mode, full, Bool.not_true, Bool.false_eq_true, ↓reduceIte]
          refine ⟨_, .goesOn () (check (some (.next conn newSess)) ?_)
            (.goesOn () rfl (.goesOn () rfl (.returns () (if_neg ?_)))), rfl, free⟩
          · simp only [advance, mode, full, Bool.not_true, Bool.false_eq_true, ↓reduceIte]
          · exact Bool.eq_false_iff.mp free
      · simp only [mode, Bool.not_false, ↓reduceIte]
        refine ⟨sessions, .returns () (check none ?_), rfl, free⟩
        simp only [advance, mode, Bool.not_false, ↓reduceIte]
  | eraseSession sessId connId =>
      exact ⟨_, .goesOn () rfl (.returns () (if_neg (Bool.eq_false_iff.mp free))),
        (TcpServer.eraseSession_eq ..).symm, free⟩
  | onClose connId =>
      have unlocked := Bool.eq_false_iff.mp free
      cases found : sessions.server.connSession.lookup connId with
      | none =>
          have step : sessions.advance (.close connId) =
              ({ sessions with closed := connId :: sessions.closed }, none) := by
            simp only [advance, unlocked, found, Bool.false_eq_true, ↓reduceIte]
          refine ⟨_, .returns () step, ?_, free⟩
          simp only [Call.toServer, TcpServer.step, TcpServer.clearConnSession, found]
      | some set =>
          have step : sessions.advance (.close connId) =
              ({ sessions with connLocked := true }, some (.clear connId set.toList)) := by
            simp only [advance, unlocked, found, Bool.false_eq_true, ↓reduceIte]
          refine ⟨_, .goesOn () step (clear_alone connId set.toList _), ?_, rfl⟩
          simp only [Call.toServer, TcpServer.step, TcpServer.clearConnSession, found]

variable [DecidableEq ι]

/-- **Runs of the server are interleavings**: a thread that makes one call after the other,
while nobody else does anything, takes the server where its runs take it. -/
theorem exists_interleaving (calls : List (Call D)) {threads : Threads ι D}
    (idle : threads.running thread = none) (free : threads.shared.connLocked = false) :
    ∃ choices : List (Choice ι D), (Run.final (program ι D).step threads choices).shared.server =
      Run.final TcpServer.step threads.shared.server (calls.map Call.toServer) := by
  induction calls generalizing threads with
  | nil => exact ⟨[], rfl⟩
  | cons call calls ih =>
      obtain ⟨after, alone, server, freeAfter⟩ := call_alone thread free call
      have called : (threads.move thread (threads.shared, some call.operation)).running thread =
          some call.operation := Interleaving.Threads.move_running_self ..
      have returned : (threads.move thread (after, none)).running thread = none :=
        Interleaving.Threads.move_running_self ..
      obtain ⟨inputs, reached⟩ := alone.run (by rfl) called
      obtain ⟨choices, last⟩ := ih returned freeAfter
      refine ⟨.call thread call :: (inputs.map (.advance thread) ++ choices), ?_⟩
      rw [Run.final, Interleaving.Program.step_call idle, Run.final_append]
      rw [Interleaving.Threads.move_move] at reached
      rw [show (program ι D).enter thread threads.shared call = (threads.shared, call.operation)
        from rfl, reached, last, List.map_cons, Run.final, ← server]
      rfl

end Alone

/-! ## No id is lost -/

/-- The id that an operation has got, and under which it has not stored a session yet, or has
erased it and not recycled the id. -/
def Operation.held : Operation D → Option SessionId
  | .set _ _ sessId => some sessId
  | .pushBack _ sessId _ => some sessId
  | _ => none

def held (threads : Threads ι D) (thread : ι) : Option SessionId :=
  (threads.running thread).bind Operation.held

/-- Every id handed out is in use, free or held by a thread, and the counter is not behind. -/
structure Counted (threads : Threads ι D) : Prop where
  conserved : IdPool.Conserved (· ∈ threads.shared.server.sessionMap)
    threads.shared.server.leftSessionIds (held threads) threads.shared.handedOut
  bounded : ∀ sessId ∈ threads.shared.handedOut,
    sessId.toNat ≤ threads.shared.server.lastSessionId.toNat

theorem counted_start (sessionMode : Bool) (maxSessionSize : UInt32) :
    Counted (Interleaving.Threads.idle (start sessionMode maxSessionSize) : Threads ι D) where
  conserved := IdPool.conserved_start.congr fun id =>
    iff_of_false (AList.notMem_empty id) not_false
  bounded := nofun

section Counted

variable [DecidableEq ι] {threads : Threads ι D} {thread : ι}

theorem held_move (result : Sessions D × Option (Operation D)) :
    held (threads.move thread result) =
      Function.update (held threads) thread (result.2.bind Operation.held) := by
  funext other
  by_cases same : other = thread
  · subst same
    rw [held, Interleaving.Threads.move_running_self, Function.update_self]
  · rw [held, Interleaving.Threads.move_running_of_ne _ _ same, Function.update_of_ne same, held]

/-- A step that leaves the ids alone, of a thread that holds none before or after. -/
theorem Counted.same (counted : Counted threads) {result : Sessions D × Option (Operation D)}
    (sessionMap : ∀ id, id ∈ result.1.server.sessionMap ↔ id ∈ threads.shared.server.sessionMap)
    (left : result.1.server.leftSessionIds = threads.shared.server.leftSessionIds)
    (last : result.1.server.lastSessionId = threads.shared.server.lastSessionId)
    (handedOut : result.1.handedOut = threads.shared.handedOut)
    (before : held threads thread = none) (after : result.2.bind Operation.held = none) :
    Counted (threads.move thread result) where
  conserved := by
    rw [held_move, after, ← before, Function.update_eq_self]
    change IdPool.Conserved (· ∈ result.1.server.sessionMap) result.1.server.leftSessionIds _
      result.1.handedOut
    rw [left, handedOut]
    exact counted.conserved.congr sessionMap
  bounded := by
    change ∀ sessId ∈ result.1.handedOut, sessId.toNat ≤ result.1.server.lastSessionId.toNat
    rw [last, handedOut]
    exact counted.bounded

/-- `next_session_id` takes a free id or a new one. -/
theorem Counted.next (counted : Counted threads) {conn : ConnectionId} {newSess : Option D}
    (idle : held threads thread = none)
    (timely : threads.shared.Timely (.next conn newSess)) :
    Counted (threads.move thread (threads.shared.advance (.next conn newSess))) := by
  have conserved := counted.conserved
  cases left : threads.shared.server.leftSessionIds with
  | cons id rest =>
      rw [left] at conserved
      have known : id ∈ threads.shared.handedOut :=
        (conserved.covers id).mpr (.inr (.inl List.mem_cons_self))
      have step : threads.shared.advance (.next conn newSess) =
          ({ threads.shared with
              server := { threads.shared.server with leftSessionIds := rest } },
            some (.set conn newSess id)) := by
        simp only [advance, TcpServer.nextSessionId, left, handOut, known, ↓reduceIte]
      rw [step]
      constructor
      · rw [held_move]
        exact conserved.take idle
      · exact counted.bounded
  | nil =>
      have grows := timely left
      have larger : (threads.shared.server.lastSessionId + 1).toNat =
          threads.shared.server.lastSessionId.toNat + 1 := by
        rw [UInt32.toNat_add]
        exact Nat.mod_eq_of_lt grows
      have new : threads.shared.server.lastSessionId + 1 ∉ threads.shared.handedOut := fun known => by
        have bound := counted.bounded _ known
        omega
      have step : threads.shared.advance (.next conn newSess) =
          ({ threads.shared with
              server := { threads.shared.server with
                lastSessionId := threads.shared.server.lastSessionId + 1 }
              handedOut := (threads.shared.server.lastSessionId + 1) :: threads.shared.handedOut },
            some (.set conn newSess (threads.shared.server.lastSessionId + 1))) := by
        simp only [advance, TcpServer.nextSessionId, left, handOut, new, ↓reduceIte]
      rw [step]
      constructor
      · rw [held_move]
        change IdPool.Conserved (· ∈ threads.shared.server.sessionMap)
          threads.shared.server.leftSessionIds _ _
        rw [left]
        rw [left] at conserved
        exact (conserved.fresh new).take idle
      · intro sessId member
        change sessId.toNat ≤ (threads.shared.server.lastSessionId + 1).toNat
        rcases List.mem_cons.mp member with rfl | before
        · exact Nat.le_refl _
        · have bound := counted.bounded sessId before
          omega

/-- `m_session_map.set` puts the id to use. -/
theorem Counted.set (counted : Counted threads) {conn : ConnectionId} {newSess : Option D}
    {sessId : SessionId} (holds : held threads thread = some sessId) :
    Counted (threads.move thread (threads.shared.advance (.set conn newSess sessId))) where
  conserved := by
    rw [held_move]
    exact (counted.conserved.store holds).congr fun id => AList.mem_insert _
  bounded := counted.bounded

/-- The session of an id in use is erased and the id recycled. -/
theorem Counted.recycle (counted : Counted threads) {sessId : SessionId} {connId : ConnectionId}
    (idle : held threads thread = none) :
    Counted (threads.move thread (threads.shared.advance (.recycle sessId connId))) := by
  by_cases stored : sessId ∈ threads.shared.server.sessionMap
  · have step : threads.shared.advance (.recycle sessId connId) =
        ({ threads.shared with server := { threads.shared.server with
            sessionMap := threads.shared.server.sessionMap.erase sessId
            leftSessionIds := sessId :: threads.shared.server.leftSessionIds } },
          some (.eraseConn sessId connId)) := by
      simp only [Sessions.advance, TcpServer.recycleSession, stored, ↓reduceIte]
    rw [step]
    constructor
    · rw [held_move, show Option.bind (some (Operation.eraseConn sessId connId)) Operation.held =
        (none : Option SessionId) from rfl, ← idle, Function.update_eq_self]
      exact (counted.conserved.recycle idle stored).congr fun id => AList.mem_erase
    · exact counted.bounded
  · have step : threads.shared.advance (.recycle sessId connId) =
        (threads.shared, some (.eraseConn sessId connId)) := by
      simp only [Sessions.advance, TcpServer.recycleSession, stored, ↓reduceIte]
    rw [step]
    exact counted.same (fun _ => Iff.rfl) rfl rfl rfl idle rfl

/-- The lock of the connections is taken, or the connection has no sessions. -/
theorem Counted.close (counted : Counted threads) {connId : ConnectionId}
    (idle : held threads thread = none) :
    Counted (threads.move thread (threads.shared.advance (.close connId))) := by
  rw [Sessions.advance]
  split
  · exact counted.same (fun _ => Iff.rfl) rfl rfl rfl idle rfl
  · split
    · exact counted.same (fun _ => Iff.rfl) rfl rfl rfl idle rfl
    · exact counted.same (fun _ => Iff.rfl) rfl rfl rfl idle rfl

/-- The loop of `clear_conn_session` erases the next session, or is at its end. -/
theorem Counted.clear (counted : Counted threads) {connId : ConnectionId}
    {sessIds : List SessionId} (idle : held threads thread = none)
    (timely : threads.shared.Timely (.clear connId sessIds)) :
    Counted (threads.move thread (threads.shared.advance (.clear connId sessIds))) := by
  cases sessIds with
  | nil => exact counted.same (fun _ => Iff.rfl) rfl rfl rfl idle rfl
  | cons sessId sessIds =>
      constructor
      · rw [held_move]
        exact (counted.conserved.withdraw idle timely).congr fun id => AList.mem_erase
      · exact counted.bounded

/-- `push_back` recycles the id of the session that was erased. -/
theorem Counted.pushBack (counted : Counted threads) {connId : ConnectionId}
    {sessId : SessionId} {sessIds : List SessionId} (holds : held threads thread = some sessId) :
    Counted (threads.move thread (threads.shared.advance (.pushBack connId sessId sessIds))) where
  conserved := by
    rw [held_move]
    exact counted.conserved.release holds
  bounded := counted.bounded

theorem Counted.advance (counted : Counted threads) {operation : Operation D}
    (running : threads.running thread = some operation)
    (timely : threads.shared.Timely operation) :
    Counted (threads.move thread (threads.shared.advance operation)) := by
  have holds : held threads thread = operation.held := by rw [held, running, Option.bind_some]
  cases operation with
  | check conn newSess =>
      rw [Sessions.advance]
      split
      · exact counted.same (fun _ => Iff.rfl) rfl rfl rfl holds rfl
      · split
        · exact counted.same (fun _ => Iff.rfl) rfl rfl rfl holds rfl
        · exact counted.same (fun _ => Iff.rfl) rfl rfl rfl holds rfl
  | next conn newSess => exact counted.next holds timely
  | set conn newSess sessId => exact counted.set holds
  | addConn conn sessId =>
      rw [Sessions.advance]
      split
      · exact counted.same (fun _ => Iff.rfl) rfl rfl rfl holds rfl
      · exact counted.same (fun _ => Iff.rfl) rfl rfl rfl holds rfl
  | recycle sessId connId => exact counted.recycle holds
  | eraseConn sessId connId =>
      rw [Sessions.advance]
      split
      · exact counted.same (fun _ => Iff.rfl) rfl rfl rfl holds rfl
      · refine counted.same (fun id => ?_) ?_ ?_ rfl holds rfl
        · rw [TcpServer.eraseConnSession_sessionMap]
        · rw [TcpServer.eraseConnSession_leftSessionIds]
        · rw [TcpServer.eraseConnSession_lastSessionId]
  | close connId => exact counted.close holds
  | clear connId sessIds => exact counted.clear holds timely
  | pushBack connId sessId sessIds => exact counted.pushBack holds

end Counted

/-! ## One thread clears a connection -/

/-- The connection that an operation is clearing, and the ids that are still to come. -/
def Operation.clearing : Operation D → Option (ConnectionId × List SessionId)
  | .clear connId sessIds => some (connId, sessIds)
  | .pushBack connId _ sessIds => some (connId, sessIds)
  | _ => none

/-- Only the thread that has locked the mutex of the connections is clearing one. -/
abbrev Fenced (threads : Threads ι D) : Prop :=
  Interleaving.Exclusive connLocked (fun operation => operation.clearing.isSome) threads

/-- The id is still to come, if the operation is clearing the connection. -/
def Ahead (operation : Option (Operation D)) (conn : ConnectionId) (sessId : SessionId) : Prop :=
  ∀ sessIds, operation.bind Operation.clearing = some (conn, sessIds) → sessId ∈ sessIds

section Fenced

variable {threads : Threads ι D} {thread : ι}

/-- While the mutex is free nobody is clearing anything. -/
theorem Fenced.ahead (fenced : Fenced threads) (free : threads.shared.connLocked = false)
    (thread : ι) (conn : ConnectionId) (sessId : SessionId) :
    Ahead (threads.running thread) conn sessId := by
  intro sessIds clearing
  obtain ⟨operation, running, found⟩ := Option.bind_eq_some_iff.mp clearing
  exact absurd (Option.isSome_of_mem found) (fenced.not_inside free running)

variable [DecidableEq ι]

/-- A thread that leaves the mutex alone and does not clear anything afterwards. -/
theorem Fenced.outside (fenced : Fenced threads) {result : Sessions D × Option (Operation D)}
    (same : result.1.connLocked = threads.shared.connLocked)
    (after : result.2.bind Operation.clearing = none) : Fenced (threads.move thread result) := by
  refine fenced.move (fun operation goesOn clears => ?_) fun locked => .inl (same.trans locked)
  rw [goesOn] at after
  change operation.clearing = none at after
  rw [after] at clears
  cases clears

/-- A thread that has been clearing a connection. -/
theorem Fenced.inside (fenced : Fenced threads) {result : Sessions D × Option (Operation D)}
    {operation : Operation D} (running : threads.running thread = some operation)
    (clears : operation.clearing.isSome) (goesOn : result.2.isSome → result.1.connLocked = true) :
    Fenced (threads.move thread result) :=
  fenced.move (fun _ next _ => ⟨goesOn (Option.isSome_of_mem next), .inr ⟨operation, running, clears⟩⟩)
    fun _ => .inr ⟨operation, running, clears⟩

theorem Fenced.close (fenced : Fenced threads) (connId : ConnectionId) :
    Fenced (threads.move thread (threads.shared.advance (.close connId))) := by
  rw [Sessions.advance]
  split
  · exact fenced.outside rfl rfl
  next unlocked =>
    split
    · exact fenced.move (fun _ _ _ => ⟨rfl, .inl (Bool.eq_false_iff.mpr unlocked)⟩)
        fun _ => .inl rfl
    · exact fenced.outside rfl rfl

theorem Fenced.advance (fenced : Fenced threads) {operation : Operation D}
    (running : threads.running thread = some operation) :
    Fenced (threads.move thread (threads.shared.advance operation)) := by
  cases operation with
  | check conn newSess =>
      rw [Sessions.advance]
      split
      · exact fenced.outside rfl rfl
      · split
        · exact fenced.outside rfl rfl
        · exact fenced.outside rfl rfl
  | next conn newSess => exact fenced.outside rfl rfl
  | set conn newSess sessId => exact fenced.outside rfl rfl
  | addConn conn sessId =>
      rw [Sessions.advance]
      split
      · exact fenced.outside rfl rfl
      · exact fenced.outside rfl rfl
  | recycle sessId connId => exact fenced.outside rfl rfl
  | eraseConn sessId connId =>
      rw [Sessions.advance]
      split
      · exact fenced.outside rfl rfl
      · exact fenced.outside rfl rfl
  | close connId => exact fenced.close connId
  | clear connId sessIds =>
      cases sessIds with
      | nil => exact fenced.inside running rfl nofun
      | cons sessId sessIds =>
          exact fenced.inside running rfl fun _ => fenced.taken thread _ running rfl
  | pushBack connId sessId sessIds =>
      exact fenced.inside running rfl fun _ => fenced.taken thread _ running rfl

end Fenced

/-! ## No session outlives its connection -/

/-- Every session stored is one of an open connection, whose clearing has not come to it, or a
thread is about to make it one. -/
def Homed (threads : Threads ι D) : Prop :=
  ∀ sessId ∈ threads.shared.server.sessionMap,
    (∃ conn, conn ∉ threads.shared.closed ∧ sessId ∈ threads.shared.server.sessionsOf conn ∧
      ∀ thread, Ahead (threads.running thread) conn sessId) ∨
    ∃ thread conn, threads.running thread = some (.addConn conn sessId)

section Homed

variable [DecidableEq ι] {threads : Threads ι D} {thread : ι}

theorem ahead_move {result : Sessions D × Option (Operation D)} {conn : ConnectionId}
    {sessId : SessionId} (own : Ahead result.2 conn sessId)
    (ahead : ∀ thread, Ahead (threads.running thread) conn sessId) (other : ι) :
    Ahead ((threads.move thread result).running other) conn sessId := by
  by_cases same : other = thread
  · subst same
    rw [Interleaving.Threads.move_running_self]
    exact own
  · rw [Interleaving.Threads.move_running_of_ne _ _ same]
    exact ahead other

/-- A step that stores nothing and takes no stored id out of the set of an open connection, of
a thread that was not about to put one there. -/
theorem Homed.move (homed : Homed threads) {result : Sessions D × Option (Operation D)}
    (idle : ∀ conn sessId, threads.running thread ≠ some (.addConn conn sessId))
    (kept : ∀ sessId ∈ result.1.server.sessionMap, sessId ∈ threads.shared.server.sessionMap ∧
      ∀ conn, conn ∉ threads.shared.closed → sessId ∈ threads.shared.server.sessionsOf conn →
        Ahead (threads.running thread) conn sessId → conn ∉ result.1.closed ∧
          sessId ∈ result.1.server.sessionsOf conn ∧ Ahead result.2 conn sessId) :
    Homed (threads.move thread result) := by
  intro sessId stored
  obtain ⟨before, home⟩ := kept sessId stored
  rcases homed sessId before with ⟨conn, isOpen, member, ahead⟩ | ⟨other, conn, running⟩
  · obtain ⟨staysOpen, stays, own⟩ := home conn isOpen member (ahead thread)
    exact .inl ⟨conn, staysOpen, stays, ahead_move own ahead⟩
  · refine .inr ⟨other, conn, Interleaving.Threads.move_running_iff.mpr (.inr ⟨?_, running⟩)⟩
    rintro rfl
    exact idle conn sessId running

/-- `m_session_map.set` stores a session that the same thread is about to give a home. -/
theorem Homed.set (homed : Homed threads) {conn : ConnectionId} {newSess : Option D}
    {sessId : SessionId} (running : threads.running thread = some (.set conn newSess sessId)) :
    Homed (threads.move thread (threads.shared.advance (.set conn newSess sessId))) := by
  intro id stored
  rcases (AList.mem_insert _).mp stored with rfl | before
  · exact .inr ⟨thread, conn, Interleaving.Threads.move_running_self ..⟩
  · rcases homed id before with ⟨home, isOpen, member, ahead⟩ | ⟨other, otherConn, otherRunning⟩
    · exact .inl ⟨home, isOpen, member, ahead_move nofun ahead⟩
    · refine .inr ⟨other, otherConn,
        Interleaving.Threads.move_running_iff.mpr (.inr ⟨?_, otherRunning⟩)⟩
      rintro rfl
      rw [running] at otherRunning
      cases otherRunning

/-- `add_conn_session` gives the session a home if the connection is open. -/
theorem Homed.addConn (homed : Homed threads) (fenced : Fenced threads) {conn : ConnectionId}
    {sessId : SessionId} (running : threads.running thread = some (.addConn conn sessId))
    (timely : threads.shared.Timely (.addConn conn sessId)) :
    Homed (threads.move thread (threads.shared.advance (.addConn conn sessId))) := by
  rw [Sessions.advance]
  split
  · rwa [Interleaving.Threads.move_waits running]
  next unlocked =>
    have free : threads.shared.connLocked = false := Bool.eq_false_iff.mpr unlocked
    intro id stored
    have grown {other : ConnectionId} (member : id ∈ threads.shared.server.sessionsOf other) :
        id ∈ (threads.shared.server.addConnSession conn sessId).sessionsOf other :=
      (TcpServer.mem_sessionsOf_addConnSession _ _ _ _ _).mpr (.inr member)
    rcases homed id stored with ⟨other, isOpen, member, ahead⟩ | ⟨other, otherConn, otherRunning⟩
    · exact .inl ⟨other, isOpen, grown member, ahead_move nofun ahead⟩
    · by_cases same : other = thread
      · subst same
        rw [running] at otherRunning
        cases otherRunning
        refine .inl ⟨conn, timely free stored, ?_, ahead_move nofun fun thread =>
          fenced.ahead free thread conn sessId⟩
        exact (TcpServer.mem_sessionsOf_addConnSession _ _ _ _ _).mpr (.inl ⟨rfl, rfl⟩)
      · exact .inr ⟨other, otherConn,
          Interleaving.Threads.move_running_iff.mpr (.inr ⟨same, otherRunning⟩)⟩

theorem Homed.recycle (homed : Homed threads) {sessId : SessionId} {connId : ConnectionId}
    (running : threads.running thread = some (.recycle sessId connId)) :
    Homed (threads.move thread (threads.shared.advance (.recycle sessId connId))) := by
  refine homed.move (by rw [running]; exact nofun) fun id stored => ?_
  change id ∈ (threads.shared.server.recycleSession sessId).sessionMap at stored
  have sets (conn : ConnectionId) :
      (threads.shared.server.recycleSession sessId).sessionsOf conn =
        threads.shared.server.sessionsOf conn := by
    rw [TcpServer.recycleSession]
    split <;> rfl
  refine ⟨?_, fun conn isOpen member _ => ⟨isOpen, (sets conn).symm ▸ member, nofun⟩⟩
  rw [TcpServer.recycleSession] at stored
  split at stored
  · exact (AList.mem_erase.mp stored).2
  · exact stored

theorem Homed.eraseConn (homed : Homed threads) {sessId : SessionId} {connId : ConnectionId}
    (running : threads.running thread = some (.eraseConn sessId connId))
    (timely : threads.shared.Timely (.eraseConn sessId connId)) :
    Homed (threads.move thread (threads.shared.advance (.eraseConn sessId connId))) := by
  rw [Sessions.advance]
  split
  · rwa [Interleaving.Threads.move_waits running]
  next unlocked =>
    refine homed.move (by rw [running]; exact nofun) fun id stored => ?_
    change id ∈ (threads.shared.server.eraseConnSession connId sessId).sessionMap at stored
    rw [TcpServer.eraseConnSession_sessionMap] at stored
    refine ⟨stored, fun conn isOpen member _ => ⟨isOpen, ?_, nofun⟩⟩
    refine (TcpServer.mem_sessionsOf_eraseConnSession _ _ _ _ _).mpr ⟨member, ?_⟩
    rintro ⟨rfl, rfl⟩
    exact timely (Bool.eq_false_iff.mpr unlocked) stored member

/-- A close starts to clear the whole set, or the connection has none. -/
theorem Homed.close (homed : Homed threads) {connId : ConnectionId}
    (running : threads.running thread = some (.close connId)) :
    Homed (threads.move thread (threads.shared.advance (.close connId))) := by
  rw [Sessions.advance]
  split
  · rwa [Interleaving.Threads.move_waits running]
  · split
    next set found =>
      refine homed.move (by rw [running]; rintro _ _ ⟨⟩) fun id stored => ?_
      refine ⟨stored, fun conn isOpen member _ => ⟨isOpen, member, ?_⟩⟩
      rintro _ ⟨⟩
      rw [TcpServer.sessionsOf, found] at member
      exact member
    next missing =>
      refine homed.move (by rw [running]; rintro _ _ ⟨⟩) fun id stored => ?_
      refine ⟨stored, fun conn isOpen member _ => ⟨fun closed => ?_, member, by rintro _ ⟨⟩⟩⟩
      rcases List.mem_cons.mp closed with rfl | before
      · rw [TcpServer.sessionsOf, missing] at member
        exact OrderedSet.not_mem_empty id member
      · exact isOpen before

/-- A session whose id the clearing has passed is not stored, so the set can go in the end. -/
theorem Homed.clear (homed : Homed threads) {connId : ConnectionId} {sessIds : List SessionId}
    (running : threads.running thread = some (.clear connId sessIds)) :
    Homed (threads.move thread (threads.shared.advance (.clear connId sessIds))) := by
  refine homed.move (by rw [running]; exact nofun) fun id stored => ?_
  rw [running]
  cases sessIds with
  | cons sessId sessIds =>
      obtain ⟨different, before⟩ := AList.mem_erase.mp stored
      refine ⟨before, fun conn isOpen member ahead => ⟨isOpen, member, ?_⟩⟩
      rintro _ ⟨⟩
      exact (List.mem_cons.mp (ahead _ rfl)).resolve_left different
  | nil =>
      refine ⟨stored, fun conn isOpen member ahead => ?_⟩
      have other : conn ≠ connId := by
        rintro rfl
        exact List.not_mem_nil (ahead [] rfl)
      refine ⟨fun closed => ?_, ?_, nofun⟩
      · exact (List.mem_cons.mp closed).elim other isOpen
      · change id ∈ ((threads.shared.server.connSession.erase connId).lookup conn).getD .empty
        rwa [AList.lookup_erase_ne other]

theorem Homed.advance (homed : Homed threads) (fenced : Fenced threads) {operation : Operation D}
    (running : threads.running thread = some operation)
    (timely : threads.shared.Timely operation) :
    Homed (threads.move thread (threads.shared.advance operation)) := by
  cases operation with
  | check conn newSess =>
      have same : (threads.shared.advance (.check conn newSess)).1 = threads.shared ∧
          (threads.shared.advance (.check conn newSess)).2.bind Operation.clearing = none := by
        rw [Sessions.advance]
        split
        · exact ⟨rfl, rfl⟩
        · split
          · exact ⟨rfl, rfl⟩
          · exact ⟨rfl, rfl⟩
      refine homed.move (by rw [running]; exact nofun) fun id stored => ?_
      rw [same.1] at stored ⊢
      refine ⟨stored, fun conn isOpen member _ => ⟨isOpen, member, fun sessIds clearing => ?_⟩⟩
      rw [same.2] at clearing
      cases clearing
  | next conn newSess =>
      refine homed.move (by rw [running]; exact nofun) fun id stored => ?_
      change id ∈ threads.shared.server.nextSessionId.2.sessionMap at stored
      rw [TcpServer.nextSessionId_sessionMap] at stored
      refine ⟨stored, fun conn isOpen member _ => ⟨isOpen, ?_, nofun⟩⟩
      change id ∈ threads.shared.server.nextSessionId.2.sessionsOf conn
      rwa [TcpServer.nextSessionId_sessionsOf]
  | set conn newSess sessId => exact homed.set running
  | addConn conn sessId => exact homed.addConn fenced running timely
  | recycle sessId connId => exact homed.recycle running
  | eraseConn sessId connId => exact homed.eraseConn running timely
  | close connId => exact homed.close running
  | clear connId sessIds => exact homed.clear running
  | pushBack connId sessId sessIds =>
      refine homed.move (by rw [running]; exact nofun) fun id stored => ?_
      rw [running]
      exact ⟨stored, fun conn isOpen member ahead => ⟨isOpen, member, ahead⟩⟩

end Homed

/-! ## Every interleaving -/

/-- What timely steps keep. -/
structure Sound (threads : Threads ι D) : Prop where
  counted : Counted threads
  fenced : Fenced threads
  homed : Homed threads

theorem Sound.settled {threads : Threads ι D} (sound : Sound threads) : Settled threads := by
  intro quiescent
  constructor
  · intro sessId stored
    rcases sound.homed sessId stored with ⟨conn, isOpen, member, _⟩ | ⟨thread, conn, running⟩
    · exact ⟨conn, isOpen, member⟩
    · rw [quiescent thread] at running
      cases running
  · refine sound.counted.conserved.perm (fun thread => ?_)
      threads.shared.server.sessionMap.nodupKeys fun _ => Iff.rfl
    rw [held, quiescent thread]
    rfl

theorem sound_start (sessionMode : Bool) (maxSessionSize : UInt32) :
    Sound (Interleaving.Threads.idle (start sessionMode maxSessionSize) : Threads ι D) where
  counted := counted_start sessionMode maxSessionSize
  fenced := Interleaving.exclusive_idle _
  homed sessId stored := absurd stored (AList.notMem_empty sessId)

variable [DecidableEq ι]

theorem Sound.enter {threads : Threads ι D} (sound : Sound threads) {thread : ι} (call : Call D)
    (idle : threads.running thread = none) :
    Sound (threads.move thread (threads.shared, some call.operation)) where
  counted := by
    have none : held threads thread = none := by rw [held, idle, Option.bind_none]
    exact sound.counted.same (fun _ => Iff.rfl) rfl rfl rfl none (by cases call <;> rfl)
  fenced := sound.fenced.outside rfl (by cases call <;> rfl)
  homed := by
    have clearsNothing : call.operation.clearing = none := by cases call <;> rfl
    refine sound.homed.move (by rw [idle]; exact nofun) fun id stored =>
      ⟨stored, fun conn isOpen member _ => ⟨isOpen, member, fun sessIds clearing => ?_⟩⟩
    change call.operation.clearing = some (conn, sessIds) at clearing
    rw [clearsNothing] at clearing
    cases clearing

theorem Sound.step {threads : Threads ι D} {choice : Choice ι D} (sound : Sound threads)
    (timely : TimelyStep threads choice) : Sound ((program ι D).step threads choice) := by
  rcases (program ι D).step_cases threads choice with
    ⟨unchanged, _⟩ | ⟨thread, call, rfl, idle⟩ | ⟨thread, _, operation, rfl, running⟩
  · rw [unchanged]
    exact sound
  · rw [Interleaving.Program.step_call idle]
    exact sound.enter call idle
  · rw [Interleaving.Program.step_advance running]
    have now := timely thread () operation rfl running
    exact ⟨sound.counted.advance running now, sound.fenced.advance running,
      sound.homed.advance sound.fenced running now⟩

/-- **The lifetime of sessions.** In every interleaving whose steps are timely, whenever no
operation is half done every session stored is one of a connection that has not been closed,
and the ids in use and the free ones are all that were ever handed out. -/
theorem sessions_settled (sessionMode : Bool) (maxSessionSize : UInt32)
    (choices : List (Choice ι D))
    (timely : Run.Steps (program ι D).step TimelyStep
      (.idle (start sessionMode maxSessionSize)) choices) :
    Run.Always (program ι D).step Settled (fun _ _ => True)
      (.idle (start sessionMode maxSessionSize)) choices :=
  Run.always_of_steps Sound (fun _ sound => sound.settled)
    (fun _ _ sound good => ⟨trivial, sound.step good⟩)
    (sound_start sessionMode maxSessionSize) timely

/-- Thread 0 adds a session for connection 10 and erases it, thread 1 adds one for connection 20
meanwhile, and both connections are closed. -/
def bothClosed : List (Choice Nat Unit) :=
  [.call 0 (.addSession 10 (some ())), .advance 0 (), .advance 0 (),
    .call 1 (.addSession 20 (some ())), .advance 1 (), .advance 1 (), .advance 0 (),
    .advance 0 (), .advance 1 (), .call 0 (.eraseSession 1 10), .advance 0 (), .advance 1 (),
    .advance 0 (), .call 0 (.onClose 10), .advance 0 (), .advance 0 (), .call 1 (.onClose 20),
    .advance 1 (), .advance 1 (), .advance 1 (), .advance 1 ()]

theorem sessions_settled_bothClosed :
    Run.Always (program Nat Unit).step Settled (fun _ _ => True)
      (.idle (start true 8)) bothClosed :=
  sessions_settled true 8 bothClosed (by decide)

/-- Connection 10 is closed while a business thread is between `m_session_map.set` and
`add_conn_session`. -/
def closedWhileAdding : List (Choice Bool Unit) :=
  [.call true (.addSession 10 (some ())), .advance true (), .advance true (), .advance true (),
    .call false (.onClose 10), .advance false (), .advance true ()]

/-- The session stays, under a connection whose `on_close` has run. -/
theorem sessions_not_settled :
    ¬ Run.Always (program Bool Unit).step Settled (fun _ _ => True)
      (.idle (start true 8)) closedWhileAdding := by
  intro always
  obtain ⟨homes, _⟩ := always.final fun thread => by cases thread <;> rfl
  obtain ⟨conn, isOpen, member⟩ := homes 1 (by decide)
  rcases (TcpServer.mem_sessionsOf_addConnSession _ 10 conn 1 1).mp member with ⟨rfl, _⟩ | before
  · exact isOpen (by decide)
  · exact OrderedSet.not_mem_empty 1 before

end Sessions

end Cube.Eco.Net
