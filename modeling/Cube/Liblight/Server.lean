import Mathlib.Data.List.AList
import Mathlib.Data.List.FinRange
import Cube.Lib.Run

/-! # A server and its services

`LightService`, `Dispatcher::SendTransaction` and `Server`. A session is made for an accepted
socket and started by the thread of the service that the socket was assigned to. All counters and
ids are `int`: they are words of 32 bits here, and wrap.
-/

namespace Cube.Liblight

/-- A session, by the order in which the sessions were made. -/
abbrev SessionRef := Nat

structure LightService where
  serviceid : Nat
  sessionSerial : BitVec 32
  preAddSession : BitVec 32
  sessions : AList fun _ : BitVec 32 => SessionRef

namespace LightService

/-- The constructor. -/
def make (id : Nat) : LightService := ⟨id, 0, 0, ∅⟩

variable (service : LightService)

def incPreAddSession : LightService :=
  { service with preAddSession := service.preAddSession + 1 }

/-- A `size_t` and an `int` are added, and the sum is an `int` again. -/
def getSessions : Int :=
  (BitVec.ofNat 32 service.sessions.keys.length + service.preAddSession).toInt

/-- The serial number that is generated next. -/
def generateSessionSerial : BitVec 32 := service.sessionSerial + 1

/-- The id that the next session gets. -/
def nextSessionid : BitVec 32 :=
  (BitVec.ofNat 32 service.serviceid <<< 16) + service.generateSessionSerial

def addSession (session : SessionRef) : LightService :=
  { service with
    preAddSession := service.preAddSession - 1
    sessionSerial := service.generateSessionSerial
    sessions := service.sessions.insert service.nextSessionid session }

def delSession (sessionid : BitVec 32) : LightService :=
  { service with sessions := service.sessions.erase sessionid }

/-- `send`: the session that a transaction is handed to. -/
def send (connected : SessionRef → Bool) (sessionid : BitVec 32) : Option SessionRef :=
  match service.sessions.lookup sessionid with
  | some session => if connected session then some session else none
  | none => none

end LightService

/-- `SendTransaction` for the services `0` to `n`: the service that `send` is posted to. -/
def Dispatcher.sendTransaction (n : Nat) (sessionid : BitVec 32) : Option (Fin (n + 1)) :=
  if sessionid ≠ 0 then
    let serviceid := ((sessionid &&& 0xffff0000) >>> 16).toNat
    if registered : serviceid < n + 1 then some ⟨serviceid, registered⟩ else none
  else none

/-- How far a session is: its `start` is posted, it is connected, its `handler_close` is posted,
or it is closed. -/
inductive Phase where
  | posted
  | connected
  | stopped
  | closed
  deriving DecidableEq

/-- A session that was started and is not closed yet. -/
def Phase.live : Phase → Bool
  | .connected | .stopped => true
  | .posted | .closed => false

structure Session (n : Nat) where
  lightService : Fin (n + 1)
  sessionid : BitVec 32
  phase : Phase

/-- A `LightService::send` that is posted: where, with what, and for which session it is meant. -/
structure Post (n : Nat) (τ : Type) where
  service : Fin (n + 1)
  sessionid : BitVec 32
  transaction : τ
  meant : SessionRef

/-- A server of `n + 1` services, with all the sessions that were made for it. The last accept is
always pending. `handed` records the sessions that posted transactions were meant for and handed
to. -/
structure Server (n : Nat) (τ : Type) where
  rwServices : Fin (n + 1) → LightService
  accepting : Fin (n + 1)
  sessions : List (Session n)
  posts : List (Post n τ)
  handed : List (SessionRef × SessionRef × τ)

/-- What happens at a server. -/
inductive Event (τ : Type) where
  | handleAccept (err : Bool)
  | start (session : SessionRef)
  | stop (session : SessionRef)
  | handlerClose (session : SessionRef)
  | sendTransaction (session : SessionRef) (transaction : τ)
  | send (post : Nat)

namespace Server

variable {n : Nat} {τ : Type} (server : Server n τ)

/-- `get_service`: the first service with the fewest sessions. -/
def getService : Fin (n + 1) :=
  (List.finRange (n + 1)).minOn (fun service => (server.rwServices service).getSessions)
    (List.ne_nil_of_mem (List.mem_finRange 0))

def setService (service : Fin (n + 1)) (changed : LightService) : Server n τ :=
  { server with rwServices := Function.update server.rwServices service changed }

def doAccept : Server n τ :=
  { server.setService server.getService (server.rwServices server.getService).incPreAddSession with
    accepting := server.getService }

/-- The constructor. -/
def make (n : Nat) (τ : Type) : Server n τ :=
  doAccept ⟨fun service => .make service, 0, [], [], []⟩

def handleAccept (err : Bool) : Server n τ :=
  if err then server.doAccept
  else
    doAccept { server with sessions := server.sessions ++ [⟨server.accepting, 0, .posted⟩] }

/-- `Session::start`. -/
def start (s : SessionRef) (session : Session n) : Server n τ :=
  let service := server.rwServices session.lightService
  { server.setService session.lightService (service.addSession s) with
    sessions := server.sessions.set s
      { session with sessionid := service.nextSessionid, phase := .connected } }

/-- `Session::stop`. -/
def stop (s : SessionRef) (session : Session n) : Server n τ :=
  { server with sessions := server.sessions.set s { session with phase := .stopped } }

/-- `Session::handler_close`. -/
def handlerClose (s : SessionRef) (session : Session n) : Server n τ :=
  let service := server.rwServices session.lightService
  { server.setService session.lightService (service.delSession session.sessionid) with
    sessions := server.sessions.set s { session with phase := .closed } }

def connected (s : SessionRef) : Bool :=
  server.sessions[s]?.any fun session => session.phase = .connected

/-- Someone answers a session, whose id it was told when the session started. -/
def sendTransaction (s : SessionRef) (session : Session n) (transaction : τ) : Server n τ :=
  match Dispatcher.sendTransaction n session.sessionid with
  | some service =>
      { server with posts := server.posts ++ [⟨service, session.sessionid, transaction, s⟩] }
  | none => server

/-- A post is run by its service. -/
def send (post : Post n τ) : Server n τ :=
  match (server.rwServices post.service).send server.connected post.sessionid with
  | some s => { server with handed := server.handed ++ [(post.meant, s, post.transaction)] }
  | none => server

/-- One event; what cannot happen leaves the server as it is. -/
def step : Event τ → Server n τ
  | .handleAccept err => server.handleAccept err
  | .start s =>
      match server.sessions[s]? with
      | some session => if session.phase = .posted then server.start s session else server
      | none => server
  | .stop s =>
      match server.sessions[s]? with
      | some session => if session.phase = .connected then server.stop s session else server
      | none => server
  | .handlerClose s =>
      match server.sessions[s]? with
      | some session => if session.phase = .stopped then server.handlerClose s session else server
      | none => server
  | .sendTransaction s transaction =>
      match server.sessions[s]? with
      | some session =>
          if session.phase = .posted then server else server.sendTransaction s session transaction
      | none => server
  | .send post =>
      match server.posts[post]? with
      | some found => send { server with posts := server.posts.eraseIdx post } found
      | none => server

/-! ## What an event can do -/

variable {server}

/-- What holds of the server as it is and of all that an event can make of it, holds after the
event. -/
theorem step_elim {holds : Server n τ → Prop} (event : Event τ) (unchanged : holds server)
    (accepts : ∀ err, event = .handleAccept err → holds (server.handleAccept err))
    (starts : ∀ s session, event = .start s → server.sessions[s]? = some session →
      session.phase = .posted → holds (server.start s session))
    (stops : ∀ s session, event = .stop s → server.sessions[s]? = some session →
      session.phase = .connected → holds (server.stop s session))
    (closes : ∀ s session, event = .handlerClose s → server.sessions[s]? = some session →
      session.phase = .stopped → holds (server.handlerClose s session))
    (answers : ∀ s session transaction, event = .sendTransaction s transaction →
      server.sessions[s]? = some session → session.phase ≠ .posted →
      holds (server.sendTransaction s session transaction))
    (sends : ∀ position post, event = .send position → server.posts[position]? = some post →
      holds (send { server with posts := server.posts.eraseIdx position } post)) :
    holds (server.step event) := by
  cases event with
  | handleAccept err => exact accepts err rfl
  | start s =>
      dsimp only [step]
      cases found : server.sessions[s]? with
      | none => exact unchanged
      | some session =>
          dsimp only
          by_cases posted : session.phase = .posted
          · rw [if_pos posted]
            exact starts s session rfl found posted
          · rw [if_neg posted]
            exact unchanged
  | stop s =>
      dsimp only [step]
      cases found : server.sessions[s]? with
      | none => exact unchanged
      | some session =>
          dsimp only
          by_cases connected : session.phase = .connected
          · rw [if_pos connected]
            exact stops s session rfl found connected
          · rw [if_neg connected]
            exact unchanged
  | handlerClose s =>
      dsimp only [step]
      cases found : server.sessions[s]? with
      | none => exact unchanged
      | some session =>
          dsimp only
          by_cases stopped : session.phase = .stopped
          · rw [if_pos stopped]
            exact closes s session rfl found stopped
          · rw [if_neg stopped]
            exact unchanged
  | sendTransaction s transaction =>
      dsimp only [step]
      cases found : server.sessions[s]? with
      | none => exact unchanged
      | some session =>
          dsimp only
          by_cases posted : session.phase = .posted
          · rw [if_pos posted]
            exact unchanged
          · rw [if_neg posted]
            exact answers s session transaction rfl found posted
  | send position =>
      dsimp only [step]
      cases found : server.posts[position]? with
      | none => exact unchanged
      | some post => exact sends position post rfl found

/-- The event of a session whose `start` is posted. -/
theorem step_start {s : SessionRef} {session : Session n}
    (found : server.sessions[s]? = some session) (posted : session.phase = .posted) :
    server.step (.start s) = server.start s session := by
  simp only [step, found, if_pos posted]

/-- A session that is changed is the changed one, and the others are as they were. -/
theorem getElem?_set_session {sessions : List (Session n)} {s : SessionRef} {session : Session n}
    (found : sessions[s]? = some session) (changed : Session n) (t : SessionRef) :
    (sessions.set s changed)[t]? = if s = t then some changed else sessions[t]? := by
  obtain ⟨inside, _⟩ := List.getElem?_eq_some_iff.mp found
  rw [List.getElem?_set, if_pos inside]

/-- A session that is found after one was appended. -/
theorem getElem?_append_session {sessions : List (Session n)} {last session : Session n}
    {s : SessionRef} (found : (sessions ++ [last])[s]? = some session) :
    sessions[s]? = some session ∨ session = last := by
  by_cases old : s < sessions.length
  · rw [List.getElem?_append_left old] at found
    exact .inl found
  · rw [List.getElem?_append_right (Nat.le_of_not_lt old)] at found
    exact .inr (List.mem_singleton.mp (List.mem_of_getElem? found))

theorem getElem?_append_of_some {sessions : List (Session n)} {session : Session n}
    {s : SessionRef} (found : sessions[s]? = some session) (last : Session n) :
    (sessions ++ [last])[s]? = some session := by
  obtain ⟨inside, _⟩ := List.getElem?_eq_some_iff.mp found
  rw [List.getElem?_append_left inside, found]

@[simp] theorem sessions_doAccept : server.doAccept.sessions = server.sessions := rfl

@[simp] theorem posts_doAccept : server.doAccept.posts = server.posts := rfl

@[simp] theorem handed_doAccept : server.doAccept.handed = server.handed := rfl

/-- Accepting changes only the counter of a service. -/
theorem doAccept_rwServices (server : Server n τ) (service : Fin (n + 1)) : ∃ count,
    server.doAccept.rwServices service =
      { server.rwServices service with preAddSession := count } := by
  by_cases same : service = server.getService
  · subst same
    exact ⟨_, Function.update_self ..⟩
  · exact ⟨(server.rwServices service).preAddSession, Function.update_of_ne same _ _⟩

/-! ## Who is registered -/

/-- A live session of a service, with its id. -/
def Holds (sessions : List (Session n)) (service : Fin (n + 1)) (sessionid : BitVec 32)
    (s : SessionRef) : Prop :=
  ∃ session, sessions[s]? = some session ∧ session.lightService = service ∧
    session.phase.live = true ∧ session.sessionid = sessionid

/-- The services have their numbers, and exactly their live sessions under the ids of these. -/
structure Registered (server : Server n τ) : Prop where
  serviceid : ∀ service, (server.rwServices service).serviceid = service.val
  lookup : ∀ service sessionid s,
    (server.rwServices service).sessions.lookup sessionid = some s ↔
      Holds server.sessions service sessionid s

/-- A session that is started gets an id that no live session of its service has. -/
def TakesFreeId (server : Server n τ) (event : Event τ) : Prop :=
  ∀ s session, event = .start s → server.sessions[s]? = some session → session.phase = .posted →
    ∀ t, ¬ Holds server.sessions session.lightService
      (server.rwServices session.lightService).nextSessionid t

theorem Registered.of_same {after : Server n τ} (registered : server.Registered)
    (serviceid : ∀ service,
      (after.rwServices service).serviceid = (server.rwServices service).serviceid)
    (sessions : ∀ service,
      (after.rwServices service).sessions = (server.rwServices service).sessions)
    (holds : ∀ service sessionid s, Holds after.sessions service sessionid s ↔
      Holds server.sessions service sessionid s) : after.Registered := by
  refine ⟨fun service => ?_, fun service sessionid s => ?_⟩
  · rw [serviceid]
    exact registered.serviceid service
  · rw [sessions, holds]
    exact registered.lookup service sessionid s

/-- A session whose `start` is posted is not live. -/
theorem holds_append_posted (sessions : List (Session n)) (service accepted : Fin (n + 1))
    (sessionid : BitVec 32) (s : SessionRef) :
    Holds (sessions ++ [⟨accepted, 0, .posted⟩]) service sessionid s ↔
      Holds sessions service sessionid s := by
  constructor
  · rintro ⟨session, found, here, live, same⟩
    rcases getElem?_append_session found with old | rfl
    · exact ⟨session, old, here, live, same⟩
    · cases live
  · rintro ⟨session, found, rest⟩
    exact ⟨session, getElem?_append_of_some found _, rest⟩

/-- Who is live after one session changed. -/
theorem holds_set {sessions : List (Session n)} {s : SessionRef} {session : Session n}
    (found : sessions[s]? = some session) (changed : Session n) (service : Fin (n + 1))
    (sessionid : BitVec 32) (t : SessionRef) :
    Holds (sessions.set s changed) service sessionid t ↔
      if s = t then changed.lightService = service ∧ changed.phase.live = true ∧
        changed.sessionid = sessionid
      else Holds sessions service sessionid t := by
  by_cases same : s = t
  · rw [if_pos same, Holds, getElem?_set_session found, if_pos same]
    simp
  · rw [if_neg same, Holds, getElem?_set_session found, if_neg same, Holds]

theorem Registered.doAccept (registered : server.Registered) : server.doAccept.Registered := by
  apply registered.of_same
  · intro service
    obtain ⟨count, changed⟩ := doAccept_rwServices server service
    rw [changed]
  · intro service
    obtain ⟨count, changed⟩ := doAccept_rwServices server service
    rw [changed]
  · exact fun _ _ _ => Iff.rfl

theorem registered_make (n : Nat) (τ : Type) : (make n τ).Registered := by
  apply Registered.doAccept
  refine ⟨fun _ => rfl, fun service sessionid s => iff_of_false ?_ ?_⟩
  · rw [show (LightService.make service.val).sessions = ∅ from rfl, AList.lookup_empty]
    exact nofun
  · rintro ⟨session, found, _⟩
    cases found

theorem Registered.handleAccept (registered : server.Registered) (err : Bool) :
    (server.handleAccept err).Registered := by
  cases err with
  | true => exact registered.doAccept
  | false =>
      apply Registered.doAccept
      apply registered.of_same
      · exact fun _ => rfl
      · exact fun _ => rfl
      · exact fun service => holds_append_posted server.sessions service server.accepting

/-- A service that is changed keeps its number. -/
theorem setService_serviceid (service : Fin (n + 1)) (changed : LightService)
    (same : changed.serviceid = (server.rwServices service).serviceid) (other : Fin (n + 1)) :
    ((server.setService service changed).rwServices other).serviceid =
      (server.rwServices other).serviceid := by
  dsimp only [setService]
  by_cases here : other = service
  · rw [here, Function.update_self, same]
  · rw [Function.update_of_ne here]

theorem start_serviceid (s : SessionRef) (session : Session n) (service : Fin (n + 1)) :
    ((server.start s session).rwServices service).serviceid =
      (server.rwServices service).serviceid :=
  setService_serviceid session.lightService
    ((server.rwServices session.lightService).addSession s) rfl service

/-- A session registers itself under an id that its service does not know. -/
theorem Registered.start (registered : server.Registered) {s : SessionRef} {session : Session n}
    (found : server.sessions[s]? = some session) (posted : session.phase = .posted)
    (free : ∀ t, ¬ Holds server.sessions session.lightService
      (server.rwServices session.lightService).nextSessionid t) :
    (server.start s session).Registered := by
  have absent (service : Fin (n + 1)) (sessionid : BitVec 32) :
      ¬ Holds server.sessions service sessionid s := by
    rintro ⟨_, again, _, live, _⟩
    cases found.symm.trans again
    rw [posted] at live
    cases live
  refine ⟨fun service => ?_, fun service sessionid t => ?_⟩
  · exact (start_serviceid s session service).trans (registered.serviceid service)
  · rw [Server.start]
    dsimp only [setService]
    rw [holds_set found]
    by_cases here : service = session.lightService
    · subst here
      rw [Function.update_self, LightService.addSession]
      dsimp only
      by_cases own : sessionid = (server.rwServices session.lightService).nextSessionid
      · rw [own, AList.lookup_insert]
        by_cases same : s = t
        · simp [same, Phase.live]
        · rw [if_neg same]
          exact iff_of_false (fun equal => same (Option.some.inj equal)) (free t)
      · rw [AList.lookup_insert_ne own, registered.lookup]
        by_cases same : s = t
        · subst same
          rw [if_pos rfl]
          exact iff_of_false (absent _ _) fun ⟨_, _, equal⟩ => own equal.symm
        · rw [if_neg same]
    · rw [Function.update_of_ne here, registered.lookup]
      by_cases same : s = t
      · subst same
        rw [if_pos rfl]
        exact iff_of_false (absent _ _) fun ⟨equal, _⟩ => here equal.symm
      · rw [if_neg same]

theorem Registered.stop (registered : server.Registered) {s : SessionRef} {session : Session n}
    (found : server.sessions[s]? = some session) (connected : session.phase = .connected) :
    (server.stop s session).Registered := by
  apply registered.of_same
  · exact fun _ => rfl
  · exact fun _ => rfl
  · intro service sessionid t
    rw [Server.stop]
    dsimp only
    rw [holds_set found]
    by_cases same : s = t
    · subst same
      simp [Holds, found, connected, Phase.live]
    · rw [if_neg same]

/-- A session that closes takes itself out. -/
theorem Registered.handlerClose (registered : server.Registered) {s : SessionRef}
    {session : Session n} (found : server.sessions[s]? = some session)
    (stopped : session.phase = .stopped) : (server.handlerClose s session).Registered := by
  have own : Holds server.sessions session.lightService session.sessionid s :=
    ⟨session, found, rfl, by rw [stopped]; rfl, rfl⟩
  refine ⟨fun service => ?_, fun service sessionid t => ?_⟩
  · exact (setService_serviceid session.lightService ((server.rwServices
      session.lightService).delSession session.sessionid) rfl service).trans
        (registered.serviceid service)
  · rw [Server.handlerClose]
    dsimp only [setService]
    rw [holds_set found]
    dsimp only [Phase.live]
    by_cases here : service = session.lightService
    · subst here
      rw [Function.update_self, LightService.delSession]
      dsimp only
      by_cases same : s = t
      · subst same
        rw [if_pos rfl]
        refine iff_of_false (fun lookup => ?_) nofun
        by_cases equal : sessionid = session.sessionid
        · rw [equal, AList.lookup_erase] at lookup
          cases lookup
        · rw [AList.lookup_erase_ne equal] at lookup
          obtain ⟨_, again, _, _, id⟩ := (registered.lookup _ _ _).mp lookup
          cases found.symm.trans again
          exact equal id.symm
      · rw [if_neg same]
        by_cases equal : sessionid = session.sessionid
        · rw [equal, AList.lookup_erase]
          refine iff_of_false nofun fun other => same ?_
          have first := (registered.lookup _ _ _).mpr own
          exact Option.some.inj (first.symm.trans ((registered.lookup _ _ _).mpr other))
        · rw [AList.lookup_erase_ne equal, registered.lookup]
    · rw [Function.update_of_ne here, registered.lookup]
      by_cases same : s = t
      · subst same
        rw [if_pos rfl]
        refine iff_of_false ?_ nofun
        rintro ⟨_, again, there, _⟩
        cases found.symm.trans again
        exact here there.symm
      · rw [if_neg same]

/-- A post changes nothing but the record. -/
theorem send_same (server : Server n τ) (post : Post n τ) : (server.send post).rwServices = server.rwServices ∧
    (server.send post).sessions = server.sessions ∧ (server.send post).posts = server.posts := by
  rw [Server.send]
  split <;> exact ⟨rfl, rfl, rfl⟩

/-- An answer changes nothing but the posts. -/
theorem sendTransaction_same (server : Server n τ) (s : SessionRef) (session : Session n) (transaction : τ) :
    (server.sendTransaction s session transaction).rwServices = server.rwServices ∧
      (server.sendTransaction s session transaction).sessions = server.sessions ∧
      (server.sendTransaction s session transaction).handed = server.handed := by
  rw [Server.sendTransaction]
  split <;> exact ⟨rfl, rfl, rfl⟩

/-- **Registration** is kept by every event that gives no id of a live session of the same service
again. -/
theorem Registered.step (registered : server.Registered) {event : Event τ}
    (free : server.TakesFreeId event) : (server.step event).Registered := by
  apply step_elim event registered
  · exact fun err _ => registered.handleAccept err
  · exact fun s session same found posted =>
      registered.start found posted (free s session same found posted)
  · exact fun s session _ found connected => registered.stop found connected
  · exact fun s session _ found stopped => registered.handlerClose found stopped
  · intro s session transaction _ _ _
    obtain ⟨services, sessions, _⟩ := sendTransaction_same server s session transaction
    apply registered.of_same
    · exact fun service => by rw [services]
    · exact fun service => by rw [services]
    · exact fun service sessionid t => by rw [sessions]
  · intro position post _ _
    obtain ⟨services, sessions, _⟩ := send_same
      { server with posts := server.posts.eraseIdx position } post
    apply registered.of_same
    · exact fun service => by rw [services]
    · exact fun service => by rw [services]
    · exact fun service sessionid t => by rw [sessions]

end Server

end Cube.Liblight
