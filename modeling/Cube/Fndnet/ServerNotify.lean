import Mathlib.Data.List.Count
import Cube.Fndnet.TCPServer

/-! # The order of notifications

Every client is notified at most once as accepted and at most once as disconnected, and after it is
notified as disconnected it is not notified of data: a thread that notifies data holds the mutex of
the clients and has found the client, and a client is taken out with that mutex held alone. The
thread that notifies a client as accepted may come to its call last.
-/

namespace Cube.Fndnet

open Interleaving

namespace TCPServer

variable {ι : Type}

/-- No data is notified of a client that was notified as disconnected. -/
def DataFirst (calls : List Notification) : Prop :=
  ∀ connection data before after, calls = before ++ .onRawData connection data :: after →
    .onClientDisconnect connection ∉ before

/-- How often a client was notified as accepted, or is going to be. -/
def acceptCount (server : TCPServer ι) (connection : ConnectionRef) : Nat :=
  server.calls.count (.onAccept connection) + server.started.count (.onAccept connection)

/-- How often a client was notified as disconnected, or is going to be, or can be. -/
def disconnectCount (server : TCPServer ι) (connection : ConnectionRef) : Nat :=
  server.calls.count (.onClientDisconnect connection) +
    server.started.count (.onDisconnect connection) + server.clientsMap.count connection

/-- One for a connection that was accepted. -/
def known (server : TCPServer ι) (connection : ConnectionRef) : Nat :=
  if connection < server.accepted then 1 else 0

theorem known_le (server : TCPServer ι) (connection : ConnectionRef) :
    server.known connection ≤ 1 := by
  rw [known]
  split <;> omega

/-- What holds of the server. -/
structure Ordered (server : TCPServer ι) : Prop where
  accept : ∀ connection, server.acceptCount connection ≤ server.known connection
  exactly : server.poNotify = true →
    ∀ connection, server.acceptCount connection = server.known connection
  disconnect : ∀ connection, server.disconnectCount connection ≤ server.known connection
  dataFirst : DataFirst server.calls

theorem ordered_listening (blHB : Bool) : (listening blHB : TCPServer ι).Ordered :=
  ⟨fun _ => Nat.zero_le _, fun _ _ => rfl, fun _ => Nat.zero_le _, fun _ _ before _ split =>
    absurd split.symm (by simp [listening])⟩

/-- Nothing that is counted has changed, and no object has come. -/
structure Same (server after : TCPServer ι) : Prop where
  calls : after.calls = server.calls
  started : after.started = server.started
  clients : after.clientsMap = server.clientsMap
  accepted : after.accepted = server.accepted
  object : after.poNotify = true → server.poNotify = true

theorem Ordered.of_same {server after : TCPServer ι} (ordered : server.Ordered)
    (same : server.Same after) : after.Ordered := by
  have accepts : after.acceptCount = server.acceptCount := by
    funext connection
    rw [acceptCount, acceptCount, same.calls, same.started]
  have disconnects : after.disconnectCount = server.disconnectCount := by
    funext connection
    rw [disconnectCount, disconnectCount, same.calls, same.started, same.clients]
  have knows : after.known = server.known := by
    funext connection
    rw [known, known, same.accepted]
  refine ⟨?_, fun notify => ?_, ?_, ?_⟩
  · rw [accepts, knows]
    exact ordered.accept
  · rw [accepts, knows]
    exact ordered.exactly (same.object notify)
  · rw [disconnects, knows]
    exact ordered.disconnect
  · rw [same.calls]
    exact ordered.dataFirst

/-- A thread that has found a client holds the mutex, and the client stays. -/
def stands (thread : ι) (server : TCPServer ι) : ServerPoint → Prop
  | .found connection _ => thread ∈ server.sharedMutex ∧ connection ∈ server.clientsMap
  | .onRawData => thread ∈ server.sharedMutex
  | .unlock => thread ∈ server.sharedMutex
  | _ => True

/-- The server is ordered, and clients that were found stay. -/
def orderly (ι : Type) : Outline ι (TCPServer ι) ServerPoint where
  shared := Ordered
  running := stands

variable {server after : TCPServer ι} {thread : ι}

/-- A step that takes no client out while the mutex is held shared, and keeps its other holders. -/
theorem keeps_of [DecidableEq ι] (ordered : after.Ordered) {next : Option ServerPoint}
    (own : ∀ point, next = some point → stands thread after point)
    (holders : ∀ other ≠ thread, other ∈ server.sharedMutex → other ∈ after.sharedMutex)
    (clients : server.sharedMutex ≠ [] → ∀ connection ∈ server.clientsMap,
      connection ∈ after.clientsMap) : (orderly ι).Keeps thread server (after, next) := by
  refine ⟨ordered, own, fun other point different holds => ?_⟩
  cases point with
  | found connection packet =>
      obtain ⟨holding, member⟩ := holds
      exact ⟨holders other different holding,
        clients (List.ne_nil_of_mem holding) connection member⟩
  | onRawData => exact holders other different holds
  | unlock => exact holders other different holds
  | _ => trivial

/-- A step that changes no more than who holds a mutex, who is read from, or the object. -/
theorem keeps_of_same [DecidableEq ι] (ordered : server.Ordered) {next : Option ServerPoint}
    (same : server.Same after)
    (own : ∀ point, next = some point → stands thread after point)
    (holders : ∀ other ≠ thread, other ∈ server.sharedMutex → other ∈ after.sharedMutex) :
    (orderly ι).Keeps thread server (after, next) := by
  apply keeps_of (ordered.of_same same) own holders
  intro _ connection member
  rw [same.clients]
  exact member

/-- A thread that leaves the server as it is. -/
theorem keeps_unchanged [DecidableEq ι] (ordered : server.Ordered) {next : Option ServerPoint}
    (own : ∀ point, next = some point → stands thread server point) :
    (orderly ι).Keeps thread server (server, next) :=
  keeps_of ordered own (fun _ _ => id) fun _ _ => id

/-! ## Counts -/

section Counts

variable {α : Type} [DecidableEq α]

theorem count_append_singleton (list : List α) (last a : α) :
    (list ++ [last]).count a = list.count a + if last = a then 1 else 0 := by
  rw [List.count_append, List.count_singleton]
  by_cases same : last = a
  · rw [if_pos same, if_pos (beq_iff_eq.mpr same)]
  · rw [if_neg same, if_neg fun equal => same (beq_iff_eq.mp equal)]

theorem count_erase_add {list : List α} {gone : α} (member : gone ∈ list) (a : α) :
    (list.erase gone).count a + (if gone = a then 1 else 0) = list.count a := by
  by_cases same : gone = a
  · have positive := List.count_pos_iff.mpr member
    rw [if_pos same, ← same, List.count_erase_self]
    omega
  · rw [if_neg same, List.count_erase_of_ne (Ne.symm same), Nat.add_zero]

end Counts

/-! ## The sections -/

theorem Ordered.accepted (ordered : server.Ordered) :
    Ordered { server with
      clientsMap := server.clientsMap ++ [server.accepted]
      started := server.started ++ [.onAccept server.accepted]
      accepted := server.accepted + 1 } := by
  let next : TCPServer ι := { server with
    clientsMap := server.clientsMap ++ [server.accepted]
    started := server.started ++ [.onAccept server.accepted]
    accepted := server.accepted + 1 }
  have accepts (connection : ConnectionRef) : next.acceptCount connection =
      server.acceptCount connection + if server.accepted = connection then 1 else 0 := by
    simp only [acceptCount, next, count_append_singleton, NotifyThread.onAccept.injEq, Nat.add_assoc]
  have disconnects (connection : ConnectionRef) : next.disconnectCount connection =
      server.disconnectCount connection + if server.accepted = connection then 1 else 0 := by
    simp only [disconnectCount, next, count_append_singleton, reduceCtorEq, if_false, Nat.add_zero,
      Nat.add_assoc]
  have knows (connection : ConnectionRef) : next.known connection =
      server.known connection + if server.accepted = connection then 1 else 0 := by
    change (if connection < server.accepted + 1 then 1 else 0) =
      (if connection < server.accepted then 1 else 0) + if server.accepted = connection then 1 else 0
    rcases Nat.lt_trichotomy connection server.accepted with before | same | behind
    · rw [if_pos (Nat.lt_succ_of_lt before), if_pos before, if_neg (Nat.ne_of_gt before)]
    · have here : connection < server.accepted + 1 := Nat.lt_succ_of_le (Nat.le_of_eq same)
      rw [if_pos here, if_neg (Nat.not_lt.mpr (Nat.le_of_eq same.symm)), if_pos same.symm]
    · have far : ¬ connection < server.accepted + 1 := Nat.not_lt.mpr (Nat.succ_le_of_lt behind)
      rw [if_neg far, if_neg (Nat.lt_asymm behind), if_neg (Nat.ne_of_lt behind)]
  refine ⟨fun connection => ?_, fun notify connection => ?_, fun connection => ?_, ordered.dataFirst⟩
  · rw [accepts, knows]
    exact Nat.add_le_add_right (ordered.accept connection) _
  · rw [accepts, knows, ordered.exactly notify connection]
  · rw [disconnects, knows]
    exact Nat.add_le_add_right (ordered.disconnect connection) _

/-- A client that is taken out is going to be notified. -/
theorem Ordered.remove (ordered : server.Ordered) (connection : ConnectionRef) :
    (server.remove connection).Ordered := by
  rw [TCPServer.remove]
  by_cases member : connection ∈ server.clientsMap
  · rw [if_pos member]
    have accepts (other : ConnectionRef) : acceptCount { server with
          clientsMap := server.clientsMap.erase connection
          started := server.started ++ [.onDisconnect connection] } other =
        server.acceptCount other := by
      simp only [acceptCount, count_append_singleton, reduceCtorEq, if_false, Nat.add_zero]
    refine ⟨fun other => ?_, fun notify other => ?_, fun other => ?_, ordered.dataFirst⟩
    · rw [accepts]
      exact ordered.accept other
    · rw [accepts]
      exact ordered.exactly notify other
    · refine Nat.le_trans (Nat.le_of_eq ?_) (ordered.disconnect other)
      have erased := count_erase_add member other
      simp only [disconnectCount, count_append_singleton, NotifyThread.onDisconnect.injEq]
      omega
  · rw [if_neg member]
    exact ordered

/-- Clients that are forgotten. -/
theorem Ordered.cleared (ordered : server.Ordered) :
    Ordered { server with clientsMap := [] } := by
  refine ⟨ordered.accept, ordered.exactly, fun connection => ?_, ordered.dataFirst⟩
  refine Nat.le_trans ?_ (ordered.disconnect connection)
  simp only [disconnectCount, List.count_nil]
  omega

/-- A call of another kind in front of which data may come. -/
theorem DataFirst.append_other {calls : List Notification} (dataFirst : DataFirst calls)
    {notification : Notification}
    (other : ∀ connection data, notification ≠ .onRawData connection data) :
    DataFirst (calls ++ [notification]) := by
  intro connection data before after split
  rcases List.eq_nil_or_concat after with rfl | ⟨front, last, rfl⟩
  · exact absurd (List.append_inj' split rfl).2 (by simpa using other connection data)
  · rw [List.concat_eq_append, ← List.cons_append, ← List.append_assoc] at split
    exact dataFirst connection data before front (List.append_inj' split rfl).1

/-- Data of a client that was not notified as disconnected. -/
theorem DataFirst.append_data {calls : List Notification} (dataFirst : DataFirst calls)
    {connection : ConnectionRef} (connected : .onClientDisconnect connection ∉ calls)
    (data : List UInt8) : DataFirst (calls ++ [.onRawData connection data]) := by
  intro found given before after split
  rcases List.eq_nil_or_concat after with rfl | ⟨front, last, rfl⟩
  · obtain ⟨same, notified⟩ := List.append_inj' split rfl
    cases notified
    rw [← same]
    exact connected
  · rw [List.concat_eq_append, ← List.cons_append, ← List.append_assoc] at split
    exact dataFirst found given before front (List.append_inj' split rfl).1

/-- A client that is in the map was not notified as disconnected. -/
theorem Ordered.not_disconnected (ordered : server.Ordered) {connection : ConnectionRef}
    (member : connection ∈ server.clientsMap) :
    .onClientDisconnect connection ∉ server.calls := by
  intro notified
  have count := ordered.disconnect connection
  have inMap := List.count_pos_iff.mpr member
  have inCalls := List.count_pos_iff.mpr notified
  have once := server.known_le connection
  rw [disconnectCount] at count
  omega

theorem acceptCount_notify (server : TCPServer ι) (thread : ι) (notification : Notification)
    (connection : ConnectionRef) : (server.notify thread notification).acceptCount connection =
      server.acceptCount connection + if notification = .onAccept connection then 1 else 0 := by
  simp only [acceptCount, notify, count_append_singleton]
  omega

theorem disconnectCount_notify (server : TCPServer ι) (thread : ι) (notification : Notification)
    (connection : ConnectionRef) :
    (server.notify thread notification).disconnectCount connection =
      server.disconnectCount connection +
        if notification = .onClientDisconnect connection then 1 else 0 := by
  simp only [disconnectCount, notify, count_append_singleton]
  omega

/-- Data of a client is notified. -/
theorem Ordered.notifyData (ordered : server.Ordered) {connection : ConnectionRef}
    (member : connection ∈ server.clientsMap) (thread : ι) (data : List UInt8) :
    (server.notify thread (.onRawData connection data)).Ordered := by
  refine ⟨fun other => ?_, fun notify other => ?_, fun other => ?_,
    ordered.dataFirst.append_data (ordered.not_disconnected member) data⟩
  · rw [acceptCount_notify]
    exact ordered.accept other
  · rw [acceptCount_notify]
    exact ordered.exactly notify other
  · rw [disconnectCount_notify]
    exact ordered.disconnect other

/-- A thread that was started comes to its call. -/
theorem Ordered.run (ordered : server.Ordered) {started : NotifyThread}
    (member : started ∈ server.started) (thread : ι) :
    (notify { server with started := server.started.erase started } thread
      started.notification).Ordered := by
  have erased := count_erase_add member
  have accepts (connection : ConnectionRef) : (notify { server with
        started := server.started.erase started } thread started.notification).acceptCount
          connection = server.acceptCount connection := by
    rw [acceptCount_notify]
    have := erased (.onAccept connection)
    cases started <;>
      simp only [acceptCount, NotifyThread.notification, NotifyThread.onAccept.injEq,
        Notification.onAccept.injEq, reduceCtorEq, if_false] at this ⊢ <;>
      omega
  have disconnects (connection : ConnectionRef) : (notify { server with
        started := server.started.erase started } thread started.notification).disconnectCount
          connection = server.disconnectCount connection := by
    rw [disconnectCount_notify]
    have := erased (.onDisconnect connection)
    cases started <;>
      simp only [disconnectCount, NotifyThread.notification, NotifyThread.onDisconnect.injEq,
        Notification.onClientDisconnect.injEq, reduceCtorEq, if_false] at this ⊢ <;>
      omega
  refine ⟨fun connection => ?_, fun notify connection => ?_, fun connection => ?_, ?_⟩
  · rw [accepts]
    exact ordered.accept connection
  · rw [accepts]
    exact ordered.exactly notify connection
  · rw [disconnects]
    exact ordered.disconnect connection
  · refine ordered.dataFirst.append_other fun connection data => ?_
    cases started <;> exact nofun

/-- A thread that was started finds no object to notify. -/
theorem Ordered.drop (ordered : server.Ordered) (nobody : server.poNotify = false)
    (started : NotifyThread) : Ordered { server with started := server.started.erase started } := by
  have fewer (other : NotifyThread) :=
    (List.erase_sublist (a := started) (l := server.started)).count_le other
  refine ⟨fun connection => ?_, fun notify => ?_, fun connection => ?_, ordered.dataFirst⟩
  · refine Nat.le_trans ?_ (ordered.accept connection)
    exact Nat.add_le_add_left (fewer _) _
  · exact absurd (nobody.symm.trans notify) (by decide)
  · refine Nat.le_trans ?_ (ordered.disconnect connection)
    exact Nat.add_le_add_right (Nat.add_le_add_left (fewer _) _) _

/-! ## What is notified -/

/-- Every client is notified once as accepted, unless the thread that does so is still to come or
nobody wants to be notified any more; at most once as disconnected; and never of data after it was
notified as disconnected. -/
structure Notified (server : TCPServer ι) : Prop where
  acceptedOnce : ∀ connection, server.calls.count (.onAccept connection) ≤ 1
  accepted : server.poNotify = true → ∀ connection < server.accepted,
    .onAccept connection ∉ server.started → server.calls.count (.onAccept connection) = 1
  disconnectedOnce : ∀ connection, server.calls.count (.onClientDisconnect connection) ≤ 1
  dataFirst : DataFirst server.calls

theorem Ordered.notifies (ordered : server.Ordered) : server.Notified := by
  refine ⟨fun connection => ?_, fun notify connection old come => ?_, fun connection => ?_,
    ordered.dataFirst⟩
  · have count := ordered.accept connection
    have := server.known_le connection
    rw [acceptCount] at count
    omega
  · have count := ordered.exactly notify connection
    rw [acceptCount, known, if_pos old, List.count_eq_zero.mpr come] at count
    exact count
  · have count := ordered.disconnect connection
    have := server.known_le connection
    rw [disconnectCount] at count
    omega

/-! ## Every interleaving -/

variable [DecidableEq ι]

/-- A step of a call keeps the server ordered and disturbs no other thread. -/
theorem keeps_advance (ordered : server.Ordered) {point : ServerPoint}
    (holds : stands thread server point) :
    (orderly ι).Keeps thread server (server.advance thread point) := by
  rw [advance.eq_def]
  cases point with
  | onAccept =>
      dsimp only
      by_cases held : server.sharedMutex ≠ []
      · rw [if_pos held]
        exact keeps_unchanged ordered fun point going => by cases going; trivial
      · rw [if_neg held]
        exact keeps_of ordered.accepted (fun point going => by cases going; trivial)
          (fun _ _ => id) fun _ _ member => List.mem_append_left _ member
  | beginRead connection =>
      apply keeps_of_same ordered
      · exact ⟨rfl, rfl, rfl, rfl, id⟩
      · exact nofun
      · exact fun _ _ => id
  | onReceiveData connection packet =>
      apply keeps_of_same ordered
      · exact ⟨rfl, rfl, rfl, rfl, id⟩
      · intro point going
        cases going
        by_cases member : connection ∈ server.clientsMap
        · rw [if_pos member]
          exact ⟨List.mem_cons_self, member⟩
        · rw [if_neg member]
          exact List.mem_cons_self
      · exact fun _ _ member => List.mem_cons_of_mem _ member
  | found connection packet =>
      obtain ⟨holding, member⟩ := holds
      dsimp only
      cases server.notifiedData packet with
      | none => exact keeps_unchanged ordered fun point going => by cases going; exact holding
      | some data =>
          dsimp only
          by_cases object : server.poNotify = true
          · rw [if_pos object]
            exact keeps_of (ordered.notifyData member thread data)
              (fun point going => by cases going; exact holding) (fun _ _ => id) fun _ _ => id
          · rw [if_neg object]
            exact keeps_unchanged ordered fun point going => by cases going; exact holding
  | onRawData =>
      apply keeps_of_same ordered
      · exact ⟨rfl, rfl, rfl, rfl, id⟩
      · intro point going
        cases going
        exact holds
      · exact fun _ _ => id
  | unlock =>
      apply keeps_of_same ordered
      · exact ⟨rfl, rfl, rfl, rfl, id⟩
      · exact nofun
      · exact fun other different member => (List.mem_erase_of_ne different).mpr member
  | onDisconnect connection =>
      dsimp only
      by_cases held : server.sharedMutex ≠ []
      · rw [if_pos held]
        exact keeps_unchanged ordered fun point going => by cases going; trivial
      · rw [if_neg held]
        refine keeps_of (ordered.remove connection) nofun (fun _ _ member => ?_)
          fun taken => absurd taken held
        rw [remove]
        split <;> exact member
  | run started =>
      dsimp only
      by_cases member : started ∈ server.started
      · rw [if_pos member]
        by_cases object : server.poNotify = true
        · rw [if_pos object]
          exact keeps_of (ordered.run member thread) (fun point going => by cases going; trivial)
            (fun _ _ => id) fun _ _ => id
        · rw [if_neg object]
          exact keeps_of (ordered.drop (Bool.eq_false_iff.mpr object) started) nofun
            (fun _ _ => id) fun _ _ => id
      · rw [if_neg member]
        exact keeps_unchanged ordered nofun
  | notified =>
      apply keeps_of_same ordered
      · exact ⟨rfl, rfl, rfl, rfl, id⟩
      · exact nofun
      · exact fun _ _ => id
  | closeSocket =>
      dsimp only
      by_cases held : server.sharedMutex ≠ []
      · rw [if_pos held]
        exact keeps_unchanged ordered fun point going => by cases going; trivial
      · rw [if_neg held]
        exact keeps_of ordered.cleared nofun (fun _ _ => id) fun taken => absurd taken held
  | clearNotifyObj =>
      dsimp only
      by_cases held : server.notifyMutex ≠ []
      · rw [if_pos held]
        exact keeps_unchanged ordered fun point going => by cases going; trivial
      · rw [if_neg held]
        apply keeps_of_same ordered
        · exact ⟨rfl, rfl, rfl, rfl, nofun⟩
        · exact nofun
        · exact fun _ _ => id
  | returned => exact keeps_unchanged ordered nofun

/-- A step keeps the server ordered. -/
theorem holds_step {threads : Threads ι} (holds : (orderly ι).Holds threads) (choice : Choice ι) :
    (orderly ι).Holds (program.step threads choice) := by
  refine holds.step (fun thread call _ _ => ?_) fun thread input point _ _ running => ?_
  · have outside : (server : TCPServer ι) → (enter server call).1 = server ∧
        stands thread server (enter server call).2 := by
      intro server
      cases call <;> refine ⟨rfl, ?_⟩ <;> simp only [enter] <;> (try split) <;> trivial
    obtain ⟨same, standing⟩ := outside threads.shared
    change (orderly ι).Keeps thread threads.shared ((enter threads.shared call).1, _)
    rw [same]
    refine keeps_unchanged holds.shared fun point going => ?_
    cases going
    exact standing
  · exact keeps_advance holds.shared running

end TCPServer

open TCPServer

/-- **Notifications of a client**, in every interleaving of the io threads, the threads that are
started and the owner of the server. -/
theorem notified {ι : Type} [DecidableEq ι] (blHB : Bool) (choices : List (Choice ι)) :
    Notified (Run.final program.step (Threads.idle (listening blHB)) choices).shared := by
  have holds : (orderly ι).Holds
      (Run.final program.step (Threads.idle (listening blHB)) choices) :=
    Run.final_of_kept (orderly ι).Holds (fun _ choice holds => holds_step holds choice)
      (Outline.Holds.idle (ordered_listening blHB)) choices
  exact holds.shared.notifies

/-- Every client is notified as accepted before anything else. -/
def AcceptedFirst (calls : List Notification) : Prop :=
  ∀ connection before notification after, calls = before ++ notification :: after →
    (notification = .onClientDisconnect connection ∨
      ∃ data, notification = .onRawData connection data) →
    .onAccept connection ∈ before

/-- A client whose data and whose end are notified before the thread that was started for its
acceptance comes to its call. -/
theorem accepted_last :
    let server := (Run.final program.step (Threads.idle (listening false))
      [.call 1 .accept, .advance 1 (), .advance 1 (), .call 2 (.receive 0 ⟨[7]⟩), .advance 2 (),
        .advance 2 (), .advance 2 (), .advance 2 (), .call 2 (.disconnect 0), .advance 2 (),
        .call 3 (.run (.onDisconnect 0)), .advance 3 (), .call 4 (.run (.onAccept 0)),
        .advance 4 ()]).shared
    server.calls = [.onRawData 0 [7], .onClientDisconnect 0, .onAccept 0] ∧
      ¬ AcceptedFirst server.calls := by
  refine ⟨by decide, fun first => ?_⟩
  exact absurd (first 0 [] (.onRawData 0 [7]) [.onClientDisconnect 0, .onAccept 0] (by decide)
    (.inr ⟨[7], rfl⟩)) List.not_mem_nil

end Cube.Fndnet
