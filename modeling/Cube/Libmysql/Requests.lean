import Mathlib.Tactic.SplitIfs
import Mathlib.Data.List.Basic
import Cube.Libmysql.DbMysqlConn

/-! # Requests over a connection that may be lost

What a request, and a call that makes it again over a fresh connection, may change at the
server: nothing that is kept is lost, and only what was pending or is new can be kept.
-/

namespace Cube.Libmysql

/-! ## What the requests do to the server -/

namespace Server

variable (server : Server)

/-- The server behind a connection that was opened again. -/
def fresh : Server := { server with connected := true, transaction := none }

theorem pending_of_some {server : Server} {number : Nat} {statements : List Statement}
    (open_ : server.transaction = some (number, statements)) : server.pending = statements := by
  rw [pending, open_]

/-- What the open transaction has is kept after these requests. -/
def Commits : Request → Prop
  | .begin_ _ | .commit => True
  | _ => False

/-- The statement that a request executes. -/
def Executes (request : Request) (statement : Statement) : Prop := request = .statement statement

/-- How a server changes: nothing that is kept is lost, and what is kept or pending afterwards
was so before, or is allowed to be kept, or is new. -/
structure Grows (allowed new : Statement → Prop) (before after : Server) : Prop where
  kept : ∀ statement ∈ before.kept, statement ∈ after.kept
  keptOnly : ∀ statement ∈ after.kept,
    statement ∈ before.kept ∨ allowed statement ∨ new statement
  pendingOnly : ∀ statement ∈ after.pending, statement ∈ before.pending ∨ new statement

variable {server}

theorem Grows.refl (allowed new : Statement → Prop) (server : Server) :
    Grows allowed new server server where
  kept _ member := member
  keptOnly _ member := .inl member
  pendingOnly _ member := .inl member

theorem Grows.trans {allowed new : Statement → Prop} {first second third : Server}
    (one : Grows allowed new first second) (two : Grows (fun _ => False) new second third) :
    Grows allowed new first third where
  kept statement member := two.kept statement (one.kept statement member)
  keptOnly statement member := by
    rcases two.keptOnly statement member with before | impossible | isNew
    · exact one.keptOnly statement before
    · exact impossible.elim
    · exact .inr (.inr isNew)
  pendingOnly statement member := by
    rcases two.pendingOnly statement member with before | isNew
    · exact one.pendingOnly statement before
    · exact .inr isNew

theorem Grows.drop {allowed new : Statement → Prop} {before after : Server}
    (grows : Grows allowed new before after) : Grows allowed new before after.drop where
  kept := grows.kept
  keptOnly := grows.keptOnly
  pendingOnly := nofun

theorem grows_fresh (allowed new : Statement → Prop) (server : Server) :
    Grows allowed new server server.fresh where
  kept _ member := member
  keptOnly _ member := .inl member
  pendingOnly := nofun

theorem grows_performs (server : Server) (request : Request) :
    Grows (fun statement => Commits request ∧ statement ∈ server.pending) (Executes request)
      server (server.performs request) := by
  cases request with
  | begin_ number =>
      exact
        { kept := fun _ member => List.mem_append_left _ member
          keptOnly := fun _ member =>
            (List.mem_append.mp member).imp_right fun pending => .inl ⟨trivial, pending⟩
          pendingOnly := nofun }
  | statement new =>
      rw [performs]
      cases open_ : server.transaction with
      | none =>
          refine
            { kept := fun _ member => List.mem_append_left _ member
              keptOnly := fun statement member => ?_
              pendingOnly := nofun }
          refine (List.mem_append.mp member).imp_right fun isNew => .inr ?_
          rw [Executes, List.mem_singleton.mp isNew]
      | some transaction =>
          obtain ⟨number, statements⟩ := transaction
          refine
            { kept := fun _ member => member
              keptOnly := fun _ member => .inl member
              pendingOnly := fun statement member => ?_ }
          rw [pending_of_some open_]
          refine (List.mem_append.mp member).imp_right fun isNew => ?_
          rw [Executes, List.mem_singleton.mp isNew]
  | select => exact .refl _ _ _
  | commit =>
      exact
        { kept := fun _ member => List.mem_append_left _ member
          keptOnly := fun _ member =>
            (List.mem_append.mp member).imp_right fun pending => .inl ⟨trivial, pending⟩
          pendingOnly := nofun }
  | rollback =>
      exact
        { kept := fun _ member => member
          keptOnly := fun _ member => .inl member
          pendingOnly := nofun }

/-- What a request with its fate may keep: the open transaction, if it commits and is done. -/
def Allows (server : Server) (request : Request) (fate : Fate) (statement : Statement) : Prop :=
  server.connected = true ∧ (fate = .done ∨ fate = .lostAfter) ∧ Commits request ∧
    statement ∈ server.pending

theorem request_connected (connected : server.connected = true) (request : Request)
    (fate : Fate) :
    server.request request fate =
      match fate with
      | .done => (server.performs request, true)
      | .refused => (server, false)
      | .lostBefore => (server.drop, false)
      | .lostAfter => ((server.performs request).drop, false) := if_pos connected

theorem grows_request (server : Server) (request : Request) (fate : Fate) :
    Grows (server.Allows request fate) (Executes request) server
      (server.request request fate).1 := by
  have performs := grows_performs server request
  unfold Server.request
  split_ifs with connected
  · cases fate with
    | done =>
        exact { performs with
          keptOnly := fun statement member =>
            (performs.keptOnly statement member).imp_right
              (Or.imp_left fun pending => ⟨connected, .inl rfl, pending⟩) }
    | refused => exact .refl _ _ _
    | lostBefore => exact Grows.drop (.refl _ _ _)
    | lostAfter =>
        exact Grows.drop { performs with
          keptOnly := fun statement member =>
            (performs.keptOnly statement member).imp_right
              (Or.imp_left fun pending => ⟨connected, .inr rfl, pending⟩) }
  · exact .refl _ _ _

/-- A request over a fresh connection finds nothing pending. -/
theorem grows_request_fresh (server : Server) (request : Request) (fate : Fate) :
    Grows (fun _ => False) (Executes request) server.fresh
      (server.fresh.request request fate).1 := by
  have grows := grows_request server.fresh request fate
  exact { grows with
    keptOnly := fun statement member =>
      (grows.keptOnly statement member).imp_right
        (Or.imp_left fun allows => List.not_mem_nil allows.2.2.2) }

end Server

/-! ## What a call sends -/

namespace DbMysqlConn

open Server

variable {server : Server} {luck : Luck}

/-- The connection is lost during the first request of a call, or found lost after it. -/
def Loses (luck : Luck) : Prop :=
  luck.fate = .lostBefore ∨ luck.fate = .lostAfter ∨ luck.fate = .refused ∧ luck.pingLoses = true

instance (luck : Luck) : Decidable (Loses luck) := inferInstanceAs (Decidable (_ ∨ _))

/-- What a call does once it has found the connection lost. -/
def resumes (server : Server) (request : Request) (luck : Luck) : Server × Bool :=
  match luck.reconnection with
  | .none => (server, false)
  | .incomplete => (server.fresh, false)
  | .complete => server.fresh.request request luck.again

/-- The server when a call has found the connection lost. -/
def lostServer (server : Server) (request : Request) (luck : Luck) : Server :=
  if luck.fate = .lostAfter then (server.performs request).drop else server.drop

theorem sends_done (connected : server.connected = true) (request : Request)
    (done : luck.fate = .done) : sends server request luck = (server.performs request, true) := by
  simp only [sends, Server.request, connected, done, if_true]

theorem sends_refused (connected : server.connected = true) (request : Request)
    (refused : luck.fate = .refused) (alive : luck.pingLoses = false) :
    sends server request luck = (server, false) := by
  simp only [sends, Server.request, Server.ping, connected, refused, alive, if_true,
    Bool.false_eq_true, if_false]

private theorem reconnect_resumes (server : Server) (request : Request) (luck : Luck) :
    (if (server.reconnect luck.reconnection).2 = true then
        (server.reconnect luck.reconnection).1.request request luck.again
      else ((server.reconnect luck.reconnection).1, false)) = resumes server request luck := by
  unfold Server.reconnect resumes
  cases luck.reconnection <;> rfl

theorem sends_lost (connected : server.connected = true) (request : Request)
    (loses : Loses luck) :
    sends server request luck = resumes (lostServer server request luck) request luck := by
  rw [← reconnect_resumes]
  rcases loses with before | after | ⟨refused, pings⟩
  · simp only [sends, Server.request, Server.ping, connected, before, if_true, drop,
      lostServer, reduceCtorEq, Bool.false_eq_true, if_false]
  · simp only [sends, Server.request, Server.ping, connected, after, if_true, drop,
      lostServer, Bool.false_eq_true, if_false]
  · simp only [sends, Server.request, Server.ping, connected, refused, pings, if_true, drop,
      lostServer, reduceCtorEq, Bool.false_eq_true, if_false]

theorem sends_disconnected (disconnected : server.connected = false) (request : Request)
    (luck : Luck) : sends server request luck = resumes server request luck := by
  rw [← reconnect_resumes]
  simp only [sends, Server.request, Server.ping, disconnected, Bool.false_eq_true, if_false]

/-- A call whose connection holds has its request done or refused. -/
theorem done_or_refused (holds : ¬ Loses luck) :
    luck.fate = .done ∨ luck.fate = .refused ∧ luck.pingLoses = false := by
  cases fate : luck.fate with
  | done => exact .inl rfl
  | refused =>
      refine .inr ⟨rfl, Bool.eq_false_iff.mpr fun pings => holds ?_⟩
      exact .inr (.inr ⟨fate, pings⟩)
  | lostBefore => exact (holds (.inl fate)).elim
  | lostAfter => exact (holds (.inr (.inl fate))).elim

theorem grows_resumes (server : Server) (request : Request) (luck : Luck) :
    Grows (fun _ => False) (Executes request) server (resumes server request luck).1 := by
  unfold resumes
  cases luck.reconnection with
  | none => exact .refl _ _ _
  | incomplete => exact grows_fresh _ _ _
  | complete => exact (grows_fresh _ _ _).trans (grows_request_fresh server request luck.again)

/-- **What a call may change at the server.** -/
theorem grows_sends (server : Server) (request : Request) (luck : Luck) :
    Grows (server.Allows request luck.fate) (Executes request) server
      (sends server request luck).1 := by
  have first := grows_request server request luck.fate
  cases connected : server.connected with
  | false =>
      rw [sends_disconnected connected]
      exact (Grows.refl _ _ _).trans (grows_resumes server request luck)
  | true =>
      by_cases loses : Loses luck
      · rw [sends_lost connected request loses]
        refine Grows.trans ?_ (grows_resumes _ request luck)
        unfold lostServer
        split_ifs with after
        · rw [request_connected connected, after] at first
          rw [after]
          exact first
        · exact Grows.drop (.refl _ _ _)
      · rcases done_or_refused loses with done | ⟨refused, alive⟩
        · rw [sends_done connected request done]
          rw [request_connected connected, done] at first
          rw [done]
          exact first
        · rw [sends_refused connected request refused alive]
          exact .refl _ _ _

/-- After a loss there is no transaction, unless the call has begun one. -/
theorem transaction_resumes (request : Request) (luck : Luck) (none : server.transaction = none) :
    (resumes server request luck).1.transaction = Option.none ∨
      (luck.reconnection = .complete ∧ luck.again = .done ∧
        (resumes server request luck) = (server.fresh.performs request, true)) := by
  unfold resumes
  cases reconnection : luck.reconnection with
  | none => exact .inl none
  | incomplete => exact .inl rfl
  | complete =>
      rw [request_connected rfl]
      cases again : luck.again with
      | done => exact .inr ⟨rfl, rfl, rfl⟩
      | refused => exact .inl rfl
      | lostBefore => exact .inl rfl
      | lostAfter => exact .inl rfl

/-- A call that returns true had its request done over a connection that stands. -/
theorem resumes_true {request : Request} (returned : (resumes server request luck).2 = true) :
    ∃ base : Server, base.connected = true ∧ (resumes server request luck).1 = base.performs request := by
  unfold resumes at returned ⊢
  cases reconnection : luck.reconnection with
  | none =>
      rw [reconnection] at returned
      cases returned
  | incomplete =>
      rw [reconnection] at returned
      cases returned
  | complete =>
      rw [reconnection, request_connected rfl] at returned
      rw [request_connected rfl]
      cases again : luck.again with
      | done => exact ⟨server.fresh, rfl, rfl⟩
      | refused =>
          rw [again] at returned
          cases returned
      | lostBefore =>
          rw [again] at returned
          cases returned
      | lostAfter =>
          rw [again] at returned
          cases returned

theorem sends_true {request : Request} (returned : (sends server request luck).2 = true) :
    ∃ base : Server, base.connected = true ∧ (sends server request luck).1 = base.performs request := by
  cases connected : server.connected with
  | false =>
      rw [sends_disconnected connected] at returned ⊢
      exact resumes_true returned
  | true =>
      by_cases loses : Loses luck
      · rw [sends_lost connected request loses] at returned ⊢
        exact resumes_true returned
      · rcases done_or_refused loses with done | ⟨refused, alive⟩
        · rw [sends_done connected request done]
          exact ⟨server, connected, rfl⟩
        · rw [sends_refused connected request refused alive] at returned
          cases returned

theorem transaction_lostServer (request : Request) :
    (lostServer server request luck).transaction = none := by
  unfold lostServer
  split_ifs <;> rfl

end DbMysqlConn

end Cube.Libmysql
