import Mathlib.Tactic.SplitIfs
import Cube.Database.ConnPool

/-! # One user for each connection

An instance that a user holds is marked as used, so nobody else gets it. The nightly rebuild
deletes whatever is in the list, used or not, and leaves no database object behind if the
database does not open.
-/

namespace Cube.Database.ConnPool

open Interleaving

/-! ## What the operations do to the instances -/

section Operations

variable {answers : Answers}

/-- The instances that are not deleted. -/
def Live (pool : ConnPool) (id : Nat) : Prop := pool.instances id ≠ none

instance (pool : ConnPool) (id : Nat) : Decidable (pool.Live id) :=
  inferInstanceAs (Decidable (_ ≠ _))

/-- What is in the list is not deleted, and only what was allocated is there. -/
structure Consistent (pool : ConnPool) : Prop where
  listed : ∀ id, some id ∈ pool.vecConn → pool.Live id
  allocated : ∀ id, pool.Live id → id < pool.allocated

/-- What an operation that does not delete keeps: the instances that are in use. -/
structure Keeps (before after : ConnPool) : Prop where
  consistent : Consistent after
  used : ∀ id, before.instances id = some .use → after.instances id = some .use

theorem Keeps.trans {first second third : ConnPool} (one : Keeps first second)
    (two : Keeps second third) : Keeps first third :=
  ⟨two.consistent, fun id used => two.used id (one.used id used)⟩

/-- What `findIdle` does: instances that are not idle stay as they are, nothing is deleted or
created, and what is found was idle and in the list. -/
structure Finds (instances : Nat → Option Status) (vecConn : List (Option Nat))
    (found : (Nat → Option Status) × Option Nat) : Prop where
  kept : ∀ id, instances id ≠ some .idle → found.1 id = instances id
  live : ∀ id, found.1 id = none ↔ instances id = none
  used : ∀ id, found.2 = some id →
    instances id = some .idle ∧ found.1 id = some .use ∧ some id ∈ vecConn

theorem findIdle_spec (answers : Answers) (instances : Nat → Option Status)
    (vecConn : List (Option Nat)) :
    Finds instances vecConn (findIdle answers instances vecConn) := by
  induction vecConn generalizing instances with
  | nil => exact ⟨fun _ _ => rfl, fun _ => Iff.rfl, nofun⟩
  | cons slot vecConn ih =>
      have later {found : (Nat → Option Status) × Option Nat}
          (finds : Finds instances vecConn found) : Finds instances (slot :: vecConn) found :=
        { finds with
          used := fun id same =>
            have ⟨idle, used, member⟩ := finds.used id same
            ⟨idle, used, List.mem_cons_of_mem _ member⟩ }
      cases slot with
      | none => exact later (ih instances)
      | some id =>
          rw [findIdle]
          split_ifs with idle connected
          · refine ⟨fun other busy => ?_, fun other => ?_, fun other same => ?_⟩
            · have different : other ≠ id := fun same => busy (same ▸ idle)
              exact Function.update_of_ne different ..
            · by_cases same : other = id
              · subst same
                simp only [Function.update_self, reduceCtorEq, idle]
              · simp only [Function.update_of_ne same]
            · obtain rfl : id = other := Option.some.inj same
              exact ⟨idle, Function.update_self .., List.mem_cons_self⟩
          · have finds := ih (Function.update instances id (some .exception))
            refine ⟨fun other busy => ?_, fun other => ?_, fun other same => ?_⟩
            · have different : other ≠ id := fun same => busy (same ▸ idle)
              have marked : Function.update instances id (some Status.exception) other =
                  instances other := Function.update_of_ne different ..
              rw [finds.kept other (marked ▸ busy), marked]
            · rw [finds.live]
              by_cases same : other = id
              · subst same
                simp only [Function.update_self, reduceCtorEq, idle]
              · simp only [Function.update_of_ne same]
            · obtain ⟨wasIdle, used, member⟩ := finds.used other same
              have different : other ≠ id := by
                intro same
                subst same
                rw [Function.update_self] at wasIdle
                cases wasIdle
              rw [Function.update_of_ne different] at wasIdle
              exact ⟨wasIdle, used, List.mem_cons_of_mem _ member⟩
          · exact later (ih instances)

/-- A pool after one more instance is in its list. -/
theorem Consistent.push {pool : ConnPool} (consistent : Consistent pool) {id : Nat}
    (live : pool.Live id) :
    Consistent { pool with vecConn := pool.vecConn ++ [some id] } where
  listed other member := by
    rcases List.mem_append.mp member with listed | new
    · exact consistent.listed other listed
    · obtain rfl : other = id := Option.some.inj (List.mem_singleton.mp new)
      exact live
  allocated := consistent.allocated

/-- Changing the mark of an instance. -/
theorem Consistent.mark {pool : ConnPool} (consistent : Consistent pool) {id : Nat}
    (live : pool.Live id) (status : Status) :
    Consistent { pool with instances := Function.update pool.instances id (some status) } := by
  have alive (other : Nat) :
      Function.update pool.instances id (some status) other ≠ none ↔ pool.Live other := by
    by_cases same : other = id
    · subst same
      simp only [Function.update_self, ne_eq, reduceCtorEq, not_false_eq_true, true_iff]
      exact live
    · rw [Function.update_of_ne same]
      rfl
  exact ⟨fun other member => (alive other).mpr (consistent.listed other member),
    fun other marked => consistent.allocated other ((alive other).mp marked)⟩

/-- An instance that was not allocated is none. -/
theorem Consistent.fresh {pool : ConnPool} (consistent : Consistent pool) :
    pool.instances pool.allocated = none := by
  by_contra live
  exact Nat.lt_irrefl _ (consistent.allocated _ live)

/-- A new instance is idle, and was none before. -/
theorem createconn_spec (answers : Answers) {pool : ConnPool} (consistent : Consistent pool) :
    Keeps pool (createconn answers pool).1 ∧
      ∀ id, (createconn answers pool).2 = some id →
        (createconn answers pool).1.instances id = some .idle ∧ pool.instances id = none := by
  have older {id : Nat} (live : pool.Live id) (status : Option Status) :
      Function.update pool.instances pool.allocated status id = pool.instances id :=
    Function.update_of_ne (Nat.ne_of_lt (consistent.allocated id live)) ..
  unfold createconn
  split_ifs
  · refine ⟨⟨⟨fun id listed => ?_, fun id live => ?_⟩, fun id used => ?_⟩, fun id same => ?_⟩
    · have live := consistent.listed id listed
      dsimp only [Live]
      rw [older live]
      exact live
    · by_cases same : id = pool.allocated
      · exact same ▸ Nat.lt_succ_self _
      · dsimp only [Live] at live
        rw [Function.update_of_ne same] at live
        exact Nat.lt_succ_of_lt (consistent.allocated id live)
    · have live : pool.Live id := by
        rw [Live, used]
        exact Option.some_ne_none _
      exact (older live _).trans used
    · obtain rfl : pool.allocated = id := Option.some.inj same
      exact ⟨Function.update_self .., consistent.fresh⟩
  · exact ⟨⟨⟨consistent.listed, fun id live => Nat.lt_succ_of_lt (consistent.allocated id live)⟩,
      fun _ used => used⟩, nofun⟩

/-- What `getconn` and its attempts to create a connection promise: the instance they return
is in use, and was not before. -/
structure Hands (before : ConnPool) (result : ConnPool × Option Nat) : Prop where
  keeps : Keeps before result.1
  handed : ∀ id, result.2 = some id →
    result.1.instances id = some .use ∧ before.instances id ≠ some .use

theorem createUsed_spec (answers : Answers) (tries : Nat) {pool : ConnPool}
    (consistent : Consistent pool) : Hands pool (createUsed answers tries pool) := by
  induction tries generalizing pool with
  | zero => exact ⟨⟨consistent, fun _ used => used⟩, nofun⟩
  | succ tries ih =>
      obtain ⟨keeps, made⟩ := createconn_spec answers consistent
      rw [createUsed]
      match created : createconn answers pool with
      | (middle, none) =>
          rw [created] at keeps
          have rest := ih keeps.consistent
          refine ⟨keeps.trans rest.keeps, fun id same => ?_⟩
          obtain ⟨used, unused⟩ := rest.handed id same
          exact ⟨used, fun before => unused (keeps.used id before)⟩
      | (middle, some id) =>
          rw [created] at keeps made
          obtain ⟨idle, fresh⟩ := made id rfl
          have live : middle.Live id := by
            rw [Live, idle]
            exact Option.some_ne_none _
          refine ⟨⟨(keeps.consistent.push live).mark live .use, fun other used => ?_⟩,
            fun other same => ?_⟩
          · have different : other ≠ id := by
              intro same
              rw [same, fresh] at used
              cases used
            exact (Function.update_of_ne different ..).trans (keeps.used other used)
          · obtain rfl : id = other := Option.some.inj same
            refine ⟨Function.update_self .., fun before => ?_⟩
            rw [fresh] at before
            cases before

/-- **Getting a connection** hands out one that nobody uses. -/
theorem getconn_spec (answers : Answers) {pool : ConnPool} (consistent : Consistent pool) :
    Hands pool (pool.getconn answers) := by
  have finds := findIdle_spec answers pool.instances pool.vecConn
  have searched : Consistent { pool with
      instances := (findIdle answers pool.instances pool.vecConn).1 } :=
    ⟨fun id listed => (finds.live id).not.mpr (consistent.listed id listed),
      fun id live => consistent.allocated id ((finds.live id).not.mp live)⟩
  have kept (id : Nat) (used : pool.instances id = some .use) :
      (findIdle answers pool.instances pool.vecConn).1 id = some .use := by
    rw [finds.kept id (by rw [used]; decide), used]
  unfold getconn
  match found : findIdle answers pool.instances pool.vecConn with
  | (instances, some id) =>
      rw [found] at searched kept finds
      refine ⟨⟨searched, kept⟩, fun other same => ?_⟩
      obtain rfl : id = other := Option.some.inj same
      obtain ⟨idle, used, _⟩ := finds.used id rfl
      refine ⟨used, ?_⟩
      rw [idle]
      decide
  | (instances, none) =>
      rw [found] at searched kept
      have rest := createUsed_spec answers 5 searched
      refine ⟨⟨rest.keeps.consistent, fun id used => rest.keeps.used id (kept id used)⟩,
        fun id same => ?_⟩
      obtain ⟨used, unused⟩ := rest.handed id same
      exact ⟨used, fun before => unused (kept id before)⟩

/-- Returning an instance changes no other. -/
theorem retconn_spec {pool : ConnPool} (consistent : Consistent pool) (id : Nat) :
    Consistent (pool.retconn id) ∧
      ∀ other, other ≠ id → (pool.retconn id).instances other = pool.instances other := by
  unfold retconn
  split_ifs with listed
  · exact ⟨consistent.mark (consistent.listed id listed) .idle,
      fun other different => Function.update_of_ne different ..⟩
  · exact ⟨consistent, fun _ _ => rfl⟩

/-- After all connections are released, none is in the list; those in it before are gone, and
only those. -/
theorem releaseAllConns_spec {pool : ConnPool} (consistent : Consistent pool) :
    Consistent pool.releaseAllConns ∧
      (∀ id, some id ∈ pool.vecConn → ¬ pool.releaseAllConns.Live id) ∧
      ∀ id, some id ∉ pool.vecConn → pool.releaseAllConns.instances id = pool.instances id := by
  have gone (id : Nat) (listed : some id ∈ pool.vecConn) :
      pool.releaseAllConns.instances id = none := if_pos listed
  have spared (id : Nat) (unlisted : some id ∉ pool.vecConn) :
      pool.releaseAllConns.instances id = pool.instances id := if_neg unlisted
  refine ⟨⟨fun id listed => ?_, fun id live => ?_⟩, fun id listed live => live (gone id listed),
    spared⟩
  · obtain ⟨_, _, impossible⟩ := List.mem_map.mp listed
    cases impossible
  · by_cases listed : some id ∈ pool.vecConn
    · exact (live (gone id listed)).elim
    · rw [Live, spared id listed] at live
      exact consistent.allocated id live

theorem createIdle_spec (answers : Answers) (conns : Nat) {pool : ConnPool}
    (consistent : Consistent pool) : Keeps pool (createIdle answers conns pool) := by
  induction conns generalizing pool with
  | zero => exact ⟨consistent, fun _ used => used⟩
  | succ conns ih =>
      obtain ⟨keeps, made⟩ := createconn_spec answers consistent
      rw [createIdle]
      match created : createconn answers pool with
      | (middle, none) =>
          rw [created] at keeps
          exact keeps.trans (ih keeps.consistent)
      | (middle, some id) =>
          rw [created] at keeps made
          have live : middle.Live id := by
            rw [Live, (made id rfl).1]
            exact Option.some_ne_none _
          have rest := ih (keeps.consistent.push live)
          exact keeps.trans ⟨rest.consistent, rest.used⟩

/-- Initialising the pool leaves the instances in use alone. -/
theorem initDbConn_spec (answers : Answers) {pool : ConnPool} (consistent : Consistent pool) :
    Keeps pool (pool.initDbConn answers) := by
  have cleared (db : Bool) : Consistent { pool with vecConn := [], db := db } :=
    ⟨nofun, consistent.allocated⟩
  unfold initDbConn
  split_ifs
  · have filled := createIdle_spec answers pool.nconns (cleared true)
    exact ⟨filled.consistent, filled.used⟩
  · exact ⟨cleared false, fun _ used => used⟩

end Operations

/-! ## Over any interleaving -/

section Threads

variable {ι : Type}

/-- No instance is held by two users, and what a user holds is not deleted. -/
structure OneUserEach (threads : Threads ι) : Prop where
  single : ∀ user other id, threads.running user = some (.holds id) →
    threads.running other = some (.holds id) → user = other
  live : ∀ user id, threads.running user = some (.holds id) → threads.shared.Live id

/-- A step of `getconn` or `retconn` touches no deleted instance, and builds no connection
without a database object. -/
def TouchesLive (threads : Threads ι) : Choice ι → Prop
  | .call _ _ => True
  | .advance thread answers =>
      match threads.running thread with
      | some .getsConn =>
          (∀ id, some id ∈ threads.shared.vecConn → threads.shared.Live id) ∧
            (Builds answers threads.shared → threads.shared.db = true)
      | some (.holds id) => threads.shared.Live id
      | _ => True

/-- When all connections are released, no user holds one that is in the list; and when
`getconn` finds no connection, the last initialisation has opened the database. -/
def Undisturbed (threads : Threads ι) : Choice ι → Prop
  | .call _ _ => True
  | .advance thread answers =>
      match threads.running thread with
      | some .getsConn => Builds answers threads.shared → threads.shared.db = true
      | some .releasesAll => ∀ user id, threads.running user = some (.holds id) →
          some id ∉ threads.shared.vecConn
      | _ => True

/-- What keeps users apart: an instance that is held is marked as used. -/
structure Marked (threads : Threads ι) : Prop where
  consistent : Consistent threads.shared
  used : ∀ user id, threads.running user = some (.holds id) →
    threads.shared.instances id = some .use
  single : ∀ user other id, threads.running user = some (.holds id) →
    threads.running other = some (.holds id) → user = other

theorem Marked.oneUserEach {threads : Threads ι} (marked : Marked threads) :
    OneUserEach threads where
  single := marked.single
  live user id holds := by
    rw [Live, marked.used user id holds]
    exact Option.some_ne_none _

theorem marked_start (nconns : Nat) (answers : Answers) :
    Marked (start nconns answers : Threads ι) := by
  have empty : Consistent (new nconns) := ⟨nofun, fun _ live => (live rfl).elim⟩
  exact ⟨(initDbConn_spec answers empty).consistent, nofun, nofun⟩

variable {threads : Threads ι}

/-- A step keeps users apart when it leaves the instances of the others in use, and its own
user holds afterwards what is in use and was not before. -/
theorem Marked.move [DecidableEq ι] (marked : Marked threads) {thread : ι} {result : ConnPool × Option Point}
    (consistent : Consistent result.1)
    (others : ∀ user id, user ≠ thread → threads.running user = some (.holds id) →
      result.1.instances id = some .use)
    (own : ∀ id, result.2 = some (.holds id) →
      result.1.instances id = some .use ∧ threads.shared.instances id ≠ some .use) :
    Marked (threads.move thread result) := by
  refine ⟨consistent, fun user id holds => ?_, fun user other id first second => ?_⟩
  · rcases Threads.move_running_iff.mp holds with ⟨rfl, taken⟩ | ⟨different, before⟩
    · exact (own id taken).1
    · exact others user id different before
  · rcases Threads.move_running_iff.mp first with ⟨rfl, taken⟩ | ⟨_, beforeFirst⟩
    · rcases Threads.move_running_iff.mp second with ⟨rfl, _⟩ | ⟨_, before⟩
      · rfl
      · exact ((own id taken).2 (marked.used other id before)).elim
    · rcases Threads.move_running_iff.mp second with ⟨rfl, taken⟩ | ⟨_, before⟩
      · exact ((own id taken).2 (marked.used user id beforeFirst)).elim
      · exact marked.single user other id beforeFirst before

/-- A step that disturbs nobody keeps users apart. -/
theorem Marked.step [DecidableEq ι] (marked : Marked threads) {choice : Choice ι}
    (good : Undisturbed threads choice) : Marked ((program ι).step threads choice) := by
  rcases (program ι).step_cases threads choice with
    ⟨unchanged, _⟩ | ⟨thread, call, rfl, idle⟩ | ⟨thread, answers, point, rfl, running⟩
  · rw [unchanged]
    exact marked
  · rw [Program.step_call idle]
    refine marked.move marked.consistent (fun user id _ => marked.used user id) fun id holds => ?_
    cases call with
    | getconn => cases holds
    | alarm => cases holds
  · rw [Program.step_advance running]
    rw [Undisturbed, running] at good
    cases point with
    | getsConn =>
        obtain ⟨keeps, handed⟩ := getconn_spec answers marked.consistent
        refine marked.move keeps.consistent
          (fun user id _ holds => keeps.used id (marked.used user id holds)) fun id holds => ?_
        obtain ⟨found, handedOut, same⟩ := Option.map_eq_some_iff.mp holds
        obtain rfl : found = id := Point.holds.inj same
        exact handed found handedOut
    | holds own =>
        obtain ⟨consistent, kept⟩ := retconn_spec marked.consistent own
        refine marked.move consistent (fun user id different holds => ?_) nofun
        have apart : id ≠ own := by
          intro same
          exact different (marked.single user thread id holds (same ▸ running))
        exact (kept id apart).trans (marked.used user id holds)
    | releasesAll =>
        obtain ⟨consistent, _, spared⟩ := releaseAllConns_spec marked.consistent
        exact marked.move consistent
          (fun user id _ holds => (spared id (good user id holds)).trans
            (marked.used user id holds)) nofun
    | initsDb =>
        obtain ⟨consistent, used⟩ := initDbConn_spec answers marked.consistent
        exact marked.move consistent
          (fun user id _ holds => used id (marked.used user id holds)) nofun

/-- Where users are apart, only building without a database goes wrong. -/
theorem Marked.touchesLive (marked : Marked threads) {choice : Choice ι}
    (good : Undisturbed threads choice) : TouchesLive threads choice := by
  cases choice with
  | call thread call => trivial
  | advance thread answers =>
      rw [Undisturbed] at good
      rw [TouchesLive]
      cases running : threads.running thread with
      | none => trivial
      | some point =>
          rw [running] at good
          cases point with
          | getsConn => exact ⟨marked.consistent.listed, good⟩
          | holds id => exact marked.oneUserEach.live thread id running
          | releasesAll => trivial
          | initsDb => trivial

/-- A step that disturbs somebody breaks what the pool promises. -/
theorem Marked.broken [DecidableEq ι] (marked : Marked threads) {choice : Choice ι}
    (bad : ¬ Undisturbed threads choice) :
    ¬ (TouchesLive threads choice ∧ OneUserEach ((program ι).step threads choice)) := by
  rintro ⟨touches, each⟩
  cases choice with
  | call thread call => exact bad trivial
  | advance thread answers =>
      rw [Undisturbed] at bad
      rw [TouchesLive] at touches
      cases running : threads.running thread with
      | none =>
          rw [running] at bad
          exact bad trivial
      | some point =>
          rw [running] at bad touches
          cases point with
          | getsConn => exact bad touches.2
          | holds id => exact bad trivial
          | initsDb => exact bad trivial
          | releasesAll =>
              obtain ⟨_, gone, _⟩ := releaseAllConns_spec marked.consistent
              refine bad fun user id holds listed => ?_
              have different : user ≠ thread := by
                intro same
                rw [same, running] at holds
                cases holds
              rw [Program.step_advance running] at each
              apply gone id listed
              apply each.live user id
              rw [Threads.move_running_of_ne _ _ different]
              exact holds

/-- **One user for each connection.** In every interleaving, what the pool promises is kept
exactly when no step disturbs anybody: the connections are released while no user holds one,
and the database is there whenever a new connection is needed. -/
theorem pool_exclusive_iff [DecidableEq ι] (nconns : Nat) (answers : Answers) (choices : List (Choice ι)) :
    Run.Always (program ι).step OneUserEach TouchesLive (start nconns answers) choices ↔
      Run.Steps (program ι).step Undisturbed (start nconns answers) choices :=
  Run.always_iff_steps Marked (fun _ marked => marked.oneUserEach)
    (fun _ _ marked good => ⟨marked.touchesLive good, marked.step good⟩)
    (fun _ _ marked bad => marked.broken bad) (marked_start nconns answers) choices

end Threads

/-! ## A rebuild under a user -/

/-- A database that answers. -/
def answering : Answers := ⟨fun _ => true, fun _ => true, true⟩

/-- A database that cannot be opened. -/
def closed : Answers := ⟨fun _ => false, fun _ => false, false⟩

/-- User 0 gets a connection, and thread 1 is alarmed before user 0 returns it; or the database
does not open after the alarm, and user 0 wants a connection. -/
theorem pool_disturbed :
    ¬ Run.Always (program (Fin 2)).step OneUserEach TouchesLive (start 5 answering)
        [.call 0 .getconn, .advance 0 answering, .call 1 .alarm, .advance 1 answering] ∧
      ¬ Run.Always (program (Fin 2)).step OneUserEach TouchesLive (start 5 answering)
        [.call 1 .alarm, .advance 1 answering, .advance 1 closed, .call 0 .getconn,
          .advance 0 closed] := by
  constructor
  · intro always
    have each := always.final
    exact each.live 0 0 rfl rfl
  · intro always
    obtain ⟨_, _, _, _, _, _, _, _, _, touches, _⟩ := always
    have db : false = true := touches.2 rfl
    cases db

end Cube.Database.ConnPool
