import Mathlib.Logic.Function.Basic
import Cube.Eco.Persist.TransactionBalance

/-! # Transactions on several databases

A thread opens scopes on several databases of one driver, nested in each other. They share
one level, so that a scope opened inside a transaction on another database is taken for a
nested one and sends no BEGIN. Where every scope is opened only while no other database is
in a transaction, each database is sent what it would be sent alone.
-/

namespace Cube.Eco.Persist

variable {D S : Type}

/-- A scope is entered, left through its commit (which can fail), or left without. -/
inductive ScopeEvent (D : Type) where
  | enter (db : D)
  | commit (db : D) (fails : Bool)
  | abandon (db : D)
  deriving DecidableEq

/-- The database of the scope. -/
def ScopeEvent.db : ScopeEvent D → D
  | .enter db => db
  | .commit db _ => db
  | .abandon db => db

/-- The calls of a scope, where only a COMMIT can fail. -/
def failingCommit (fails : Bool) : Failing := ⟨false, fails, false⟩

/-- What an event does to the session of its database. -/
def Session.event (engine : Engine) (session : Session S Unit) :
    ScopeEvent D → Ending (Session S Unit)
  | .enter _ => Transaction.construct engine (failingCommit false) session
  | .commit _ fails =>
      match Transaction.commit engine (failingCommit fails) session with
      | .returned session => .returned session
      | .thrown session => .thrown (Transaction.destruct engine (failingCommit fails) session)
  | .abandon _ => .returned (Transaction.destruct engine (failingCommit false) session)

/-- A thread with its open scopes, the innermost first, and the events so far. -/
structure Scopes (D S : Type) where
  opened : List D
  level : UInt32
  dbs : D → Connection S
  history : List (ScopeEvent D)

namespace Scopes

def start : Scopes D S := ⟨[], 0, fun _ => .fresh, []⟩

/-- The thread at one of its databases. -/
def session (scopes : Scopes D S) (db : D) : Session S Unit := ⟨scopes.level, scopes.dbs db, ()⟩

variable [DecidableEq D]

/-- The scopes of one database alone. -/
def alone (engine : Engine) (db : D) (history : List (ScopeEvent D)) : Session S Unit :=
  Run.final (fun session event => (session.event engine event).state) (Session.start ())
    (history.filter fun event => event.db = db)

/-- The open scopes after an event: a scope whose constructor throws is not open. -/
def openedAfter (opened : List D) (threw : Bool) : ScopeEvent D → List D
  | .enter db => if threw then opened else db :: opened
  | .commit _ _ => opened.tail
  | .abandon _ => opened.tail

/-- Scopes are nested: only the innermost one is left. -/
def nested (opened : List D) : ScopeEvent D → Bool
  | .enter _ => true
  | .commit db _ => decide (opened.head? = some db)
  | .abandon db => decide (opened.head? = some db)

/-- One event. -/
def turn (engine : Engine) (scopes : Scopes D S) (event : ScopeEvent D) : Scopes D S :=
  if nested scopes.opened event then
    let ending := (scopes.session event.db).event engine event
    { opened := openedAfter scopes.opened ending.threw event
      level := ending.state.level
      dbs := Function.update scopes.dbs event.db ending.state.db
      history := scopes.history ++ [event] }
  else scopes

/-- Each database was sent what its own scopes send. -/
def Independent (engine : Engine) (scopes : Scopes D S) : Prop :=
  ∀ db, (scopes.dbs db).sent = (alone engine db scopes.history : Session S Unit).db.sent

/-- A scope is entered only while no other database has a transaction open, and not too many
scopes are open for the level to count. -/
def Alternating (scopes : Scopes D S) (event : ScopeEvent D) : Prop :=
  ∀ db, event = .enter db → scopes.opened.length + 1 < 2 ^ 32 ∧
    ∀ other, other ≠ db → (scopes.dbs other).opened = false

end Scopes

/-! ## The scopes of one database -/

/-- A transaction is open exactly when the level is not 0. -/
def Session.Sound (session : Session S Unit) : Prop :=
  session.db.opened = decide (session.level ≠ 0)

section Single

variable {session : Session S Unit}

theorem closed_of_sound (sound : session.Sound) (idle : session.level = 0) :
    session.db.opened = false := by
  rw [sound, idle]
  rfl

theorem level_pos (busy : session.level ≠ 0) : 0 < session.level.toNat :=
  UInt32.lt_iff_toNat_lt.mp (UInt32.pos_iff_ne_zero.mpr busy)

theorem construct_sound (engine : Engine) (sound : session.Sound)
    (shallow : session.level.toNat + 1 < 2 ^ 32) : ∃ after,
      Transaction.construct engine (failingCommit false) session = .returned after ∧
        after.level = session.level + 1 ∧ after.Sound := by
  by_cases idle : session.level = 0
  · refine ⟨session.entered, construct_idle engine idle (closed_of_sound sound idle) rfl, ?_, rfl⟩
    rw [idle]
    rfl
  · refine ⟨session.nested, construct_nested engine _ (level_pos idle) shallow, rfl, ?_⟩
    have still : session.level + 1 ≠ 0 := by
      intro zero
      have next := level_succ shallow
      rw [zero] at next
      exact Nat.succ_ne_zero _ next.symm
    change session.db.opened = decide (session.level + 1 ≠ 0)
    rw [sound, decide_eq_true idle, decide_eq_true still]

/-- A scope left without a commit leaves no transaction. -/
theorem destruct_sound (engine : Engine) (fails : Bool) (sound : session.Sound) :
    (Transaction.destruct engine (failingCommit fails) session).level = 0 ∧
      (Transaction.destruct engine (failingCommit fails) session).db.opened = false := by
  obtain ⟨-, -, -, idle | ⟨fails | closed, level, opened, -⟩⟩ :=
    destruct_cases engine (failingCommit fails) session
  · exact ⟨idle.level, idle.opened⟩
  · cases fails
  · refine ⟨?_, opened.trans closed⟩
    rw [sound, decide_eq_false_iff_not, not_not] at closed
    exact level.trans closed

theorem sound_of_idle (idle : session.level = 0) (closed : session.db.opened = false) :
    session.Sound := by
  rw [Session.Sound, idle, closed]
  rfl

/-- A commit takes one level off. -/
theorem commit_sound (engine : Engine) (fails : Bool) (sound : session.Sound) (db : D) :
    (session.event engine (.commit db fails)).state.level.toNat ≤ session.level.toNat - 1 ∧
      (session.event engine (.commit db fails)).state.Sound := by
  obtain ⟨idle, closed⟩ := destruct_sound engine fails sound
  simp only [Session.event]
  by_cases none : session.level = 0
  · rw [Transaction.commit, if_pos none]
    simp only [Ending.state_thrown, idle]
    exact ⟨Nat.zero_le _, sound_of_idle idle closed⟩
  · have opened : session.db.opened = true := by
      rw [sound, decide_eq_true none]
    by_cases outermost : session.level = 1
    · cases works : fails with
      | true =>
          rw [works] at idle closed
          rw [commit_fails engine outermost rfl]
          simp only [Ending.state_thrown, idle]
          exact ⟨Nat.zero_le _, sound_of_idle idle closed⟩
      | false =>
          rw [commit_outermost engine outermost opened rfl]
          exact ⟨Nat.zero_le _, sound_of_idle rfl rfl⟩
    · rw [Transaction.commit, if_neg none, if_neg outermost]
      have positive : 0 < session.level.toNat := level_pos none
      have less : (session.level - 1).toNat = session.level.toNat - 1 :=
        UInt32.toNat_sub_of_le session.level 1 (UInt32.le_iff_toNat_le.mpr positive)
      have still : session.level - 1 ≠ 0 := by
        intro zero
        apply outermost
        apply UInt32.toNat_inj.mp
        rw [zero] at less
        have one : (1 : UInt32).toNat = 1 := rfl
        have nought : (0 : UInt32).toNat = 0 := rfl
        omega
      simp only [Ending.andThen_returned, Ending.state_returned, less]
      refine ⟨Nat.le_refl _, ?_⟩
      change session.db.opened = decide (session.level - 1 ≠ 0)
      rw [opened, decide_eq_true still]

end Single

namespace Scopes

variable [DecidableEq D]

/-- The invariant: each connection is what its own scopes make of it, at most one database
is in a transaction, the level is its level, and the innermost scopes are its scopes. -/
structure Apart (engine : Engine) (scopes : Scopes D S) : Prop where
  same : ∀ db, scopes.dbs db = (alone engine db scopes.history).db
  sound : ∀ db, (alone engine db scopes.history : Session S Unit).Sound
  idle : (∀ db, (alone engine db scopes.history : Session S Unit).level = 0) → scopes.level = 0
  active : ∀ db, (alone engine db scopes.history : Session S Unit).level ≠ 0 →
    scopes.level = (alone engine db scopes.history : Session S Unit).level ∧
      (∀ other, other ≠ db → (alone engine other scopes.history : Session S Unit).level = 0) ∧
      ∃ count below, scopes.opened = List.replicate count db ++ below ∧
        scopes.level.toNat ≤ count

/-- An event is one of its own database's scopes, and of no other. -/
theorem alone_append (engine : Engine) (db : D) (history : List (ScopeEvent D))
    (event : ScopeEvent D) : (alone engine db (history ++ [event]) : Session S Unit) =
      if event.db = db then ((alone engine db history).event engine event).state
      else alone engine db history := by
  rw [alone, List.filter_append, Run.final_append]
  by_cases own : event.db = db
  · rw [if_pos own, List.filter_cons_of_pos (by simpa using own)]
    rfl
  · rw [if_neg own, List.filter_cons_of_neg (by simpa using own)]
    rfl

/-- The database of an event has the level to itself. -/
theorem Apart.current {engine : Engine} {scopes : Scopes D S} (apart : Apart engine scopes)
    {event : ScopeEvent D} (inner : nested scopes.opened event = true)
    (alternating : Alternating scopes event) :
    scopes.level = (alone engine event.db scopes.history : Session S Unit).level ∧
      (∀ other, other ≠ event.db →
        (alone engine other scopes.history : Session S Unit).level = 0) ∧
      ∃ count below, scopes.opened = List.replicate count event.db ++ below ∧
        scopes.level.toNat ≤ count ∧ (event ≠ .enter event.db → 0 < count) := by
  by_cases idle : (alone engine event.db scopes.history : Session S Unit).level = 0
  · have others : ∀ other, other ≠ event.db →
        (alone engine other scopes.history : Session S Unit).level = 0 := by
      intro other different
      by_contra busy
      obtain ⟨level, _, count, below, opened, bound⟩ := apart.active other busy
      have positive : 0 < scopes.level.toNat := by
        rw [level]
        exact level_pos busy
      have head : scopes.opened.head? = some other := by
        obtain ⟨count, rfl⟩ : ∃ more, count = more + 1 := ⟨count - 1, by omega⟩
        rw [opened]
        rfl
      have leaves : scopes.opened.head? ≠ some event.db := by
        rw [head]
        exact fun same => different (Option.some.inj same)
      cases event with
      | enter db =>
          have closed := (alternating db rfl).2 other different
          have sound := apart.sound other
          rw [Session.Sound, decide_eq_true busy, ← apart.same other, closed] at sound
          exact Bool.false_ne_true sound
      | commit db fails => exact leaves (of_decide_eq_true inner)
      | abandon db => exact leaves (of_decide_eq_true inner)
    have level : scopes.level = 0 := by
      apply apart.idle
      intro db
      by_cases own : db = event.db
      · rw [own]
        exact idle
      · exact others db own
    refine ⟨level.trans idle.symm, others, ?_⟩
    have zero : scopes.level.toNat = 0 := by
      rw [level]
      rfl
    have left (head : scopes.opened.head? = some event.db) : ∃ count below,
        scopes.opened = List.replicate count event.db ++ below ∧ scopes.level.toNat ≤ count ∧
          (event ≠ .enter event.db → 0 < count) := by
      refine ⟨1, scopes.opened.tail, ?_, by omega, fun _ => Nat.one_pos⟩
      exact List.eq_cons_of_mem_head? head
    cases event with
    | enter db => exact ⟨0, scopes.opened, rfl, by omega, fun different => (different rfl).elim⟩
    | commit db fails => exact left (of_decide_eq_true inner)
    | abandon db => exact left (of_decide_eq_true inner)
  · obtain ⟨level, others, count, below, opened, bound⟩ := apart.active event.db idle
    have positive : 0 < scopes.level.toNat := by
      rw [level]
      exact level_pos idle
    exact ⟨level, others, count, below, opened, bound,
      fun _ => Nat.lt_of_lt_of_le positive bound⟩

omit [DecidableEq D] in
/-- What an event does to a sound session and to the scopes that are open. -/
theorem event_sound (engine : Engine) {session : Session S Unit} (sound : session.Sound)
    (event : ScopeEvent D) (below : List D) {count : Nat} (bound : session.level.toNat ≤ count)
    (room : event = .enter event.db → count + 1 < 2 ^ 32)
    (left : event ≠ .enter event.db → 0 < count) :
    (session.event engine event).state.Sound ∧ ∃ more,
      openedAfter (List.replicate count event.db ++ below) (session.event engine event).threw event =
        List.replicate more event.db ++ below ∧
      (session.event engine event).state.level.toNat ≤ more := by
  cases event with
  | enter db =>
      have shallow : session.level.toNat + 1 < 2 ^ 32 := by
        have := room rfl
        omega
      obtain ⟨after, returned, level, soundAfter⟩ := construct_sound engine sound shallow
      simp only [Session.event, returned, Ending.state_returned, Ending.threw_returned,
        openedAfter, Bool.false_eq_true, if_false]
      refine ⟨soundAfter, count + 1, rfl, ?_⟩
      rw [level, level_succ shallow]
      exact Nat.succ_le_succ bound
  | commit db fails =>
      obtain ⟨less, soundAfter⟩ := commit_sound engine fails sound db
      obtain ⟨more, rfl⟩ : ∃ more, count = more + 1 := ⟨count - 1, by have := left nofun; omega⟩
      exact ⟨soundAfter, more, rfl, by omega⟩
  | abandon db =>
      obtain ⟨idle, closed⟩ := destruct_sound engine false sound
      obtain ⟨more, rfl⟩ : ∃ more, count = more + 1 := ⟨count - 1, by have := left nofun; omega⟩
      refine ⟨sound_of_idle idle closed, more, rfl, ?_⟩
      simp only [Session.event, Ending.state_returned, idle]
      exact Nat.zero_le _

/-- Each event that alternates keeps the databases apart. -/
theorem apart_turn {engine : Engine} {scopes : Scopes D S} (apart : Apart engine scopes)
    {event : ScopeEvent D} (alternating : Alternating scopes event) :
    Apart engine (scopes.turn engine event) := by
  unfold turn
  split
  next inner =>
    obtain ⟨level, others, count, below, opened, bound, left⟩ :=
      apart.current inner alternating
    have session : scopes.session event.db = alone engine event.db scopes.history := by
      rw [Scopes.session, level, apart.same]
    have room : event = .enter event.db → count + 1 < 2 ^ 32 := by
      intro enters
      have shallow := (alternating event.db enters).1
      rw [opened, List.length_append, List.length_replicate] at shallow
      omega
    rw [level] at bound
    obtain ⟨sound, more, remaining, boundAfter⟩ := event_sound engine
      (apart.sound event.db) event below bound room left
    rw [session]
    have own : (alone engine event.db (scopes.history ++ [event]) : Session S Unit) =
        ((alone engine event.db scopes.history).event engine event).state := by
      rw [alone_append, if_pos rfl]
    have other {db : D} (different : db ≠ event.db) :
        (alone engine db (scopes.history ++ [event]) : Session S Unit) =
          alone engine db scopes.history := by
      rw [alone_append, if_neg (Ne.symm different)]
    constructor
    · intro db
      by_cases same : db = event.db
      · subst same
        rw [own]
        exact Function.update_self _ _ _
      · rw [other same]
        exact (Function.update_of_ne same _ _).trans (apart.same db)
    · intro db
      by_cases same : db = event.db
      · subst same
        rw [own]
        exact sound
      · rw [other same]
        exact apart.sound db
    · intro idle
      have ownIdle := idle event.db
      rw [own] at ownIdle
      exact ownIdle
    · intro db busy
      by_cases same : db = event.db
      · subst same
        rw [own]
        refine ⟨rfl, fun db different => ?_, more, below, ?_, boundAfter⟩
        · rw [other different]
          exact others db different
        · rw [opened]
          exact remaining
      · rw [other same] at busy
        exact (busy (others db same)).elim
  next => exact apart

/-- **Independent databases.** Along scopes on several databases of a driver, each of which
is entered only while no other database has a transaction open, every database is sent what
its own scopes send. -/
theorem independent_of_alternating (engine : Engine) (events : List (ScopeEvent D))
    (alternating : Run.Steps (turn engine) Alternating (start : Scopes D S) events) :
    Run.Always (turn engine) (Independent engine) (fun _ _ => True) (start : Scopes D S)
      events := by
  apply Run.always_of_steps (Apart engine) _ _ _ alternating
  · intro scopes apart db
    rw [apart.same]
  · exact fun _ _ apart alternating => ⟨trivial, apart_turn apart alternating⟩
  · constructor
    · exact fun _ => rfl
    · exact fun _ => rfl
    · exact fun _ => rfl
    · exact fun _ busy => (busy rfl).elim

/-- A scope on each of two databases, one after the other. -/
theorem independent_consecutive :
    Run.Steps (turn .mysql) Alternating (start : Scopes Bool Unit)
        [.enter true, .commit true false, .enter false] ∧
      Run.Always (turn .mysql) (Independent .mysql) (fun _ _ => True) (start : Scopes Bool Unit)
        [.enter true, .commit true false, .enter false] := by
  have alternating : Run.Steps (turn .mysql) Alternating (start : Scopes Bool Unit)
      [.enter true, .commit true false, .enter false] := by
    refine ⟨?_, nofun, ?_, trivial⟩
    · intro db _
      exact ⟨by decide, fun _ _ => rfl⟩
    · rintro db ⟨⟩
      refine ⟨by decide, fun other different => ?_⟩
      cases other with
      | true => rfl
      | false => exact (different rfl).elim
  exact ⟨alternating, independent_of_alternating .mysql _ alternating⟩

/-- A scope on a second database inside a scope on the first. -/
def crossed : List (ScopeEvent Bool) := [.enter true, .enter false]

/-- The second database is sent no BEGIN. -/
theorem crossed_dependent : ¬ Run.Always (turn .mysql) (Independent .mysql) (fun _ _ => True)
    (start : Scopes Bool Unit) crossed := by
  intro always
  have independent := always.final false
  have none : ((Run.final (turn .mysql) (start : Scopes Bool Unit) crossed).dbs false).sent = [] :=
    rfl
  have one : (alone .mysql false crossed : Session Unit Unit).db.sent = [.begin] := rfl
  have history : (Run.final (turn .mysql) (start : Scopes Bool Unit) crossed).history = crossed :=
    rfl
  rw [none, history, one] at independent
  cases independent

end Scopes

end Cube.Eco.Persist
