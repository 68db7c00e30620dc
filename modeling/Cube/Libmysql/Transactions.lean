import Cube.Libmysql.Requests

/-! # Transactions that are not harmed

What is promised of the transactions of a connection, what harms them, and the invariant that
every call keeps that harms none.
-/

namespace Cube.Libmysql.Record

open Server DbMysqlConn

/-! ## What is promised -/

/-- What the server has kept fits how the transactions have ended. -/
structure Settled (ended : List Ended) (kept : List Statement) : Prop where
  committed : ∀ transaction ∈ ended, transaction.committed = true →
    ∀ statement ∈ transaction.statements, statement ∈ kept
  discarded : ∀ transaction ∈ ended, transaction.committed = false →
    ∀ statement ∈ transaction.statements, statement ∉ kept

/-- Transactions are atomic, and `is_transaction` is true only while the server has the
transaction open that was begun last. -/
structure Atomic (record : Record) : Prop where
  settled : Settled record.ended record.conn.server.kept
  flagged : record.conn.isTransaction = true → ∃ begun rest, record.begun = begun :: rest ∧
    record.conn.server.transaction.map Prod.fst = some begun.number

/-! ## What harms a transaction -/

/-- The server still has a transaction open whose commit or rollback it has refused. -/
def Abandoned (record : Record) : Prop :=
  ∃ transaction ∈ record.ended, transaction.committed = false ∧
    ∃ statement ∈ transaction.statements, statement ∈ record.conn.server.pending

/-- Inside a transaction, no call loses the connection, except for a begin that then succeeds,
and the calls that end it. A begin, a commit and a release do not reach a server that has an
abandoned transaction open. A transaction inside which another begin has committed statements
ends with a commit; one inside which a begin has lost statements does not; and when an answer
to commit is lost, or the connection is released, nothing has been executed since the last
begin. -/
def Unharmed (record : Record) : Input → Prop
  | .loses => record.conn.isTransaction = false
  | .call .beginTransaction luck =>
      (record.reaches luck.fate = true → ¬ Abandoned record) ∧
        (record.conn.isTransaction = true → Loses luck →
          luck.reconnection = .complete ∧ luck.again = .done)
  | .call (.execute _) luck => record.conn.isTransaction = true → ¬ Loses luck
  | .call .query luck => record.conn.isTransaction = true → ¬ Loses luck
  | .call .commit luck =>
      (record.reaches luck.fate = true → ¬ Abandoned record) ∧
        (record.conn.isTransaction = true →
          (luck.fate = .done → ∀ begun ∈ record.begun, begun.lost = false) ∧
          (luck.fate ≠ .done → ∀ begun ∈ record.begun, begun.committed = false) ∧
          (luck.fate = .lostAfter → record.inner = []))
  | .call .rollback _ =>
      record.conn.isTransaction = true → ∀ begun ∈ record.begun, begun.committed = false
  | .call .releaseConn luck =>
      (record.reaches luck.fate = true → ¬ Abandoned record) ∧
        (record.conn.isTransaction = true →
          (∀ begun ∈ record.begun, begun.committed = false) ∧
          (record.reaches luck.fate = true → record.inner = []))

/-! ## The invariant -/

/-- What the marks of a begun transaction say of its statements. -/
structure Marked (kept pending : List Statement) (begun : Begun) : Prop where
  committed : begun.committed = true ↔ ∃ statement ∈ begun.statements, statement ∈ kept
  lost : begun.lost = true ↔
    ∃ statement ∈ begun.statements, statement ∉ kept ∧ statement ∉ pending
  inside : ∀ statement ∈ pending, statement ∈ begun.statements

/-- The statement is somewhere in the record. -/
def Known (record : Record) (statement : Statement) : Prop :=
  statement ∈ record.conn.server.kept ∨ statement ∈ record.conn.server.pending ∨
    (∃ begun ∈ record.begun, statement ∈ begun.statements) ∨
    ∃ transaction ∈ record.ended, statement ∈ transaction.statements

/-- Inside a transaction the server has it open, with the statements executed since the last
begin, which are not kept yet. -/
structure Working (record : Record) : Prop where
  initialized : record.conn.initialized = true
  connected : record.conn.server.connected = true
  current : ∃ begun rest, record.begun = begun :: rest ∧
    record.conn.server.transaction = some (begun.number, begun.statements)
  open_ : ∀ statement ∈ record.conn.server.pending, statement ∉ record.conn.server.kept

/-- The invariant of a connection whose transactions are not harmed. -/
structure Sound (record : Record) : Prop where
  settled : Settled record.ended record.conn.server.kept
  idle : record.conn.isTransaction = false → record.begun = []
  working : record.conn.isTransaction = true → Working record
  marked : ∀ begun ∈ record.begun,
    Marked record.conn.server.kept record.conn.server.pending begun
  fresh : ∀ statement, Known record statement → statement.number < record.calls
  apart : ∀ begun ∈ record.begun, ∀ statement ∈ begun.statements,
    ∀ transaction ∈ record.ended, statement ∉ transaction.statements

theorem sound_new : Sound new where
  settled := ⟨nofun, nofun⟩
  idle _ := rfl
  working := nofun
  marked := nofun
  fresh statement known := by
    rcases known with kept | pending | ⟨_, begun, _⟩ | ⟨_, ended, _⟩
    · cases kept
    · cases pending
    · cases begun
    · cases ended
  apart := nofun

section Invariant

variable {record : Record}

theorem Working.pending_eq (working : Working record) :
    record.conn.server.pending = record.inner := by
  obtain ⟨begun, rest, stack, open_⟩ := working.current
  rw [pending_of_some open_, inner, stack]

theorem Sound.atomic (sound : Sound record) : Atomic record where
  settled := sound.settled
  flagged flag := by
    obtain ⟨begun, rest, stack, open_⟩ := (sound.working flag).current
    exact ⟨begun, rest, stack, by rw [open_, Option.map_some]⟩

/-- What is kept and grows stays settled, if nothing of an abandoned transaction is added. -/
theorem Settled.grow {ended : List Ended} {before after : Server}
    {allowed new : Statement → Prop} (settled : Settled ended before.kept)
    (grows : Grows allowed new before after)
    (safe : ∀ transaction ∈ ended, transaction.committed = false →
      ∀ statement ∈ transaction.statements, ¬ allowed statement ∧ ¬ new statement) :
    Settled ended after.kept where
  committed transaction member committed statement inside :=
    grows.kept statement (settled.committed transaction member committed statement inside)
  discarded transaction member discarded statement inside kept := by
    obtain ⟨notAllowed, notNew⟩ := safe transaction member discarded statement inside
    rcases grows.keptOnly statement kept with before | allowed | isNew
    · exact settled.discarded transaction member discarded statement inside before
    · exact notAllowed allowed
    · exact notNew isNew

/-- A change of the server outside of transactions. -/
structure Outside (record after : Record) (allowed new : Statement → Prop) : Prop where
  begun : after.begun = []
  flag : after.conn.isTransaction = false
  ended : after.ended = record.ended
  calls : record.calls ≤ after.calls
  grows : Grows allowed new record.conn.server after.conn.server
  pending : ∀ statement, allowed statement → statement ∈ record.conn.server.pending
  safe : (∃ statement, allowed statement) → ¬ Abandoned record
  isNew : ∀ statement, new statement →
    record.calls ≤ statement.number ∧ statement.number < after.calls

theorem Outside.sound {after : Record} {allowed new : Statement → Prop}
    (outside : Outside record after allowed new) (sound : Sound record) : Sound after := by
  have known (statement : Statement) (there : Known after statement) :
      Known record statement ∨ new statement := by
    rcases there with kept | pending | ⟨begun, member, _⟩ | ended
    · rcases outside.grows.keptOnly statement kept with before | allowed | isNew
      · exact .inl (.inl before)
      · exact .inl (.inr (.inl (outside.pending statement allowed)))
      · exact .inr isNew
    · rcases outside.grows.pendingOnly statement pending with before | isNew
      · exact .inl (.inr (.inl before))
      · exact .inr isNew
    · rw [outside.begun] at member
      cases member
    · rw [outside.ended] at ended
      exact .inl (.inr (.inr (.inr ended)))
  refine
    { settled := ?_
      idle := fun _ => outside.begun
      working := fun flag => by
        rw [outside.flag] at flag
        cases flag
      marked := by
        rw [outside.begun]
        exact nofun
      fresh := fun statement there => ?_
      apart := by
        rw [outside.begun]
        exact nofun }
  · rw [outside.ended]
    refine sound.settled.grow outside.grows fun transaction member discarded statement inside => ?_
    refine ⟨fun allowed => ?_, fun isNew => ?_⟩
    · exact outside.safe ⟨statement, allowed⟩
        ⟨transaction, member, discarded, statement, inside, outside.pending statement allowed⟩
    · have older := sound.fresh statement (.inr (.inr (.inr ⟨transaction, member, inside⟩)))
      exact absurd (outside.isNew statement isNew).1 (Nat.not_le_of_lt older)
  · rcases known statement there with before | isNew
    · exact Nat.lt_of_lt_of_le (sound.fresh statement before) outside.calls
    · exact (outside.isNew statement isNew).2

/-! ## Beginning -/

theorem beginTransaction_eq {conn : DbMysqlConn} (initialized : conn.initialized = true)
    (number : Nat) (luck : Luck) :
    conn.beginTransaction number luck =
      ({ conn with
          server := (sends conn.server (.begin_ number) luck).1
          isTransaction :=
            conn.isTransaction || (sends conn.server (.begin_ number) luck).2 },
        (sends conn.server (.begin_ number) luck).2) := if_pos initialized

theorem reaches_of_allows {request : Request} {luck : Luck} {statement : Statement}
    (initialized : record.conn.initialized = true)
    (allows : record.conn.server.Allows request luck.fate statement) :
    record.reaches luck.fate = true := by
  obtain ⟨connected, fate, _⟩ := allows
  simp only [reaches, initialized, connected, Bool.true_and, Bool.or_eq_true, beq_iff_eq]
  exact fate

@[simp] theorem statements_interrupted (luck : Luck) (begun : Begun) :
    (record.interrupted luck begun).statements = begun.statements := by
  unfold interrupted
  split_ifs <;> rfl

/-- What a begin inside a transaction keeps: the statements since the last begin, if it has
reached the server. -/
theorem kept_begin {luck : Luck} (connected : record.conn.server.connected = true)
    (initialized : record.conn.initialized = true)
    (returned : (sends record.conn.server (.begin_ record.calls) luck).2 = true) :
    (∀ statement, statement ∈ (sends record.conn.server (.begin_ record.calls) luck).1.kept ↔
      statement ∈ record.conn.server.kept ∨
        record.reaches luck.fate = true ∧ statement ∈ record.conn.server.pending) ∧
      record.breaksOff luck = !record.reaches luck.fate := by
  have reached (fate : Fate) : record.reaches fate = (fate == .done || fate == .lostAfter) := by
    rw [reaches, initialized, connected, Bool.true_and, Bool.true_and]
  have broken : record.breaksOff luck =
      (luck.fate == .lostBefore || luck.fate == .refused && luck.pingLoses) := by
    rw [breaksOff, initialized, connected, Bool.true_and, Bool.true_and]
  have unreached {kept pending : List Statement} (unreached : record.reaches luck.fate = false) :
      ∀ statement, statement ∈ kept ↔
        statement ∈ kept ∨ record.reaches luck.fate = true ∧ statement ∈ pending := by
    simp only [unreached, Bool.false_eq_true, false_and, or_false, implies_true]
  by_cases loses : Loses luck
  · rw [sends_lost connected _ loses] at returned ⊢
    have gone : (lostServer record.conn.server (.begin_ record.calls) luck).transaction = none :=
      transaction_lostServer _
    obtain none | ⟨_, _, same⟩ := transaction_resumes _ _ gone
    · obtain ⟨base, _, begun⟩ := resumes_true returned
      rw [begun] at none
      cases none
    · rw [same]
      change (∀ statement, statement ∈ (lostServer record.conn.server _ luck).kept ++ [] ↔ _) ∧ _
      rw [List.append_nil, lostServer]
      rcases loses with before | after | ⟨refused, pings⟩
      · have missed : record.reaches luck.fate = false := by
          rw [reached, before]
          rfl
        rw [broken, missed, if_neg (by rw [before]; decide), before]
        exact ⟨missed ▸ unreached missed, rfl⟩
      · have made : record.reaches luck.fate = true := by
          rw [reached, after]
          rfl
        rw [broken, made, if_pos after, after]
        simp only [drop, performs, List.mem_append, true_and, implies_true]
        rfl
      · have missed : record.reaches luck.fate = false := by
          rw [reached, refused]
          rfl
        rw [broken, missed, if_neg (by rw [refused]; decide), refused, pings]
        exact ⟨missed ▸ unreached missed, rfl⟩
  · rcases done_or_refused loses with done | ⟨refused, alive⟩
    · have made : record.reaches luck.fate = true := by
        rw [reached, done]
        rfl
      rw [sends_done connected _ done, broken, made, done]
      simp only [performs, List.mem_append, true_and, implies_true]
      rfl
    · rw [sends_refused connected _ refused alive] at returned
      cases returned

/-- The marks of a transaction inside which another was begun. -/
theorem Marked.interrupted {kept : List Statement} {begun : Begun} {luck : Luck}
    (marked : Marked record.conn.server.kept record.conn.server.pending begun)
    (working : Working record)
    (kept_iff : ∀ statement, statement ∈ kept ↔ statement ∈ record.conn.server.kept ∨
      record.reaches luck.fate = true ∧ statement ∈ record.conn.server.pending)
    (broken : record.breaksOff luck = !record.reaches luck.fate) :
    Marked kept [] (record.interrupted luck begun) := by
  have inner := working.pending_eq
  obtain ⟨committed, lost, inside⟩ := marked
  unfold Record.interrupted
  split_ifs with none
  · rw [none] at inner
    simp only [inner, List.not_mem_nil, and_false, or_false, not_false_eq_true,
      and_true] at kept_iff lost
    refine ⟨?_, ?_, nofun⟩
    · simp only [kept_iff]
      exact committed
    · simp only [kept_iff, List.not_mem_nil, not_false_eq_true, and_true]
      exact lost
  · obtain ⟨first, some⟩ := List.exists_mem_of_ne_nil _ none
    rw [← inner] at some
    cases reached : record.reaches luck.fate with
    | true =>
        simp only [reached, true_and] at kept_iff
        simp only [reached, broken, Bool.not_true, Bool.or_true, Bool.or_false]
        refine ⟨?_, ?_, nofun⟩
        · simp only [true_iff]
          exact ⟨first, inside first some, (kept_iff first).mpr (.inr some)⟩
        · simp only [kept_iff, not_or, List.not_mem_nil, not_false_eq_true, and_true]
          exact lost
    | false =>
        simp only [reached, Bool.false_eq_true, false_and, or_false] at kept_iff
        simp only [reached, broken, Bool.not_false, Bool.or_true, Bool.or_false]
        refine ⟨?_, ?_, nofun⟩
        · simp only [kept_iff]
          exact committed
        · simp only [kept_iff, true_iff, List.not_mem_nil, not_false_eq_true, and_true]
          exact ⟨first, inside first some, working.open_ first some⟩

theorem interrupted_same {luck : Luck} (missed : record.reaches luck.fate = false)
    (stands : record.breaksOff luck = false) (begun : Begun) :
    record.interrupted luck begun = begun := by
  unfold interrupted
  split_ifs
  · rfl
  · rw [missed, stands, Bool.or_false, Bool.or_false]

/-- Nothing but the number of calls changes. -/
theorem Sound.later (sound : Sound record) : Sound { record with calls := record.calls + 1 } :=
  { sound with
    working := fun flag => { sound.working flag with }
    fresh := fun statement known => Nat.lt_succ_of_lt (sound.fresh statement known) }

/-- A connection that is not initialised is in no transaction. -/
theorem Sound.flag_of_not_initialized (sound : Sound record)
    (released : record.conn.initialized = false) : record.conn.isTransaction = false := by
  cases flag : record.conn.isTransaction with
  | false => rfl
  | true =>
      have initialized := (sound.working flag).initialized
      rw [released] at initialized
      cases initialized

/-- What a call does to the server while no transaction is begun, and none is begun by it. -/
theorem Sound.outside (sound : Sound record)
    {after : Record} (request : Request) (fate : Fate) (begun : after.begun = [])
    (flag : after.conn.isTransaction = false) (ended : after.ended = record.ended)
    (calls : after.calls = record.calls + 1) (initialized : record.conn.initialized = true)
    (grows : Grows (record.conn.server.Allows request fate) (Executes request)
      record.conn.server after.conn.server)
    (safe : Commits request → record.reaches fate = true → ¬ Abandoned record)
    (own : ∀ statement, request = .statement statement → statement.number = record.calls) :
    Sound after := by
  refine Outside.sound
    { begun := begun
      flag := flag
      ended := ended
      calls := calls ▸ Nat.le_succ _
      grows := grows
      pending := fun statement allows => allows.2.2.2
      safe := ?_
      isNew := fun statement isNew => ?_ } sound
  · rintro ⟨statement, connected, fate, commits, pending⟩
    apply safe commits
    simp only [reaches, initialized, connected, Bool.true_and, Bool.or_eq_true, beq_iff_eq]
    exact fate
  · rw [own statement isNew, calls]
    exact ⟨Nat.le_refl _, Nat.lt_succ_self _⟩

/-- A call on a connection that is not initialised does nothing. -/
theorem called_released (released : record.conn.initialized = false) (idle : record.begun = [])
    (luck : Luck) (call : Call) :
    record.called luck call = { record with calls := record.calls + 1 } := by
  have refused : ¬ record.conn.initialized = true := by
    rw [released]
    exact Bool.false_ne_true
  have ends (committed : Bool) : record.ends committed = record.ended := by
    rw [Record.ends, idle, List.map_nil, List.append_nil]
  cases call with
  | beginTransaction =>
      have same : record.conn.beginTransaction record.calls luck = (record.conn, false) :=
        if_neg refused
      dsimp only [called]
      rw [same, idle]
      rfl
  | execute sql =>
      have same : record.conn.execute ⟨record.calls, sql⟩ luck = (record.conn, false) :=
        if_neg refused
      dsimp only [called]
      rw [same]
      rfl
  | query =>
      have same : record.conn.query luck = (record.conn, false) := if_neg refused
      dsimp only [called]
      rw [same]
  | commit =>
      have same : record.conn.commit luck.fate = (record.conn, false) := if_neg refused
      dsimp only [called]
      rw [same, ends, idle]
  | rollback =>
      have same : record.conn.rollback luck.fate = (record.conn, false) := if_neg refused
      dsimp only [called]
      rw [same, ends, idle]
  | releaseConn =>
      have same : record.conn.releaseConn luck.fate = (record.conn, false) := if_neg refused
      dsimp only [called]
      rw [same, ends, idle]

/-- A begin that returns true. -/
theorem Sound.begins {luck : Luck} (sound : Sound record)
    (initialized : record.conn.initialized = true)
    (safe : record.reaches luck.fate = true → ¬ Abandoned record)
    (returned : (sends record.conn.server (.begin_ record.calls) luck).2 = true) :
    Sound (record.called luck .beginTransaction) := by
  have grows := grows_sends record.conn.server (.begin_ record.calls) luck
  obtain ⟨base, connected, made⟩ := sends_true returned
  have pending : (base.performs (.begin_ record.calls)).pending = [] := rfl
  have older (begun : Begun) (member : begun ∈ (record.called luck .beginTransaction).begun) :
      begun = ⟨record.calls, [], false, false⟩ ∨
        ∃ before ∈ record.begun, record.interrupted luck before = begun := by
    dsimp only [called] at member
    rw [beginTransaction_eq initialized, returned, if_pos rfl] at member
    exact (List.mem_append.mp member).imp List.mem_singleton.mp List.mem_map.mp
  have server : (record.called luck .beginTransaction).conn.server =
      base.performs (.begin_ record.calls) := by
    dsimp only [called]
    rw [beginTransaction_eq initialized, ← made]
  have flagged : (record.called luck .beginTransaction).conn.isTransaction = true := by
    dsimp only [called]
    rw [beginTransaction_eq initialized, returned]
    exact Bool.or_true _
  have kept : Grows (record.conn.server.Allows (.begin_ record.calls) luck.fate)
      (Executes (.begin_ record.calls)) record.conn.server
      (record.called luck .beginTransaction).conn.server := by
    rw [server, ← made]
    exact grows
  refine
    { settled := ?_
      idle := fun flag => by
        rw [flagged] at flag
        cases flag
      working := fun _ => ?_
      marked := fun begun member => ?_
      fresh := fun statement known => Nat.lt_succ_of_lt (sound.fresh statement ?_)
      apart := fun begun member statement inside => ?_ }
  · refine sound.settled.grow kept fun transaction member discarded statement inside =>
      ⟨fun allows => ?_, nofun⟩
    exact safe (reaches_of_allows initialized allows)
      ⟨transaction, member, discarded, statement, inside, allows.2.2.2⟩
  · refine ⟨?_, ?_, ⟨⟨record.calls, [], false, false⟩,
      record.begun.map (record.interrupted luck), ?_, ?_⟩, ?_⟩
    · dsimp only [called]
      rw [beginTransaction_eq initialized]
      exact initialized
    · rw [server]
      exact connected
    · dsimp only [called]
      rw [beginTransaction_eq initialized, returned, if_pos rfl]
      rfl
    · rw [server]
      rfl
    · rw [server, pending]
      exact nofun
  · rw [server, pending]
    rcases older begun member with rfl | ⟨before, there, rfl⟩
    · exact ⟨⟨nofun, nofun⟩, ⟨nofun, nofun⟩, nofun⟩
    · have flag : record.conn.isTransaction = true := by
        by_contra idle
        rw [sound.idle (Bool.eq_false_iff.mpr idle)] at there
        cases there
      have working := sound.working flag
      obtain ⟨kept_iff, broken⟩ := kept_begin working.connected initialized returned
      rw [made] at kept_iff
      exact (sound.marked before there).interrupted working kept_iff broken
  · rcases known with keptAfter | pendingAfter | ⟨begun, member, inside⟩ | ended
    · rcases kept.keptOnly statement keptAfter with before | allows | impossible
      · exact .inl before
      · exact .inr (.inl allows.2.2.2)
      · cases impossible
    · rw [server, pending] at pendingAfter
      cases pendingAfter
    · rcases older begun member with rfl | ⟨before, there, rfl⟩
      · cases inside
      · rw [statements_interrupted] at inside
        exact .inr (.inr (.inl ⟨before, there, inside⟩))
    · exact .inr (.inr (.inr ended))
  · rcases older begun member with rfl | ⟨before, there, rfl⟩
    · cases inside
    · rw [statements_interrupted] at inside
      exact sound.apart before there statement inside

theorem Sound.beginTransaction {luck : Luck} (sound : Sound record)
    (initialized : record.conn.initialized = true)
    (good : Unharmed record (.call .beginTransaction luck)) :
    Sound (record.called luck .beginTransaction) := by
  cases returned : (sends record.conn.server (.begin_ record.calls) luck).2 with
  | true => exact sound.begins initialized good.1 returned
  | false =>
      cases flag : record.conn.isTransaction with
      | false =>
          apply sound.outside (.begin_ record.calls) luck.fate
          · dsimp only [called]
            rw [beginTransaction_eq initialized, returned, sound.idle flag]
            rfl
          · dsimp only [called]
            rw [beginTransaction_eq initialized, returned, flag]
            rfl
          · rfl
          · rfl
          · exact initialized
          · dsimp only [called]
            rw [beginTransaction_eq initialized]
            exact grows_sends record.conn.server (.begin_ record.calls) luck
          · exact fun _ => good.1
          · exact nofun
      | true =>
          have working := sound.working flag
          have stands : ¬ Loses luck := by
            intro loses
            obtain ⟨complete, again⟩ := good.2 flag loses
            rw [sends_lost working.connected _ loses, resumes, complete,
              request_connected rfl, again] at returned
            cases returned
          rcases done_or_refused stands with done | ⟨refused, alive⟩
          · rw [sends_done working.connected _ done] at returned
            cases returned
          · have same : record.called luck .beginTransaction =
                { record with calls := record.calls + 1 } := by
              have missed : record.reaches luck.fate = false := by
                rw [reaches, refused]
                exact Bool.and_false _
              have whole : record.breaksOff luck = false := by
                rw [breaksOff, refused, alive]
                exact Bool.and_false _
              have marks : record.begun.map (record.interrupted luck) = record.begun := by
                rw [List.map_congr_left fun begun _ => interrupted_same missed whole begun]
                exact List.map_id _
              dsimp only [called]
              rw [beginTransaction_eq initialized, returned,
                sends_refused working.connected _ refused alive, marks, Bool.or_false]
              rfl
            rw [same]
            exact sound.later

/-! ## Statements and queries -/

theorem execute_eq {conn : DbMysqlConn} (initialized : conn.initialized = true)
    (statement : Statement) (luck : Luck) :
    conn.execute statement luck =
      ({ conn with server := (sends conn.server (.statement statement) luck).1 },
        (sends conn.server (.statement statement) luck).2) := if_pos initialized

theorem query_eq {conn : DbMysqlConn} (initialized : conn.initialized = true) (luck : Luck) :
    conn.query luck = ({ conn with server := (sends conn.server .select luck).1 },
      (sends conn.server .select luck).2) := if_pos initialized

/-- A statement that is executed inside a transaction is pending in it. -/
theorem Marked.append {kept pending : List Statement} {begun : Begun} {statement : Statement}
    (marked : Marked kept pending begun) (fresh : statement ∉ kept)
    (isNew : statement ∉ begun.statements) :
    Marked kept (pending ++ [statement]) { begun with statements := begun.statements ++ [statement] } := by
  obtain ⟨committed, lost, inside⟩ := marked
  refine ⟨committed.trans ⟨?_, ?_⟩, lost.trans ⟨?_, ?_⟩, fun other member => ?_⟩
  · rintro ⟨other, member, there⟩
    exact ⟨other, List.mem_append_left _ member, there⟩
  · rintro ⟨other, member, there⟩
    rcases List.mem_append.mp member with before | new
    · exact ⟨other, before, there⟩
    · exact (fresh (List.mem_singleton.mp new ▸ there)).elim
  · rintro ⟨other, member, notKept, notPending⟩
    by_cases same : other = statement
    · exact (isNew (same ▸ member)).elim
    · refine ⟨other, List.mem_append_left _ member, notKept, fun there => ?_⟩
      rcases List.mem_append.mp there with before | new
      · exact notPending before
      · exact same (List.mem_singleton.mp new)
  · rintro ⟨other, member, notKept, notPending⟩
    rw [List.mem_append, not_or] at notPending
    rcases List.mem_append.mp member with before | new
    · exact ⟨other, before, notKept, notPending.1⟩
    · exact (notPending.2 new).elim
  · rw [List.mem_append] at member ⊢
    exact member.imp_left (inside other)

/-- A statement that is done inside a transaction. -/
theorem Sound.executes {luck : Luck} (sound : Sound record) (working : Working record)
    (sql : String) (done : luck.fate = .done) : Sound (record.called luck (.execute sql)) := by
  obtain ⟨begun, rest, stack, open_⟩ := working.current
  have pending := pending_of_some open_
  let statement : Statement := ⟨record.calls, sql⟩
  have isNew : ¬ Known record statement := fun known =>
    Nat.lt_irrefl _ (sound.fresh statement known)
  have server : record.conn.server.performs (.statement statement) =
      { record.conn.server with
        transaction := some (begun.number, begun.statements ++ [statement]) } := by
    rw [performs, open_]
  have same : record.called luck (.execute sql) =
      { conn := { record.conn with server := { record.conn.server with
          transaction := some (begun.number, begun.statements ++ [statement]) } }
        calls := record.calls + 1
        begun := record.begun.map fun begun =>
          { begun with statements := begun.statements ++ [statement] }
        ended := record.ended } := by
    rw [← server]
    dsimp only [called]
    rw [execute_eq working.initialized, sends_done working.connected _ done, if_pos rfl]
  have pendingAfter : Server.pending { record.conn.server with
      transaction := some (begun.number, begun.statements ++ [statement]) } =
        record.conn.server.pending ++ [statement] := by
    rw [pending]
    rfl
  rw [same]
  refine
    { settled := sound.settled
      idle := fun flag => by
        dsimp only at flag ⊢
        rw [sound.idle flag]
        rfl
      working := fun _ => ⟨working.initialized, working.connected,
        ⟨{ begun with statements := begun.statements ++ [statement] }, _, by
          dsimp only
          rw [stack]
          rfl, rfl⟩, fun other member => ?_⟩
      marked := fun other member => ?_
      fresh := fun other known => ?_
      apart := fun other member inner inside transaction ended => ?_ }
  · dsimp only at member ⊢
    rw [pendingAfter] at member
    rcases List.mem_append.mp member with before | new
    · exact working.open_ other before
    · rw [List.mem_singleton.mp new]
      exact fun kept => isNew (.inl kept)
  · obtain ⟨before, there, rfl⟩ := List.mem_map.mp member
    dsimp only
    rw [pendingAfter]
    exact (sound.marked before there).append (fun kept => isNew (.inl kept))
      fun inside => isNew (.inr (.inr (.inl ⟨before, there, inside⟩)))
  · have number (new : other ∈ [statement]) : other.number < record.calls + 1 := by
      rw [List.mem_singleton.mp new]
      exact Nat.lt_succ_self _
    rcases known with kept | inPending | ⟨after, member, inside⟩ | ended
    · exact Nat.lt_succ_of_lt (sound.fresh other (.inl kept))
    · dsimp only at inPending
      rw [pendingAfter] at inPending
      rcases List.mem_append.mp inPending with before | new
      · exact Nat.lt_succ_of_lt (sound.fresh other (.inr (.inl before)))
      · exact number new
    · obtain ⟨before, there, rfl⟩ := List.mem_map.mp member
      rcases List.mem_append.mp inside with older | new
      · exact Nat.lt_succ_of_lt (sound.fresh other (.inr (.inr (.inl ⟨before, there, older⟩))))
      · exact number new
    · exact Nat.lt_succ_of_lt (sound.fresh other (.inr (.inr (.inr ended))))
  · obtain ⟨before, there, rfl⟩ := List.mem_map.mp member
    rcases List.mem_append.mp inside with older | new
    · exact sound.apart before there inner older transaction ended
    · rw [List.mem_singleton.mp new]
      exact fun known => isNew (.inr (.inr (.inr ⟨transaction, ended, known⟩)))

theorem Sound.execute {luck : Luck} (sound : Sound record)
    (initialized : record.conn.initialized = true) (sql : String)
    (good : record.conn.isTransaction = true → ¬ Loses luck) :
    Sound (record.called luck (.execute sql)) := by
  have result := execute_eq initialized ⟨record.calls, sql⟩ luck
  cases flag : record.conn.isTransaction with
  | false =>
      apply sound.outside (.statement ⟨record.calls, sql⟩) luck.fate
      · dsimp only [called]
        rw [sound.idle flag]
        split_ifs <;> rfl
      · dsimp only [called]
        rw [result]
        exact flag
      · rfl
      · rfl
      · exact initialized
      · dsimp only [called]
        rw [result]
        exact grows_sends record.conn.server _ luck
      · exact nofun
      · intro statement same
        cases same
        rfl
  | true =>
      have working := sound.working flag
      rcases done_or_refused (good flag) with done | ⟨refused, alive⟩
      · exact sound.executes working sql done
      · have same : record.called luck (.execute sql) =
            { record with calls := record.calls + 1 } := by
          dsimp only [called]
          rw [result, sends_refused working.connected _ refused alive]
          rfl
        rw [same]
        exact sound.later

theorem Sound.query {luck : Luck} (sound : Sound record)
    (initialized : record.conn.initialized = true)
    (good : record.conn.isTransaction = true → ¬ Loses luck) :
    Sound (record.called luck .query) := by
  have result := query_eq initialized luck
  cases flag : record.conn.isTransaction with
  | false =>
      apply sound.outside .select luck.fate
      · exact sound.idle flag
      · dsimp only [called]
        rw [result]
        exact flag
      · rfl
      · rfl
      · exact initialized
      · dsimp only [called]
        rw [result]
        exact grows_sends record.conn.server _ luck
      · exact nofun
      · exact nofun
  | true =>
      have working := sound.working flag
      have same : record.called luck .query = { record with calls := record.calls + 1 } := by
        dsimp only [called]
        rw [result]
        rcases done_or_refused (good flag) with done | ⟨refused, alive⟩
        · rw [sends_done working.connected _ done]
          rfl
        · rw [sends_refused working.connected _ refused alive]
      rw [same]
      exact sound.later

/-! ## Ending -/

/-- The transactions end, and what was executed in them is kept or not, as it should be. -/
theorem Sound.ends (sound : Sound record) (working : Working record) {after : Record}
    (committed : Bool) (begun : after.begun = []) (flag : after.conn.isTransaction = false)
    (ended : after.ended = record.ends committed) (calls : after.calls = record.calls + 1)
    (grows : Grows (fun statement => statement ∈ record.conn.server.pending) (fun _ => False)
      record.conn.server after.conn.server)
    (own : ∀ begun ∈ record.begun, ∀ statement ∈ begun.statements,
      if committed then statement ∈ after.conn.server.kept
      else statement ∉ after.conn.server.kept) : Sound after := by
  have old : Settled record.ended after.conn.server.kept := by
    refine sound.settled.grow grows fun transaction member _ statement inside =>
      ⟨fun pending => ?_, id⟩
    obtain ⟨current, rest, stack, _⟩ := working.current
    have there : current ∈ record.begun := stack ▸ List.mem_cons_self
    exact sound.apart current there statement ((sound.marked current there).inside statement
      pending) transaction member inside
  have parts {transaction : Ended} (member : transaction ∈ after.ended) :
      transaction ∈ record.ended ∨
        ∃ begun ∈ record.begun, ⟨committed, begun.statements⟩ = transaction := by
    rw [ended] at member
    exact (List.mem_append.mp member).imp_right List.mem_map.mp
  refine
    { settled := ⟨fun transaction member isCommitted statement inside => ?_,
        fun transaction member isDiscarded statement inside => ?_⟩
      idle := fun _ => begun
      working := fun isFlagged => by
        rw [flag] at isFlagged
        cases isFlagged
      marked := by
        rw [begun]
        exact nofun
      fresh := fun statement known => ?_
      apart := by
        rw [begun]
        exact nofun }
  · rcases parts member with before | ⟨begun, there, rfl⟩
    · exact old.committed transaction before isCommitted statement inside
    · have holds := own begun there statement inside
      rw [if_pos isCommitted] at holds
      exact holds
  · rcases parts member with before | ⟨begun, there, rfl⟩
    · exact old.discarded transaction before isDiscarded statement inside
    · have holds := own begun there statement inside
      rw [if_neg (Bool.eq_false_iff.mp isDiscarded)] at holds
      exact holds
  · rw [calls]
    refine Nat.lt_succ_of_lt (sound.fresh statement ?_)
    rcases known with kept | pending | ⟨_, member, _⟩ | ⟨transaction, member, inside⟩
    · rcases grows.keptOnly statement kept with before | pending | impossible
      · exact .inl before
      · exact .inr (.inl pending)
      · exact impossible.elim
    · exact .inr (.inl ((grows.pendingOnly statement pending).resolve_right id))
    · rw [begun] at member
      cases member
    · rcases parts member with before | ⟨begun, there, rfl⟩
      · exact .inr (.inr (.inr ⟨transaction, before, inside⟩))
      · exact .inr (.inr (.inl ⟨begun, there, inside⟩))

/-- Ending nothing: no transaction was begun. -/
theorem ends_of_idle (idle : record.begun = []) (committed : Bool) :
    record.ends committed = record.ended := by
  rw [Record.ends, idle, List.map_nil, List.append_nil]

theorem commit_eq {conn : DbMysqlConn} (initialized : conn.initialized = true) (fate : Fate) :
    conn.commit fate = ({ conn with
        server := (conn.server.request .commit fate).1
        isTransaction := false }, (conn.server.request .commit fate).2) := if_pos initialized

theorem rollback_eq {conn : DbMysqlConn} (initialized : conn.initialized = true) (fate : Fate) :
    conn.rollback fate = ({ conn with
        server := (conn.server.request .rollback fate).1
        isTransaction := false }, (conn.server.request .rollback fate).2) := if_pos initialized

theorem releaseConn_eq {conn : DbMysqlConn} (initialized : conn.initialized = true)
    (fate : Fate) :
    conn.releaseConn fate = ({ conn with
        initialized := false
        isTransaction := false
        server := (conn.server.request .commit fate).1.drop }, false) := by
  rw [releaseConn, if_pos initialized, commit_eq initialized]

/-- Only what is pending may be kept by a request that ends a transaction. -/
theorem grows_ending (server : Server) {request : Request} (fate : Fate)
    (ending : request = .commit ∨ request = .rollback) :
    Grows (fun statement => statement ∈ server.pending) (fun _ => False) server
      (server.request request fate).1 := by
  have grows := grows_request server request fate
  have nothing (statement : Statement) : ¬ Executes request statement := by
    rcases ending with rfl | rfl <;> exact nofun
  exact
    { kept := grows.kept
      keptOnly := fun statement member => (grows.keptOnly statement member).imp_right
        (Or.imp (fun allows => allows.2.2.2) (nothing statement))
      pendingOnly := fun statement member =>
        (grows.pendingOnly statement member).imp_right (nothing statement) }

/-- What is not kept, and not marked as kept, is not kept after a request that does not keep
what is pending. -/
theorem Sound.not_kept (sound : Sound record) {begun : Begun} (there : begun ∈ record.begun)
    (whole : begun.committed = false) {statement : Statement}
    (inside : statement ∈ begun.statements) : statement ∉ record.conn.server.kept := by
  intro kept
  have marked := (sound.marked begun there).committed.mpr ⟨statement, inside, kept⟩
  rw [whole] at marked
  cases marked

theorem Sound.commit {luck : Luck} (sound : Sound record)
    (initialized : record.conn.initialized = true)
    (good : Unharmed record (.call .commit luck)) : Sound (record.called luck .commit) := by
  have result := commit_eq initialized luck.fate
  cases flag : record.conn.isTransaction with
  | false =>
      apply sound.outside .commit luck.fate
      · rfl
      · dsimp only [called]
        rw [result]
      · exact ends_of_idle (sound.idle flag) _
      · rfl
      · exact initialized
      · dsimp only [called]
        rw [result]
        exact grows_request record.conn.server .commit luck.fate
      · exact fun _ => good.1
      · exact nofun
  | true =>
      have working := sound.working flag
      obtain ⟨whole, unmixed, nothing⟩ := good.2 flag
      have request := request_connected working.connected .commit luck.fate
      apply sound.ends working (record.conn.server.request .commit luck.fate).2
      · rfl
      · dsimp only [called]
        rw [result]
      · dsimp only [called]
        rw [result]
      · rfl
      · dsimp only [called]
        rw [result]
        exact grows_ending record.conn.server luck.fate (.inl rfl)
      · intro begun there statement inside
        dsimp only [called]
        rw [result, request]
        cases fate : luck.fate with
        | done =>
            have marked := (sound.marked begun there).lost
            rw [whole fate begun there] at marked
            rw [if_pos rfl]
            apply List.mem_append.mpr
            by_contra gone
            rw [not_or] at gone
            exact Bool.false_ne_true (marked.mpr ⟨statement, inside, gone⟩)
        | refused =>
            exact sound.not_kept there (unmixed (by rw [fate]; nofun) begun there) inside
        | lostBefore =>
            exact sound.not_kept there (unmixed (by rw [fate]; nofun) begun there) inside
        | lostAfter =>
            have kept := sound.not_kept there (unmixed (by rw [fate]; nofun) begun there) inside
            rw [if_neg Bool.false_ne_true]
            intro member
            rcases List.mem_append.mp member with before | pending
            · exact kept before
            · rw [working.pending_eq, nothing fate] at pending
              cases pending

theorem Sound.rollback {luck : Luck} (sound : Sound record)
    (initialized : record.conn.initialized = true)
    (good : Unharmed record (.call .rollback luck)) : Sound (record.called luck .rollback) := by
  have result := rollback_eq initialized luck.fate
  have grows := grows_request record.conn.server .rollback luck.fate
  cases flag : record.conn.isTransaction with
  | false =>
      apply sound.outside .rollback luck.fate
      · rfl
      · dsimp only [called]
        rw [result]
      · exact ends_of_idle (sound.idle flag) _
      · rfl
      · exact initialized
      · dsimp only [called]
        rw [result]
        exact grows
      · exact nofun
      · exact nofun
  | true =>
      apply sound.ends (sound.working flag) false
      · rfl
      · dsimp only [called]
        rw [result]
      · rfl
      · rfl
      · dsimp only [called]
        rw [result]
        exact grows_ending record.conn.server luck.fate (.inr rfl)
      · intro begun there statement inside
        dsimp only [called]
        rw [result, if_neg Bool.false_ne_true]
        intro kept
        rcases grows.keptOnly statement kept with before | allows | impossible
        · exact sound.not_kept there (good flag begun there) inside before
        · exact allows.2.2.1
        · cases impossible

theorem Sound.releaseConn {luck : Luck} (sound : Sound record)
    (initialized : record.conn.initialized = true)
    (good : Unharmed record (.call .releaseConn luck)) :
    Sound (record.called luck .releaseConn) := by
  have result := releaseConn_eq initialized luck.fate
  have grows := (grows_request record.conn.server .commit luck.fate).drop
  cases flag : record.conn.isTransaction with
  | false =>
      apply sound.outside .commit luck.fate
      · rfl
      · dsimp only [called]
        rw [result]
      · exact ends_of_idle (sound.idle flag) _
      · rfl
      · exact initialized
      · dsimp only [called]
        rw [result]
        exact grows
      · exact fun _ => good.1
      · exact nofun
  | true =>
      have working := sound.working flag
      obtain ⟨unmixed, nothing⟩ := good.2 flag
      apply sound.ends working false
      · rfl
      · dsimp only [called]
        rw [result]
      · rfl
      · rfl
      · dsimp only [called]
        rw [result]
        exact (grows_ending record.conn.server luck.fate (.inl rfl)).drop
      · intro begun there statement inside
        dsimp only [called]
        rw [result, if_neg Bool.false_ne_true]
        intro kept
        rcases grows.keptOnly statement kept with before | allows | impossible
        · exact sound.not_kept there (unmixed begun there) inside before
        · have pending := allows.2.2.2
          rw [working.pending_eq, nothing (reaches_of_allows initialized allows)] at pending
          cases pending
        · cases impossible

/-- **Every step that harms no transaction keeps the invariant.** -/
theorem Sound.step (sound : Sound record) {input : Input} (good : Unharmed record input) :
    Sound (record.step input) := by
  cases input with
  | loses =>
      have outside : Outside record (record.step .loses) (fun _ => False) (fun _ => False) :=
        { begun := sound.idle good
          flag := good
          ended := rfl
          calls := Nat.le_refl _
          grows := Grows.drop (.refl _ _ _)
          pending := nofun
          safe := fun ⟨_, impossible⟩ => impossible.elim
          isNew := nofun }
      exact outside.sound sound
  | call call luck =>
      cases initialized : record.conn.initialized with
      | false =>
          have idle := sound.idle (sound.flag_of_not_initialized initialized)
          change Sound (record.called luck call)
          rw [called_released initialized idle]
          exact sound.later
      | true =>
          cases call with
          | beginTransaction => exact sound.beginTransaction initialized good
          | execute sql => exact sound.execute initialized sql good
          | query => exact sound.query initialized good
          | commit => exact sound.commit initialized good
          | rollback => exact sound.rollback initialized good
          | releaseConn => exact sound.releaseConn initialized good

end Invariant

end Cube.Libmysql.Record
