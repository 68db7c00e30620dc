import Cube.Libmysql.Transactions

/-! # Atomic transactions

A transaction whose commit returned true is kept as a whole, and one that ended otherwise not
at all, exactly as long as no call harms it: by losing the connection, by releasing it, by
beginning another transaction inside, or by committing what a refused commit or rollback has
left open.
-/

namespace Cube.Libmysql.Record

open Server DbMysqlConn

section Harm

variable {record : Record}

theorem initialized_of_reaches {fate : Fate} (reached : record.reaches fate = true) :
    record.conn.initialized = true ∧ record.conn.server.connected = true ∧
      (fate = .done ∨ fate = .lostAfter) := by
  rw [reaches, Bool.and_eq_true, Bool.and_eq_true, Bool.or_eq_true, beq_iff_eq,
    beq_iff_eq] at reached
  exact ⟨reached.1.1, reached.1.2, reached.2⟩

/-- A request that commits keeps what is pending when it reaches the server. -/
theorem kept_of_reaches {request : Request} {fate : Fate} (commits : Commits request)
    (reached : record.reaches fate = true) {statement : Statement}
    (pending : statement ∈ record.conn.server.pending) :
    statement ∈ (record.conn.server.request request fate).1.kept := by
  obtain ⟨_, connected, fate⟩ := initialized_of_reaches reached
  have performed : statement ∈ (record.conn.server.performs request).kept := by
    cases request with
    | begin_ number => exact List.mem_append_right _ pending
    | commit => exact List.mem_append_right _ pending
    | _ => exact commits.elim
  rw [request_connected connected]
  rcases fate with rfl | rfl
  · exact performed
  · exact performed

/-- The same for a call that may make its request again. -/
theorem kept_of_sends {request : Request} {luck : Luck} (commits : Commits request)
    (reached : record.reaches luck.fate = true) {statement : Statement}
    (pending : statement ∈ record.conn.server.pending) :
    statement ∈ (sends record.conn.server request luck).1.kept := by
  have kept := kept_of_reaches commits reached pending
  obtain ⟨_, connected, fate⟩ := initialized_of_reaches reached
  rw [request_connected connected] at kept
  rcases fate with done | after
  · rw [done] at kept
    rw [sends_done connected _ done]
    exact kept
  · rw [after] at kept
    rw [sends_lost connected _ (.inr (.inl after))]
    apply (grows_resumes _ request luck).kept
    rw [lostServer, if_pos after]
    exact kept

/-- A transaction that ended without being kept, and has a statement kept, is not atomic. -/
theorem not_atomic_of_kept {after : Record} {transaction : Ended}
    (ended : transaction ∈ after.ended) (discarded : transaction.committed = false)
    {statement : Statement} (inside : statement ∈ transaction.statements)
    (kept : statement ∈ after.conn.server.kept) : ¬ Atomic after := fun atomic =>
  atomic.settled.discarded transaction ended discarded statement inside kept

theorem not_atomic_of_lost {after : Record} (flag : after.conn.isTransaction = true)
    (none : after.conn.server.transaction = none) : ¬ Atomic after := by
  intro atomic
  obtain ⟨begun, rest, _, open_⟩ := atomic.flagged flag
  rw [none] at open_
  cases open_

/-- A call that loses the connection inside a transaction leaves none open, unless it is a begin
that succeeds. -/
theorem transaction_sends (request : Request) {luck : Luck}
    (connected : record.conn.server.connected = true) (loses : Loses luck) :
    (sends record.conn.server request luck).1.transaction = none ∨
      (luck.reconnection = .complete ∧ luck.again = .done ∧
        (sends record.conn.server request luck).1.transaction =
          ((lostServer record.conn.server request luck).fresh.performs request).transaction) := by
  rw [sends_lost connected request loses]
  have gone : (lostServer record.conn.server request luck).transaction = none :=
    transaction_lostServer _
  rcases transaction_resumes request luck gone with
    none | ⟨complete, again, same⟩
  · exact .inl none
  · exact .inr ⟨complete, again, by rw [same]⟩

/-- What an abandoned transaction has pending is kept by a request that commits. -/
theorem not_atomic_of_abandoned {after : Record} (abandoned : Abandoned record)
    (ended : ∀ transaction ∈ record.ended, transaction ∈ after.ended)
    (kept : ∀ statement ∈ record.conn.server.pending, statement ∈ after.conn.server.kept) :
    ¬ Atomic after := by
  obtain ⟨transaction, member, discarded, statement, inside, pending⟩ := abandoned
  exact not_atomic_of_kept (ended transaction member) discarded inside (kept statement pending)

/-- A transaction that ends discarded with a statement that is kept. -/
theorem not_atomic_of_ends {after : Record} (ended : after.ended = record.ends false)
    {begun : Begun} (there : begun ∈ record.begun) {statement : Statement}
    (inside : statement ∈ begun.statements) (kept : statement ∈ after.conn.server.kept) :
    ¬ Atomic after := by
  have member : (⟨false, begun.statements⟩ : Ended) ∈ after.ended := by
    rw [ended]
    exact List.mem_append_right _ (List.mem_map.mpr ⟨begun, there, rfl⟩)
  exact not_atomic_of_kept member rfl inside kept

theorem mem_ends {transaction : Ended} (member : transaction ∈ record.ended)
    (committed : Bool) : transaction ∈ record.ends committed := List.mem_append_left _ member

/-- A begin that harms a transaction. -/
theorem Sound.begin_harms {luck : Luck} (sound : Sound record)
    (harm : ¬ Unharmed record (.call .beginTransaction luck)) :
    ¬ Atomic (record.called luck .beginTransaction) := by
  simp only [Unharmed, not_and_or, Classical.not_imp, not_not] at harm
  rcases harm with ⟨reached, abandoned⟩ | ⟨flag, loses, failed⟩
  · have initialized := (initialized_of_reaches reached).1
    apply not_atomic_of_abandoned abandoned
    · exact fun _ member => member
    · intro statement pending
      dsimp only [called]
      rw [beginTransaction_eq initialized]
      apply kept_of_sends (show Commits (.begin_ record.calls) from trivial) reached pending
  · have working := sound.working flag
    have result := beginTransaction_eq working.initialized record.calls luck
    apply not_atomic_of_lost
    · dsimp only [called]
      rw [result, flag]
      rfl
    · dsimp only [called]
      rw [result]
      rcases transaction_sends (.begin_ record.calls) working.connected loses with
        none | ⟨complete, again, _⟩
      · exact none
      · rcases failed with incomplete | undone
        · exact absurd complete incomplete
        · exact absurd again undone

/-- A statement or a query that loses the connection inside a transaction. -/
theorem Sound.loss_harms {luck : Luck} (sound : Sound record) {request : Request}
    (flag : record.conn.isTransaction = true) (loses : Loses luck)
    (plain : ∀ server : Server, server.transaction = none →
      (server.performs request).transaction = none) {after : Record}
    (conn : after.conn =
      { record.conn with server := (sends record.conn.server request luck).1 }) :
    ¬ Atomic after := by
  have working := sound.working flag
  apply not_atomic_of_lost
  · rw [conn]
    exact flag
  · rw [conn]
    rcases transaction_sends request working.connected loses with
      none | ⟨_, _, same⟩
    · exact none
    · dsimp only
      rw [same]
      exact plain _ rfl

theorem Sound.commit_harms {luck : Luck} (sound : Sound record)
    (harm : ¬ Unharmed record (.call .commit luck)) :
    ¬ Atomic (record.called luck .commit) := by
  simp only [Unharmed, not_and_or, Classical.not_imp, not_not, not_forall] at harm
  rcases harm with ⟨reached, abandoned⟩ | ⟨flag, harm⟩
  · have result := commit_eq (initialized_of_reaches reached).1 luck.fate
    apply not_atomic_of_abandoned abandoned
    · exact fun _ member => mem_ends member _
    · intro statement pending
      dsimp only [called]
      rw [result]
      exact kept_of_reaches (show Commits .commit from trivial) reached pending
  · have working := sound.working flag
    have result := commit_eq working.initialized luck.fate
    have request := request_connected working.connected .commit luck.fate
    have grows := grows_request record.conn.server .commit luck.fate
    rcases harm with ⟨done, begun, there, lost⟩ | ⟨notDone, begun, there, committed⟩ |
      ⟨after, some⟩
    · obtain ⟨statement, inside, notKept, notPending⟩ :=
        (sound.marked begun there).lost.mp (Bool.not_eq_false _ ▸ lost)
      intro atomic
      have member : (⟨true, begun.statements⟩ : Ended) ∈ (record.called luck .commit).ended := by
        dsimp only [called]
        rw [result, request, done]
        exact List.mem_append_right _ (List.mem_map.mpr ⟨begun, there, rfl⟩)
      have kept := atomic.settled.committed _ member rfl statement inside
      dsimp only [called] at kept
      rw [result, request, done] at kept
      exact (List.mem_append.mp kept).elim notKept notPending
    · obtain ⟨statement, inside, kept⟩ :=
        (sound.marked begun there).committed.mp (Bool.not_eq_false _ ▸ committed)
      refine not_atomic_of_ends ?_ there inside ?_
      · dsimp only [called]
        rw [result, request]
        cases fate : luck.fate with
        | done => exact (notDone fate).elim
        | _ => rfl
      · dsimp only [called]
        rw [result]
        exact grows.kept statement kept
    · obtain ⟨current, rest, stack, open_⟩ := working.current
      have there : current ∈ record.begun := stack ▸ List.mem_cons_self
      obtain ⟨statement, inside⟩ := List.exists_mem_of_ne_nil _ some
      have pending : statement ∈ record.conn.server.pending := working.pending_eq ▸ inside
      refine not_atomic_of_ends ?_ there ((sound.marked current there).inside statement pending) ?_
      · dsimp only [called]
        rw [result, request, after]
      · dsimp only [called]
        rw [result, request, after]
        exact List.mem_append_right _ pending

theorem Sound.rollback_harms {luck : Luck} (sound : Sound record)
    (harm : ¬ Unharmed record (.call .rollback luck)) :
    ¬ Atomic (record.called luck .rollback) := by
  simp only [Unharmed, Classical.not_imp, not_forall] at harm
  obtain ⟨flag, begun, there, committed⟩ := harm
  obtain ⟨statement, inside, kept⟩ :=
    (sound.marked begun there).committed.mp (Bool.not_eq_false _ ▸ committed)
  refine not_atomic_of_ends rfl there inside ?_
  dsimp only [called]
  rw [rollback_eq (sound.working flag).initialized]
  exact (grows_request record.conn.server .rollback luck.fate).kept statement kept

theorem Sound.release_harms {luck : Luck} (sound : Sound record)
    (harm : ¬ Unharmed record (.call .releaseConn luck)) :
    ¬ Atomic (record.called luck .releaseConn) := by
  simp only [Unharmed, not_and_or, Classical.not_imp, not_not, not_forall] at harm
  have grows := (grows_request record.conn.server .commit luck.fate).drop
  rcases harm with ⟨reached, abandoned⟩ | ⟨flag, harm⟩
  · have result := releaseConn_eq (initialized_of_reaches reached).1 luck.fate
    apply not_atomic_of_abandoned abandoned
    · exact fun _ member => mem_ends member _
    · intro statement pending
      dsimp only [called]
      rw [result]
      exact kept_of_reaches (show Commits .commit from trivial) reached pending
  · have working := sound.working flag
    have result := releaseConn_eq working.initialized luck.fate
    rcases harm with ⟨begun, there, committed⟩ | ⟨reached, some⟩
    · obtain ⟨statement, inside, kept⟩ :=
        (sound.marked begun there).committed.mp (Bool.not_eq_false _ ▸ committed)
      refine not_atomic_of_ends rfl there inside ?_
      dsimp only [called]
      rw [result]
      exact grows.kept statement kept
    · obtain ⟨current, rest, stack, open_⟩ := working.current
      have there : current ∈ record.begun := stack ▸ List.mem_cons_self
      obtain ⟨statement, inside⟩ := List.exists_mem_of_ne_nil _ some
      have pending : statement ∈ record.conn.server.pending := working.pending_eq ▸ inside
      refine not_atomic_of_ends rfl there
        ((sound.marked current there).inside statement pending) ?_
      dsimp only [called]
      rw [result]
      exact kept_of_reaches (show Commits .commit from trivial) reached pending

/-- **Every step that harms a transaction shows.** -/
theorem Sound.harmed (sound : Sound record) {input : Input} (harm : ¬ Unharmed record input) :
    ¬ Atomic (record.step input) := by
  cases input with
  | loses =>
      rw [Unharmed, Bool.not_eq_false] at harm
      exact not_atomic_of_lost harm rfl
  | call call luck =>
      cases call with
      | beginTransaction => exact sound.begin_harms harm
      | execute sql =>
          simp only [Unharmed, Classical.not_imp, not_not] at harm
          have plain (server : Server) (idle : server.transaction = none) :
              (server.performs (.statement ⟨record.calls, sql⟩)).transaction = none := by
            unfold performs
            rw [idle]
          have conn := congrArg Prod.fst
            (execute_eq (sound.working harm.1).initialized ⟨record.calls, sql⟩ luck)
          exact sound.loss_harms harm.1 harm.2 plain conn
      | query =>
          simp only [Unharmed, Classical.not_imp, not_not] at harm
          have conn := congrArg Prod.fst (query_eq (sound.working harm.1).initialized luck)
          exact sound.loss_harms harm.1 harm.2 (fun _ => id) conn
      | commit => exact sound.commit_harms harm
      | rollback => exact sound.rollback_harms harm
      | releaseConn => exact sound.release_harms harm

end Harm

/-- **Atomic transactions.** In every sequence of calls and losses, transactions are atomic
exactly as long as no step harms one. -/
theorem transactions_atomic_iff (inputs : List Input) :
    Run.Always Record.step Atomic (fun _ _ => True) new inputs ↔
      Run.Steps Record.step Unharmed new inputs :=
  Run.always_iff_steps Sound (fun _ sound => sound.atomic)
    (fun _ _ sound good => ⟨trivial, sound.step good⟩)
    (fun _ _ sound harm both => sound.harmed harm both.2) sound_new inputs

/-! ## A loss inside a transaction -/

/-- Nothing happens. -/
def calm : Luck := ⟨.done, false, .complete, .done⟩

/-- A transaction of two statements; the connection is lost before the second one, which is
executed over a fresh one, and kept although the transaction is rolled back; and a transaction
that is abandoned, and kept by the release. -/
theorem transactions_torn :
    ¬ Run.Always Record.step Atomic (fun _ _ => True) new
        [.call .beginTransaction calm, .call (.execute "insert into a values (1)") calm,
          .call (.execute "insert into b values (1)") ⟨.lostBefore, false, .complete, .done⟩,
          .call .rollback calm] ∧
      ¬ Run.Always Record.step Atomic (fun _ _ => True) new
        [.call .beginTransaction calm, .call (.execute "insert into a values (1)") calm,
          .call .releaseConn calm] := by
  constructor
  · intro always
    have discarded := always.final.settled.discarded
    exact discarded ⟨false, [⟨1, "insert into a values (1)"⟩, ⟨2, "insert into b values (1)"⟩]⟩
      (by decide) rfl ⟨2, "insert into b values (1)"⟩ (by decide) (by decide)
  · intro always
    have discarded := always.final.settled.discarded
    exact discarded ⟨false, [⟨1, "insert into a values (1)"⟩]⟩
      (by decide) rfl ⟨1, "insert into a values (1)"⟩ (by decide) (by decide)

end Cube.Libmysql.Record
