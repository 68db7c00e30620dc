import Cube.Liblight.Transaction

/-! # Writing to a connection

`pushtrans`, `do_write` and `handle_write` of `Session` and of `clientapi`. What has been pushed is
in the write buffer, and behind it in the list of transactions that found no room there.
-/

namespace Cube.Liblight

/-- The write at the socket: none, one of so many readable bytes, or one that took so many and
whose handler is to run. -/
inductive Writing where
  | idle
  | started (count : Nat)
  | completed (length : Nat)
  deriving DecidableEq

structure Writer where
  bufferWrite : Buffer
  cacheWrite : List Transaction
  writing : Writing

namespace Writer

def make : Writer := ⟨.make, [], .idle⟩

variable (writer : Writer)

/-- `do_write`. A second write at a time would mix its bytes with those of the first. -/
def doWrite : Option Writer :=
  if writer.writing = .idle then
    some { writer with writing := .started writer.bufferWrite.readableBytes }
  else none

def pushtrans (transaction : Transaction) : Option Writer :=
  let writeInProgress := writer.bufferWrite.readableBytes ≠ 0
  let pushed : Option Writer :=
    if writer.cacheWrite ≠ [] then
      some { writer with cacheWrite := writer.cacheWrite ++ [transaction] }
    else if writer.bufferWrite.writableBytes < transaction.buffer.length then
      some { writer with cacheWrite := writer.cacheWrite ++ [transaction] }
    else (writer.bufferWrite.append transaction.buffer).map fun b =>
      { writer with bufferWrite := b }
  pushed.bind fun writer => if writeInProgress then some writer else writer.doWrite

/-- The loop of `handle_write`: transactions go from the list to the buffer while there is room. -/
def moveCached : Buffer → List Transaction → Option (Buffer × List Transaction)
  | b, [] => some (b, [])
  | b, transaction :: cache =>
      if transaction.buffer.length > b.writableBytes then
        if b.hasCapacity transaction.buffer.length then
          b.remove.bind fun b => (b.append transaction.buffer).bind fun b => moveCached b cache
        else some (b, transaction :: cache)
      else (b.append transaction.buffer).bind fun b => moveCached b cache

def handleWrite (endpoint : Endpoint) (length : Nat) : Option Writer :=
  (writer.bufferWrite.retrieve length).bind fun b =>
    (moveCached b writer.cacheWrite).bind fun moved =>
      let writer : Writer := ⟨moved.1, moved.2, .idle⟩
      if moved.1.readableBytes ≠ 0 then writer.doWrite
      else match endpoint with
        | .session => some writer
        | .clientapi => some { writer with bufferWrite := moved.1.retrieveAll }

/-- The socket takes some of the bytes of a write that was started. -/
def transfer (count : Nat) : List UInt8 × Writer :=
  match writer.writing with
  | .started most =>
      if count ≤ most then
        (writer.bufferWrite.peek.take count, { writer with writing := .completed count })
      else ([], writer)
  | _ => ([], writer)

/-! ## What is pending -/

/-- The bytes of some transactions. -/
def stream (transactions : List Transaction) : List UInt8 :=
  (transactions.map Transaction.buffer).flatten

theorem stream_append (first second : List Transaction) :
    stream (first ++ second) = stream first ++ stream second := by
  rw [stream, List.map_append, List.flatten_append, stream, stream]

theorem stream_singleton (transaction : Transaction) :
    stream [transaction] = transaction.buffer := by
  rw [stream, List.map_singleton, List.flatten_singleton]

/-- How many of the readable bytes the socket has taken. -/
def taken : Nat :=
  match writer.writing with
  | .completed length => length
  | _ => 0

/-- The bytes that the socket has not taken. -/
def pending : List UInt8 := writer.bufferWrite.peek.drop writer.taken ++ stream writer.cacheWrite

/-- A write is at the socket exactly while there is something in the buffer, and nothing is in the
list while nothing is in the buffer. -/
def InStep : Writing → Buffer → List Transaction → Prop
  | .idle, b, cache => b.peek = [] ∧ b.writerIndex = 8 ∧ cache = []
  | .started count, b, _ | .completed count, b, _ => b.peek ≠ [] ∧ count ≤ b.peek.length

/-- Transactions that an empty buffer has room for, one at a time. -/
def Pushable (transactions : List Transaction) : Prop :=
  ∀ transaction ∈ transactions, transaction.buffer ≠ [] ∧ transaction.buffer.length ≤ 8192

/-- What holds of a writer. -/
structure Flows (writer : Writer) : Prop where
  fits : writer.bufferWrite.Fits
  cached : Pushable writer.cacheWrite
  inStep : InStep writer.writing writer.bufferWrite writer.cacheWrite

variable {writer}

theorem flows_make : make.Flows :=
  ⟨Buffer.fits_make, nofun, Buffer.peek_make, rfl, rfl⟩

@[simp] theorem pending_make : make.pending = [] := by
  rw [pending, show make.bufferWrite.peek = [] from Buffer.peek_make, List.drop_nil]
  rfl

/-- No write is at the socket exactly while the buffer is empty. -/
theorem Flows.idle_iff (flows : writer.Flows) :
    writer.writing = .idle ↔ writer.bufferWrite.peek = [] := by
  have inStep := flows.inStep
  cases state : writer.writing with
  | idle =>
      rw [state] at inStep
      exact iff_of_true rfl inStep.1
  | started count =>
      rw [state] at inStep
      exact iff_of_false nofun inStep.1
  | completed length =>
      rw [state] at inStep
      exact iff_of_false nofun inStep.1

/-- More bytes in the buffer, or in the list, while a write is at the socket. -/
theorem InStep.more {state : Writing} {b after : Buffer} {cache : List Transaction}
    (inStep : InStep state b cache) (busy : state ≠ .idle) {bytes : List UInt8}
    (same : after.peek = b.peek ++ bytes) (cached : List Transaction) :
    InStep state after cached := by
  cases state with
  | idle => exact absurd rfl busy
  | started count | completed count =>
      refine ⟨?_, ?_⟩
      · rw [same]
        exact List.append_ne_nil_of_left_ne_nil inStep.1 bytes
      · rw [same, List.length_append]
        exact Nat.le_add_right_of_le inStep.2

theorem taken_le (inStep : InStep writer.writing writer.bufferWrite writer.cacheWrite) :
    writer.taken ≤ writer.bufferWrite.peek.length := by
  rw [taken]
  cases state : writer.writing with
  | completed length =>
      rw [state] at inStep
      exact inStep.2
  | _ => exact Nat.zero_le _

/-- A write is started for what is in a buffer that was empty. -/
theorem doWrite_eq (fits : writer.bufferWrite.Fits) (filled : writer.bufferWrite.peek ≠ [])
    (idle : writer.writing = .idle) (cached : Pushable writer.cacheWrite) :
    ∃ after, writer.doWrite = some after ∧ after.Flows ∧
      after.pending = writer.bufferWrite.peek ++ stream writer.cacheWrite := by
  rw [doWrite, if_pos idle]
  exact ⟨_, rfl, ⟨fits, cached, filled, Nat.le_of_eq fits.readableBytes⟩, rfl⟩

/-- A transaction that is pushed while nothing is written is written at once. -/
theorem Flows.pushtrans_idle (flows : writer.Flows) (idle : writer.writing = .idle)
    {transaction : Transaction} (filled : transaction.buffer ≠ [])
    (small : transaction.buffer.length ≤ 8192) :
    ∃ after, writer.pushtrans transaction = some after ∧ after.Flows ∧
      after.pending = writer.pending ++ transaction.buffer := by
  have inStep := flows.inStep
  rw [idle] at inStep
  obtain ⟨empty, start, nothing⟩ := inStep
  have writable : writer.bufferWrite.writableBytes = 8192 := by
    rw [flows.fits.writableBytes, start]
  have room : transaction.buffer.length ≤ writer.bufferWrite.writableBytes := by omega
  obtain ⟨b, appended, fits, same, _⟩ := flows.fits.append room
  rw [empty, List.nil_append] at same
  have quiet : ¬ writer.bufferWrite.readableBytes ≠ 0 := by
    rw [flows.fits.readableBytes, empty]
    exact fun some_byte => some_byte rfl
  rw [Writer.pushtrans, if_neg fun cached => cached nothing, if_neg (Nat.not_lt.mpr room), appended,
    Option.map_some, Option.bind_some, if_neg quiet]
  obtain ⟨after, wrote, flowsAfter, pendingAfter⟩ :=
    @doWrite_eq { writer with bufferWrite := b } fits (same ▸ filled) idle flows.cached
  refine ⟨after, wrote, flowsAfter, ?_⟩
  rw [pendingAfter, pending, empty, List.drop_nil, nothing]
  dsimp only
  rw [same]
  exact List.append_nil _

/-- A transaction that is pushed during a write goes into the buffer, or into the list. -/
theorem Flows.pushtrans_busy (flows : writer.Flows) (busy : writer.writing ≠ .idle)
    {transaction : Transaction} (filled : transaction.buffer ≠ [])
    (small : transaction.buffer.length ≤ 8192) :
    ∃ after, writer.pushtrans transaction = some after ∧ after.Flows ∧
      after.pending = writer.pending ++ transaction.buffer := by
  have cachedToo : Pushable (writer.cacheWrite ++ [transaction]) := by
    intro other member
    rcases List.mem_append.mp member with old | new
    · exact flows.cached other old
    · rw [List.mem_singleton.mp new]
      exact ⟨filled, small⟩
  have queued : Flows { writer with cacheWrite := writer.cacheWrite ++ [transaction] } ∧
      pending { writer with cacheWrite := writer.cacheWrite ++ [transaction] } =
        writer.pending ++ transaction.buffer := by
    refine ⟨⟨flows.fits, cachedToo, ?_⟩, ?_⟩
    · exact flows.inStep.more busy (List.append_nil _).symm _
    · rw [pending, stream_append, stream_singleton, ← List.append_assoc]
      rfl
  have progress : writer.bufferWrite.readableBytes ≠ 0 := by
    rw [flows.fits.readableBytes]
    exact fun zero => busy (flows.idle_iff.mpr (List.eq_nil_of_length_eq_zero zero))
  rw [Writer.pushtrans]
  by_cases cached : writer.cacheWrite ≠ []
  · rw [if_pos cached, Option.bind_some, if_pos progress]
    exact ⟨_, rfl, queued⟩
  · rw [if_neg cached]
    by_cases full : writer.bufferWrite.writableBytes < transaction.buffer.length
    · rw [if_pos full, Option.bind_some, if_pos progress]
      exact ⟨_, rfl, queued⟩
    · obtain ⟨b, appended, fits, same, _⟩ := flows.fits.append (Nat.le_of_not_lt full)
      rw [if_neg full, appended, Option.map_some, Option.bind_some, if_pos progress]
      refine ⟨_, rfl, ⟨fits, flows.cached, flows.inStep.more busy same _⟩, ?_⟩
      rw [not_not] at cached
      change b.peek.drop writer.taken ++ stream writer.cacheWrite =
        writer.bufferWrite.peek.drop writer.taken ++ stream writer.cacheWrite ++
          transaction.buffer
      rw [cached, same, List.drop_append_of_le_length (taken_le flows.inStep)]
      simp [stream]

/-- **Pushing** puts the bytes of a transaction behind those that are pending. -/
theorem Flows.pushtrans (flows : writer.Flows) {transaction : Transaction}
    (filled : transaction.buffer ≠ []) (small : transaction.buffer.length ≤ 8192) :
    ∃ after, writer.pushtrans transaction = some after ∧ after.Flows ∧
      after.pending = writer.pending ++ transaction.buffer := by
  by_cases idle : writer.writing = .idle
  · exact flows.pushtrans_idle idle filled small
  · exact flows.pushtrans_busy idle filled small

/-- All the transactions of a `do_send` are pushed. -/
theorem Flows.pushAll (flows : writer.Flows) {transactions : List Transaction}
    (fit : Pushable transactions) :
    ∃ after, transactions.foldlM Writer.pushtrans writer = some after ∧ after.Flows ∧
      after.pending = writer.pending ++ stream transactions := by
  induction transactions generalizing writer with
  | nil => exact ⟨writer, rfl, flows, (List.append_nil _).symm⟩
  | cons transaction transactions ih =>
      obtain ⟨filled, small⟩ := fit transaction List.mem_cons_self
      obtain ⟨next, pushed, flowsNext, pendingNext⟩ := flows.pushtrans filled small
      obtain ⟨after, all, flowsAfter, pendingAfter⟩ :=
        ih flowsNext fun other member => fit other (List.mem_cons_of_mem _ member)
      refine ⟨after, ?_, flowsAfter, ?_⟩
      · rw [List.foldlM_cons, pushed]
        exact all
      · rw [pendingAfter, pendingNext, List.append_assoc]
        rfl

/-- The socket takes bytes from the front of what is pending. -/
theorem Flows.transfer (flows : writer.Flows) (count : Nat) :
    (writer.transfer count).2.Flows ∧
      (writer.transfer count).1 ++ (writer.transfer count).2.pending = writer.pending := by
  rw [Writer.transfer]
  cases state : writer.writing with
  | started most =>
      have inStep := flows.inStep
      rw [state] at inStep
      dsimp only
      by_cases inside : count ≤ most
      · rw [if_pos inside]
        refine ⟨⟨flows.fits, flows.cached, inStep.1, Nat.le_trans inside inStep.2⟩, ?_⟩
        simp only [pending, taken, state, List.drop_zero]
        rw [← List.append_assoc, List.take_append_drop]
      · rw [if_neg inside]
        exact ⟨flows, rfl⟩
  | _ => exact ⟨flows, rfl⟩

/-- Transactions that go to the buffer stay in order; an empty buffer gets the first one. -/
theorem moveCached_eq {b : Buffer} (fits : b.Fits) {cache : List Transaction}
    (fit : Pushable cache) (start : b.peek = [] → b.writerIndex = 8) :
    ∃ after later, moveCached b cache = some (after, later) ∧ after.Fits ∧
      after.peek ++ stream later = b.peek ++ stream cache ∧ (∀ other ∈ later, other ∈ cache) ∧
      (after.peek = [] → after.writerIndex = 8 ∧ later = []) := by
  induction cache generalizing b with
  | nil => exact ⟨b, [], rfl, fits, rfl, nofun, fun empty => ⟨start empty, rfl⟩⟩
  | cons transaction cache ih =>
      obtain ⟨filledHere, smallHere⟩ := fit transaction List.mem_cons_self
      have goesOn {next appended : Buffer} (fitsNext : appended.Fits)
          (samePeek : next.peek = b.peek) (same : appended.peek = next.peek ++ transaction.buffer) :
          ∃ after later, moveCached appended cache = some (after, later) ∧ after.Fits ∧
            after.peek ++ stream later = b.peek ++ stream (transaction :: cache) ∧
            (∀ other ∈ later, other ∈ transaction :: cache) ∧
            (after.peek = [] → after.writerIndex = 8 ∧ later = []) := by
        obtain ⟨after, later, moved, fitsAfter, pending, members, empty⟩ :=
          ih fitsNext (fun other member => fit other (List.mem_cons_of_mem _ member)) fun bare =>
              absurd (List.append_eq_nil_iff.mp (same.symm.trans bare)).2 filledHere
        refine ⟨after, later, moved, fitsAfter, ?_,
          fun other member => List.mem_cons_of_mem _ (members other member), empty⟩
        rw [pending, same, samePeek, List.append_assoc]
        rfl
      have bounds := fits.bounds
      have length := fits.length_peek
      have writable := fits.writableBytes
      rw [moveCached]
      by_cases full : transaction.buffer.length > b.writableBytes
      · rw [if_pos full]
        by_cases capacity : b.hasCapacity transaction.buffer.length = true
        · have room := (fits.hasCapacity_iff (by omega)).mp capacity
          obtain ⟨next, removed, fitsNext, peekNext, indexNext⟩ := fits.remove (by omega)
          have writableNext := fitsNext.writableBytes
          obtain ⟨appended, wrote, fitsAppended, same, _⟩ :=
            fitsNext.append (show transaction.buffer.length ≤ next.writableBytes by omega)
          rw [if_pos capacity, removed, Option.bind_some, wrote, Option.bind_some]
          exact goesOn fitsAppended peekNext same
        · rw [if_neg capacity]
          refine ⟨b, _, rfl, fits, rfl, fun _ => id, fun empty => ?_⟩
          rw [fits.hasCapacity_iff (by omega), empty] at capacity
          exact absurd smallHere capacity
      · rw [if_neg full]
        obtain ⟨appended, wrote, fitsAppended, same, _⟩ := fits.append (Nat.le_of_not_gt full)
        rw [wrote, Option.bind_some]
        exact goesOn fitsAppended rfl same

/-- The handler of a write keeps what is pending. -/
theorem Flows.handleWrite (flows : writer.Flows) (endpoint : Endpoint) {length : Nat}
    (completed : writer.writing = .completed length) :
    ∃ after, writer.handleWrite endpoint length = some after ∧ after.Flows ∧
      after.pending = writer.pending := by
  have inStep := flows.inStep
  rw [completed] at inStep
  obtain ⟨b, retrieved, fits, rest, _, start⟩ := flows.fits.retrieve inStep.2
  obtain ⟨after, later, moved, fitsAfter, same, members, empty⟩ :=
    moveCached_eq fits flows.cached start
  have pendingBefore : writer.pending = after.peek ++ stream later := by
    rw [pending, taken, completed, same, rest]
  have cached : Pushable later := fun transaction member =>
    flows.cached transaction (members transaction member)
  rw [Writer.handleWrite, retrieved, Option.bind_some, moved, Option.bind_some]
  dsimp only
  rw [fitsAfter.readableBytes]
  by_cases more : after.peek.length ≠ 0
  · rw [if_pos more]
    obtain ⟨next, wrote, flowsNext, pendingNext⟩ := @doWrite_eq ⟨after, later, .idle⟩ fitsAfter
      (fun bare => more (by rw [bare]; rfl)) rfl cached
    exact ⟨next, wrote, flowsNext, pendingNext.trans pendingBefore.symm⟩
  · rw [not_not] at more
    have bare := List.eq_nil_of_length_eq_zero more
    obtain ⟨index, all⟩ := empty bare
    rw [if_neg (not_not.mpr more)]
    cases endpoint with
    | session =>
        exact ⟨_, rfl, ⟨fitsAfter, cached, bare, index, all⟩, pendingBefore.symm⟩
    | clientapi =>
        refine ⟨_, rfl, ⟨fitsAfter.retrieveAll, cached, Buffer.peek_retrieveAll, rfl, all⟩, ?_⟩
        rw [pendingBefore, pending, bare]
        dsimp only
        rw [Buffer.peek_retrieveAll, List.drop_nil]

end Writer

end Cube.Liblight
