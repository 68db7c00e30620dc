import Cube.Liblight.Transaction

/-! # Reading from a connection

`handle_read` of `Session` and of `clientapi`. A completed read puts bytes behind the readable
ones, and a loop takes the transactions that are complete.
-/

namespace Cube.Liblight

/-- The heartbeat that an end answers with the same head. -/
def Endpoint.answered : Endpoint → Int
  | .session => kHeartBeatClient
  | .clientapi => kHeartBeatServer

/-- What an end reads with; the heartbeats that it answered, and the body lengths of the heads
that it looked at, are recorded. -/
structure Reader where
  isConnected : Bool
  receiveHandle : Bool
  bufferRead : Buffer
  received : Received
  answers : List TransactionHead
  lengths : List Int

namespace Reader

/-- An end that has just connected. -/
def make (receiveHandle : Bool) : Reader := ⟨true, receiveHandle, .make, ⟨[], []⟩, [], []⟩

variable (endpoint : Endpoint) (reader : Reader)

/-- `stop` of a session, `close` of a client. -/
def stop : Reader := { reader with isConnected := false }

/-- What is done with a transaction whose body is in front of a buffer. Only a body that is there
can be received. -/
def receive (head : TransactionHead) (additional : TransactionAdditional) (body : Buffer) :
    Option Reader :=
  if head.transactionType ≠ kHeartBeatServer ∧ head.transactionType ≠ kHeartBeatClient then
    if 0 ≤ head.bodyLength ∧ head.bodyLength ≤ body.readableBytes then
      (reader.received.doReceive endpoint
        ⟨head, additional, body.peek.take head.bodyLength.toNat⟩).map fun received =>
          { reader with received := received }
    else none
  else if head.transactionType = endpoint.answered then
    (Transaction.make head .make []).map fun _ =>
      { reader with answers := reader.answers ++ [head] }
  else some reader

/-- A head that was looked at. -/
def looked (head : TransactionHead) : Reader :=
  { reader with lengths := reader.lengths ++ [head.bodyLength] }

@[simp] theorem received_looked (head : TransactionHead) :
    (reader.looked head).received = reader.received := rfl

/-- The loop of `handle_read`. Body lengths and sizes are added as `size_t`. -/
def readLoop : (fuel : Nat) → Reader → Option Reader
  | 0, reader => some reader
  | fuel + 1, reader =>
      let b := reader.bufferRead
      if b.readableBytes < Transaction.additionallength then some reader
      else
        let head := TransactionHead.ofBytes b.peek
        let reader := reader.looked head
        if b.readableBytes < sizeT (head.bodyLength + Transaction.additionallength) then
          if endpoint = .session ∧ sizeT head.bodyLength > capacity then some reader.stop
          else
            (b.ensureWritableBytes (sizeT (head.bodyLength + Transaction.additionallength -
              b.readableBytes))).map fun b => { reader with bufferRead := b }
        else do
          -- the head stays where it is while the reader index moves on
          let b ← b.retrieve headLength
          let additional := TransactionAdditional.ofBytes b.peek
          let b ← b.retrieve headAdditionalLength
          let reader ← reader.receive endpoint head additional b
          let b ← b.retrieve (sizeT head.bodyLength)
          readLoop fuel { reader with bufferRead := b }

/-- The end of `handle_read`: a buffer into which the next read can put something. -/
def prepareRead (b : Buffer) : Option Buffer :=
  let b := if b.readableBytes = 0 then b.retrieveAll else b
  if b.readableBytes < Transaction.additionallength then
    b.ensureWritableBytes (sizeT (Transaction.additionallength - b.readableBytes))
  else some b

/-- `handle_read` without an error: the bytes were put at `beginWrite`. -/
def handleRead (bytes : List UInt8) : Option Reader :=
  if endpoint = .clientapi ∧ reader.receiveHandle = false then some reader.stop
  else do
    let b ← (reader.bufferRead.write bytes).hasWritten bytes.length
    let reader ← readLoop endpoint b.readableBytes { reader with bufferRead := b }
    if reader.isConnected = false then some reader
    else (prepareRead reader.bufferRead).map fun b => { reader with bufferRead := b }

/-! ## What the loop does -/

/-- The transaction in front of some memory. -/
def front (memory : List UInt8) : Transaction :=
  let head := TransactionHead.ofBytes memory
  ⟨head, .ofBytes (memory.drop headLength),
    (memory.drop Transaction.additionallength).take head.bodyLength.toNat⟩

/-- What is done with a transaction that is complete. -/
def take (transaction : Transaction) : Option Reader :=
  (reader.received.take endpoint transaction).map fun received =>
    { reader with
      received := received
      answers := reader.answers ++
        if transaction.head.transactionType = endpoint.answered then [transaction.head] else [] }

/-- The first head is there, and its body length is one that a piece can have. -/
def Announces (memory : List UInt8) : Prop :=
  Transaction.additionallength ≤ memory.length ∧ 0 ≤ (front memory).head.bodyLength ∧
    (front memory).head.bodyLength ≤ capacity

/-- The runs of the loop, on the memory that is readable. -/
inductive Loops (endpoint : Endpoint) : Reader → Option Reader → Prop
  | starved {reader : Reader}
      (short : reader.bufferRead.peek.length < Transaction.additionallength) :
      Loops endpoint reader (some reader)
  | incomplete {reader : Reader} {b : Buffer} (announces : Announces reader.bufferRead.peek)
      (short : (reader.bufferRead.peek.length : Int) <
        (front reader.bufferRead.peek).head.bodyLength + Transaction.additionallength)
      (fits : b.Fits) (same : b.peek = reader.bufferRead.peek) (room : 0 < b.writableBytes) :
      Loops endpoint reader
        (some { reader.looked (front reader.bufferRead.peek).head with bufferRead := b })
  | taken {reader next : Reader} {b : Buffer} {result : Option Reader}
      (announces : Announces reader.bufferRead.peek)
      (complete : (front reader.bufferRead.peek).head.bodyLength + Transaction.additionallength ≤
        reader.bufferRead.peek.length)
      (took : (reader.looked (front reader.bufferRead.peek).head).take endpoint
        (front reader.bufferRead.peek) = some next)
      (fits : b.Fits) (rest : b.peek = reader.bufferRead.peek.drop
        (Transaction.additionallength + (front reader.bufferRead.peek).body.length))
      (later : Loops endpoint { next with bufferRead := b } result) :
      Loops endpoint reader result
  | thrown {reader : Reader} (announces : Announces reader.bufferRead.peek)
      (complete : (front reader.bufferRead.peek).head.bodyLength + Transaction.additionallength ≤
        reader.bufferRead.peek.length)
      (threw : (reader.looked (front reader.bufferRead.peek).head).take endpoint
        (front reader.bufferRead.peek) = none) :
      Loops endpoint reader none
  | refused {reader : Reader} (session : endpoint = .session)
      (whole : Transaction.additionallength ≤ reader.bufferRead.peek.length)
      (unusable : (front reader.bufferRead.peek).head.bodyLength < -20 ∨
        (capacity : Int) < (front reader.bufferRead.peek).head.bodyLength) :
      Loops endpoint reader (some (reader.looked (front reader.bufferRead.peek).head).stop)
  | unchecked {reader : Reader} {result : Option Reader} (client : endpoint = .clientapi)
      (whole : Transaction.additionallength ≤ reader.bufferRead.peek.length)
      (unusable : (front reader.bufferRead.peek).head.bodyLength < -20 ∨
        (capacity : Int) < (front reader.bufferRead.peek).head.bodyLength)
      (kept : ∀ after, result = some after → after.isConnected = reader.isConnected ∧
        (front reader.bufferRead.peek).head.bodyLength ∈ after.lengths) :
      Loops endpoint reader result
  | wrapped {reader : Reader}
      (whole : Transaction.additionallength ≤ reader.bufferRead.peek.length)
      (low : -20 ≤ (front reader.bufferRead.peek).head.bodyLength)
      (negative : (front reader.bufferRead.peek).head.bodyLength < 0) :
      Loops endpoint reader none

variable {endpoint} {reader}

/-- Where a head is there, its body length is an `int`. -/
theorem bodyLength_bounds {memory : List UInt8}
    (whole : Transaction.additionallength ≤ memory.length) :
    -2 ^ 31 ≤ (front memory).head.bodyLength ∧ (front memory).head.bodyLength < 2 ^ 31 := by
  apply load_bounds
  rw [List.length_take]
  exact Nat.min_eq_left (Nat.le_trans (by decide) whole)

theorem length_front_body {memory : List UInt8} (low : 0 ≤ (front memory).head.bodyLength)
    (complete : (front memory).head.bodyLength + Transaction.additionallength ≤ memory.length) :
    ((front memory).body.length : Int) = (front memory).head.bodyLength := by
  have length : (front memory).body.length =
      min (front memory).head.bodyLength.toNat (memory.length - Transaction.additionallength) := by
    rw [front, List.length_take, List.length_drop]
  omega

/-- A transaction that is complete is received. -/
theorem receive_eq_take {memory : List UInt8} (announces : Announces memory)
    (complete : (front memory).head.bodyLength + Transaction.additionallength ≤ memory.length)
    {b : Buffer} (fits : b.Fits) (behind : b.peek = memory.drop Transaction.additionallength) :
    reader.receive endpoint (front memory).head (front memory).additional b =
      reader.take endpoint (front memory) := by
  obtain ⟨whole, low, high⟩ := announces
  have inside : (front memory).head.bodyLength ≤ b.readableBytes := by
    rw [fits.readableBytes, behind, List.length_drop]
    omega
  have made : Transaction.make (front memory).head .make [] =
      some ⟨(front memory).head, .make, [].take (front memory).head.bodyLength.toNat⟩ := by
    have room : (capacity : Int) ≤ 2 ^ 31 - 21 := by decide
    exact (Transaction.make_eq_some_iff (bodyLength_bounds whole).2).mpr
      ⟨low, Int.le_trans high room, rfl⟩
  rw [receive, take, Received.take]
  by_cases other : (front memory).head.transactionType ≠ kHeartBeatServer ∧
      (front memory).head.transactionType ≠ kHeartBeatClient
  · have unanswered : (front memory).head.transactionType ≠ endpoint.answered := by
      cases endpoint with
      | session => exact other.2
      | clientapi => exact other.1
    rw [if_pos other, if_pos other, if_pos ⟨low, inside⟩, behind, if_neg unanswered]
    simp only [List.append_nil]
    rfl
  · rw [if_neg other, if_neg other, made]
    by_cases answered : (front memory).head.transactionType = endpoint.answered
    · rw [if_pos answered, if_pos answered]
      rfl
    · rw [if_neg answered, if_neg answered, List.append_nil]
      rfl

/-- The heads of a transaction are retrieved. -/
theorem retrieve_heads {b : Buffer} (fits : b.Fits)
    (whole : Transaction.additionallength ≤ b.peek.length) :
    ∃ first second, b.retrieve headLength = some first ∧
      first.peek = b.peek.drop headLength ∧
      first.retrieve headAdditionalLength = some second ∧ second.Fits ∧
      second.peek = b.peek.drop Transaction.additionallength := by
  obtain ⟨first, retrieved, fitsFirst, peekFirst, _⟩ :=
    fits.retrieve (Nat.le_trans (show headLength ≤ Transaction.additionallength by decide) whole)
  have inside : headAdditionalLength ≤ first.peek.length := by
    rw [peekFirst, List.length_drop]
    exact Nat.le_sub_of_add_le whole
  obtain ⟨second, retrievedSecond, fitsSecond, peekSecond, _⟩ := fitsFirst.retrieve inside
  refine ⟨first, second, retrieved, peekFirst, retrievedSecond, fitsSecond, ?_⟩
  rw [peekSecond, peekFirst, List.drop_drop]
  rfl

/-- The sizes of a head that is looked at. -/
theorem sizeT_head {memory : List UInt8} (whole : Transaction.additionallength ≤ memory.length) :
    (sizeT ((front memory).head.bodyLength + Transaction.additionallength) : Int) =
        (if (front memory).head.bodyLength < -20 then
          (front memory).head.bodyLength + 20 + 2 ^ 64
        else (front memory).head.bodyLength + 20) ∧
      (sizeT (front memory).head.bodyLength : Int) =
        (if (front memory).head.bodyLength < 0 then (front memory).head.bodyLength + 2 ^ 64
        else (front memory).head.bodyLength) := by
  obtain ⟨low, high⟩ := bodyLength_bounds whole
  rw [show (Transaction.additionallength : Int) = 20 from rfl]
  constructor
  · by_cases below : (front memory).head.bodyLength < -20
    · rw [if_pos below, sizeT_of_neg (by omega) (by omega)]
    · rw [if_neg below, sizeT_of_lt (by omega) (by omega)]
  · by_cases below : (front memory).head.bodyLength < 0
    · rw [if_pos below, sizeT_of_neg (by omega) below]
    · rw [if_neg below, sizeT_of_lt (by omega) (by omega)]

/-- A head whose transaction is not complete, or seems so. -/
theorem loops_incomplete (fits : reader.bufferRead.Fits)
    (whole : Transaction.additionallength ≤ reader.bufferRead.peek.length)
    (short : reader.bufferRead.peek.length < sizeT ((front reader.bufferRead.peek).head.bodyLength +
      Transaction.additionallength)) :
    Loops endpoint reader
      (if endpoint = .session ∧
          sizeT (front reader.bufferRead.peek).head.bodyLength > capacity then
        some (reader.looked (front reader.bufferRead.peek).head).stop
      else
        (reader.bufferRead.ensureWritableBytes (sizeT ((front
          reader.bufferRead.peek).head.bodyLength + Transaction.additionallength -
            reader.bufferRead.peek.length))).map fun b =>
              { reader.looked (front reader.bufferRead.peek).head with bufferRead := b }) := by
  obtain ⟨sum, length⟩ := sizeT_head whole
  have room : capacity = 8172 := rfl
  have most := fits.length_peek_le
  have bounds := bodyLength_bounds whole
  have twenty : Transaction.additionallength = 20 := rfl
  by_cases usable : 0 ≤ (front reader.bufferRead.peek).head.bodyLength ∧
      (front reader.bufferRead.peek).head.bodyLength ≤ capacity
  · rw [if_neg fun refused => absurd refused.2 (by split_ifs at length <;> omega)]
    rw [if_neg (by omega)] at sum
    have missing := sizeT_of_lt (n := (front reader.bufferRead.peek).head.bodyLength +
      Transaction.additionallength - reader.bufferRead.peek.length) (by omega) (by omega)
    have fit : sizeT ((front reader.bufferRead.peek).head.bodyLength +
        Transaction.additionallength - reader.bufferRead.peek.length) +
          reader.bufferRead.peek.length ≤ 8192 := by omega
    obtain ⟨b, ensured, fitsAfter, same, enough⟩ := fits.ensureWritableBytes fit
    rw [ensured]
    exact .incomplete ⟨whole, usable⟩ (by omega) fitsAfter same (by omega)
  · have unusable : (front reader.bufferRead.peek).head.bodyLength < -20 ∨
        (capacity : Int) < (front reader.bufferRead.peek).head.bodyLength := by
      split_ifs at sum <;> omega
    cases endpoint with
    | session =>
        rw [if_pos ⟨rfl, by split_ifs at length <;> omega⟩]
        exact .refused rfl whole unusable
    | clientapi =>
        rw [if_neg fun refused => nomatch refused.1]
        refine .unchecked rfl whole unusable fun after ended => ?_
        obtain ⟨b, _, rfl⟩ := Option.map_eq_some_iff.mp ended
        exact ⟨rfl, List.mem_append_right _ (List.mem_singleton.mpr rfl)⟩

/-- A negative length that passes for the length of a transaction that is complete. -/
theorem loops_wrapped
    (whole : Transaction.additionallength ≤ reader.bufferRead.peek.length)
    (low : -20 ≤ (front reader.bufferRead.peek).head.bodyLength)
    (negative : (front reader.bufferRead.peek).head.bodyLength < 0)
    {first second : Buffer} (fitsSecond : second.Fits) (proceed : Buffer → Reader → Option Reader) :
    Loops endpoint reader (do
      let next ← (reader.looked (front reader.bufferRead.peek).head).receive endpoint
        (front reader.bufferRead.peek).head (.ofBytes first.peek) second
      let b ← second.retrieve (sizeT (front reader.bufferRead.peek).head.bodyLength)
      proceed b next) := by
  have far : second.retrieve (sizeT (front reader.bufferRead.peek).head.bodyLength) = none := by
    have length := (sizeT_head whole).2
    have most := fitsSecond.length_peek_le
    have bounds := bodyLength_bounds whole
    rw [if_pos negative] at length
    rw [Buffer.retrieve, fitsSecond.readableBytes, if_neg (by omega)]
  have lost : ((reader.looked (front reader.bufferRead.peek).head).receive endpoint
      (front reader.bufferRead.peek).head (.ofBytes first.peek) second).bind
        (fun next => (second.retrieve (sizeT (front reader.bufferRead.peek).head.bodyLength)).bind
          fun b => proceed b next) = none := by
    rw [far]
    exact Option.bind_eq_none_iff.mpr fun _ _ => rfl
  change Loops endpoint reader (Option.bind _ fun next => Option.bind _ fun b => proceed b next)
  rw [lost]
  exact .wrapped whole low negative

/-- **The loop** on a buffer that fits, with fuel for all that is readable. -/
theorem loops_readLoop {fuel : Nat} (fits : reader.bufferRead.Fits)
    (enough : reader.bufferRead.peek.length ≤ fuel) :
    Loops endpoint reader (readLoop endpoint fuel reader) := by
  induction fuel generalizing reader with
  | zero => exact .starved (Nat.lt_of_le_of_lt enough (by decide))
  | succ fuel ih =>
      rw [readLoop]
      dsimp only
      rw [fits.readableBytes]
      by_cases short : reader.bufferRead.peek.length < Transaction.additionallength
      · rw [if_pos short]
        exact .starved short
      have whole := Nat.le_of_not_lt short
      rw [if_neg short, show TransactionHead.ofBytes reader.bufferRead.peek =
        (front reader.bufferRead.peek).head from rfl]
      by_cases incomplete : reader.bufferRead.peek.length <
          sizeT ((front reader.bufferRead.peek).head.bodyLength + Transaction.additionallength)
      · rw [if_pos incomplete]
        exact loops_incomplete fits whole incomplete
      obtain ⟨sum, length⟩ := sizeT_head whole
      obtain ⟨first, second, retrieved, peekFirst, retrievedSecond, fitsSecond, peekSecond⟩ :=
        retrieve_heads fits whole
      have bounds := bodyLength_bounds whole
      have most := fits.length_peek_le
      have twenty : Transaction.additionallength = 20 := rfl
      have low : -20 ≤ (front reader.bufferRead.peek).head.bodyLength := by
        split_ifs at sum <;> omega
      rw [if_neg incomplete, retrieved, Option.bind_eq_bind, Option.bind_some, retrievedSecond,
        Option.bind_eq_bind, Option.bind_some]
      by_cases negative : (front reader.bufferRead.peek).head.bodyLength < 0
      · exact loops_wrapped whole low negative fitsSecond _
      rw [if_neg (by omega)] at sum length
      have complete : (front reader.bufferRead.peek).head.bodyLength +
        Transaction.additionallength ≤ reader.bufferRead.peek.length := by omega
      have announces : Announces reader.bufferRead.peek :=
        ⟨whole, by omega, by rw [show capacity = 8172 from rfl]; omega⟩
      have body := length_front_body announces.2.1 complete
      rw [show TransactionAdditional.ofBytes first.peek =
        (front reader.bufferRead.peek).additional from congrArg _ peekFirst,
        receive_eq_take announces complete fitsSecond peekSecond]
      cases took : (reader.looked (front reader.bufferRead.peek).head).take endpoint
          (front reader.bufferRead.peek) with
      | none => exact .thrown announces complete took
      | some next =>
          have inside : sizeT (front reader.bufferRead.peek).head.bodyLength ≤
              second.peek.length := by
            rw [peekSecond, List.length_drop]
            omega
          obtain ⟨b, retrievedBody, fitsBody, rest, _⟩ := fitsSecond.retrieve inside
          rw [peekSecond, List.drop_drop] at rest
          have gone : sizeT (front reader.bufferRead.peek).head.bodyLength =
            (front reader.bufferRead.peek).body.length := by omega
          rw [Option.bind_some, retrievedBody, Option.bind_some]
          refine .taken announces complete took fitsBody (gone ▸ rest) (ih fitsBody ?_)
          rw [rest, List.length_drop]
          omega

/-! ## One completed read -/

/-- The next read has room. -/
theorem prepareRead_eq {b : Buffer} (fits : b.Fits)
    (room : Transaction.additionallength ≤ b.peek.length → 0 < b.writableBytes) :
    ∃ after, prepareRead b = some after ∧ after.Fits ∧ after.peek = b.peek ∧
      0 < after.writableBytes := by
  have again : ∃ b', (if b.readableBytes = 0 then b.retrieveAll else b) = b' ∧ b'.Fits ∧
      b'.peek = b.peek ∧ (Transaction.additionallength ≤ b'.peek.length → 0 < b'.writableBytes) := by
    rw [fits.readableBytes]
    by_cases empty : b.peek.length = 0
    · rw [if_pos empty]
      refine ⟨_, rfl, fits.retrieveAll, ?_, fun long => ?_⟩
      · rw [Buffer.peek_retrieveAll, List.eq_nil_of_length_eq_zero empty]
      · rw [Buffer.peek_retrieveAll] at long
        exact absurd long (by decide)
    · rw [if_neg empty]
      exact ⟨_, rfl, fits, rfl, room⟩
  obtain ⟨b', same, fits', peek', room'⟩ := again
  have twenty : Transaction.additionallength = 20 := rfl
  rw [prepareRead, same, fits'.readableBytes]
  by_cases short : b'.peek.length < Transaction.additionallength
  · have missing := sizeT_of_lt (n := (Transaction.additionallength : Int) - b'.peek.length)
      (by omega) (by omega)
    have fit : sizeT (Transaction.additionallength - b'.peek.length) + b'.peek.length ≤ 8192 := by
      omega
    obtain ⟨after, ensured, fitsAfter, peekAfter, enough⟩ := fits'.ensureWritableBytes fit
    rw [if_pos short]
    exact ⟨after, ensured, fitsAfter, peekAfter.trans peek', by omega⟩
  · rw [if_neg short]
    exact ⟨b', rfl, fits', peek', room' (Nat.le_of_not_lt short)⟩

/-- The end of `handle_read`. -/
def finish (reader : Reader) : Option Reader :=
  if reader.isConnected = false then some reader
  else (prepareRead reader.bufferRead).map fun b => { reader with bufferRead := b }

/-- A completed read runs the loop on the readable bytes and those that came. -/
theorem handleRead_eq (fits : reader.bufferRead.Fits) {bytes : List UInt8}
    (inside : bytes.length ≤ reader.bufferRead.writableBytes)
    (handled : ¬ (endpoint = .clientapi ∧ reader.receiveHandle = false)) :
    ∃ b result, b.Fits ∧ b.peek = reader.bufferRead.peek ++ bytes ∧
      Loops endpoint { reader with bufferRead := b } result ∧
      reader.handleRead endpoint bytes = result.bind finish := by
  obtain ⟨b, written, fitsAfter, same, _⟩ := fits.write inside
  refine ⟨b, _, fitsAfter, same, loops_readLoop fitsAfter
    (Nat.le_of_eq fitsAfter.readableBytes.symm), ?_⟩
  rw [handleRead, if_neg handled, written]
  rfl

end Reader

end Cube.Liblight
