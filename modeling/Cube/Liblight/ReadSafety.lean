import Cube.Lib.Run
import Cube.Liblight.Pieces
import Cube.Liblight.Reading

/-! # Reading any bytes

What `handle_read` does with a stream of arbitrary bytes. A body length is compared as a `size_t`,
to which the length of the heads has been added: a negative length of at least `-20` passes for
the length of a transaction that is complete. A client does not check lengths at all.
-/

namespace Cube.Liblight

/-- What the socket completes: bytes were read, or an error. -/
inductive Completion where
  | read (bytes : List UInt8)
  | failed

namespace Reader

/-- A completion at an end that is connected; more bytes than asked for cannot come. Nothing is
left of an end that has failed an assertion, left its buffer or thrown. -/
def step (endpoint : Endpoint) : Option Reader → Completion → Option Reader
  | none, _ => none
  | some reader, .failed => some reader.stop
  | some reader, .read bytes =>
      if reader.isConnected = true ∧ bytes.length ≤ reader.bufferRead.writableBytes then
        reader.handleRead endpoint bytes
      else some reader

/-- A body length that no piece has. -/
def BadLength (bodyLength : Int) : Prop := bodyLength < 0 ∨ (capacity : Int) < bodyLength

/-- Nothing has gone wrong, the buffer keeps its invariant, an end that has looked at a negative or
over-long body length has closed the connection, and one that has not asks for some bytes. -/
def Safe : Option Reader → Prop
  | none => False
  | some reader => reader.bufferRead.Ok ∧
      ((∃ bodyLength ∈ reader.lengths, BadLength bodyLength) → reader.isConnected = false) ∧
      (reader.isConnected = true → 0 < reader.bufferRead.writableBytes)

/-- Where a session has joined a transaction, its length is an `int` with which it can be built. -/
def Joinable (endpoint : Endpoint) (held : Nat) (transaction : Transaction) : Prop :=
  endpoint = .session → Ordinary transaction.head.transactionType →
    transaction.additional.hasnext = 0 → transaction.additional.serialnumber ≠ 0 →
      0 ≤ toInt32 (held + transaction.body.length : Nat) ∧
        toInt32 (held + transaction.body.length : Nat) ≤ 2 ^ 31 - 21

/-- How many bytes are held after a transaction. -/
def heldAfter (held : Nat) (transaction : Transaction) : Nat :=
  if transaction.head.transactionType = kHeartBeatServer ∨
      transaction.head.transactionType = kHeartBeatClient then held
  else if transaction.additional.hasnext ≠ 0 then held + transaction.body.length
  else if transaction.additional.serialnumber = 0 then held
  else 0

/-- Bytes that an end can read while it holds so many of a transaction that is not complete:
transactions that it can join, up to where they end, or up to a head that a session refuses. -/
inductive Acceptable (endpoint : Endpoint) : (held : Nat) → (memory : List UInt8) → Prop
  | starved {held : Nat} {memory : List UInt8}
      (short : memory.length < Transaction.additionallength) : Acceptable endpoint held memory
  | incomplete {held : Nat} {memory : List UInt8} (announces : Announces memory)
      (short : (memory.length : Int) <
        (front memory).head.bodyLength + Transaction.additionallength) :
      Acceptable endpoint held memory
  | taken {held : Nat} {memory : List UInt8} (announces : Announces memory)
      (complete : (front memory).head.bodyLength + Transaction.additionallength ≤ memory.length)
      (joinable : Joinable endpoint held (front memory))
      (later : Acceptable endpoint (heldAfter held (front memory)) (memory.drop
        (Transaction.additionallength + (front memory).body.length))) :
      Acceptable endpoint held memory
  | refused {held : Nat} {memory : List UInt8} (session : endpoint = .session)
      (whole : Transaction.additionallength ≤ memory.length)
      (unusable : (front memory).head.bodyLength < -20 ∨
        (capacity : Int) < (front memory).head.bodyLength) :
      Acceptable endpoint held memory

/-- The bytes that come after those that were left are acceptable. -/
def Accepts (endpoint : Endpoint) (reader : Option Reader) (completion : Completion) : Prop :=
  ∀ before bytes, reader = some before → completion = .read bytes →
    before.isConnected = true → bytes.length ≤ before.bufferRead.writableBytes →
    ¬ (endpoint = .clientapi ∧ before.receiveHandle = false) →
    Acceptable endpoint before.received.receiveBuffer.length (before.bufferRead.peek ++ bytes)

/-! ## Which bytes are acceptable -/

variable {endpoint : Endpoint} {held : Nat} {memory : List UInt8}

/-- A transaction that is complete is acceptable when it can be joined and what follows is. -/
theorem acceptable_of_complete (announces : Announces memory)
    (complete : (front memory).head.bodyLength + Transaction.additionallength ≤ memory.length) :
    Acceptable endpoint held memory ↔ Joinable endpoint held (front memory) ∧
      Acceptable endpoint (heldAfter held (front memory)) (memory.drop
        (Transaction.additionallength + (front memory).body.length)) := by
  obtain ⟨whole, low, high⟩ := announces
  constructor
  · intro acceptable
    cases acceptable with
    | starved short => exact absurd whole (Nat.not_le_of_lt short)
    | incomplete _ short => omega
    | taken _ _ joinable later => exact ⟨joinable, later⟩
    | refused _ _ unusable => omega
  · exact fun both => .taken ⟨whole, low, high⟩ complete both.1 both.2

/-- A head with a bad length is acceptable only where a session refuses it. -/
theorem not_acceptable (whole : Transaction.additionallength ≤ memory.length)
    (bad : BadLength (front memory).head.bodyLength)
    (kept : endpoint = .session → -20 ≤ (front memory).head.bodyLength ∧
      (front memory).head.bodyLength < 0) : ¬ Acceptable endpoint held memory := by
  intro acceptable
  rcases bad with negative | large
  all_goals
    cases acceptable with
    | starved short => exact absurd whole (Nat.not_le_of_lt short)
    | incomplete announces _ => have := announces.2; omega
    | taken announces _ _ _ => have := announces.2; omega
    | refused session _ unusable => have := kept session; omega

/-- What is dispatched is built with a length that is an `int`. -/
theorem exists_dispatch_iff (received : Received) {bodyLength : Int} (int : bodyLength < 2 ^ 31)
    (transactionType : Int) (additional : TransactionAdditional) (body : List UInt8) :
    (∃ next, received.dispatch endpoint ⟨bodyLength, transactionType⟩ additional body = some next) ↔
      (endpoint = .session → 0 ≤ bodyLength ∧ bodyLength ≤ 2 ^ 31 - 21) := by
  rw [Received.dispatch.eq_def]
  cases endpoint with
  | session =>
      constructor
      · rintro ⟨next, built⟩ _
        obtain ⟨transaction, made, _⟩ := Option.map_eq_some_iff.mp built
        obtain ⟨low, high, _⟩ := (Transaction.make_eq_some_iff int).mp made
        exact ⟨low, high⟩
      · intro bounds
        obtain ⟨low, high⟩ := bounds rfl
        have made := (@Transaction.make_eq_some_iff ⟨bodyLength, transactionType⟩ additional body _
          int).mpr ⟨low, high, rfl⟩
        dsimp only
        rw [made]
        exact ⟨_, rfl⟩
  | clientapi => exact iff_of_true ⟨_, rfl⟩ (by rintro ⟨⟩)

theorem receiveBuffer_of_dispatch {received next : Received} {head : TransactionHead}
    {additional : TransactionAdditional} {body : List UInt8}
    (dispatched : received.dispatch endpoint head additional body = some next) :
    next.receiveBuffer = received.receiveBuffer := by
  rw [Received.dispatch.eq_def] at dispatched
  cases endpoint with
  | session =>
      obtain ⟨_, _, rfl⟩ := Option.map_eq_some_iff.mp dispatched
      rfl
  | clientapi =>
      cases dispatched
      rfl

variable {transaction : Transaction}

/-- A transaction is taken exactly when it can be joined. -/
theorem exists_take_iff (received : Received) (low : 0 ≤ transaction.head.bodyLength)
    (high : transaction.head.bodyLength ≤ capacity) :
    (∃ next, received.take endpoint transaction = some next) ↔
      Joinable endpoint received.receiveBuffer.length transaction := by
  have room : (capacity : Int) ≤ 2 ^ 31 - 21 := by decide
  by_cases ordinary : Ordinary transaction.head.transactionType
  · rw [Received.take_of_ordinary _ _ ordinary, Received.doReceive]
    dsimp only
    by_cases last : transaction.additional.hasnext = 0
    · by_cases single : transaction.additional.serialnumber = 0
      · have int : transaction.head.bodyLength < 2 ^ 31 := by omega
        rw [if_pos ⟨last, single⟩]
        apply (exists_dispatch_iff received int transaction.head.transactionType
          transaction.additional transaction.body).trans
        exact iff_of_true (fun _ => ⟨low, by omega⟩) fun _ _ _ several => absurd single several
      · have int : toInt32 (received.receiveBuffer ++ transaction.body).length < 2 ^ 31 :=
          @Int.bmod_lt _ (2 ^ 32) (by decide)
        have built := @exists_dispatch_iff endpoint received _ int transaction.head.transactionType
          transaction.additional (received.receiveBuffer ++ transaction.body)
        rw [if_neg fun both => single both.2, if_pos last]
        simp only [Option.map_eq_some_iff]
        rw [List.length_append] at built ⊢
        constructor
        · rintro ⟨_, next, dispatched, _⟩ session _ _ _
          exact built.mp ⟨next, dispatched⟩ session
        · intro joinable
          obtain ⟨next, dispatched⟩ :=
            built.mpr fun session => joinable session ordinary last single
          exact ⟨_, next, dispatched, rfl⟩
    · rw [if_neg fun both => last both.1, if_neg last]
      exact iff_of_true ⟨_, rfl⟩ fun _ _ none => absurd none last
  · rw [Received.take_of_not_ordinary _ _ ordinary]
    exact iff_of_true ⟨_, rfl⟩ fun _ other => absurd other ordinary

theorem length_of_take {received next : Received}
    (took : received.take endpoint transaction = some next) :
    next.receiveBuffer.length = heldAfter received.receiveBuffer.length transaction := by
  rw [heldAfter]
  by_cases ordinary : Ordinary transaction.head.transactionType
  · rw [if_neg (not_or.mpr ordinary)]
    rw [Received.take_of_ordinary _ _ ordinary, Received.doReceive] at took
    dsimp only at took
    by_cases last : transaction.additional.hasnext = 0
    · rw [if_neg (not_not.mpr last)]
      by_cases single : transaction.additional.serialnumber = 0
      · rw [if_pos ⟨last, single⟩] at took
        rw [if_pos single, receiveBuffer_of_dispatch took]
      · rw [if_neg fun both => single both.2, if_pos last] at took
        obtain ⟨_, _, rfl⟩ := Option.map_eq_some_iff.mp took
        rw [if_neg single]
        rfl
    · rw [if_neg fun both => last both.1, if_neg last] at took
      cases took
      rw [if_pos last, List.length_append]
  · rw [Received.take_of_not_ordinary _ _ ordinary] at took
    cases took
    rw [Ordinary, ne_eq, ne_eq, ← not_or, not_not] at ordinary
    rw [if_pos ordinary]

/-! ## What the loop makes of them -/

variable {reader next : Reader}

/-- The heads that were looked at had lengths that a piece can have. -/
def Clean (reader : Reader) : Prop := ∀ bodyLength ∈ reader.lengths, ¬ BadLength bodyLength

/-- The loop has ended well: with a buffer that fits, and, unless the connection is closed, before
a next read that has room. -/
structure Ended (reader : Reader) : Prop where
  fits : reader.bufferRead.Fits
  clean : reader.isConnected = true → reader.Clean
  room : reader.isConnected = true →
    Transaction.additionallength ≤ reader.bufferRead.peek.length → 0 < reader.bufferRead.writableBytes

/-- The connection is up although a bad length was looked at. -/
def Overlooked (reader : Reader) : Prop :=
  reader.isConnected = true ∧ ∃ bodyLength ∈ reader.lengths, BadLength bodyLength

theorem Clean.looked (clean : reader.Clean) {head : TransactionHead} (low : 0 ≤ head.bodyLength)
    (high : head.bodyLength ≤ capacity) : (reader.looked head).Clean := by
  intro bodyLength member bad
  rcases List.mem_append.mp member with old | new
  · exact clean bodyLength old bad
  · rw [List.mem_singleton.mp new] at bad
    rcases bad with negative | large <;> omega

/-- A transaction that is taken changes neither the connection nor the record of lengths. -/
theorem take_eq_some {transaction : Transaction}
    (took : reader.take endpoint transaction = some next) :
    reader.received.take endpoint transaction = some next.received ∧
      next.isConnected = reader.isConnected ∧ next.lengths = reader.lengths ∧
      next.receiveHandle = reader.receiveHandle := by
  obtain ⟨received, taken, rfl⟩ := Option.map_eq_some_iff.mp took
  exact ⟨taken, rfl, rfl, rfl⟩

/-- **The loop** ends well exactly on bytes that are acceptable; on others it is lost, or has
overlooked a bad length. -/
theorem Loops.ended {result : Option Reader} (loops : Loops endpoint reader result)
    (fits : reader.bufferRead.Fits) (connected : reader.isConnected = true)
    (clean : reader.Clean) :
    (Acceptable endpoint reader.received.receiveBuffer.length reader.bufferRead.peek ∧
        ∃ after, result = some after ∧ after.Ended) ∨
      (¬ Acceptable endpoint reader.received.receiveBuffer.length reader.bufferRead.peek ∧
        ∀ after, result = some after → after.Overlooked) := by
  induction loops with
  | starved short =>
      exact .inl ⟨.starved short, _, rfl, fits, fun _ => clean,
        fun _ whole => absurd short (Nat.not_lt_of_le whole)⟩
  | incomplete announces short fitsAfter same room =>
      exact .inl ⟨.incomplete announces short, _, rfl, fitsAfter,
        fun _ => clean.looked announces.2.1 announces.2.2, fun _ _ => room⟩
  | taken announces complete took fitsAfter rest _ ih =>
      obtain ⟨taken, connection, lengths, _⟩ := take_eq_some took
      have cleanNext : Clean _ := clean.looked announces.2.1 announces.2.2
      have joinable := (exists_take_iff _ announces.2.1 announces.2.2).mp ⟨_, taken⟩
      have held := length_of_take taken
      rw [received_looked] at joinable held
      rw [acceptable_of_complete announces complete, and_iff_right joinable, ← held, ← rest]
      exact ih fitsAfter (connection.trans connected) (by rw [Clean, lengths]; exact cleanNext)
  | thrown announces complete threw =>
      refine .inr ⟨?_, by rintro _ ⟨⟩⟩
      rw [acceptable_of_complete announces complete]
      intro both
      rw [take, Option.map_eq_none_iff] at threw
      obtain ⟨next, taken⟩ := (exists_take_iff _ announces.2.1 announces.2.2).mpr both.1
      cases threw.symm.trans taken
  | refused session whole unusable =>
      exact .inl ⟨.refused session whole unusable, _, rfl, fits, by rintro ⟨⟩, by rintro ⟨⟩⟩
  | unchecked client whole unusable kept =>
      have bad : BadLength _ := unusable.imp (fun low => Int.lt_trans low (by decide)) id
      refine .inr ⟨not_acceptable whole bad fun session => ?_, fun after ended => ?_⟩
      · cases session.symm.trans client
      · obtain ⟨connection, member⟩ := kept after ended
        exact ⟨connection.trans connected, _, member, bad⟩
  | wrapped whole low negative =>
      exact .inr ⟨not_acceptable whole (.inl negative) fun _ => ⟨low, negative⟩, by rintro _ ⟨⟩⟩

/-! ## Runs -/

/-- An end between two completions. -/
structure Waiting (reader : Reader) : Prop where
  fits : reader.bufferRead.Fits
  clean : reader.isConnected = true → reader.Clean
  room : reader.isConnected = true → 0 < reader.bufferRead.writableBytes

/-- The state of an end for which all has gone well so far. -/
def Sound (state : Option Reader) : Prop := ∃ reader, state = some reader ∧ reader.Waiting

theorem Waiting.safe (waiting : reader.Waiting) : Safe (some reader) := by
  refine ⟨waiting.fits.toOk, ?_, waiting.room⟩
  rintro ⟨bodyLength, member, bad⟩
  cases connected : reader.isConnected with
  | false => rfl
  | true => exact absurd bad (waiting.clean connected bodyLength member)

theorem Waiting.stop (waiting : reader.Waiting) : reader.stop.Waiting :=
  ⟨waiting.fits, nofun, nofun⟩

/-- The next read is issued. -/
theorem Ended.finish (ended : reader.Ended) : Sound reader.finish := by
  rw [Reader.finish]
  cases connected : reader.isConnected with
  | false =>
      refine ⟨reader, rfl, ended.fits, fun other => ?_, fun other => ?_⟩
      · cases connected.symm.trans other
      · cases connected.symm.trans other
  | true =>
      obtain ⟨b, prepared, fits, _, room⟩ := prepareRead_eq ended.fits (ended.room connected)
      rw [if_neg Bool.true_eq_false_eq_False, prepared]
      exact ⟨_, rfl, fits, fun _ => ended.clean connected, fun _ => room⟩

/-- A bad length stays overlooked. -/
theorem Overlooked.not_safe (overlooked : reader.Overlooked) : ¬ Safe reader.finish := by
  obtain ⟨connected, bodyLength, member, bad⟩ := overlooked
  rw [finish, if_neg (by rw [connected]; exact Bool.true_eq_false_eq_False)]
  cases prepareRead reader.bufferRead with
  | none => exact id
  | some b =>
      rintro ⟨_, closed, _⟩
      cases connected.symm.trans (closed ⟨bodyLength, member, bad⟩)

theorem Waiting.step (waiting : reader.Waiting) {completion : Completion}
    (accepts : Accepts endpoint (some reader) completion) :
    Sound (step endpoint (some reader) completion) := by
  cases completion with
  | failed => exact ⟨_, rfl, waiting.stop⟩
  | read bytes =>
      rw [Reader.step]
      by_cases came : reader.isConnected = true ∧
          bytes.length ≤ reader.bufferRead.writableBytes
      · rw [if_pos came]
        by_cases unhandled : endpoint = .clientapi ∧ reader.receiveHandle = false
        · rw [handleRead, if_pos unhandled]
          exact ⟨_, rfl, waiting.stop⟩
        · obtain ⟨b, result, fits, same, loops, handled⟩ :=
            handleRead_eq waiting.fits came.2 unhandled
          have acceptable := accepts reader bytes rfl rfl came.1 came.2 unhandled
          rw [← same] at acceptable
          rcases loops.ended fits came.1 (waiting.clean came.1) with
            ⟨_, after, ended, well⟩ | ⟨unacceptable, _⟩
          · rw [handled, ended, Option.bind_some]
            exact well.finish
          · exact absurd acceptable unacceptable
      · rw [if_neg came]
        exact ⟨_, rfl, waiting⟩

/-- Bytes that are not acceptable end in a failure, or with a bad length overlooked. -/
theorem Waiting.not_safe (waiting : reader.Waiting) {completion : Completion}
    (unacceptable : ¬ Accepts endpoint (some reader) completion) :
    ¬ Safe (Reader.step endpoint (some reader) completion) := by
  intro safe
  apply unacceptable
  rintro before bytes same rfl connected inside handled
  cases same
  obtain ⟨b, result, fits, peek, loops, read⟩ := handleRead_eq waiting.fits inside handled
  rw [Reader.step, if_pos ⟨connected, inside⟩, read] at safe
  rcases loops.ended fits connected (waiting.clean connected) with
    ⟨acceptable, _⟩ | ⟨_, overlooked⟩
  · rw [← peek]
    exact acceptable
  · cases ended : result with
    | none => rw [ended] at safe; exact safe.elim
    | some after =>
        rw [ended, Option.bind_some] at safe
        exact absurd safe (overlooked after ended).not_safe

theorem waiting_make (receiveHandle : Bool) : (make receiveHandle).Waiting := by
  refine ⟨Buffer.fits_make, fun _ => nofun, fun _ => ?_⟩
  rw [show (make receiveHandle).bufferRead = Buffer.make from rfl, Buffer.fits_make.writableBytes]
  decide

end Reader

/-- **Reading any bytes**, in every run of completed reads at a new connection: nothing goes wrong,
the buffer keeps its invariant, bad lengths close the connection and every next read has room,
exactly while all the bytes that come are acceptable. -/
theorem safe_iff (endpoint : Endpoint) (receiveHandle : Bool) (completions : List Completion) :
    Run.Always (Reader.step endpoint) Reader.Safe (fun _ _ => True)
        (some (Reader.make receiveHandle)) completions ↔
      Run.Steps (Reader.step endpoint) (Reader.Accepts endpoint)
        (some (Reader.make receiveHandle)) completions := by
  apply Run.always_iff_steps Reader.Sound
  · rintro _ ⟨reader, rfl, waiting⟩
    exact waiting.safe
  · rintro _ completion ⟨reader, rfl, waiting⟩ accepts
    exact ⟨trivial, waiting.step accepts⟩
  · rintro _ completion ⟨reader, rfl, waiting⟩ unacceptable always
    exact waiting.not_safe unacceptable always.2
  · exact ⟨_, rfl, Reader.waiting_make receiveHandle⟩

/-- The heads of a transaction of type 5 whose body length is -1. -/
def minusOne : List UInt8 := [0xFF, 0xFF, 0xFF, 0xFF, 5, 0, 0, 0, 0, 0, 0, 0, 0, 0, 0, 0, 0, 0, 0, 0]

/-- Neither end rejects them. -/
theorem minusOne_not_safe :
    ¬ Reader.Safe (Reader.step .session (some (Reader.make true)) (.read minusOne)) ∧
      ¬ Reader.Safe (Reader.step .clientapi (some (Reader.make true)) (.read minusOne)) := by
  have unacceptable (endpoint : Endpoint) :
      ¬ Reader.Accepts endpoint (some (Reader.make true)) (.read minusOne) := by
    intro accepts
    have inside : minusOne.length ≤ Buffer.make.writableBytes := by
      rw [Buffer.fits_make.writableBytes]
      decide
    have acceptable := accepts _ minusOne rfl rfl rfl inside fun both => nomatch both.2
    rw [show (Reader.make true).bufferRead.peek = [] from Buffer.peek_make, List.nil_append]
      at acceptable
    have length : (Reader.front minusOne).head.bodyLength = -1 := by decide
    refine Reader.not_acceptable (by decide) ?_ (fun _ => ?_) acceptable
    · rw [length]
      exact .inl (by decide)
    · rw [length]
      decide
  have waiting := Reader.waiting_make true
  exact ⟨waiting.not_safe (unacceptable .session), waiting.not_safe (unacceptable .clientapi)⟩

end Cube.Liblight
