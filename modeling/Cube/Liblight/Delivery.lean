import Cube.Lib.Run
import Cube.Liblight.Pieces
import Cube.Liblight.Reading
import Cube.Liblight.Writing

/-! # Delivery of transactions

One direction of a connection that stays up: calls of `send`, the `deliver` that each posts,
heartbeats, the socket, and the reads at the other end. The transactions that are dispatched are at
any time the first of those that were sent, and all of them when nothing is on its way.
-/

namespace Cube.Liblight

structure Link where
  writer : Writer
  posted : List Transaction
  wire : List UInt8
  reader : Reader
  sent : List (Int × List UInt8)

/-- What happens next. The socket takes and gives as many bytes as it likes. -/
inductive LinkEvent where
  | send (transactionType : Int) (body : List UInt8)
  | deliver
  | heartbeat (transactionType : Int)
  | transfer (count : Nat)
  | handleWrite
  | handleRead (length : Nat)

namespace Link

/-- A connection that has just been made; a client has a receive handle. -/
def make : Link := ⟨.make, [], [], .make true, []⟩

variable (link : Link)

/-- `send` copies the transaction and posts its `deliver`. Nothing is posted where the copy is not
built. -/
def send (transactionType : Int) (body : List UInt8) : Link :=
  { link with
    posted := link.posted ++ (Transaction.make ⟨body.length, transactionType⟩ .make body).toList
    sent := link.sent ++ [(transactionType, body)] }

/-- All the transactions of a `do_send` are pushed. -/
def push (transactions : List Transaction) : Option Link :=
  (transactions.foldlM Writer.pushtrans link.writer).map fun writer =>
    { link with writer := writer }

/-- One event at a link between two ends; what cannot happen leaves it as it is. -/
def step (sender receiver : Endpoint) : Option Link → LinkEvent → Option Link
  | none, _ => none
  | some link, .send transactionType body => some (link.send transactionType body)
  | some link, .deliver =>
      match link.posted with
      | [] => some link
      | transaction :: posted =>
          push { link with posted := posted } (doSend transaction.head transaction.body)
  | some link, .heartbeat transactionType =>
      if transactionType = kHeartBeatClient ∨ transactionType = kHeartBeatServer then
        link.push (doSend ⟨0, transactionType⟩ [])
      else some link
  | some link, .transfer count =>
      some { link with
        writer := (link.writer.transfer count).2
        wire := link.wire ++ (link.writer.transfer count).1 }
  | some link, .handleWrite =>
      match link.writer.writing with
      | .completed length => (link.writer.handleWrite sender length).map fun writer =>
          { link with writer := writer }
      | _ => some link
  | some link, .handleRead length =>
      if length ≤ link.wire.length ∧ length ≤ link.reader.bufferRead.writableBytes ∧
          link.reader.isConnected = true then
        (link.reader.handleRead receiver (link.wire.take length)).map fun reader =>
          { link with reader := reader, wire := link.wire.drop length }
      else some link

/-- What is dispatched are the first transactions that were sent, and all of them when nothing is
on its way; the other end goes on reading. -/
structure Delivered (link : Link) : Prop where
  first : link.reader.received.dispatched <+: link.sent
  all : link.posted = [] → link.writer.writing = .idle → link.wire = [] →
    link.reader.received.dispatched = link.sent
  reading : link.reader.isConnected = true ∧ 0 < link.reader.bufferRead.writableBytes

end Link

/-- A body that can be copied and comes out as it went in. -/
def Deliverable (body : List UInt8) : Prop :=
  body.length ≤ 2 ^ 31 - 21 ∧
    (pieceCount body.length = 1 ∨ pieceCount body.length % 65536 ≠ 1)

/-- A body that is copied, split and joined at a new end. -/
def roundTrip (receiver : Endpoint) (transactionType : Int) (body : List UInt8) :
    Option Received :=
  (Transaction.make ⟨body.length, transactionType⟩ .make body).bind fun transaction =>
    Received.takeAll ⟨[], []⟩ receiver (doSend transaction.head transaction.body)

/-- An ordinary transaction is sent with a body that is deliverable. -/
def LinkEvent.Good : LinkEvent → Prop
  | .send transactionType body => (-2 ^ 31 ≤ transactionType ∧ transactionType < 2 ^ 31) ∧
      Ordinary transactionType ∧ Deliverable body
  | _ => True

/-! ## Reading what was written -/

namespace Reader

/-- A transaction is complete in some memory. -/
def Complete (memory : List UInt8) : Prop :=
  Transaction.additionallength ≤ memory.length ∧
    (front memory).head.bodyLength + Transaction.additionallength ≤ memory.length

/-- Bytes that come later do not change a head. -/
theorem head_front_append {memory : List UInt8}
    (whole : Transaction.additionallength ≤ memory.length) (rest : List UInt8) :
    (front (memory ++ rest)).head = (front memory).head := by
  have long : 8 ≤ memory.length := Nat.le_trans (by decide) whole
  dsimp only [front]
  rw [TransactionHead.ofBytes, TransactionHead.ofBytes,
    List.take_append_of_le_length (by omega), List.drop_append_of_le_length (by omega),
    List.take_append_of_le_length (by rw [List.length_drop]; omega)]

/-- The transaction in front of its own bytes. -/
theorem front_buffer {transaction : Transaction} (ok : transaction.Ok) (rest : List UInt8) :
    front (transaction.buffer ++ rest) = transaction := by
  rw [front, ok.head_ofBytes, ok.additional_ofBytes, ok.drop_buffer, ok.bodyLength,
    Int.toNat_natCast, List.take_left]

theorem stream_cons (transaction : Transaction) (later : List Transaction) :
    Writer.stream (transaction :: later) = transaction.buffer ++ Writer.stream later := rfl

/-- What is in front of memory into which a stream of transactions comes. -/
theorem front_stream {memory wire : List UInt8} {later : List Transaction}
    (ok : ∀ transaction ∈ later, transaction.Ok) (came : memory ++ wire = Writer.stream later)
    (whole : Transaction.additionallength ≤ memory.length) :
    ∃ transaction others, later = transaction :: others ∧
      (front memory).head = transaction.head ∧
      (Complete memory → front memory = transaction ∧
        memory.drop (Transaction.additionallength + transaction.body.length) ++ wire =
          Writer.stream others) := by
  cases later with
  | nil =>
      have bare := (List.append_eq_nil_iff.mp came).1
      rw [bare] at whole
      exact absurd whole (by decide)
  | cons transaction others =>
      have okHere := ok transaction List.mem_cons_self
      rw [stream_cons] at came
      have head : (front memory).head = transaction.head := by
        rw [← head_front_append whole wire, came, front_buffer okHere]
      refine ⟨transaction, others, rfl, head, fun complete => ?_⟩
      have inside : transaction.buffer.length ≤ memory.length := by
        have long := complete.2
        rw [head, okHere.bodyLength] at long
        rw [okHere.length_buffer]
        omega
      have split : memory = transaction.buffer ++ memory.drop transaction.buffer.length := by
        have front := congrArg (List.take transaction.buffer.length) came
        rw [List.take_append_of_le_length inside, List.take_left] at front
        exact (front ▸ List.take_append_drop transaction.buffer.length memory).symm
      refine ⟨split ▸ front_buffer okHere _, ?_⟩
      have back := congrArg (List.drop transaction.buffer.length) came
      rw [List.drop_append_of_le_length inside, List.drop_left, okHere.length_buffer] at back
      exact back

/-- What an end that reads a stream of transactions is after some of them. -/
structure Reads (reader : Reader) (endpoint : Endpoint) (wire : List UInt8)
    (start : Received) (done later : List Transaction) : Prop where
  fits : reader.bufferRead.Fits
  connected : reader.isConnected = true
  handled : reader.receiveHandle = true
  came : reader.bufferRead.peek ++ wire = Writer.stream later
  took : start.takeAll endpoint done = some reader.received

theorem Reads.nothing {reader : Reader} {endpoint : Endpoint} {wire : List UInt8}
    {start : Received} {done later : List Transaction}
    (reads : reader.Reads endpoint wire start done later) :
    reader.Reads endpoint wire start (done ++ []) later := by
  rw [List.append_nil]
  exact reads

/-- The lengths that are found in a stream of transactions. -/
theorem bodyLength_of_stream {memory wire : List UInt8} {later : List Transaction}
    (ok : ∀ transaction ∈ later, transaction.Ok) (came : memory ++ wire = Writer.stream later)
    (whole : Transaction.additionallength ≤ memory.length) :
    0 ≤ (front memory).head.bodyLength ∧ (front memory).head.bodyLength ≤ capacity := by
  obtain ⟨transaction, others, rfl, head, _⟩ := front_stream ok came whole
  have okHere := ok transaction List.mem_cons_self
  have small := okHere.small
  rw [head, okHere.bodyLength, show capacity = 8172 from rfl]
  omega

/-- **The loop** on a stream of transactions takes those that are complete. -/
theorem Loops.reads {endpoint : Endpoint} {reader : Reader} {result : Option Reader}
    (loops : Loops endpoint reader result) {wire : List UInt8} {start : Received}
    {done later : List Transaction} (reads : reader.Reads endpoint wire start done later)
    (ok : ∀ transaction ∈ later, transaction.Ok) {whole : Received}
    (all : reader.received.takeAll endpoint later = some whole) :
    ∃ after taken rest, result = some after ∧ later = taken ++ rest ∧
      after.Reads endpoint wire start (done ++ taken) rest ∧
      ¬ Complete after.bufferRead.peek ∧
      (Transaction.additionallength ≤ after.bufferRead.peek.length →
        0 < after.bufferRead.writableBytes) := by
  induction loops generalizing done later with
  | starved short =>
      exact ⟨_, [], later, rfl, rfl, reads.nothing, fun complete =>
        absurd complete.1 (Nat.not_le_of_lt short), fun long =>
          absurd long (Nat.not_le_of_lt short)⟩
  | incomplete announces short fits same room =>
      refine ⟨_, [], later, rfl, rfl, Reads.nothing ⟨fits, reads.connected, reads.handled, ?_,
        reads.took⟩, fun complete => ?_, fun _ => room⟩
      · exact (congrArg (· ++ wire) same).trans reads.came
      · have long := complete.2
        dsimp only at long
        rw [same] at long
        omega
  | @taken reader next b result announces complete took fits rest _ ih =>
      obtain ⟨transaction, others, rfl, _, stands⟩ := front_stream ok reads.came announces.1
      obtain ⟨same, back⟩ := stands ⟨announces.1, complete⟩
      rw [same] at took rest
      obtain ⟨received, here, rfl⟩ := Option.map_eq_some_iff.mp took
      rw [received_looked] at here
      rw [Received.takeAll_cons, here, Option.bind_some] at all
      have took : start.takeAll endpoint (done ++ [transaction]) = some received := by
        rw [Received.takeAll_append, reads.took, Option.bind_some, Received.takeAll_cons, here]
        rfl
      have came : b.peek ++ wire = Writer.stream others := by
        rw [rest]
        exact back
      obtain ⟨after, taken, later, ended, split, readsAfter, waits⟩ :=
        ih ⟨fits, reads.connected, reads.handled, came, took⟩
          (fun other member => ok other (List.mem_cons_of_mem _ member)) all
      refine ⟨after, transaction :: taken, later, ended, ?_, ?_, waits⟩
      · rw [split, List.cons_append]
      · rw [List.append_assoc] at readsAfter
        exact readsAfter
  | @thrown reader announces complete threw =>
      obtain ⟨transaction, others, rfl, _, stands⟩ := front_stream ok reads.came announces.1
      rw [(stands ⟨announces.1, complete⟩).1, take, Option.map_eq_none_iff, received_looked]
        at threw
      rw [Received.takeAll_cons, threw] at all
      cases all
  | refused session long unusable =>
      have := bodyLength_of_stream ok reads.came long
      omega
  | unchecked client long unusable kept =>
      have := bodyLength_of_stream ok reads.came long
      omega
  | wrapped long low negative =>
      have := bodyLength_of_stream ok reads.came long
      omega

/-- A completed read of bytes of a stream. -/
theorem Reads.handleRead {reader : Reader} {endpoint : Endpoint} {bytes wire : List UInt8}
    {start : Received} {done later : List Transaction}
    (reads : reader.Reads endpoint (bytes ++ wire) start done later)
    (inside : bytes.length ≤ reader.bufferRead.writableBytes)
    (ok : ∀ transaction ∈ later, transaction.Ok) {whole : Received}
    (all : reader.received.takeAll endpoint later = some whole) :
    ∃ after taken rest, reader.handleRead endpoint bytes = some after ∧ later = taken ++ rest ∧
      after.Reads endpoint wire start (done ++ taken) rest ∧ ¬ Complete after.bufferRead.peek ∧
      0 < after.bufferRead.writableBytes := by
  have handled : ¬ (endpoint = .clientapi ∧ reader.receiveHandle = false) := fun both => by
    cases reads.handled.symm.trans both.2
  obtain ⟨b, result, fits, same, loops, read⟩ := handleRead_eq reads.fits inside handled
  have came : b.peek ++ wire = Writer.stream later := by
    rw [same, List.append_assoc]
    exact reads.came
  obtain ⟨ended, taken, rest, rfl, split, readsEnded, waits, room⟩ :=
    loops.reads ⟨fits, reads.connected, reads.handled, came, reads.took⟩ ok all
  obtain ⟨next, prepared, fitsNext, sameNext, roomNext⟩ := prepareRead_eq readsEnded.fits room
  refine ⟨{ ended with bufferRead := next }, taken, rest, ?_, split,
    ⟨fitsNext, readsEnded.connected, readsEnded.handled, ?_, readsEnded.took⟩, ?_, roomNext⟩
  · rw [read, Option.bind_some, finish, readsEnded.connected, if_neg Bool.true_eq_false_eq_False,
      prepared]
    rfl
  · rw [← readsEnded.came]
    exact congrArg (· ++ wire) sameNext
  · dsimp only
    rw [sameNext]
    exact waits

end Reader

/-! ## The link -/

/-- A transaction that is taken leaves what was dispatched before in front. -/
theorem Received.prefix_of_take {received next : Received} {endpoint : Endpoint}
    {transaction : Transaction} (taken : received.take endpoint transaction = some next) :
    received.dispatched <+: next.dispatched := by
  have dispatched {before after : Received} {head : TransactionHead}
      {additional : TransactionAdditional} {body : List UInt8}
      (done : before.dispatch endpoint head additional body = some after) :
      before.dispatched <+: after.dispatched := by
    rw [dispatch.eq_def] at done
    cases endpoint with
    | session =>
        obtain ⟨_, _, rfl⟩ := Option.map_eq_some_iff.mp done
        exact List.prefix_append _ _
    | clientapi =>
        cases done
        exact List.prefix_append _ _
  rw [take] at taken
  split at taken
  · rw [doReceive] at taken
    split at taken
    · exact dispatched taken
    · split at taken
      · obtain ⟨after, done, rfl⟩ := Option.map_eq_some_iff.mp taken
        change received.dispatched <+: after.dispatched
        exact dispatched done
      · cases taken
        exact List.prefix_refl _
  · cases taken
    exact List.prefix_refl _

theorem Received.prefix_of_takeAll {received next : Received} {endpoint : Endpoint}
    {transactions : List Transaction}
    (taken : received.takeAll endpoint transactions = some next) :
    received.dispatched <+: next.dispatched := by
  induction transactions generalizing received with
  | nil =>
      cases taken
      exact List.prefix_refl _
  | cons transaction transactions ih =>
      rw [takeAll_cons] at taken
      obtain ⟨first, here, later⟩ := Option.bind_eq_some_iff.mp taken
      exact (prefix_of_take here).trans (ih later)

/-- Heartbeats are not received. -/
theorem Received.takeAll_of_heartbeats (received : Received) (endpoint : Endpoint)
    {transactions : List Transaction}
    (heartbeats : ∀ transaction ∈ transactions, ¬ Ordinary transaction.head.transactionType) :
    received.takeAll endpoint transactions = some received := by
  induction transactions with
  | nil => rfl
  | cons transaction transactions ih =>
      rw [takeAll_cons, take_of_not_ordinary _ _ (heartbeats transaction List.mem_cons_self),
        Option.bind_some]
      exact ih fun other member => heartbeats other (List.mem_cons_of_mem _ member)

namespace Link

/-- A transaction whose `deliver` is posted. -/
structure Posted (transaction : Transaction) : Prop where
  head : transaction.head = ⟨transaction.body.length, transaction.head.transactionType⟩
  type : -2 ^ 31 ≤ transaction.head.transactionType ∧ transaction.head.transactionType < 2 ^ 31
  ordinary : Ordinary transaction.head.transactionType
  deliverable : Deliverable transaction.body

/-- What was sent with a transaction. -/
def content (transaction : Transaction) : Int × List UInt8 :=
  (transaction.head.transactionType, transaction.body)

/-- The link carries transactions: some were taken, the bytes of others are between the two ends
and not complete at the reader, and together they make up what was pushed. -/
structure Carries (link : Link) (receiver : Endpoint) (done later : List Transaction)
    (contents : List (Int × List UInt8)) : Prop where
  flows : link.writer.Flows
  reads : link.reader.Reads receiver (link.wire ++ link.writer.pending) ⟨[], []⟩ done later
  waits : ¬ Reader.Complete link.reader.bufferRead.peek
  room : 0 < link.reader.bufferRead.writableBytes
  ok : ∀ transaction ∈ later, transaction.Ok
  whole : Received.takeAll ⟨[], []⟩ receiver (done ++ later) = some ⟨[], contents⟩
  posted : ∀ transaction ∈ link.posted, Posted transaction
  sent : link.sent = contents ++ link.posted.map content

variable {link : Link} {receiver : Endpoint} {done later : List Transaction}
  {contents : List (Int × List UInt8)}

/-- What is left to take. -/
theorem Carries.rest (carries : link.Carries receiver done later contents) :
    link.reader.received.takeAll receiver later = some ⟨[], contents⟩ := by
  have whole := carries.whole
  rw [Received.takeAll_append, carries.reads.took, Option.bind_some] at whole
  exact whole

theorem Carries.delivered (carries : link.Carries receiver done later contents) :
    link.Delivered := by
  refine ⟨?_, fun posted idle wire => ?_, carries.reads.connected, carries.room⟩
  · rw [carries.sent]
    exact (Received.prefix_of_takeAll carries.rest).trans (List.prefix_append _ _)
  · have pending : link.writer.pending = [] := by
      have inStep := carries.flows.inStep
      rw [idle] at inStep
      rw [Writer.pending, inStep.1, inStep.2.2, List.drop_nil]
      rfl
    have came := carries.reads.came
    rw [wire, pending, List.append_nil, List.append_nil] at came
    have nothing : later = [] := by
      cases later with
      | nil => rfl
      | cons transaction others =>
          have okHere := carries.ok transaction List.mem_cons_self
          refine absurd ?_ carries.waits
          rw [came, Reader.stream_cons, Reader.Complete, Reader.front_buffer okHere,
            okHere.bodyLength, List.length_append, okHere.length_buffer]
          omega
    have rest := carries.rest
    rw [nothing] at rest
    have received : link.reader.received = ⟨[], contents⟩ := Option.some.inj rest
    rw [received, carries.sent, posted]
    exact (List.append_nil _).symm

/-! ## One event -/

/-- Transactions are pushed, and are taken as so much more. -/
theorem Carries.push (carries : link.Carries receiver done later contents)
    {transactions : List Transaction} (ok : ∀ transaction ∈ transactions, transaction.Ok)
    (more : List (Int × List UInt8))
    (taken : Received.takeAll ⟨[], contents⟩ receiver transactions = some ⟨[], contents ++ more⟩)
    (posted : List Transaction) (still : ∀ transaction ∈ posted, Posted transaction)
    (sent : link.sent = contents ++ more ++ posted.map content) :
    ∃ after, push { link with posted := posted } transactions = some after ∧
      after.Carries receiver done (later ++ transactions) (contents ++ more) := by
  have fit : Writer.Pushable transactions := by
    intro transaction member
    have okHere := ok transaction member
    have small := okHere.small
    have length := okHere.length_buffer
    rw [show Transaction.additionallength = 20 from rfl] at length
    refine ⟨fun bare => ?_, by omega⟩
    rw [bare, List.length_nil] at length
    omega
  obtain ⟨writer, pushed, flows, pending⟩ := carries.flows.pushAll fit
  rw [Link.push]
  dsimp only
  rw [pushed]
  refine ⟨_, rfl, flows, ⟨carries.reads.fits, carries.reads.connected, carries.reads.handled, ?_,
    carries.reads.took⟩, carries.waits, carries.room, ?_, ?_, still, sent⟩
  · have came := carries.reads.came
    dsimp only
    rw [pending, Writer.stream_append, ← came]
    simp only [List.append_assoc]
  · intro transaction member
    rcases List.mem_append.mp member with old | new
    · exact carries.ok transaction old
    · exact ok transaction new
  · rw [← List.append_assoc, Received.takeAll_append, carries.whole, Option.bind_some]
    exact taken

theorem Carries.send (carries : link.Carries receiver done later contents) {transactionType : Int}
    (type : -2 ^ 31 ≤ transactionType ∧ transactionType < 2 ^ 31)
    (ordinary : Ordinary transactionType) {body : List UInt8} (deliverable : Deliverable body) :
    (link.send transactionType body).Carries receiver done later contents := by
  have made := @Transaction.make_of_le ⟨body.length, transactionType⟩ body rfl deliverable.1 .make
  refine ⟨carries.flows, carries.reads, carries.waits, carries.room, carries.ok, carries.whole,
    ?_, ?_⟩
  · intro transaction member
    rw [Link.send] at member
    dsimp only at member
    rw [made] at member
    rcases List.mem_append.mp member with old | new
    · exact carries.posted transaction old
    · cases List.mem_singleton.mp new
      exact ⟨rfl, type, ordinary, deliverable⟩
  · rw [Link.send]
    dsimp only
    rw [made, carries.sent, List.map_append, List.append_assoc]
    rfl

/-- A `deliver` pushes the pieces of its transaction, which are joined again. -/
theorem Carries.deliver (carries : link.Carries receiver done later contents)
    {transaction : Transaction} {posted : List Transaction}
    (next : link.posted = transaction :: posted) :
    ∃ after, Link.push { link with posted := posted }
        (doSend transaction.head transaction.body) = some after ∧
      after.Carries receiver done (later ++ doSend transaction.head transaction.body)
        (contents ++ [content transaction]) := by
  have all := carries.posted
  rw [next] at all
  have here := all transaction List.mem_cons_self
  rw [here.head]
  apply carries.push
  · exact fun piece member =>
      ok_of_mem_doSend here.type (by have := here.deliverable.1; omega) member
  · exact (takeAll_doSend_iff receiver here.type here.ordinary here.deliverable.1 contents).mpr
      here.deliverable.2
  · exact fun other member => all other (List.mem_cons_of_mem _ member)
  · rw [carries.sent, next, List.map_cons, List.append_assoc]
    rfl

/-- A heartbeat is pushed, and not received. -/
theorem Carries.heartbeat (carries : link.Carries receiver done later contents)
    {transactionType : Int}
    (heartbeat : transactionType = kHeartBeatClient ∨ transactionType = kHeartBeatServer) :
    ∃ after, link.push (doSend ⟨0, transactionType⟩ []) = some after ∧
      after.Carries receiver done (later ++ doSend ⟨0, transactionType⟩ []) contents := by
  have type : -2 ^ 31 ≤ transactionType ∧ transactionType < 2 ^ 31 := by
    rcases heartbeat with rfl | rfl <;> decide
  have unordinary : ¬ Ordinary transactionType := by
    rcases heartbeat with rfl | rfl
    · exact fun both => both.2 rfl
    · exact fun both => both.1 rfl
  have ok (piece : Transaction) (member : piece ∈ doSend ⟨0, transactionType⟩ []) : piece.Ok :=
    @ok_of_mem_doSend transactionType type [] (by decide) piece member
  have taken : Received.takeAll ⟨[], contents⟩ receiver (doSend ⟨0, transactionType⟩ []) =
      some ⟨[], contents ++ []⟩ := by
    rw [List.append_nil]
    apply Received.takeAll_of_heartbeats
    intro piece member
    rw [@type_of_mem_doSend transactionType [] piece member]
    exact unordinary
  have pushed := carries.push ok [] taken link.posted carries.posted
    (by rw [List.append_nil]; exact carries.sent)
  rw [List.append_nil] at pushed
  exact pushed

/-- Bytes go from the writer to the wire. -/
theorem Carries.transfer (carries : link.Carries receiver done later contents) (count : Nat) :
    Carries { link with
      writer := (link.writer.transfer count).2
      wire := link.wire ++ (link.writer.transfer count).1 } receiver done later contents := by
  obtain ⟨flows, pending⟩ := carries.flows.transfer count
  refine ⟨flows, ⟨carries.reads.fits, carries.reads.connected, carries.reads.handled, ?_,
    carries.reads.took⟩, carries.waits, carries.room, carries.ok, carries.whole, carries.posted,
    carries.sent⟩
  dsimp only
  rw [List.append_assoc, pending]
  exact carries.reads.came

theorem Carries.handleWrite (carries : link.Carries receiver done later contents)
    (sender : Endpoint) {length : Nat} (completed : link.writer.writing = .completed length) :
    ∃ writer, link.writer.handleWrite sender length = some writer ∧
      Carries { link with writer := writer } receiver done later contents := by
  obtain ⟨writer, handled, flows, pending⟩ := carries.flows.handleWrite sender completed
  refine ⟨writer, handled, flows, ⟨carries.reads.fits, carries.reads.connected,
    carries.reads.handled, ?_, carries.reads.took⟩, carries.waits, carries.room, carries.ok,
    carries.whole, carries.posted, carries.sent⟩
  dsimp only
  rw [pending]
  exact carries.reads.came

/-- Bytes go from the wire to the reader. -/
theorem Carries.handleRead (carries : link.Carries receiver done later contents) {length : Nat}
    (inside : length ≤ link.reader.bufferRead.writableBytes) :
    ∃ reader taken rest, link.reader.handleRead receiver (link.wire.take length) = some reader ∧
      Carries { link with reader := reader, wire := link.wire.drop length } receiver
        (done ++ taken) rest contents := by
  have reads := carries.reads
  rw [← List.take_append_drop length link.wire, List.append_assoc] at reads
  have short : (link.wire.take length).length ≤ link.reader.bufferRead.writableBytes := by
    rw [List.length_take]
    exact Nat.le_trans (Nat.min_le_left _ _) inside
  obtain ⟨after, taken, rest, handled, split, readsAfter, waits, room⟩ :=
    reads.handleRead short carries.ok carries.rest
  refine ⟨after, taken, rest, handled, carries.flows, readsAfter, waits, room, ?_, ?_,
    carries.posted, carries.sent⟩
  · intro transaction member
    exact carries.ok transaction (split ▸ List.mem_append_right taken member)
  · rw [List.append_assoc, ← split]
    exact carries.whole

/-- The state of a link on which all has gone well. -/
def Sound (receiver : Endpoint) (state : Option Link) : Prop :=
  ∃ link done later contents, state = some link ∧ Carries link receiver done later contents

/-- The link goes on carrying. -/
theorem Carries.step (carries : link.Carries receiver done later contents) (sender : Endpoint)
    {event : LinkEvent} (good : event.Good) :
    Sound receiver (Link.step sender receiver (some link) event) := by
  have stays : Sound receiver (some link) := ⟨link, done, later, contents, rfl, carries⟩
  cases event with
  | send transactionType body =>
      exact ⟨_, done, later, contents, rfl, carries.send good.1 good.2.1 good.2.2⟩
  | deliver =>
      rw [Link.step]
      cases posted : link.posted with
      | nil => exact stays
      | cons transaction others =>
          obtain ⟨after, pushed, carriesAfter⟩ := carries.deliver posted
          exact ⟨after, _, _, _, pushed, carriesAfter⟩
  | heartbeat transactionType =>
      rw [Link.step]
      by_cases heartbeat : transactionType = kHeartBeatClient ∨ transactionType = kHeartBeatServer
      · rw [if_pos heartbeat]
        obtain ⟨after, pushed, carriesAfter⟩ := carries.heartbeat heartbeat
        exact ⟨after, _, _, _, pushed, carriesAfter⟩
      · rw [if_neg heartbeat]
        exact stays
  | transfer count => exact ⟨_, _, _, _, rfl, carries.transfer count⟩
  | handleWrite =>
      rw [Link.step]
      cases writing : link.writer.writing with
      | completed length =>
          obtain ⟨writer, handled, carriesAfter⟩ := carries.handleWrite sender writing
          dsimp only
          rw [handled]
          exact ⟨_, _, _, _, rfl, carriesAfter⟩
      | _ => exact stays
  | handleRead length =>
      rw [Link.step]
      by_cases came : length ≤ link.wire.length ∧
          length ≤ link.reader.bufferRead.writableBytes ∧ link.reader.isConnected = true
      · rw [if_pos came]
        obtain ⟨reader, taken, rest, handled, carriesAfter⟩ := carries.handleRead came.2.1
        rw [handled]
        exact ⟨_, _, _, _, rfl, carriesAfter⟩
      · rw [if_neg came]
        exact stays

theorem carries_make (receiver : Endpoint) : make.Carries receiver [] [] [] := by
  refine ⟨Writer.flows_make, ⟨Buffer.fits_make, rfl, rfl, ?_, rfl⟩, fun complete => ?_, ?_, nofun,
    rfl, nofun, rfl⟩
  · rw [show make.reader.bufferRead.peek = [] from Buffer.peek_make,
      show make.writer.pending = [] from Writer.pending_make]
    rfl
  · have long := complete.1
    rw [show make.reader.bufferRead.peek = [] from Buffer.peek_make] at long
    exact absurd long (by decide)
  · exact Nat.lt_of_lt_of_eq (by decide) Buffer.fits_make.writableBytes.symm

end Link

/-- The bodies that come out as they went in. -/
theorem roundTrip_eq_iff (receiver : Endpoint) {transactionType : Int}
    (type : -2 ^ 31 ≤ transactionType ∧ transactionType < 2 ^ 31)
    (ordinary : Ordinary transactionType) {body : List UInt8} (int : body.length < 2 ^ 31) :
    roundTrip receiver transactionType body = some ⟨[], [(transactionType, body)]⟩ ↔
      Deliverable body := by
  rw [roundTrip, Deliverable]
  by_cases short : body.length ≤ 2 ^ 31 - 21
  · rw [Transaction.make_of_le rfl short, Option.bind_some, and_iff_right short]
    exact takeAll_doSend_iff receiver type ordinary short []
  · rw [Transaction.make_of_lt rfl (Nat.lt_of_not_le short) int]
    exact iff_of_false nofun fun both => short both.1

/-- **Whole transactions in order**, in every run of a link whose transactions are deliverable,
however its bytes are written and read; and splitting and joining are inverse for no other body. -/
theorem delivers (sender receiver : Endpoint) :
    (∀ events : List LinkEvent,
      Run.Steps (Link.step sender receiver) (fun _ event => event.Good) (some .make) events →
        Run.Always (Link.step sender receiver) (fun state => ∃ link, state = some link ∧
          link.Delivered) (fun _ _ => True) (some .make) events) ∧
      ∀ (transactionType : Int) (body : List UInt8),
        -2 ^ 31 ≤ transactionType ∧ transactionType < 2 ^ 31 → Ordinary transactionType →
          body.length < 2 ^ 31 →
            (roundTrip receiver transactionType body = some ⟨[], [(transactionType, body)]⟩ ↔
              Deliverable body) := by
  refine ⟨fun events => ?_, fun _ _ type ordinary int => roundTrip_eq_iff receiver type ordinary int⟩
  apply Run.always_of_steps (Link.Sound receiver)
  · rintro _ ⟨link, done, later, contents, rfl, carries⟩
    exact ⟨link, rfl, carries.delivered⟩
  · rintro _ event ⟨link, done, later, contents, rfl, carries⟩ good
    exact ⟨trivial, carries.step sender good⟩
  · exact ⟨.make, [], [], [], rfl, Link.carries_make receiver⟩

/-- A transaction of three bytes that is read in two parts, after a heartbeat. -/
theorem delivers_three_bytes :
    let events : List LinkEvent := [.heartbeat 1, .send 5 [1, 2, 3], .deliver, .transfer 20,
      .handleWrite, .transfer 23, .handleWrite, .handleRead 30, .handleRead 13]
    Run.Steps (Link.step .clientapi .session) (fun _ event => event.Good) (some .make) events ∧
      (∃ link, Run.final (Link.step .clientapi .session) (some .make) events = some link ∧
        link.Delivered) ∧
      roundTrip .session 5 [1, 2, 3] = some ⟨[], [(5, [1, 2, 3])]⟩ := by
  intro events
  have deliverable : Deliverable [1, 2, 3] := ⟨by decide, .inl (by decide)⟩
  have steps : Run.Steps (Link.step .clientapi .session) (fun _ event => event.Good) (some .make)
      events :=
    ⟨trivial, ⟨by decide, ⟨by decide, by decide⟩, deliverable⟩, trivial, trivial, trivial, trivial,
      trivial, trivial, trivial, trivial⟩
  obtain ⟨run, inverse⟩ := delivers .clientapi .session
  exact ⟨steps, (run events steps).final,
    (inverse 5 [1, 2, 3] (by decide) ⟨by decide, by decide⟩ (by decide)).mpr deliverable⟩

/-- A body that cannot be copied is not dispatched, although nothing is on its way. -/
theorem Link.not_delivered_of_lt (transactionType : Int) {body : List UInt8}
    (large : 2 ^ 31 - 21 < body.length) (int : body.length < 2 ^ 31) :
    ¬ (Link.make.send transactionType body).Delivered := by
  intro delivered
  have nothing : (Link.make.send transactionType body).posted = [] := by
    rw [Link.send]
    dsimp only
    rw [Transaction.make_of_lt rfl large int]
    rfl
  cases delivered.all nothing rfl rfl

/-- A body of 65537 pieces does not come out as it went in, and one of `2 ^ 31 - 20` bytes does
not come out at all. -/
theorem many_pieces_not_delivered :
    (∀ receiver, roundTrip receiver 5 (List.replicate (65536 * 8172 + 1) 0) ≠
        some ⟨[], [(5, List.replicate (65536 * 8172 + 1) 0)]⟩) ∧
      ¬ (Link.make.send 5 (List.replicate (2 ^ 31 - 20) 0)).Delivered := by
  refine ⟨fun receiver same => ?_, ?_⟩
  · have length := @List.length_replicate UInt8 (65536 * 8172 + 1) 0
    have int : (List.replicate (65536 * 8172 + 1) (0 : UInt8)).length < 2 ^ 31 := by
      rw [length]
      decide
    have deliverable :=
      (roundTrip_eq_iff receiver (by decide) ⟨by decide, by decide⟩ int).mp same
    have pieces := deliverable.2
    rw [length] at pieces
    rcases pieces with single | several
    · exact absurd single (by decide)
    · exact several (by decide)
  · apply Link.not_delivered_of_lt
    · rw [List.length_replicate]
      decide
    · rw [List.length_replicate]
      decide

end Cube.Liblight
