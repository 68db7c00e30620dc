import Mathlib.Data.UInt
import Cube.Lib.Outcome
import Cube.Lib.Run
import Cube.Eco.Config

/-! # The file sink of the log

A file sink appends to a log file. After every append it opens a new file if the day of the year
has moved on or the file is large, and flushes the file if the append before was long ago.
-/

namespace Cube.Eco.Log

/-- `struct tm`: the years since 1900, the months since January, the days since January 1. -/
structure Tm where
  year : Int
  mon : Nat
  mday : Nat
  hour : Nat
  min : Nat
  sec : Nat
  yday : Nat
  deriving DecidableEq, Repr

/-- A calendar day. -/
def Tm.day (tm : Tm) : Int × Nat := (tm.year, tm.yday)

/-- What the system knows: the two clocks, the name of the host and the id of the process. -/
structure System where
  localtime : Int → Tm
  gmtime : Int → Tm
  hostname : CString
  processId : CString

/-- The clock that is asked for. -/
def System.clock (system : System) (isUtc : Bool) : Int → Tm :=
  if isUtc then system.gmtime else system.localtime

def twoDigits (n : Nat) : CString := (if n < 10 then ['0'] else []) ++ (toString n).toList

/-- `strftime` with the format `%Y%m%d-%H%M%S.` -/
def strftime (tm : Tm) : CString :=
  (toString (1900 + tm.year)).toList ++ twoDigits (tm.mon + 1) ++ twoDigits tm.mday ++ ['-'] ++
    twoDigits tm.hour ++ twoDigits tm.min ++ twoDigits tm.sec ++ ['.']

/-! ## The file -/

/-- An open `File`, with what was written to it since it was opened or flushed. -/
structure File where
  fileSize : UInt64
  pending : List (List UInt8)
  deriving DecidableEq

namespace File

/-- `open` closes the stream that is open, which flushes it. The size is that of the file that
`fopen` has opened, if it has. -/
def «open» (path : CString) (opened : Option UInt32) : Outcome CString File :=
  match opened with
  | some size => .ok ⟨size.toUInt64, []⟩
  | none => .reject ("open file fail: ".toList ++ path)

def write (file : File) (buf : List UInt8) : File :=
  ⟨file.fileSize + UInt64.ofNat buf.length, file.pending ++ [buf]⟩

def flush (file : File) : File := { file with pending := [] }

end File

/-! ## The context -/

structure Context where
  filePath : CString
  rollSize : UInt64
  flushInterval : UInt32
  isUtc : Bool
  startDay : Int
  lastTime : Int
  nowTime : Int
  deriving DecidableEq

namespace Context

variable (system : System) (context : Context)

def getTm (t : Int) : Tm := if !context.isUtc then system.localtime t else system.gmtime t

/-- The constructor; whether UTC was asked for makes no difference. -/
def make (filePath : CString) (rollSize : UInt64) (flushInterval : UInt32) (_isUtc : Bool)
    (now : Int) : Context :=
  let context : Context := ⟨filePath, rollSize, flushInterval, false, 0, now, now⟩
  { context with startDay := (context.getTm system context.nowTime).yday }

def update (now : Int) : Context := { context with lastTime := context.nowTime, nowTime := now }

def getFilePath : CString :=
  context.filePath ++ strftime (context.getTm system context.nowTime) ++ system.hostname ++ ['.'] ++
    system.processId ++ ".log".toList

def isRollFile (curSize : UInt64) : Bool :=
  if curSize > context.rollSize then true
  else decide (context.startDay < (context.getTm system context.nowTime).yday)

def isFlush : Bool := decide (context.nowTime - context.lastTime ≥ context.flushInterval.toNat)

def rollFile : Context :=
  { context with startDay := (context.getTm system context.nowTime).yday }

end Context

/-! ## The sink -/

structure FileSink where
  file : File
  context : Context
  deriving DecidableEq

/-- An append: the text, the time at which it is made, and the size of the file that is opened
if it opens one, unless that fails. -/
structure Append where
  buf : List UInt8
  now : Int
  opened : Option UInt32
  deriving DecidableEq

namespace FileSink

variable (system : System)

/-- The constructor. -/
def make (filePath : CString) (rollSize : UInt64) (flushInterval : UInt32) (isUtc : Bool)
    (now : Int) (opened : Option UInt32) : Outcome CString FileSink := do
  let context := Context.make system filePath rollSize flushInterval isUtc now
  let file ← File.open (context.getFilePath system) opened
  .ok ⟨file, context⟩

/-- The file that the next text goes to, and its path if it was opened just now. -/
def nextFile (file : File) (context : Context) (opened : Option UInt32) :
    Outcome CString (FileSink × Option CString) :=
  if context.isRollFile system file.fileSize then do
    let newFilePath := context.getFilePath system
    let file ← File.open newFilePath opened
    .ok (⟨file, context.rollFile system⟩, some newFilePath)
  else .ok (⟨file, context⟩, none)

/-- `append`, with the path that `m_on_changed` is called with if a new file was opened. -/
def append (sink : FileSink) (input : Append) : Outcome CString (FileSink × Option CString) := do
  let (sink, changed) ←
    nextFile system (sink.file.write input.buf) (sink.context.update input.now) input.opened
  .ok (if sink.context.isFlush then { sink with file := sink.file.flush } else sink, changed)

end FileSink

/-! ## Runs -/

/-- A sink, when the file that it writes to was started, and when it was flushed last, or
opened. -/
structure SinkRecord where
  sink : FileSink
  started : Int
  flushed : Int
  deriving DecidableEq

namespace SinkRecord

variable (system : System)

def start (filePath : CString) (rollSize : UInt64) (flushInterval : UInt32) (isUtc : Bool)
    (now : Int) (opened : Option UInt32) : Outcome CString SinkRecord := do
  let sink ← FileSink.make system filePath rollSize flushInterval isUtc now opened
  .ok ⟨sink, now, now⟩

def append (record : SinkRecord) (input : Append) : Outcome CString SinkRecord := do
  let (sink, changed) ← record.sink.append system input
  .ok ⟨sink, if changed.isSome then input.now else record.started,
    if sink.file.pending.isEmpty then input.now else record.flushed⟩

/-- An append to a sink whose constructor and appends so far have returned. After one that has
thrown there is no stream to write to. -/
def turn (state : Outcome CString SinkRecord) (input : Append) : Outcome CString SinkRecord :=
  state >>= fun record => record.append system input

variable {system} {record after : SinkRecord} {input : Append}

/-- The append opens a new file. -/
def Rolls (system : System) (record : SinkRecord) (input : Append) : Prop :=
  (record.sink.context.update input.now).isRollFile system
    (record.sink.file.write input.buf).fileSize = true

instance (record : SinkRecord) (input : Append) : Decidable (Rolls system record input) :=
  inferInstanceAs (Decidable (_ = true))

/-- **Appends.** An append opens a new file, which may fail, or goes on with the one that is
open; then it flushes if the append before was long ago. -/
theorem append_eq (record : SinkRecord) (input : Append) :
    record.append system input =
      if Rolls system record input then
        match input.opened with
        | some size => .ok
            ⟨⟨⟨size.toUInt64, []⟩, (record.sink.context.update input.now).rollFile system⟩,
              input.now, input.now⟩
        | none => .reject ("open file fail: ".toList ++
            (record.sink.context.update input.now).getFilePath system)
      else
        let isFlush := (record.sink.context.update input.now).isFlush
        let file := record.sink.file.write input.buf
        .ok ⟨⟨if isFlush then file.flush else file, record.sink.context.update input.now⟩,
          record.started, if isFlush then input.now else record.flushed⟩ := by
  unfold append FileSink.append FileSink.nextFile
  by_cases rolls : Rolls system record input
  · have rolled : (record.sink.context.update input.now).isRollFile system
        (record.sink.file.write input.buf).fileSize = true := rolls
    rw [if_pos rolls, if_pos rolled]
    cases input.opened with
    | none => rfl
    | some size =>
        simp only [File.open, Outcome.ok_bind, File.flush, Option.isSome_some, if_true, ite_self,
          List.isEmpty_nil]
  · have notRolled : ¬ (record.sink.context.update input.now).isRollFile system
        (record.sink.file.write input.buf).fileSize = true := rolls
    rw [if_neg rolls, if_neg notRolled]
    simp only [Outcome.ok_bind]
    cases (record.sink.context.update input.now).isFlush with
    | true => rfl
    | false =>
        have pending : (record.sink.file.write input.buf).pending.isEmpty = false := by
          cases written : record.sink.file.pending with
          | nil => simp [File.write, written]
          | cons line lines => simp [File.write, written]
        simp only [Bool.false_eq_true, if_false, Option.isSome_none, pending]

end SinkRecord

end Cube.Eco.Log
