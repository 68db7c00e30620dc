import Cube.Eco.IntegerText

/-! # Text of a fixed size

`FixBuffer` keeps a terminated text in an array that is part of the object. Sizes are 32-bit. A
write behind the array, or a read behind the text that is appended, leaves the defined behaviour.
-/

namespace Cube.Eco

/-- The text up to its terminator. -/
def cText (buf : CString) : CString := buf.takeWhile (· ≠ nul)

/-- A 32-bit number as `int32_t`. -/
def signed32 (x : UInt32) : Int := if x.toNat < 2 ^ 31 then x.toNat else x.toNat - 2 ^ 32

/-- `FixBuffer<fix_size>`: `m_data` and `m_cur_size`. -/
structure FixBuffer (fixSize : UInt32) where
  data : CString
  curSize : UInt32
  held : data.length = fixSize.toNat

/-- The array of a buffer before its constructor: it holds anything, and it is not empty. -/
structure RawArray (fixSize : UInt32) where
  data : CString
  held : data.length = fixSize.toNat
  pos : 0 < fixSize.toNat

namespace FixBuffer

variable {fixSize : UInt32}

/-- `capacity()`. -/
def capacity (fixSize : UInt32) : UInt32 := fixSize - 1

/-- `avail()`. -/
def avail (b : FixBuffer fixSize) : UInt32 := capacity fixSize - b.curSize

/-- `m_data[pos] = v`. -/
def put (b : FixBuffer fixSize) (pos : Nat) (v : Char) : Outcome Empty (FixBuffer fixSize) :=
  if pos < b.data.length then
    .ok { b with
      data := b.data.set pos v
      held := (List.length_set ..).trans b.held }
  else .fault

/-- `memcpy(&m_data[pos], ..)`. -/
def copy (b : FixBuffer fixSize) (pos : Nat) (values : CString) :
    Outcome Empty (FixBuffer fixSize) :=
  if inside : pos + values.length ≤ b.data.length then
    .ok { b with
      data := Buffer.overwrite b.data pos values
      held := (Buffer.length_overwrite inside).trans b.held }
  else .fault

/-- `append(const char* buf)`. -/
def appendText (b : FixBuffer fixSize) : CString → Outcome Empty (FixBuffer fixSize)
  | [] => b.put b.curSize.toNat nul
  | c :: buf =>
      if c = nul then b.put b.curSize.toNat nul
      else do
        let b ← b.put b.curSize.toNat c
        appendText { b with curSize := b.curSize + 1 } buf

/-- `append(const char* buf, uint32_t size)`, where `buf` shows what can be read. -/
def append (b : FixBuffer fixSize) (buf : CString) (size : UInt32) :
    Outcome Empty (FixBuffer fixSize) :=
  let appendSize := if b.avail > size then size else b.avail
  if appendSize > 0 then do
    let part ← Buffer.slice buf 0 appendSize.toNat
    let b ← b.copy b.curSize.toNat part
    let b := { b with curSize := b.curSize + appendSize }
    b.put b.curSize.toNat nul
  else .ok b

/-- `append(const char v)`. -/
def appendChar (b : FixBuffer fixSize) (v : Char) : Outcome Empty (FixBuffer fixSize) :=
  if b.avail ≥ 1 then do
    let b ← b.put b.curSize.toNat v
    let b := { b with curSize := b.curSize + 1 }
    b.put b.curSize.toNat nul
  else .ok b

/-- `erase`. -/
def erase (b : FixBuffer fixSize) (size : UInt32) : Outcome Empty (FixBuffer fixSize) :=
  let newSize := signed32 (b.curSize - size)
  let b := { b with curSize := if newSize > 0 then UInt32.ofNat newSize.toNat else 0 }
  b.put b.curSize.toNat nul

/-- `force`. -/
def force (b : FixBuffer fixSize) (size : UInt32) : Outcome Empty (FixBuffer fixSize) :=
  let eraseSize := signed32 (size - b.avail)
  if eraseSize > 0 then b.erase (UInt32.ofNat eraseSize.toNat) else .ok b

/-- `clear`. -/
def clear (b : FixBuffer fixSize) : Outcome Empty (FixBuffer fixSize) :=
  let b := { b with curSize := 0 }
  b.put b.curSize.toNat nul

end FixBuffer

/-- A text with its length in 32 bits. -/
structure Sized where
  chars : CString
  fits : chars.length < 2 ^ 32

def Sized.size (text : Sized) : UInt32 := UInt32.ofNat text.chars.length

/-- What `snprintf` makes of a `double`. -/
structure DoubleText where
  chars : CString
  plain : ∀ c ∈ chars, c ≠ nul
  fits : chars.length < 2 ^ 31

namespace DoubleText

/-- `m_buf` of a `Double`, which has 64 characters: the text is cut, `m_size` is not. What stands
behind a short text is not read. -/
def buf (text : DoubleText) : CString := text.chars.take 63 ++ [nul]

def size (text : DoubleText) : UInt32 := UInt32.ofNat text.chars.length

end DoubleText

/-- The operations of a buffer. A text with length stands also for `eco::Bytes`, for `eco::String`
and for another buffer. -/
inductive BufferOp where
  | assignText (buf : CString)
  | assign (buf : Sized)
  | appendText (buf : CString)
  | append (buf : Sized)
  | appendString (buf : CString)
  | appendDouble (text : DoubleText)
  | appendChar (v : Char)
  | forceAppend (buf : Sized)
  | forceAppendChar (v : Char)
  | force (size : UInt32)
  | erase (size : UInt32)
  | clear

namespace BufferOp

variable {fixSize : UInt32}

/-- What an operation does. The size of a `std::string` is cast to 32 bits. -/
def step (op : BufferOp) (b : FixBuffer fixSize) : Outcome Empty (FixBuffer fixSize) :=
  match op with
  | assignText buf => do (← b.clear).appendText buf
  | assign buf => do (← b.clear).append buf.chars buf.size
  | appendText buf => b.appendText buf
  | append buf => b.append buf.chars buf.size
  | appendString buf => b.append buf (UInt32.ofNat buf.length)
  | appendDouble text => b.append text.buf text.size
  | appendChar v => b.appendChar v
  | forceAppend buf => do (← b.force buf.size).append buf.chars buf.size
  | forceAppendChar v => do (← b.force 1).appendChar v
  | force size => b.force size
  | erase size => b.erase size
  | clear => b.clear

end BufferOp

/-- The constructor. -/
def FixBuffer.construct {fixSize : UInt32} (raw : RawArray fixSize) :
    Outcome Empty (FixBuffer fixSize) :=
  FixBuffer.clear ⟨raw.data, 0, raw.held⟩

/-! ## Streams -/

/-- `Integer(v)`, as it is streamed: the text and its size. -/
def Integer.text {type : IntType} (v : type.Value) : Sized where
  chars := Integer.printed .dec v.val 0
  fits := by
    have short := v.naturalLength_le .dec
    rw [Integer.length_printed]
    change 0 + max 0 _ < 2 ^ 32
    omega

/-- The stream shows what the conversion of the number gives. -/
theorem Integer.text_eq {type : IntType} (v : type.Value) (raw : RawBuffer) :
    ∃ integer, setValue raw v.val .dec 0 '0' = .ok integer ∧ integer.cStr = (text v).chars ∧
      integer.size = (text v).chars.length := by
  obtain ⟨rest, set⟩ := setValue_dec v raw (by decide : (0 : UInt8).toNat ≤ 60)
  refine ⟨_, set, cStr_of_text (printed_plain .dec v.val 0) _, ?_⟩
  rw [text, length_printed]
  rfl

/-- What `StreamT::operator<<` is defined for; `blank` is `operator<=`, and an error is its message
and its id. -/
inductive Streamed where
  | bool (v : Bool)
  | char (v : Char)
  | integer (type : IntType) (v : type.Value)
  | double (v : DoubleText)
  | text (v : CString)
  | sized (v : Sized)
  | string (v : CString)
  | error (message : CString) (id : IntType.int32.Value)
  | group (v : Streamed)
  | blank (v : Streamed)
  | brace
  | close

namespace Streamed

/-- `m_status` has `status_brace` after an insertion. -/
def status : Streamed → Bool → Bool
  | group v, open_ => v.status open_
  | blank v, open_ => v.status open_
  | brace, open_ => !open_
  | close, _ => false
  | _, open_ => open_

/-- The operations that an insertion makes on the buffer. -/
def ops : Streamed → Bool → List BufferOp
  | bool v, _ => [.appendText [if v then '1' else '0']]
  | char v, _ => [.appendChar v]
  | integer _ v, _ => [.append (Integer.text v)]
  | double v, _ => [.appendDouble v]
  | text v, _ => [.appendText v]
  | sized v, _ => [.append v]
  | string v, _ => [.appendString v]
  | error message id, _ =>
      [.appendText message, .appendText [' ', '#'], .append (Integer.text id)]
  | group v, open_ => .appendChar '(' :: v.ops open_ ++ [.appendChar ')']
  | blank v, open_ => .appendChar ' ' :: v.ops open_
  | brace, open_ => [.appendChar (if open_ then '}' else '{')]
  | close, open_ => if open_ then [.appendChar '}'] else []

end Streamed

/-- What is done to a stream, or to an error through its message: an operation on the buffer, or an
insertion. `set_error` is `clear` and an insertion. -/
inductive Command where
  | buffer (op : BufferOp)
  | insert (v : Streamed)

/-- The operations that commands make on the buffer. -/
def Command.ops : List Command → Bool → List BufferOp
  | [], _ => []
  | buffer op :: commands, open_ => op :: ops commands open_
  | insert v :: commands, open_ => v.ops open_ ++ ops commands (v.status open_)

end Cube.Eco
