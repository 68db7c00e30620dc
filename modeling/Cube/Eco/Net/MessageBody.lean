import Cube.Eco.Net.Protocol

/-! # The meta data inside a message body

Both wire protocols write the model and option bytes, then the optional fields the option
names, then the payload. They differ in one field: only one of them carries the session
id. The size computation, the writer and the reader are stated once, with that difference
as a parameter.
-/

namespace Cube.Eco.Net

def sizeModel : UInt32 := 1
def sizeOption : UInt32 := 1
def sizeSessionId : UInt32 := 4
def sizeType : UInt32 := 2
def sizeReq4 : UInt32 := 4
def sizeReq8 : UInt32 := 8

/-- `get_meta_size`. -/
def metaSize (carriesSession : Bool) (data : MessageMeta) : UInt32 :=
  let pos := sizeModel + sizeOption
  let pos := if carriesSession && has data.option optionSess then pos + sizeSessionId else pos
  let pos := if has data.option optionType then pos + sizeType else pos
  if has data.option optionReq4 then pos + sizeReq4
  else if has data.option optionReq8 then pos + sizeReq8
  else pos

/-! ## Writing -/

def appendSessionId (carriesSession : Bool) (bytes : EcoString) (data : MessageMeta) :
    Outcome Error EcoString :=
  if carriesSession && has data.option optionSess then bytes.append (hton32 data.sessionId)
  else .ok bytes

def appendMessageType (bytes : EcoString) (data : MessageMeta) : Outcome Error EcoString :=
  if has data.option optionType then bytes.append (hton16 data.messageType.toUInt16)
  else .ok bytes

def appendRequestData (bytes : EcoString) (data : MessageMeta) : Outcome Error EcoString :=
  if has data.option optionReq4 then bytes.append (hton32 data.requestData.toUInt32)
  else if has data.option optionReq8 then bytes.append (hton64 data.requestData)
  else .ok bytes

/-- Append the model, the option and the optional fields. -/
def appendMeta (carriesSession : Bool) (bytes : EcoString) (data : MessageMeta) :
    Outcome Error EcoString := do
  let bytes ← bytes.append [data.model.toUInt8]
  let bytes ← bytes.append [data.option.toUInt8]
  let bytes ← appendSessionId carriesSession bytes data
  let bytes ← appendMessageType bytes data
  appendRequestData bytes data

/-! ## Reading -/

def ntohSessionId (carriesSession : Bool) (bytes : EcoString) (data : MessageMeta) (pos : Nat) :
    Outcome Error (MessageMeta × Nat) :=
  if carriesSession && has data.option optionSess then do
    let str ← Buffer.slice bytes.content pos 4
    return ({ data with sessionId := ntoh32 str }, pos + 4)
  else .ok (data, pos)

def ntohMessageType (bytes : EcoString) (data : MessageMeta) (pos : Nat) :
    Outcome Error (MessageMeta × Nat) :=
  if has data.option optionType then do
    let str ← Buffer.slice bytes.content pos 2
    return ({ data with messageType := (ntoh16 str).toUInt32 }, pos + 2)
  else .ok (data, pos)

def ntohRequestData (bytes : EcoString) (data : MessageMeta) (pos : Nat) :
    Outcome Error (MessageMeta × Nat) :=
  if has data.option optionReq4 then do
    let str ← Buffer.slice bytes.content pos 4
    return ({ data with requestData := (ntoh32 str).toUInt64 }, pos + 4)
  else if has data.option optionReq8 then do
    let str ← Buffer.slice bytes.content pos 8
    return ({ data with requestData := ntoh64 str }, pos + 8)
  else .ok (data, pos)

/-- The error of a message too small for the part it must have. -/
def tooSmall (part : String) (size required : Nat) : Error where
  id := eProtocolParameter
  message := part ++ toString size ++ "<" ++ toString required

/-- Read the model, the option and the optional fields from `metaPos` on; the position
returned is where the payload starts. -/
def decodeMeta (carriesSession : Bool) (bytes : EcoString) (metaPos : Nat)
    (data : MessageMeta) : Outcome Error (MessageMeta × Nat) :=
  let optDataPos := metaPos + 2
  if bytes.content.length < optDataPos then
    .reject (tooSmall "message size is too smaller to have option: " bytes.content.length
      optDataPos)
  else do
    let model ← bytes.get metaPos
    let option ← bytes.get (metaPos + 1)
    let data := { data with model := charToUInt16 model, option := charToUInt32 option }
    let metaEnd := metaPos + (metaSize carriesSession data).toNat
    if bytes.content.length < metaEnd then
      .reject (tooSmall "message size is too small to have meta: " bytes.content.length metaEnd)
    else do
      let (data, pos) ← ntohSessionId carriesSession bytes data optDataPos
      let (data, pos) ← ntohMessageType bytes data pos
      ntohRequestData bytes data pos

/-! ## The bytes of the meta data -/

def sessionIdBytes (carriesSession : Bool) (data : MessageMeta) : List UInt8 :=
  if carriesSession && has data.option optionSess then hton32 data.sessionId else []

def messageTypeBytes (data : MessageMeta) : List UInt8 :=
  if has data.option optionType then hton16 data.messageType.toUInt16 else []

def requestDataBytes (data : MessageMeta) : List UInt8 :=
  if has data.option optionReq4 then hton32 data.requestData.toUInt32
  else if has data.option optionReq8 then hton64 data.requestData
  else []

/-- The optional fields, in wire order. -/
def fieldBytes (carriesSession : Bool) (data : MessageMeta) : List UInt8 :=
  sessionIdBytes carriesSession data ++ (messageTypeBytes data ++ requestDataBytes data)

/-- The meta data as it stands on the wire. -/
def metaBytes (carriesSession : Bool) (data : MessageMeta) : List UInt8 :=
  data.model.toUInt8 :: data.option.toUInt8 :: fieldBytes carriesSession data

theorem length_sessionIdBytes (carriesSession : Bool) (data : MessageMeta) :
    (sessionIdBytes carriesSession data).length =
      if carriesSession && has data.option optionSess then 4 else 0 := by
  unfold sessionIdBytes
  split
  · exact length_hton32 _
  · rfl

theorem length_messageTypeBytes (data : MessageMeta) :
    (messageTypeBytes data).length = if has data.option optionType then 2 else 0 := by
  unfold messageTypeBytes
  split
  · exact length_hton16 _
  · rfl

theorem length_requestDataBytes (data : MessageMeta) :
    (requestDataBytes data).length =
      if has data.option optionReq4 then 4 else if has data.option optionReq8 then 8 else 0 := by
  unfold requestDataBytes
  split
  · exact length_hton32 _
  · split
    · exact length_hton64 _
    · rfl

/-- The computed size is the number of bytes written. -/
theorem metaSize_toNat (carriesSession : Bool) (data : MessageMeta) :
    (metaSize carriesSession data).toNat = (metaBytes carriesSession data).length := by
  simp only [metaBytes, fieldBytes, List.length_cons, List.length_append, length_sessionIdBytes,
    length_messageTypeBytes, length_requestDataBytes, metaSize]
  cases carriesSession && has data.option optionSess <;> cases has data.option optionType <;>
    cases has data.option optionReq4 <;> cases has data.option optionReq8 <;> rfl

/-- Writing the meta data appends its bytes. -/
theorem appendMeta_eq (carriesSession : Bool) (bytes : EcoString) (data : MessageMeta) :
    appendMeta carriesSession bytes data = bytes.append (metaBytes carriesSession data) := by
  have session (bytes : EcoString) : appendSessionId carriesSession bytes data =
      bytes.append (sessionIdBytes carriesSession data) := by
    unfold appendSessionId sessionIdBytes
    split
    · rfl
    · exact (EcoString.append_nil bytes).symm
  have type (bytes : EcoString) : appendMessageType bytes data =
      bytes.append (messageTypeBytes data) := by
    unfold appendMessageType messageTypeBytes
    split
    · rfl
    · exact (EcoString.append_nil bytes).symm
  have request (bytes : EcoString) : appendRequestData bytes data =
      bytes.append (requestDataBytes data) := by
    unfold appendRequestData requestDataBytes
    split
    · rfl
    · split
      · rfl
      · exact (EcoString.append_nil bytes).symm
  simp only [appendMeta, session, type, request, EcoString.append_append]
  rfl

/-! ## Reading back -/

theorem ntohSessionId_spec (carriesSession : Bool) (bytes : EcoString) (data : MessageMeta)
    (pos : Nat)
    (room : pos + (sessionIdBytes carriesSession data).length ≤ bytes.content.length) :
    ∃ id, ntohSessionId carriesSession bytes data pos =
        .ok ({ data with sessionId := id }, pos + (sessionIdBytes carriesSession data).length) ∧
      bytes.content.drop pos = sessionIdBytes carriesSession { data with sessionId := id } ++
        bytes.content.drop (pos + (sessionIdBytes carriesSession data).length) ∧
      ((carriesSession && has data.option optionSess) = false → id = data.sessionId) := by
  by_cases present : (carriesSession && has data.option optionSess) = true
  · rw [length_sessionIdBytes, if_pos present] at room ⊢
    obtain ⟨str, sliced⟩ := Buffer.slice_of_le (ε := Error) room
    have length := Buffer.length_of_slice sliced
    refine ⟨ntoh32 str, ?_, ?_, fun absent => ?_⟩
    · simp only [ntohSessionId, present, if_true, sliced, Outcome.ok_bind, Outcome.pure_eq]
    · simp only [sessionIdBytes, present, if_true, hton32_ntoh32 length]
      exact Buffer.drop_of_slice sliced
    · rw [present] at absent
      cases absent
  · refine ⟨data.sessionId, ?_, ?_, fun _ => rfl⟩
    · simp only [ntohSessionId, sessionIdBytes, present, if_false, Bool.false_eq_true,
        List.length_nil, Nat.add_zero]
    · simp only [sessionIdBytes, present, if_false, Bool.false_eq_true, List.length_nil,
        Nat.add_zero, List.nil_append]

theorem ntohMessageType_spec (bytes : EcoString) (data : MessageMeta) (pos : Nat)
    (room : pos + (messageTypeBytes data).length ≤ bytes.content.length) :
    ∃ type, ntohMessageType bytes data pos =
        .ok ({ data with messageType := type }, pos + (messageTypeBytes data).length) ∧
      bytes.content.drop pos = messageTypeBytes { data with messageType := type } ++
        bytes.content.drop (pos + (messageTypeBytes data).length) ∧
      (has data.option optionType = false → type = data.messageType) ∧
      (has data.option optionType = true → type.toNat < 2 ^ 16) := by
  by_cases present : has data.option optionType = true
  · rw [length_messageTypeBytes, if_pos present] at room ⊢
    obtain ⟨str, sliced⟩ := Buffer.slice_of_le (ε := Error) room
    have length := Buffer.length_of_slice sliced
    refine ⟨(ntoh16 str).toUInt32, ?_, ?_, fun absent => ?_, fun _ => ?_⟩
    · simp only [ntohMessageType, present, if_true, sliced, Outcome.ok_bind, Outcome.pure_eq]
    · simp only [messageTypeBytes, present, if_true, UInt16.toUInt16_toUInt32,
        hton16_ntoh16 length]
      exact Buffer.drop_of_slice sliced
    · rw [present] at absent
      cases absent
    · rw [UInt16.toNat_toUInt32]
      exact (ntoh16 str).toNat_lt
  · refine ⟨data.messageType, ?_, ?_, fun _ => rfl, fun here => (present here).elim⟩
    · simp only [ntohMessageType, messageTypeBytes, present, if_false, Bool.false_eq_true,
        List.length_nil, Nat.add_zero]
    · simp only [messageTypeBytes, present, if_false, Bool.false_eq_true, List.length_nil,
        Nat.add_zero, List.nil_append]

theorem ntohRequestData_spec (bytes : EcoString) (data : MessageMeta) (pos : Nat)
    (room : pos + (requestDataBytes data).length ≤ bytes.content.length) :
    ∃ request, ntohRequestData bytes data pos =
        .ok ({ data with requestData := request }, pos + (requestDataBytes data).length) ∧
      bytes.content.drop pos = requestDataBytes { data with requestData := request } ++
        bytes.content.drop (pos + (requestDataBytes data).length) ∧
      (has data.option optionReq4 = false → has data.option optionReq8 = false →
        request = data.requestData) ∧
      (has data.option optionReq4 = true → request.toNat < 2 ^ 32) := by
  by_cases four : has data.option optionReq4 = true
  · rw [length_requestDataBytes, if_pos four] at room ⊢
    obtain ⟨str, sliced⟩ := Buffer.slice_of_le (ε := Error) room
    have length := Buffer.length_of_slice sliced
    refine ⟨(ntoh32 str).toUInt64, ?_, ?_, fun absent => ?_, fun _ => ?_⟩
    · simp only [ntohRequestData, four, if_true, sliced, Outcome.ok_bind, Outcome.pure_eq]
    · simp only [requestDataBytes, four, if_true, UInt32.toUInt32_toUInt64, hton32_ntoh32 length]
      exact Buffer.drop_of_slice sliced
    · rw [four] at absent
      cases absent
    · rw [UInt32.toNat_toUInt64]
      exact (ntoh32 str).toNat_lt
  · by_cases eight : has data.option optionReq8 = true
    · rw [length_requestDataBytes, if_neg four, if_pos eight] at room ⊢
      obtain ⟨str, sliced⟩ := Buffer.slice_of_le (ε := Error) room
      have length := Buffer.length_of_slice sliced
      refine ⟨ntoh64 str, ?_, ?_, fun _ absent => ?_, fun here => (four here).elim⟩
      · simp only [ntohRequestData, four, eight, if_true, if_false, Bool.false_eq_true, sliced,
          Outcome.ok_bind, Outcome.pure_eq]
      · simp only [requestDataBytes, four, eight, if_true, if_false, Bool.false_eq_true,
          hton64_ntoh64 length]
        exact Buffer.drop_of_slice sliced
      · rw [eight] at absent
        cases absent
    · refine ⟨data.requestData, ?_, ?_, fun _ _ => rfl, fun here => (four here).elim⟩
      · simp only [ntohRequestData, requestDataBytes, four, eight, if_false, Bool.false_eq_true,
          List.length_nil, Nat.add_zero]
      · simp only [requestDataBytes, four, eight, if_false, Bool.false_eq_true, List.length_nil,
          Nat.add_zero, List.nil_append]

/-- What reading a body does to the meta data it is read into: the model and option bytes
are replaced, and an optional field is replaced exactly when the option names it. -/
structure MetaRead (carriesSession : Bool) (model option : UInt8) (data read : MessageMeta) :
    Prop where
  category : read.category = data.category
  codec : read.codec = data.codec
  model : read.model = charToUInt16 model
  option : read.option = charToUInt32 option
  noSession : (carriesSession && has read.option optionSess) = false →
    read.sessionId = data.sessionId
  noType : has read.option optionType = false → read.messageType = data.messageType
  typeFits : has read.option optionType = true → read.messageType.toNat < 2 ^ 16
  noRequest : has read.option optionReq4 = false → has read.option optionReq8 = false →
    read.requestData = data.requestData
  requestFits : has read.option optionReq4 = true → read.requestData.toNat < 2 ^ 32

/-- The optional fields are read one after the other, and what was read is what the writer
would write. -/
private theorem ntohFields_spec (carriesSession : Bool) (bytes : EcoString) (head : MessageMeta)
    (pos : Nat) (room : pos + (fieldBytes carriesSession head).length ≤ bytes.content.length) :
    ∃ id type request,
      (ntohSessionId carriesSession bytes head pos >>= fun (data, pos) =>
        ntohMessageType bytes data pos >>= fun (data, pos) => ntohRequestData bytes data pos) =
          .ok ({ head with sessionId := id, messageType := type, requestData := request },
            pos + (fieldBytes carriesSession head).length) ∧
      bytes.content.drop pos =
        fieldBytes carriesSession
          { head with sessionId := id, messageType := type, requestData := request } ++
        bytes.content.drop (pos + (fieldBytes carriesSession head).length) ∧
      ((carriesSession && has head.option optionSess) = false → id = head.sessionId) ∧
      ((has head.option optionType = false → type = head.messageType) ∧
        (has head.option optionType = true → type.toNat < 2 ^ 16)) ∧
      (has head.option optionReq4 = false → has head.option optionReq8 = false →
        request = head.requestData) ∧
      (has head.option optionReq4 = true → request.toNat < 2 ^ 32) := by
  have length : (fieldBytes carriesSession head).length =
      (sessionIdBytes carriesSession head).length + ((messageTypeBytes head).length +
        (requestDataBytes head).length) := by
    rw [fieldBytes, List.length_append, List.length_append]
  rw [length] at room ⊢
  obtain ⟨id, readId, afterId, keptId⟩ := ntohSessionId_spec carriesSession bytes head pos
    (by omega)
  obtain ⟨type, readType, afterType, keptType, fitsType⟩ := ntohMessageType_spec bytes
    { head with sessionId := id } (pos + (sessionIdBytes carriesSession head).length)
    (by change _ + (messageTypeBytes head).length ≤ _; omega)
  obtain ⟨request, readRequest, afterRequest, keptRequest, fitsRequest⟩ := ntohRequestData_spec
    bytes { head with sessionId := id, messageType := type }
    (pos + (sessionIdBytes carriesSession head).length + (messageTypeBytes head).length)
    (by change _ + (requestDataBytes head).length ≤ _; omega)
  refine ⟨id, type, request, ?_, ?_, keptId, ⟨keptType, fitsType⟩, keptRequest, fitsRequest⟩
  · rw [readId]
    simp only [Outcome.ok_bind]
    rw [readType]
    simp only [Outcome.ok_bind]
    apply readRequest.trans
    rw [← Nat.add_assoc, ← Nat.add_assoc]
    rfl
  · have typeEnd : bytes.content.drop (pos + (sessionIdBytes carriesSession head).length) =
        messageTypeBytes { head with messageType := type } ++
          bytes.content.drop (pos + (sessionIdBytes carriesSession head).length +
            (messageTypeBytes head).length) := afterType
    have requestEnd : bytes.content.drop (pos + (sessionIdBytes carriesSession head).length +
        (messageTypeBytes head).length) =
          requestDataBytes { head with requestData := request } ++
            bytes.content.drop (pos + (sessionIdBytes carriesSession head).length +
              (messageTypeBytes head).length + (requestDataBytes head).length) := afterRequest
    rw [afterId, typeEnd, requestEnd, fieldBytes, List.append_assoc, List.append_assoc,
      ← Nat.add_assoc, ← Nat.add_assoc]
    rfl

/-- **Reading the meta data.** With room for the fields its option names, the reader stops
right after them, and what it read is what the writer would write. -/
theorem decodeMeta_spec {carriesSession : Bool} {bytes : EcoString} {metaPos : Nat}
    {data : MessageMeta} {model option : UInt8} {rest : List UInt8}
    (split : bytes.content.drop metaPos = model :: option :: rest)
    (room : metaPos + (metaSize carriesSession
      { data with model := charToUInt16 model, option := charToUInt32 option }).toNat ≤
        bytes.content.length) :
    ∃ read, decodeMeta carriesSession bytes metaPos data =
        .ok (read, metaPos + (metaBytes carriesSession read).length) ∧
      bytes.content.drop metaPos = metaBytes carriesSession read ++
        bytes.content.drop (metaPos + (metaBytes carriesSession read).length) ∧
      MetaRead carriesSession model option data read := by
  let head : MessageMeta :=
    { data with model := charToUInt16 model, option := charToUInt32 option }
  obtain ⟨readModel, afterModel⟩ := Buffer.read_of_drop (ε := Error) split
  obtain ⟨readOption, afterOption⟩ := Buffer.read_of_drop (ε := Error) afterModel
  change metaPos + (metaSize carriesSession head).toNat ≤ _ at room
  have fits : ¬ bytes.content.length < metaPos + (metaSize carriesSession head).toNat :=
    Nat.not_lt_of_le room
  have size : (metaSize carriesSession head).toNat =
      2 + (fieldBytes carriesSession head).length := by
    rw [metaSize_toNat, metaBytes, List.length_cons, List.length_cons, Nat.add_assoc,
      Nat.add_comm]
  have large : ¬ bytes.content.length < metaPos + 2 := by omega
  obtain ⟨id, type, request, fields, shown, keptId, ⟨keptType, fitsType⟩, keptRequest,
    fitsRequest⟩ := ntohFields_spec carriesSession bytes head (metaPos + 2) (by omega)
  let read : MessageMeta :=
    { head with sessionId := id, messageType := type, requestData := request }
  have total : (metaBytes carriesSession read).length =
      2 + (fieldBytes carriesSession head).length := by
    rw [← size, ← metaSize_toNat]
    rfl
  refine ⟨read, ?_, ?_, ?_⟩
  · rw [decodeMeta, if_neg large, total, ← Nat.add_assoc]
    simp only [EcoString.get, readModel, readOption, Outcome.ok_bind]
    rw [if_neg fits]
    exact fields
  · rw [total, split, metaBytes, ← afterOption, ← Nat.add_assoc]
    refine congrArg₂ List.cons (charToUInt16_toUInt8 model).symm
      (congrArg₂ List.cons (charToUInt32_toUInt8 option).symm ?_)
    exact shown
  · exact
      { category := rfl
        codec := rfl
        model := rfl
        option := rfl
        noSession := keptId
        noType := keptType
        typeFits := fitsType
        noRequest := keptRequest
        requestFits := fitsRequest }

/-- A body without the model and option bytes is rejected. -/
theorem decodeMeta_of_no_option {carriesSession : Bool} {bytes : EcoString} {metaPos : Nat}
    (data : MessageMeta) (short : bytes.content.length < metaPos + 2) :
    decodeMeta carriesSession bytes metaPos data =
      .reject (tooSmall "message size is too smaller to have option: " bytes.content.length
        (metaPos + 2)) := by
  rw [decodeMeta, if_pos short]

/-- A body without room for the fields its option names is rejected. -/
theorem decodeMeta_of_no_room {carriesSession : Bool} {bytes : EcoString} {metaPos : Nat}
    {data : MessageMeta} {model option : UInt8} {rest : List UInt8}
    (split : bytes.content.drop metaPos = model :: option :: rest)
    (short : bytes.content.length < metaPos + (metaSize carriesSession
      { data with model := charToUInt16 model, option := charToUInt32 option }).toNat) :
    decodeMeta carriesSession bytes metaPos data =
      .reject (tooSmall "message size is too small to have meta: " bytes.content.length
        (metaPos + (metaSize carriesSession { data with
          model := charToUInt16 model, option := charToUInt32 option }).toNat)) := by
  obtain ⟨readModel, afterModel⟩ := Buffer.read_of_drop (ε := Error) split
  obtain ⟨readOption, _⟩ := Buffer.read_of_drop (ε := Error) afterModel
  have large : ¬ bytes.content.length < metaPos + 2 := by
    have length := congrArg List.length split
    simp only [List.length_drop, List.length_cons] at length
    omega
  rw [decodeMeta, if_neg large]
  simp only [EcoString.get, readModel, readOption, Outcome.ok_bind]
  rw [if_pos short]

private theorem exists_split {bytes : EcoString} {metaPos : Nat}
    (large : metaPos + 2 ≤ bytes.content.length) :
    ∃ model option rest, bytes.content.drop metaPos = model :: option :: rest := by
  have length := List.length_drop (i := metaPos) (l := bytes.content)
  match found : bytes.content.drop metaPos with
  | [] =>
      rw [found, List.length_nil] at length
      omega
  | [_] =>
      rw [found, List.length_singleton] at length
      omega
  | model :: option :: rest => exact ⟨model, option, rest, rfl⟩

/-- Reading the meta data never leaves the message: it returns or rejects. -/
theorem decodeMeta_defined (carriesSession : Bool) (bytes : EcoString) (metaPos : Nat)
    (data : MessageMeta) : (decodeMeta carriesSession bytes metaPos data).Defined := by
  by_cases large : metaPos + 2 ≤ bytes.content.length
  · obtain ⟨model, option, rest, split⟩ := exists_split large
    rcases Nat.lt_or_ge bytes.content.length (metaPos + (metaSize carriesSession
      { data with model := charToUInt16 model, option := charToUInt32 option }).toNat) with
      short | room
    · rw [decodeMeta_of_no_room split short]
      exact Outcome.defined_reject _
    · obtain ⟨read, returned, _⟩ := decodeMeta_spec split room
      rw [returned]
      exact Outcome.defined_ok _
  · rw [decodeMeta_of_no_option data (Nat.lt_of_not_le large)]
    exact Outcome.defined_reject _

/-- What a successful read says about the bytes it came from. -/
theorem decodeMeta_eq_ok {carriesSession : Bool} {bytes : EcoString} {metaPos pos : Nat}
    {data read : MessageMeta}
    (returned : decodeMeta carriesSession bytes metaPos data = .ok (read, pos)) :
    pos = metaPos + (metaBytes carriesSession read).length ∧ pos ≤ bytes.content.length ∧
      bytes.content.drop metaPos = metaBytes carriesSession read ++ bytes.content.drop pos ∧
      ∃ model option, MetaRead carriesSession model option data read := by
  by_cases large : metaPos + 2 ≤ bytes.content.length
  · obtain ⟨model, option, rest, split⟩ := exists_split large
    rcases Nat.lt_or_ge bytes.content.length (metaPos + (metaSize carriesSession
      { data with model := charToUInt16 model, option := charToUInt32 option }).toNat) with
      short | room
    · rw [decodeMeta_of_no_room split short] at returned
      cases returned
    · obtain ⟨found, succeeded, after, reading⟩ := decodeMeta_spec split room
      rw [succeeded] at returned
      cases returned
      refine ⟨rfl, ?_, after, model, option, reading⟩
      have length := congrArg List.length after
      have positive : 0 < (metaBytes carriesSession read).length := Nat.succ_pos _
      simp only [List.length_append, List.length_drop] at length
      omega
  · rw [decodeMeta_of_no_option data (Nat.lt_of_not_le large)] at returned
    cases returned

/-- Two messages with the same option and the same meta bytes agree on every field the
option names. -/
theorem metaBytes_inj {carriesSession : Bool} {first second : MessageMeta}
    (option : first.option = second.option)
    (same : metaBytes carriesSession first = metaBytes carriesSession second) :
    ((carriesSession && has second.option optionSess) = true →
        first.sessionId = second.sessionId) ∧
      (has second.option optionType = true →
        first.messageType.toUInt16 = second.messageType.toUInt16) ∧
      (has second.option optionReq4 = true →
        first.requestData.toUInt32 = second.requestData.toUInt32) ∧
      (has second.option optionReq4 = false → has second.option optionReq8 = true →
        first.requestData = second.requestData) := by
  simp only [metaBytes, fieldBytes, List.cons.injEq] at same
  obtain ⟨_, _, fields⟩ := same
  obtain ⟨session, rest⟩ := List.append_inj fields (by
    rw [length_sessionIdBytes, length_sessionIdBytes, option])
  obtain ⟨type, request⟩ := List.append_inj rest (by
    rw [length_messageTypeBytes, length_messageTypeBytes, option])
  refine ⟨fun here => ?_, fun here => ?_, fun here => ?_, fun absent here => ?_⟩
  · simp only [sessionIdBytes, option, here, if_true] at session
    rw [← ntoh32_hton32 first.sessionId, session, ntoh32_hton32]
  · simp only [messageTypeBytes, option, here, if_true] at type
    rw [← ntoh16_hton16 first.messageType.toUInt16, type, ntoh16_hton16]
  · simp only [requestDataBytes, option, here, if_true] at request
    rw [← ntoh32_hton32 first.requestData.toUInt32, request, ntoh32_hton32]
  · simp only [requestDataBytes, option, absent, here, if_true, Bool.false_eq_true,
      if_false] at request
    rw [← ntoh64_hton64 first.requestData, request, ntoh64_hton64]

/-! ## Round trip -/

/-- Meta data that survives the wire: the one-byte fields are sent as signed characters,
the type in 16 bits and a four-byte request in 32. -/
structure Sendable (data : MessageMeta) : Prop where
  model : data.model < 0x80
  option : data.option < 0x80
  messageType : data.messageType.toNat ≤ 0xFFFF
  requestData : has data.option optionReq4 = true → data.requestData.toNat < 2 ^ 32

/-- The meta data read is the meta data sent, in every field the option names. -/
structure Restores (carriesSession : Bool) (sent read : MessageMeta) : Prop where
  model : read.model = sent.model
  option : read.option = sent.option
  sessionId : (carriesSession && has sent.option optionSess) = true →
    read.sessionId = sent.sessionId
  messageType : has sent.option optionType = true → read.messageType = sent.messageType
  requestData : has sent.option optionReq4 = true ∨ has sent.option optionReq8 = true →
    read.requestData = sent.requestData

/-- What was read is what the writer of `sent` wrote: the same bytes, under the same model
and option. -/
structure Reread (carriesSession : Bool) (sent initial read : MessageMeta) : Prop where
  reading : MetaRead carriesSession sent.model.toUInt8 sent.option.toUInt8 initial read
  model : read.model = sent.model
  option : read.option = sent.option
  bytes : metaBytes carriesSession read = metaBytes carriesSession sent

namespace Reread

variable {carriesSession : Bool} {sent initial read : MessageMeta}

/-- The session id read: the one sent if the protocol carries it. -/
theorem sessionId_eq (reread : Reread carriesSession sent initial read) :
    read.sessionId =
      if carriesSession && has sent.option optionSess then sent.sessionId
      else initial.sessionId := by
  obtain ⟨session, _, _, _⟩ := metaBytes_inj reread.option reread.bytes
  split
  next here => exact session here
  next absent =>
    exact reread.reading.noSession (reread.option ▸ Bool.eq_false_iff.mpr absent)

/-- The type read: the low 16 bits of the one sent. -/
theorem messageType_eq (reread : Reread carriesSession sent initial read) :
    read.messageType =
      if has sent.option optionType then sent.messageType.toUInt16.toUInt32
      else initial.messageType := by
  obtain ⟨_, type, _, _⟩ := metaBytes_inj reread.option reread.bytes
  split
  next here =>
    have fits := reread.reading.typeFits (reread.option ▸ here)
    rw [← type here]
    apply UInt32.toNat_inj.mp
    rw [UInt16.toNat_toUInt32, UInt32.toNat_toUInt16]
    exact (Nat.mod_eq_of_lt fits).symm
  next absent => exact reread.reading.noType (reread.option ▸ Bool.eq_false_iff.mpr absent)

/-- The request data read: its low 32 bits if four bytes were sent, all of it if eight. -/
theorem requestData_eq (reread : Reread carriesSession sent initial read) :
    read.requestData =
      if has sent.option optionReq4 then sent.requestData.toUInt32.toUInt64
      else if has sent.option optionReq8 then sent.requestData
      else initial.requestData := by
  obtain ⟨_, _, request4, request8⟩ := metaBytes_inj reread.option reread.bytes
  split
  next four =>
    have fits := reread.reading.requestFits (reread.option ▸ four)
    rw [← request4 four]
    apply UInt64.toNat_inj.mp
    rw [UInt32.toNat_toUInt64, UInt64.toNat_toUInt32]
    exact (Nat.mod_eq_of_lt fits).symm
  next notFour =>
    have noFour := Bool.eq_false_iff.mpr notFour
    split
    next eight => exact request8 noFour eight
    next notEight =>
      exact reread.reading.noRequest (reread.option ▸ noFour)
        (reread.option ▸ Bool.eq_false_iff.mpr notEight)

/-- Meta data that survives the wire is restored when it is read back. -/
theorem restores (reread : Reread carriesSession sent initial read) (sendable : Sendable sent) :
    Restores carriesSession sent read where
  model := reread.model
  option := reread.option
  sessionId := by
    intro here
    rw [reread.sessionId_eq, if_pos here]
  messageType := by
    intro here
    have small := sendable.messageType
    rw [reread.messageType_eq, if_pos here]
    apply UInt32.toNat_inj.mp
    rw [UInt16.toNat_toUInt32, UInt32.toNat_toUInt16]
    exact Nat.mod_eq_of_lt (Nat.lt_succ_of_le small)
  requestData := by
    intro here
    rw [reread.requestData_eq]
    split
    next four =>
      have small := sendable.requestData four
      apply UInt64.toNat_inj.mp
      rw [UInt32.toNat_toUInt64, UInt64.toNat_toUInt32]
      exact Nat.mod_eq_of_lt small
    next notFour => rw [if_pos (here.resolve_left notFour)]

end Reread

end Cube.Eco.Net
