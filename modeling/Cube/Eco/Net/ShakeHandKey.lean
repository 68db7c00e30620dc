import Mathlib.Data.List.Infix
import Mathlib.Data.List.TakeWhile
import Cube.Eco.Memory

/-! # The key of a WebSocket shake-hand

`parse_key` looks for the line of the shake-hand that mentions the name of the key before its first
colon, and takes what follows the colon.
-/

namespace Cube.Eco.Net.WebSocketShakeHand

/-- The bytes of a text. -/
def bytes (text : String) : List UInt8 := text.toList.map fun c => UInt8.ofNat c.toNat

def colon : UInt8 := 58
def lf : UInt8 := 10
def cr : UInt8 := 13

def magicKey : List UInt8 := bytes "258EAFA5-E914-47DA-95CA-C5AB0DC85B11"

def keyName (websocketReq : Bool) : List UInt8 :=
  bytes (if websocketReq then "Sec-WebSocket-Key" else "Sec-WebSocket-Accept")

/-- Where the search stands: `key_end` and `val_end` are counted from `data`. -/
structure Place where
  data : List UInt8
  keyEnd : Nat
  valEnd : Nat
  deriving DecidableEq, Repr

/-- The inner loop: lines that end before the colon are passed over. -/
def passLines (data : List UInt8) (keyEnd valEnd : Nat) : Option Place :=
  if valEnd < keyEnd then
    match strchr (data.drop (valEnd + 1)) lf with
    | none => none
    | some next => passLines (data.drop (valEnd + 1)) (keyEnd - (valEnd + 1)) next
  else some ⟨data, keyEnd, valEnd⟩
termination_by keyEnd

theorem passLines_length (data : List UInt8) (keyEnd valEnd : Nat) :
    ∀ place ∈ passLines data keyEnd valEnd, place.data.length ≤ data.length := by
  fun_induction passLines data keyEnd valEnd with
  | case1 => exact nofun
  | case2 data keyEnd valEnd earlier next ended ih =>
      intro place passed
      refine Nat.le_trans (ih place passed) ?_
      rw [List.length_drop]
      exact Nat.sub_le ..
  | case3 =>
      rintro place ⟨⟩
      exact Nat.le_refl _

/-- The outer loop: the place at which the name of the key was found. -/
def locate (keyName data : List UInt8) : Option Place :=
  match _found : strchr data colon, strchr data lf with
  | some keyEnd, some valEnd =>
      match passed : passLines data keyEnd valEnd with
      | none => none
      | some place =>
          if (find place.data place.keyEnd keyName).isSome then some place
          else locate keyName (place.data.drop (place.valEnd + 1))
  | _, _ => none
termination_by data.length
decreasing_by
  have shorter := passLines_length data keyEnd valEnd place passed
  have nonempty : 0 < data.length := by
    cases data with
    | nil => exact nomatch _found
    | cons b data => exact Nat.succ_pos _
  rw [List.length_drop]
  omega

theorem locate_eq (keyName data : List UInt8) :
    locate keyName data =
      (strchr data colon).bind fun keyEnd => (strchr data lf).bind fun valEnd =>
        (passLines data keyEnd valEnd).bind fun place =>
          if (find place.data place.keyEnd keyName).isSome then some place
          else locate keyName (place.data.drop (place.valEnd + 1)) := by
  rw [locate]
  split
  next keyEnd valEnd found ended =>
    rw [found, ended, Option.bind_some, Option.bind_some]
    split
    next passed => rw [passed, Option.bind_none]
    next place passed => rw [passed, Option.bind_some]
  next missing =>
    cases found : strchr data colon with
    | none => rfl
    | some keyEnd =>
        cases ended : strchr data lf with
        | none => rfl
        | some valEnd => exact (missing keyEnd valEnd found ended).elim

/-- `String::asign(d, s)` on an empty string. -/
def asign (d : List UInt8) (s : UInt32) : Outcome Empty EcoString := do
  let serverKey ← EcoString.empty.resize s
  serverKey.copyTo 0 (← Buffer.slice d 0 s.toNat)

/-- `val_end - key_end`, once `key_end` is behind the colon and the space. -/
def Place.valueSize (place : Place) : Int := place.valEnd - (place.keyEnd + 2 : Nat)

/-- The last byte is dropped if it is CR. -/
def trimCr (serverKey : EcoString) : Outcome Empty EcoString := do
  let last ← serverKey.get (serverKey.size - 1).toNat
  if last = cr then serverKey.resize (serverKey.size - 1) else .ok serverKey

/-- What is done with the key once it was found. -/
def takeKey (place : Place) (websocketReq : Bool) : Outcome Empty EcoString := do
  let serverKey ← asign (place.data.drop (place.keyEnd + 2)) (UInt32.ofInt place.valueSize)
  let serverKey ← trimCr serverKey
  if websocketReq then serverKey.append magicKey else .ok serverKey

/-- `parse_key`: the key, if true is returned. -/
def parseKey (request : List UInt8) (websocketReq : Bool) : Outcome Empty (Option EcoString) :=
  match locate (keyName websocketReq) request with
  | none => .ok none
  | some place => do
      let serverKey ← takeKey place websocketReq
      .ok (some serverKey)

end Cube.Eco.Net.WebSocketShakeHand

/-! # Which key is taken

The lines of a shake-hand end with LF, but the last one may not have ended. A line with a colon is a
header: a name, and behind the colon a value.
-/

namespace Cube.Eco.Net.WebSocketShakeHand

/-- A header line. -/
@[ext] structure Header where
  name : List UInt8
  rest : List UInt8
  plain : colon ∉ name
  deriving DecidableEq

/-- A text without the CR at its end. -/
def dropCr (text : List UInt8) : List UInt8 :=
  if text.getLast? = some cr then text.dropLast else text

namespace Header

def line (header : Header) : List UInt8 := header.name ++ colon :: header.rest

/-- What stands behind the colon and one space, up to the end without CR. -/
def value (header : Header) : List UInt8 :=
  dropCr (if header.rest.head? = some 32 then header.rest.tail else header.rest)

/-- The header that a line is, if it is one. -/
def ofLine (line : List UInt8) : Option Header :=
  if colon ∈ line then
    some {
      name := line.takeWhile (· != colon)
      rest := (line.dropWhile (· != colon)).tail
      plain := by
        intro member
        have differs : (colon != colon) = true := List.mem_takeWhile_imp (p := (· != colon)) member
        exact Bool.false_ne_true differs }
  else none

theorem ofLine_line (header : Header) : ofLine header.line = some header := by
  have before : ∀ b ∈ header.name, (b != colon) = true := by
    intro b member
    exact bne_iff_ne.mpr fun same => header.plain (same ▸ member)
  have stop : ¬ (colon != colon) = true := by decide
  rw [ofLine, if_pos (by simp [line])]
  refine congrArg some (Header.ext ?_ ?_)
  · change header.line.takeWhile _ = header.name
    rw [line, List.takeWhile_append_of_pos before, List.takeWhile_cons_of_neg (by exact stop),
      List.append_nil]
  · change (header.line.dropWhile _).tail = header.rest
    rw [line, List.dropWhile_append_of_pos before, List.dropWhile_cons_of_neg (by exact stop), List.tail_cons]

theorem ofLine_of_not_mem {line : List UInt8} (plain : colon ∉ line) : ofLine line = none :=
  if_neg plain

/-- Every line is a header, or has no colon. -/
theorem line_cases (line : List UInt8) : colon ∉ line ∨ ∃ header : Header, line = header.line := by
  by_cases member : colon ∈ line
  · obtain ⟨name, rest, same, plain⟩ := List.eq_append_cons_of_mem member
    exact .inr ⟨⟨name, rest, plain⟩, same⟩
  · exact .inl member

end Header

/-! ## The lines of a text -/

/-- The lines of a text, and behind them what has not ended with LF. -/
def lines (text : List UInt8) : List (List UInt8) := text.splitOn lf

def headers (text : List UInt8) : List Header := (lines text).filterMap Header.ofLine

/-- The headers of the lines that have ended. -/
def endedHeaders (text : List UInt8) : List Header :=
  (lines text).dropLast.filterMap Header.ofLine

/-- The first header of a line that has ended whose name contains that of the key. -/
def firstMention (keyName text : List UInt8) : Option Header :=
  (endedHeaders text).find? fun header => keyName <:+: header.name

theorem lines_append {line : List UInt8} (whole : lf ∉ line) (text : List UInt8) :
    lines (line ++ lf :: text) = line :: lines text :=
  List.splitOn_append_cons_self_of_not_mem whole text

theorem endedHeaders_append {line : List UInt8} (whole : lf ∉ line) (text : List UInt8) :
    endedHeaders (line ++ lf :: text) = (Header.ofLine line).toList ++ endedHeaders text := by
  have nonempty : lines text ≠ [] := List.splitOn_ne_nil lf text
  rw [endedHeaders, lines_append whole, List.dropLast_cons_of_ne_nil nonempty, List.filterMap_cons]
  cases Header.ofLine line with
  | none => rfl
  | some header => rfl

theorem endedHeaders_of_not_mem {text : List UInt8} (unended : lf ∉ text) :
    endedHeaders text = [] := by
  rw [endedHeaders, lines, List.splitOn_eq_singleton unended]
  rfl

/-- A text is one line that has not ended, or a line and the rest of the text. -/
@[elab_as_elim]
theorem line_induction {motive : List UInt8 → Prop}
    (last : ∀ text, lf ∉ text → motive text)
    (line : ∀ line text, lf ∉ line → motive text → motive (line ++ lf :: text))
    (text : List UInt8) : motive text := by
  induction length : text.length using Nat.strongRecOn generalizing text with
  | _ _ ih =>
      by_cases ended : lf ∈ text
      · obtain ⟨front, back, rfl, whole⟩ := List.eq_append_cons_of_mem ended
        refine line front back whole (ih back.length ?_ back rfl)
        rw [← length, List.length_append, List.length_cons]
        omega
      · exact last text ended

/-! ## The search -/

variable {keyName : List UInt8}

theorem locate_of_not_mem {text : List UInt8} (unended : lf ∉ text) :
    locate keyName text = none := by
  rw [locate_eq, strchr_eq_none.mpr unended]
  cases strchr text colon with
  | none => rfl
  | some keyEnd => rfl

/-- A line without a colon is passed over. -/
theorem locate_plain {line : List UInt8} (whole : lf ∉ line) (plain : colon ∉ line)
    (text : List UInt8) : locate keyName (line ++ lf :: text) = locate keyName text := by
  have ended : line ++ lf :: text = (line ++ [lf]) ++ text := by
    rw [List.append_assoc, List.singleton_append]
  have length : (line ++ [lf]).length = line.length + 1 := by
    rw [List.length_append, List.length_singleton]
  have colons : strchr (line ++ lf :: text) colon =
      (strchr text colon).map (· + (line.length + 1)) := by
    have before : colon ∉ line ++ [lf] := by
      rw [List.mem_append, List.mem_singleton]
      exact not_or.mpr ⟨plain, by decide⟩
    rw [ended, strchr_append before, length]
  have next : (line ++ lf :: text).drop (line.length + 1) = text := by
    rw [ended]
    exact List.drop_left' length
  rw [locate_eq, locate_eq keyName text, colons, strchr_eq_some whole]
  cases strchr text colon with
  | none => rfl
  | some keyEnd =>
      simp only [Option.map_some, Option.bind_some]
      rw [passLines, if_pos (by omega), next, Nat.add_sub_cancel]
      cases strchr text lf with
      | none => rfl
      | some valEnd => rfl

/-- The place of a header in the text that begins with its line. -/
def Header.place (header : Header) (text : List UInt8) : Place where
  data := header.line ++ lf :: text
  keyEnd := header.name.length
  valEnd := header.line.length

/-- The key is looked for before the colon of a header. -/
theorem locate_header (nonzero : 0 ∉ keyName) {header : Header} (whole : lf ∉ header.line)
    (text : List UInt8) :
    locate keyName (header.line ++ lf :: text) =
      if keyName <:+: header.name then some (header.place text) else locate keyName text := by
  have colons : strchr (header.line ++ lf :: text) colon = some header.name.length := by
    rw [Header.line, List.append_assoc, List.cons_append]
    exact strchr_eq_some header.plain _
  have before : ¬ header.line.length < header.name.length := by
    rw [Header.line, List.length_append]
    omega
  have searched : (find (header.line ++ lf :: text) header.name.length keyName).isSome = true ↔
      keyName <:+: header.name := by
    rw [Header.line, List.append_assoc]
    exact find_isSome nonzero _ _
  have next : (header.line ++ lf :: text).drop (header.line.length + 1) = text := by
    rw [← List.singleton_append, ← List.append_assoc]
    exact List.drop_left' (by rw [List.length_append, List.length_singleton])
  rw [locate_eq, colons, strchr_eq_some whole, Option.bind_some, Option.bind_some, passLines,
    if_neg before, Option.bind_some]
  simp only [searched, next]
  rfl

/-- **The search.** The place found is that of the first header that mentions the key in a line that
has ended. -/
theorem locate_spec (nonzero : 0 ∉ keyName) (text : List UInt8) :
    ∃ rest, locate keyName text = (firstMention keyName text).map (·.place rest) := by
  induction text using line_induction with
  | last text unended =>
      refine ⟨[], ?_⟩
      rw [locate_of_not_mem unended, firstMention, endedHeaders_of_not_mem unended]
      rfl
  | line line text whole ih =>
      obtain ⟨rest, found⟩ := ih
      rcases Header.line_cases line with plain | ⟨header, rfl⟩
      · refine ⟨rest, ?_⟩
        rw [locate_plain whole plain, found, firstMention, firstMention,
          endedHeaders_append whole, Header.ofLine_of_not_mem plain]
        rfl
      · rw [locate_header nonzero whole, firstMention, endedHeaders_append whole,
          Header.ofLine_line]
        by_cases mentions : keyName <:+: header.name
        · refine ⟨text, ?_⟩
          rw [if_pos mentions, Option.toList_some, List.singleton_append,
            List.find?_cons_of_pos (by exact decide_eq_true mentions)]
          rfl
        · refine ⟨rest, ?_⟩
          rw [if_neg mentions, found, Option.toList_some, List.singleton_append,
            List.find?_cons_of_neg (by rwa [decide_eq_true_eq])]
          rfl

end Cube.Eco.Net.WebSocketShakeHand
