import Mathlib.Algebra.BigOperators.Group.List.Basic
import Mathlib.Algebra.GroupWithZero.Nat
import Cube.Lib.Decimal

/-! # JSON texts

The values that texts of bytes denote, and the texts of values in which nothing is escaped. Bytes
from 128 on are characters, or parts of characters, that stand for themselves. A number with a
fraction or an exponent is kept as it is written. The members of an object are kept in their order;
values that differ in that only are the same.
-/

open Decimal

inductive Json where
  | null
  | bool (value : Bool)
  | int (value : Int)
  | real (token : List UInt8)
  | string (text : List UInt8)
  | array (items : List Json)
  | object (members : List (List UInt8 × Json))

namespace Json

/-! ## Reading -/

def isSpace (c : UInt8) : Bool := c == 32 || c == 9 || c == 10 || c == 13

def skip (text : List UInt8) : List UInt8 := text.dropWhile isSpace

/-- A character of a string that is not escaped. -/
def isPlain (c : UInt8) : Bool := 32 ≤ c && c != 34 && c != 92

/-- The UTF-8 bytes of a character. -/
def utf8 (code : Nat) : List UInt8 :=
  if code < 0x80 then [UInt8.ofNat code]
  else if code < 0x800 then [UInt8.ofNat (0xC0 + code / 64), UInt8.ofNat (0x80 + code % 64)]
  else if code < 0x10000 then
    [UInt8.ofNat (0xE0 + code / 4096), UInt8.ofNat (0x80 + code / 64 % 64),
      UInt8.ofNat (0x80 + code % 64)]
  else
    [UInt8.ofNat (0xF0 + code / 262144), UInt8.ofNat (0x80 + code / 4096 % 64),
      UInt8.ofNat (0x80 + code / 64 % 64), UInt8.ofNat (0x80 + code % 64)]

def hexDigit (c : UInt8) : Option Nat :=
  if isDigit c then some (c.toNat - 48)
  else if 97 ≤ c && c ≤ 102 then some (c.toNat - 87)
  else if 65 ≤ c && c ≤ 70 then some (c.toNat - 55)
  else none

/-- Four hexadecimal digits. -/
def codeUnit : List UInt8 → Option (Nat × List UInt8)
  | a :: b :: c :: d :: rest => do
      let a ← hexDigit a
      let b ← hexDigit b
      let c ← hexDigit c
      let d ← hexDigit d
      some (((a * 16 + b) * 16 + c) * 16 + d, rest)
  | _ => none

/-- The second half of a pair of code units. -/
def lowUnit : List UInt8 → Option (Nat × List UInt8)
  | backslash :: u :: rest =>
      if backslash = 92 ∧ u = 117 then
        (codeUnit rest).bind fun low =>
          if 0xDC00 ≤ low.1 ∧ low.1 < 0xE000 then some low else none
      else none
  | _ => none

/-- A character by its number; half of a pair is none. -/
def unicode (text : List UInt8) : Option (List UInt8 × List UInt8) :=
  (codeUnit text).bind fun high =>
    if 0xD800 ≤ high.1 ∧ high.1 < 0xDC00 then
      (lowUnit high.2).map fun low =>
        (utf8 (0x10000 + (high.1 - 0xD800) * 0x400 + (low.1 - 0xDC00)), low.2)
    else if 0xDC00 ≤ high.1 ∧ high.1 < 0xE000 then none
    else some (utf8 high.1, high.2)

/-- What stands behind a backslash. -/
def escaped : List UInt8 → Option (List UInt8 × List UInt8)
  | [] => none
  | c :: rest =>
      if c = 34 ∨ c = 92 ∨ c = 47 then some ([c], rest)
      else if c = 98 then some ([8], rest)
      else if c = 102 then some ([12], rest)
      else if c = 110 then some ([10], rest)
      else if c = 114 then some ([13], rest)
      else if c = 116 then some ([9], rest)
      else if c = 117 then unicode rest
      else none

/-- The characters of a string up to the quote behind it. -/
def chars : Nat → List UInt8 → Option (List UInt8 × List UInt8)
  | 0, _ => none
  | _ + 1, [] => none
  | fuel + 1, c :: rest =>
      if c = 34 then some ([], rest)
      else if c = 92 then
        (escaped rest).bind fun first =>
          (chars fuel first.2).map fun more => (first.1 ++ more.1, more.2)
      else if c < 32 then none
      else (chars fuel rest).map fun more => (c :: more.1, more.2)

/-- Digits, at least one. -/
def someDigits (text : List UInt8) : Option (List UInt8) :=
  if text.takeWhile isDigit = [] then none else some (text.dropWhile isDigit)

def fraction (text : List UInt8) : Option (List UInt8) :=
  if text.head? = some 46 then someDigits text.tail else some text

def exponent (text : List UInt8) : Option (List UInt8) :=
  if text.head? = some 101 ∨ text.head? = some 69 then
    someDigits (if text.tail.head? = some 43 ∨ text.tail.head? = some 45 then text.tail.tail
      else text.tail)
  else some text

def number (text : List UInt8) : Option (Json × List UInt8) :=
  let unsigned := if text.head? = some 45 then text.tail else text
  let digits := unsigned.takeWhile isDigit
  let behind := unsigned.dropWhile isDigit
  if digits = [] ∨ (digits.head? = some 48 ∧ digits ≠ [48]) then none
  else
    ((fraction behind).bind exponent).map fun rest =>
      (if rest = behind then
        .int (if text.head? = some 45 then -digitsValue digits else digitsValue digits)
      else .real (text.take (text.length - rest.length)), rest)

/-- A name of a value. -/
def literal (name : List UInt8) (value : Json) (text : List UInt8) : Option (Json × List UInt8) :=
  if name.isPrefixOf text then some (value, text.drop name.length) else none

def trueName : List UInt8 := [116, 114, 117, 101]

def falseName : List UInt8 := [102, 97, 108, 115, 101]

def nullName : List UInt8 := [110, 117, 108, 108]

/-- A value that is neither a string nor has parts. -/
def scalar (text : List UInt8) : Option (Json × List UInt8) :=
  (literal trueName (.bool true) text).or <| (literal falseName (.bool false) text).or <|
    (literal nullName .null text).or <| number text

mutual

/-- A value at the start of a text, with what stands behind it. -/
def value : Nat → List UInt8 → Option (Json × List UInt8)
  | 0, _ => none
  | _ + 1, [] => none
  | fuel + 1, c :: rest =>
      if c = 34 then
        (chars (rest.length + 1) rest).map fun text => (.string text.1, text.2)
      else if c = 91 then
        if (skip rest).head? = some 93 then some (.array [], (skip rest).tail)
        else (items fuel (skip rest)).map fun items => (.array items.1, items.2)
      else if c = 123 then
        if (skip rest).head? = some 125 then some (.object [], (skip rest).tail)
        else (members fuel (skip rest)).map fun members => (.object members.1, members.2)
      else scalar (c :: rest)

/-- The elements of an array up to the bracket behind them. -/
def items : Nat → List UInt8 → Option (List Json × List UInt8)
  | 0, _ => none
  | fuel + 1, text =>
      (value fuel text).bind fun first =>
        match skip first.2 with
        | [] => none
        | c :: rest =>
            if c = 93 then some ([first.1], rest)
            else if c = 44 then
              (items fuel (skip rest)).map fun more => (first.1 :: more.1, more.2)
            else none

/-- The members of an object up to the brace behind them. -/
def members : Nat → List UInt8 → Option (List (List UInt8 × Json) × List UInt8)
  | 0, _ => none
  | _ + 1, [] => none
  | fuel + 1, quote :: text =>
      if quote = 34 then
        (chars (text.length + 1) text).bind fun key =>
          match skip key.2 with
          | [] => none
          | colon :: rest =>
              if colon = 58 then
                (value fuel (skip rest)).bind fun first =>
                  match skip first.2 with
                  | [] => none
                  | c :: rest =>
                      if c = 125 then some ([(key.1, first.1)], rest)
                      else if c = 44 then
                        (members fuel (skip rest)).map fun more =>
                          ((key.1, first.1) :: more.1, more.2)
                      else none
              else none
      else none

end

/-- The value that a text denotes, if it is well formed. -/
def parse (text : List UInt8) : Option Json :=
  (value (2 * text.length + 1) (skip text)).bind fun root =>
    if skip root.2 = [] then some root.1 else none

/-! ## Writing without escapes -/

mutual

/-- The text of a value in which nothing is escaped. -/
def raw : Json → List UInt8
  | null => nullName
  | bool value => if value then trueName else falseName
  | int value => (if value < 0 then [45] else []) ++ decimal value.natAbs
  | real token => token
  | string text => 34 :: text ++ [34]
  | array items => 91 :: rawItems true items ++ [93]
  | object members => 123 :: rawMembers true members ++ [125]

def rawItems : Bool → List Json → List UInt8
  | _, [] => []
  | first, item :: items => (if first then [] else [44]) ++ raw item ++ rawItems false items

def rawMembers : Bool → List (List UInt8 × Json) → List UInt8
  | _, [] => []
  | first, (key, item) :: members =>
      (if first then [] else [44]) ++ (34 :: key ++ [34, 58]) ++ raw item ++
        rawMembers false members

end

/-- Values without numbers that have a fraction or an exponent, in which every string and every key
is of a kind. -/
inductive Made (kind : List UInt8 → Prop) : Json → Prop where
  | null : Made kind null
  | bool (value : Bool) : Made kind (bool value)
  | int (value : Int) : Made kind (int value)
  | string {text : List UInt8} (good : kind text) : Made kind (string text)
  | array {items : List Json} (each : ∀ item ∈ items, Made kind item) : Made kind (array items)
  | object {members : List (List UInt8 × Json)} (keys : ∀ entry ∈ members, kind entry.1)
      (each : ∀ entry ∈ members, Made kind entry.2) : Made kind (object members)

/-- Nothing in the text has to be escaped. -/
def PlainText (text : List UInt8) : Prop := ∀ c ∈ text, isPlain c = true

/-- Values that are equal up to the order of the members of their objects. -/
inductive Same : Json → Json → Prop where
  | null : Same null null
  | bool (value : Bool) : Same (bool value) (bool value)
  | int (value : Int) : Same (int value) (int value)
  | real (token : List UInt8) : Same (real token) (real token)
  | string (text : List UInt8) : Same (string text) (string text)
  | array {items others : List Json} (length : items.length = others.length)
      (each : ∀ (i : Nat) (item other : Json), items[i]? = some item → others[i]? = some other →
        Same item other) : Same (array items) (array others)
  | object {members middle others : List (List UInt8 × Json)} (perm : members.Perm middle)
      (keys : middle.map Prod.fst = others.map Prod.fst)
      (each : ∀ (i : Nat) (entry other : List UInt8 × Json), middle[i]? = some entry →
        others[i]? = some other → Same entry.2 other.2) : Same (object members) (object others)

/-! ## No text is shorter than the one without escapes -/

/-- The text is at least so long in front of the rest, and something holds if it is no longer. -/
def Weighs (weight : Nat) (plain : Prop) (text rest : List UInt8) : Prop :=
  weight + rest.length ≤ text.length ∧ (text.length ≤ weight + rest.length → plain)

theorem length_skip (text : List UInt8) : (skip text).length ≤ text.length :=
  (List.dropWhile_suffix _).length_le

theorem length_codeUnit {text : List UInt8} {unit : Nat × List UInt8}
    (read : codeUnit text = some unit) : unit.2.length + 4 = text.length := by
  match text with
  | a :: b :: c :: d :: rest =>
      simp only [codeUnit, bind, Option.bind_eq_some_iff] at read
      obtain ⟨_, _, _, _, _, _, _, _, same⟩ := read
      rw [← Option.some.inj same]
      rfl
  | [] | [_] | [_, _] | [_, _, _] => exact absurd read nofun

theorem length_lowUnit {text : List UInt8} {unit : Nat × List UInt8}
    (read : lowUnit text = some unit) : unit.2.length + 6 = text.length := by
  match text with
  | [] | [_] => exact absurd read nofun
  | backslash :: u :: rest =>
      rw [lowUnit] at read
      split at read
      · obtain ⟨low, found, same⟩ := Option.bind_eq_some_iff.mp read
        split at same
        · obtain rfl := Option.some.inj same
          have four := length_codeUnit found
          simp only [List.length_cons]
          omega
        · exact absurd same nofun
      · exact absurd read nofun

theorem length_utf8_le (code : Nat) : (utf8 code).length ≤ 4 := by
  unfold utf8
  split_ifs <;> simp

theorem length_unicode {text : List UInt8} {char : List UInt8 × List UInt8}
    (read : unicode text = some char) : char.1.length + char.2.length ≤ text.length := by
  obtain ⟨high, found, same⟩ := Option.bind_eq_some_iff.mp read
  have four := length_codeUnit found
  split at same
  · obtain ⟨low, found', rfl⟩ := Option.map_eq_some_iff.mp same
    have six := length_lowUnit found'
    have bytes := length_utf8_le (0x10000 + (high.1 - 0xD800) * 0x400 + (low.1 - 0xDC00))
    dsimp only
    omega
  · split at same
    · exact absurd same nofun
    · obtain rfl := Option.some.inj same
      have bytes := length_utf8_le high.1
      dsimp only
      omega

/-- An escape is longer than what it stands for. -/
theorem length_escaped {text : List UInt8} {char : List UInt8 × List UInt8}
    (read : escaped text = some char) : char.1.length + char.2.length ≤ text.length := by
  cases text with
  | nil => exact absurd read nofun
  | cons c rest =>
      rw [escaped] at read
      split_ifs at read
      all_goals first
        | exact (length_unicode read).trans (Nat.le_succ _)
        | (obtain rfl := Option.some.inj read
           simp only [List.length_cons, List.length_nil]
           omega)

theorem weighs_chars {fuel : Nat} {text : List UInt8} {string : List UInt8 × List UInt8}
    (read : chars fuel text = some string) :
    Weighs (string.1.length + 1) (PlainText string.1) text string.2 := by
  induction fuel generalizing text string with
  | zero => exact absurd read nofun
  | succ fuel ih =>
      cases text with
      | nil => exact absurd read nofun
      | cons c rest =>
          rw [chars] at read
          split at read
          · obtain rfl := Option.some.inj read
            refine ⟨?_, fun _ => ?_⟩
            · simp only [List.length_cons, List.length_nil]
              omega
            · simp [PlainText]
          · split at read
            · obtain ⟨first, found, more⟩ := Option.bind_eq_some_iff.mp read
              obtain ⟨behind, found', rfl⟩ := Option.map_eq_some_iff.mp more
              have front := length_escaped found
              have back := (ih found').1
              refine ⟨?_, fun short => ?_⟩
              · simp only [List.length_append, List.length_cons]
                omega
              · simp only [List.length_append, List.length_cons] at short
                omega
            · split at read
              · exact absurd read nofun
              · rename_i quote backslash control
                obtain ⟨behind, found, rfl⟩ := Option.map_eq_some_iff.mp read
                obtain ⟨weight, plain⟩ := ih found
                refine ⟨?_, fun short => ?_⟩
                · simp only [List.length_cons]
                  omega
                · refine List.forall_mem_cons.mpr ⟨?_, plain ?_⟩
                  · simpa [isPlain, quote, backslash] using control
                  · simp only [List.length_cons] at short
                    omega

theorem length_someDigits {text rest : List UInt8} (read : someDigits text = some rest) :
    rest.length ≤ text.length := by
  rw [someDigits] at read
  split at read
  · exact absurd read nofun
  · rw [← Option.some.inj read]
    exact (List.dropWhile_suffix _).length_le

theorem length_fraction {text rest : List UInt8} (read : fraction text = some rest) :
    rest.length ≤ text.length := by
  rw [fraction] at read
  split at read
  · exact (length_someDigits read).trans (List.tail_suffix _).length_le
  · rw [Option.some.inj read]

theorem length_exponent {text rest : List UInt8} (read : exponent text = some rest) :
    rest.length ≤ text.length := by
  rw [exponent] at read
  split at read
  · refine (length_someDigits read).trans ?_
    split
    · exact ((List.tail_suffix _).trans (List.tail_suffix _)).length_le
    · exact (List.tail_suffix _).length_le
  · rw [Option.some.inj read]

/-- A value reads the text at least as long as it is without escapes. -/
def Measured (value : Json) (text rest : List UInt8) : Prop :=
  Weighs (raw value).length (Made (fun _ => True) value → Made PlainText value) text rest

theorem measured_number {text : List UInt8} {read : Json × List UInt8}
    (found : number text = some read) : Measured read.1 text read.2 := by
  have unsigned_le : (if text.head? = some 45 then text.tail else text).length +
      (if text.head? = some 45 then 1 else 0) = text.length := by
    cases text with
    | nil => rfl
    | cons c text => split <;> simp
  generalize unsigned_eq : (if text.head? = some 45 then text.tail else text) = unsigned
    at found unsigned_le
  have whole := congrArg List.length (List.takeWhile_append_dropWhile (p := isDigit) (l := unsigned))
  rw [List.length_append] at whole
  simp only [number, unsigned_eq] at found
  split at found
  · exact absurd found nofun
  · rename_i digits
    rw [not_or] at digits
    obtain ⟨rest, behind, rfl⟩ := Option.map_eq_some_iff.mp found
    obtain ⟨middle, first, second⟩ := Option.bind_eq_some_iff.mp behind
    have shorter := (length_exponent second).trans (length_fraction first)
    dsimp only
    split
    · rename_i same
      subst same
      refine ⟨?_, fun _ _ => .int _⟩
      have plain : ∀ c ∈ unsigned.takeWhile isDigit, isDigit c = true :=
        List.all_eq_true.mp List.all_takeWhile
      have least := length_decimal_le digits.1 plain
      have written : (raw (.int (if text.head? = some 45 then -digitsValue (unsigned.takeWhile isDigit)
          else digitsValue (unsigned.takeWhile isDigit)))).length ≤
            (unsigned.takeWhile isDigit).length + if text.head? = some 45 then 1 else 0 := by
        rw [raw, List.length_append]
        split_ifs <;> simp <;> omega
      omega
    · refine ⟨?_, fun _ made => nomatch made⟩
      rw [raw, List.length_take]
      omega

theorem measured_literal {name text : List UInt8} {named : Json} {read : Json × List UInt8}
    (written : raw named = name) (made : Made PlainText named)
    (found : literal name named text = some read) : Measured read.1 text read.2 := by
  rw [literal] at found
  split at found
  · rename_i starts
    obtain rfl := Option.some.inj found
    have front := (List.isPrefixOf_iff_prefix.mp starts).length_le
    refine ⟨?_, fun _ _ => made⟩
    rw [written, List.length_drop]
    omega
  · exact absurd found nofun

theorem measured_scalar {text : List UInt8} {read : Json × List UInt8}
    (found : scalar text = some read) : Measured read.1 text read.2 := by
  simp only [scalar, Option.or_eq_some_iff] at found
  rcases found with yes | ⟨_, no | ⟨_, none | ⟨_, other⟩⟩⟩
  · exact measured_literal rfl (.bool true) yes
  · exact measured_literal rfl (.bool false) no
  · exact measured_literal rfl .null none
  · exact measured_number other

theorem length_rawItems_true (items : List Json) :
    (rawItems true items).length = (rawItems false items).length - 1 := by
  cases items <;> simp [rawItems]

theorem length_rawMembers_true (members : List (List UInt8 × Json)) :
    (rawMembers true members).length = (rawMembers false members).length - 1 := by
  cases members <;> simp [rawMembers]

/-- What is left behind the blanks in front of a character. -/
theorem length_of_skip {text rest : List UInt8} {c : UInt8} (left : skip text = c :: rest) :
    rest.length + 1 ≤ text.length := by
  have shorter := length_skip text
  rw [left] at shorter
  exact shorter

def ValueMeasured (fuel : Nat) : Prop :=
  ∀ text read, value fuel text = some read → Measured read.1 text read.2

def ItemsMeasured (fuel : Nat) : Prop :=
  ∀ text read, items fuel text = some read →
    Weighs ((rawItems true read.1).length + 1)
      ((∀ item ∈ read.1, Made (fun _ => True) item) → ∀ item ∈ read.1, Made PlainText item)
      text read.2

def MembersMeasured (fuel : Nat) : Prop :=
  ∀ text read, members fuel text = some read →
    Weighs ((rawMembers true read.1).length + 1)
      ((∀ entry ∈ read.1, Made (fun _ => True) entry.2) →
        (∀ entry ∈ read.1, PlainText entry.1) ∧ ∀ entry ∈ read.1, Made PlainText entry.2)
      text read.2

theorem measured_string {fuel : Nat} {c : UInt8} {rest : List UInt8}
    {string : List UInt8 × List UInt8} (inside : chars fuel rest = some string) :
    Measured (.string string.1) (c :: rest) string.2 := by
  obtain ⟨weight, plain⟩ := weighs_chars inside
  refine ⟨?_, fun short _ => .string (plain ?_)⟩
  · simp only [raw, List.length_append, List.length_cons, List.length_nil]
    omega
  · simp only [raw, List.length_append, List.length_cons, List.length_nil] at short
    omega

/-- An array or object without parts, with the bracket that closes it. -/
theorem measured_closed {empty : Json} {c close : UInt8} {rest : List UInt8}
    (two : (raw empty).length = 2) (made : Made PlainText empty)
    (closes : (skip rest).head? = some close) : Measured empty (c :: rest) (skip rest).tail := by
  obtain ⟨behind, left⟩ := List.head?_eq_some_iff.mp closes
  have shorter := length_skip rest
  refine ⟨?_, fun _ _ => made⟩
  rw [left] at shorter ⊢
  simp only [two, List.length_cons, List.tail_cons] at shorter ⊢
  omega

theorem measured_array {fuel : Nat} (ih_items : ItemsMeasured fuel) {c : UInt8}
    {rest : List UInt8} {elements : List Json × List UInt8}
    (inside : items fuel (skip rest) = some elements) :
    Measured (.array elements.1) (c :: rest) elements.2 := by
  have shorter := length_skip rest
  obtain ⟨weight, plain⟩ := ih_items _ _ inside
  refine ⟨?_, fun short made => ?_⟩
  · simp only [raw, List.length_append, List.length_cons, List.length_nil]
    omega
  · cases made with
    | array each =>
        simp only [raw, List.length_append, List.length_cons, List.length_nil] at short
        exact .array (plain (by omega) each)

theorem measured_object {fuel : Nat} (ih_members : MembersMeasured fuel) {c : UInt8}
    {rest : List UInt8} {entries : List (List UInt8 × Json) × List UInt8}
    (inside : members fuel (skip rest) = some entries) :
    Measured (.object entries.1) (c :: rest) entries.2 := by
  have shorter := length_skip rest
  obtain ⟨weight, plain⟩ := ih_members _ _ inside
  refine ⟨?_, fun short made => ?_⟩
  · simp only [raw, List.length_append, List.length_cons, List.length_nil]
    omega
  · cases made with
    | object keys each =>
        simp only [raw, List.length_append, List.length_cons, List.length_nil] at short
        have both := plain (by omega) each
        exact .object both.1 both.2

theorem measured_value {fuel : Nat} (ih_items : ItemsMeasured fuel)
    (ih_members : MembersMeasured fuel) : ValueMeasured (fuel + 1) := by
  intro text read found
  cases text with
  | nil => exact absurd found nofun
  | cons c rest =>
      rw [value] at found
      split at found
      · obtain ⟨string, inside, rfl⟩ := Option.map_eq_some_iff.mp found
        exact measured_string inside
      · split at found
        · split at found
          · rename_i closes
            obtain rfl := Option.some.inj found
            exact measured_closed rfl (.array (by simp)) closes
          · obtain ⟨elements, inside, rfl⟩ := Option.map_eq_some_iff.mp found
            exact measured_array ih_items inside
        · split at found
          · split at found
            · rename_i closes
              obtain rfl := Option.some.inj found
              exact measured_closed rfl (.object (by simp) (by simp)) closes
            · obtain ⟨entries, inside, rfl⟩ := Option.map_eq_some_iff.mp found
              exact measured_object ih_members inside
          · exact measured_scalar found

theorem weighs_items {fuel : Nat} (ih_value : ValueMeasured fuel)
    (ih_items : ItemsMeasured fuel) : ItemsMeasured (fuel + 1) := by
  intro text read found
  rw [items] at found
  obtain ⟨first, found, more⟩ := Option.bind_eq_some_iff.mp found
  obtain ⟨weight, plain⟩ := ih_value _ _ found
  split at more
  · exact absurd more nofun
  · rename_i c rest left
    have closer := length_of_skip left
    split at more
    · obtain rfl := Option.some.inj more
      refine ⟨?_, fun short made => ?_⟩
      · simp only [rawItems, List.length_append, List.length_nil, if_true]
        omega
      · simp only [rawItems, List.length_append, List.length_nil, if_true] at short
        simpa using plain (by omega) (made first.1 (by simp))
    · split at more
      · obtain ⟨others, found', rfl⟩ := Option.map_eq_some_iff.mp more
        obtain ⟨weight', plain'⟩ := ih_items _ _ found'
        have shorter := length_skip rest
        have comma := length_rawItems_true others.1
        refine ⟨?_, fun short made => ?_⟩
        · simp only [rawItems, List.length_append, List.length_nil, if_true]
          omega
        · simp only [rawItems, List.length_append, List.length_nil, if_true] at short
          obtain ⟨one, each⟩ := List.forall_mem_cons.mp made
          exact List.forall_mem_cons.mpr ⟨plain (by omega) one, plain' (by omega) each⟩
      · exact absurd more nofun

/-- The members that are read: a key, a value, and the brace or a comma with others behind it. -/
theorem members_cases {fuel : Nat} {text : List UInt8}
    {read : List (List UInt8 × Json) × List UInt8} (found : members (fuel + 1) text = some read) :
    ∃ inside key behind first c last, text = 34 :: inside ∧
      chars (inside.length + 1) inside = some key ∧ skip key.2 = 58 :: behind ∧
      value fuel (skip behind) = some first ∧ skip first.2 = c :: last ∧
      (read = ([(key.1, first.1)], last) ∨
        ∃ others, members fuel (skip last) = some others ∧
          read = ((key.1, first.1) :: others.1, others.2)) := by
  cases text with
  | nil => exact absurd found nofun
  | cons quote inside =>
      rw [members] at found
      split at found
      · rename_i isQuote
        obtain ⟨key, named, rest⟩ := Option.bind_eq_some_iff.mp found
        split at rest
        · exact absurd rest nofun
        · rename_i colon behind left
          split at rest
          · rename_i isColon
            obtain ⟨first, read_first, more⟩ := Option.bind_eq_some_iff.mp rest
            split at more
            · exact absurd more nofun
            · rename_i c last left'
              refine ⟨inside, key, behind, first, c, last, by rw [isQuote], named,
                by rw [left, isColon], read_first, left', ?_⟩
              split at more
              · exact .inl (Option.some.inj more).symm
              · split at more
                · obtain ⟨others, read_others, same⟩ := Option.map_eq_some_iff.mp more
                  exact .inr ⟨others, read_others, same.symm⟩
                · exact absurd more nofun
          · exact absurd rest nofun
      · exact absurd found nofun

theorem weighs_members {fuel : Nat} (ih_value : ValueMeasured fuel)
    (ih_members : MembersMeasured fuel) : MembersMeasured (fuel + 1) := by
  intro text read found
  obtain ⟨inside, key, behind, first, c, last, rfl, named, colon, read_first, left, ends⟩ :=
    members_cases found
  obtain ⟨key_weight, key_plain⟩ := weighs_chars named
  obtain ⟨weight, plain⟩ := ih_value _ _ read_first
  have colon_closer := length_of_skip colon
  have shorter := length_skip behind
  have closer := length_of_skip left
  rcases ends with rfl | ⟨others, read_others, rfl⟩
  · refine ⟨?_, fun short made => ?_⟩
    · simp only [rawMembers, List.length_append, List.length_cons, List.length_nil, if_true]
      omega
    · simp only [rawMembers, List.length_append, List.length_cons, List.length_nil,
        if_true] at short
      have one := plain (by omega) (made (key.1, first.1) (by simp))
      exact ⟨by simpa using key_plain (by omega), by simpa using one⟩
  · obtain ⟨weight', plain'⟩ := ih_members _ _ read_others
    have shorter' := length_skip last
    have comma := length_rawMembers_true others.1
    refine ⟨?_, fun short made => ?_⟩
    · simp only [rawMembers, List.length_append, List.length_cons, List.length_nil, if_true]
      omega
    · simp only [rawMembers, List.length_append, List.length_cons, List.length_nil,
        if_true] at short
      obtain ⟨one, each⟩ := List.forall_mem_cons.mp made
      obtain ⟨keys, values⟩ := plain' (by omega) each
      exact ⟨List.forall_mem_cons.mpr ⟨key_plain (by omega), keys⟩,
        List.forall_mem_cons.mpr ⟨plain (by omega) one, values⟩⟩

/-- **The weight of a text.** No text of a value is shorter than the one without escapes, and none of
the same length has an escape. -/
theorem measured (fuel : Nat) :
    ValueMeasured fuel ∧ ItemsMeasured fuel ∧ MembersMeasured fuel := by
  induction fuel with
  | zero => exact ⟨nofun, nofun, nofun⟩
  | succ fuel ih =>
      obtain ⟨ih_value, ih_items, ih_members⟩ := ih
      exact ⟨measured_value ih_items ih_members, weighs_items ih_value ih_items,
        weighs_members ih_value ih_members⟩

theorem plain_of_parse {text : List UInt8} {root : Json} (read : parse text = some root)
    (made : Made (fun _ => True) root) (short : text.length ≤ (raw root).length) :
    Made PlainText root := by
  obtain ⟨found, value, same⟩ := Option.bind_eq_some_iff.mp read
  split at same
  · obtain rfl := Option.some.inj same
    have shorter := length_skip text
    exact ((measured _).1 _ _ value).2 (by omega) made
  · exact absurd same nofun

/-! ## Texts without escapes are read as they are -/

/-- No number goes on here. -/
def Ends (rest : List UInt8) : Prop :=
  ∀ c ∈ rest.head?, isDigit c = false ∧ c ≠ 46 ∧ c ≠ 101 ∧ c ≠ 69

theorem skip_of_head {c : UInt8} (solid : isSpace c = false) (text : List UInt8) :
    skip (c :: text) = c :: text := List.dropWhile_cons_of_neg (by simp [solid])

theorem chars_plain {string : List UInt8} (plain : PlainText string) {fuel : Nat}
    (enough : string.length < fuel) (rest : List UInt8) :
    chars fuel (string ++ 34 :: rest) = some (string, rest) := by
  induction string generalizing fuel with
  | nil =>
      obtain ⟨fuel, rfl⟩ := Nat.exists_eq_add_one_of_ne_zero (Nat.ne_of_gt enough)
      simp [chars]
  | cons c string ih =>
      obtain ⟨first, behind⟩ := List.forall_mem_cons.mp plain
      obtain ⟨fuel, rfl⟩ := Nat.exists_eq_add_one_of_ne_zero (Nat.ne_of_gt (Nat.zero_lt_of_lt enough))
      obtain ⟨control, quote, backslash⟩ : ¬ c < 32 ∧ c ≠ 34 ∧ c ≠ 92 := by
        simpa [isPlain, and_assoc] using first
      rw [List.cons_append, chars, if_neg quote, if_neg backslash, if_neg control,
        ih behind (Nat.lt_of_succ_lt_succ enough)]
      rfl

/-- Digits are read up to what may end a number. -/
theorem Ends.split_digits {front rest : List UInt8} (ends : Ends rest)
    (plain : ∀ c ∈ front, isDigit c = true) :
    (front ++ rest).takeWhile isDigit = front ∧ (front ++ rest).dropWhile isDigit = rest := by
  rw [List.takeWhile_append_of_pos plain, List.dropWhile_append_of_pos plain]
  cases rest with
  | nil => exact ⟨List.append_nil front, rfl⟩
  | cons c rest =>
      have other : ¬ isDigit c = true := by simp [(ends c rfl).1]
      rw [List.takeWhile_cons_of_neg other, List.dropWhile_cons_of_neg other]
      exact ⟨List.append_nil front, rfl⟩

/-- What ends a number is neither a fraction nor an exponent. -/
theorem Ends.no_more {rest : List UInt8} (ends : Ends rest) :
    fraction rest = some rest ∧ exponent rest = some rest := by
  cases rest with
  | nil => exact ⟨rfl, rfl⟩
  | cons c rest =>
      obtain ⟨_, point, small, large⟩ := ends c rfl
      exact ⟨by simp [fraction, point], by simp [exponent, small, large]⟩

theorem number_int {n : Int} {rest : List UInt8} (ends : Ends rest) :
    number (raw (.int n) ++ rest) = some (.int n, rest) := by
  have plain := isDigit_decimal n.natAbs
  obtain ⟨digits, left⟩ := ends.split_digits plain
  have whole := ends.no_more
  have canonical : ¬ (decimal n.natAbs = [] ∨
      ((decimal n.natAbs).head? = some 48 ∧ decimal n.natAbs ≠ [48])) := by
    rintro (none | ⟨zero, more⟩)
    · exact decimal_ne_nil _ none
    · exact more (head_decimal zero)
  by_cases negative : n < 0
  · have minus : (-(n.natAbs : Int)) = n := by omega
    simp only [number, raw, if_pos negative, List.cons_append, List.nil_append, List.head?_cons,
      if_true, List.tail_cons, digits, left, if_neg canonical, whole.1, Option.bind_some, whole.2,
      Option.map_some, digitsValue_decimal, minus]
  · have plus : (n.natAbs : Int) = n := by omega
    obtain ⟨c, more, split⟩ := List.exists_cons_of_ne_nil (decimal_ne_nil n.natAbs)
    have head : (decimal n.natAbs ++ rest).head? ≠ some 45 := by
      have first := isDigit_iff.mp (plain c (by simp [split]))
      rw [split]
      rintro ⟨⟩
      exact absurd first.1 (by decide)
    simp only [number, raw, if_neg negative, List.nil_append, if_neg head, digits, left,
      if_neg canonical, whole.1, Option.bind_some, whole.2, Option.map_some, if_true,
      digitsValue_decimal, plus]

/-- The first character of a text without escapes. -/
theorem head_raw {root : Json} (made : Made PlainText root) :
    ∃ c text, raw root = c :: text ∧ isSpace c = false ∧ c ≠ 93 := by
  cases made with
  | null => exact ⟨110, _, rfl, by decide, by decide⟩
  | bool flag =>
      cases flag with
      | false => exact ⟨102, _, rfl, by decide, by decide⟩
      | true => exact ⟨116, _, rfl, by decide, by decide⟩
  | int n =>
      rw [raw]
      split
      · exact ⟨45, _, rfl, by decide, by decide⟩
      · obtain ⟨c, more, split⟩ := List.exists_cons_of_ne_nil (decimal_ne_nil n.natAbs)
        obtain ⟨low, high⟩ := isDigit_iff.mp (isDigit_decimal n.natAbs c (by simp [split]))
        refine ⟨c, more, split, ?_, ?_⟩
        · simp only [isSpace, Bool.or_eq_false_iff, beq_eq_false_iff_ne, ne_eq, ← UInt8.toNat_inj]
          change ((¬ c.toNat = 32 ∧ ¬ c.toNat = 9) ∧ ¬ c.toNat = 10) ∧ ¬ c.toNat = 13
          omega
        · rintro rfl
          exact absurd high (by decide)
  | string => exact ⟨34, _, rfl, by decide, by decide⟩
  | array => exact ⟨91, _, rfl, by decide, by decide⟩
  | object => exact ⟨123, _, rfl, by decide, by decide⟩

theorem skip_raw {root : Json} (made : Made PlainText root) (rest : List UInt8) :
    skip (raw root ++ rest) = raw root ++ rest := by
  obtain ⟨c, text, split, solid, _⟩ := head_raw made
  rw [split, List.cons_append, skip_of_head solid]

/-- A value is read where there is fuel enough. -/
def Reads (root : Json) : Prop :=
  ∀ fuel rest, 2 * (raw root).length ≤ fuel → Ends rest →
    value fuel (raw root ++ rest) = some (root, rest)

theorem items_raw {first : Json} {others : List Json}
    (made : ∀ item ∈ first :: others, Made PlainText item)
    (reads : ∀ item ∈ first :: others, Reads item)
    {fuel : Nat} (enough : 2 * (rawItems true (first :: others)).length + 1 ≤ fuel)
    (rest : List UInt8) :
    items fuel (rawItems true (first :: others) ++ 93 :: rest) = some (first :: others, rest) := by
  induction others generalizing first fuel with
  | nil =>
      obtain ⟨fuel, rfl⟩ := Nat.exists_eq_add_one_of_ne_zero (by omega : fuel ≠ 0)
      have bracket : isSpace 93 = false := by decide
      have ends : Ends (93 :: rest) := by simp [Ends, isDigit]
      have single : rawItems true [first] = raw first := by simp [rawItems]
      rw [single] at enough ⊢
      rw [items, reads first List.mem_cons_self fuel _ (by omega) ends, Option.bind_some,
        skip_of_head bracket]
      rfl
  | cons second others ih =>
      obtain ⟨fuel, rfl⟩ := Nat.exists_eq_add_one_of_ne_zero (by omega : fuel ≠ 0)
      have more : rawItems true (first :: second :: others) =
          raw first ++ 44 :: rawItems true (second :: others) := by
        simp [rawItems]
      have comma : isSpace 44 = false := by decide
      have ends : Ends (44 :: (rawItems true (second :: others) ++ 93 :: rest)) := by
        simp [Ends, isDigit]
      have next : skip (rawItems true (second :: others) ++ 93 :: rest) =
          rawItems true (second :: others) ++ 93 :: rest := by
        have start := skip_raw (made second (by simp)) (rawItems false others ++ 93 :: rest)
        simpa [rawItems] using start
      rw [more] at enough ⊢
      simp only [List.length_append, List.length_cons] at enough
      rw [List.append_assoc, List.cons_append, items,
        reads first List.mem_cons_self fuel _ (by omega) ends, Option.bind_some, skip_of_head comma]
      dsimp only
      rw [if_neg (by decide), if_pos rfl, next,
        ih (fun item among => made item (List.mem_cons_of_mem _ among))
        (fun item among => reads item (List.mem_cons_of_mem _ among)) (by omega)]
      rfl

/-- A member up to what is behind it. -/
theorem member_raw {first : List UInt8 × Json} (key : PlainText first.1)
    (made : Made PlainText first.2) (reads : Reads first.2) {fuel : Nat} {c : UInt8}
    {tail : List UInt8} (enough : 2 * (raw first.2).length ≤ fuel) (ends : Ends (c :: tail))
    (solid : isSpace c = false) :
    members (fuel + 1) (34 :: (first.1 ++ 34 :: 58 :: (raw first.2 ++ c :: tail))) =
      if c = 125 then some ([first], tail)
      else if c = 44 then (members fuel (skip tail)).map fun more => (first :: more.1, more.2)
      else none := by
  have colon : isSpace 58 = false := by decide
  have named : chars ((first.1 ++ 34 :: 58 :: (raw first.2 ++ c :: tail)).length + 1)
      (first.1 ++ 34 :: 58 :: (raw first.2 ++ c :: tail)) =
        some (first.1, 58 :: (raw first.2 ++ c :: tail)) := by
    refine chars_plain key ?_ _
    simp only [List.length_append]
    omega
  rw [members, if_pos rfl, named]
  simp only [Option.bind_some, skip_of_head colon, if_true, skip_raw made,
    reads fuel _ enough ends, skip_of_head solid]

theorem members_raw {first : List UInt8 × Json} {others : List (List UInt8 × Json)}
    (keys : ∀ entry ∈ first :: others, PlainText entry.1)
    (made : ∀ entry ∈ first :: others, Made PlainText entry.2)
    (reads : ∀ entry ∈ first :: others, Reads entry.2) {fuel : Nat}
    (enough : 2 * (rawMembers true (first :: others)).length + 1 ≤ fuel) (rest : List UInt8) :
    members fuel (rawMembers true (first :: others) ++ 125 :: rest) =
      some (first :: others, rest) := by
  induction others generalizing first fuel with
  | nil =>
      obtain ⟨fuel, rfl⟩ := Nat.exists_eq_add_one_of_ne_zero (by omega : fuel ≠ 0)
      have ends : Ends (125 :: rest) := by simp [Ends, isDigit]
      have single : rawMembers true [first] = 34 :: (first.1 ++ 34 :: 58 :: raw first.2) := by
        simp [rawMembers]
      rw [single] at enough ⊢
      simp only [List.length_append, List.length_cons] at enough
      have read := member_raw (keys first (by simp)) (made first (by simp)) (reads first (by simp))
        (by omega : 2 * (raw first.2).length ≤ fuel) ends (by decide)
      simpa using read
  | cons second others ih =>
      obtain ⟨fuel, rfl⟩ := Nat.exists_eq_add_one_of_ne_zero (by omega : fuel ≠ 0)
      have more : rawMembers true (first :: second :: others) =
          34 :: (first.1 ++ 34 :: 58 :: (raw first.2 ++
            44 :: rawMembers true (second :: others))) := by
        simp [rawMembers]
      have ends : Ends (44 :: (rawMembers true (second :: others) ++ 125 :: rest)) := by
        simp [Ends, isDigit]
      have next : skip (rawMembers true (second :: others) ++ 125 :: rest) =
          rawMembers true (second :: others) ++ 125 :: rest := by
        have quote : isSpace 34 = false := by decide
        simp only [rawMembers, if_true, List.nil_append, List.cons_append, skip_of_head quote]
      rw [more] at enough ⊢
      simp only [List.length_append, List.length_cons] at enough
      have read := member_raw (keys first (by simp)) (made first (by simp)) (reads first (by simp))
        (by omega : 2 * (raw first.2).length ≤ fuel) ends (by decide)
      rw [if_neg (by decide), if_pos rfl, next,
        ih (fun entry among => keys entry (List.mem_cons_of_mem _ among))
          (fun entry among => made entry (List.mem_cons_of_mem _ among))
          (fun entry among => reads entry (List.mem_cons_of_mem _ among)) (by omega)] at read
      simpa using read

theorem value_scalar {fuel : Nat} {c : UInt8} {text : List UInt8}
    (other : c ≠ 34 ∧ c ≠ 91 ∧ c ≠ 123) : value (fuel + 1) (c :: text) = scalar (c :: text) := by
  obtain ⟨quote, bracket, brace⟩ := other
  rw [value, if_neg quote, if_neg bracket, if_neg brace]

theorem scalar_number {c : UInt8} {text : List UInt8} (other : c ≠ 116 ∧ c ≠ 102 ∧ c ≠ 110) :
    scalar (c :: text) = number (c :: text) := by
  obtain ⟨yes, no, none⟩ := other
  simp [scalar, literal, trueName, falseName, nullName, yes.symm, no.symm, none.symm]

theorem head_int (n : Int) : ∃ c text, raw (.int n) = c :: text ∧ (c = 45 ∨ isDigit c = true) := by
  rw [raw]
  split
  · exact ⟨45, _, rfl, Or.inl rfl⟩
  · obtain ⟨c, more, split⟩ := List.exists_cons_of_ne_nil (decimal_ne_nil n.natAbs)
    exact ⟨c, more, split, Or.inr (isDigit_decimal n.natAbs c (by simp [split]))⟩

/-- There is fuel for a value. -/
theorem exists_fuel {root : Json} (made : Made PlainText root) {fuel : Nat}
    (enough : 2 * (raw root).length ≤ fuel) : ∃ less, fuel = less + 1 := by
  obtain ⟨c, text, split, _⟩ := head_raw made
  refine Nat.exists_eq_add_one_of_ne_zero ?_
  rw [split, List.length_cons] at enough
  omega

theorem reads_null : Reads null := by
  intro fuel rest enough _
  obtain ⟨fuel, rfl⟩ := exists_fuel .null enough
  refine (value_scalar (by decide)).trans ?_
  simp [scalar, literal, trueName, falseName, nullName]

theorem reads_bool (flag : Bool) : Reads (.bool flag) := by
  intro fuel rest enough _
  obtain ⟨fuel, rfl⟩ := exists_fuel (.bool flag) enough
  cases flag with
  | false =>
      refine (value_scalar (by decide)).trans ?_
      simp [scalar, literal, trueName, falseName]
  | true =>
      refine (value_scalar (by decide)).trans ?_
      simp [scalar, literal, trueName]

theorem reads_int (n : Int) : Reads (.int n) := by
  intro fuel rest enough ends
  obtain ⟨fuel, rfl⟩ := exists_fuel (.int n) enough
  have read := number_int (n := n) ends
  obtain ⟨c, text, split, start⟩ := head_int n
  rw [split] at read ⊢
  have other : (c ≠ 34 ∧ c ≠ 91 ∧ c ≠ 123) ∧ c ≠ 116 ∧ c ≠ 102 ∧ c ≠ 110 := by
    rcases start with rfl | digit
    · decide
    · obtain ⟨low, high⟩ := isDigit_iff.mp digit
      simp only [ne_eq, ← UInt8.toNat_inj]
      change (¬ c.toNat = 34 ∧ ¬ c.toNat = 91 ∧ ¬ c.toNat = 123) ∧ ¬ c.toNat = 116 ∧
        ¬ c.toNat = 102 ∧ ¬ c.toNat = 110
      omega
  rw [List.cons_append] at read ⊢
  rw [value_scalar other.1, scalar_number other.2, read]

theorem reads_string {text : List UInt8} (plain : PlainText text) : Reads (.string text) := by
  intro fuel rest enough _
  obtain ⟨fuel, rfl⟩ := exists_fuel (.string plain) enough
  have whole : raw (.string text) ++ rest = 34 :: (text ++ 34 :: rest) := by simp [raw]
  have room : text.length < (text ++ 34 :: rest).length + 1 := by
    rw [List.length_append]
    omega
  rw [whole, value, if_pos rfl, chars_plain plain room]
  rfl

theorem reads_array {items : List Json} (made : ∀ item ∈ items, Made PlainText item)
    (reads : ∀ item ∈ items, Reads item) : Reads (.array items) := by
  intro fuel rest enough _
  obtain ⟨fuel, rfl⟩ := exists_fuel (.array made) enough
  have whole : raw (.array items) ++ rest = 91 :: (rawItems true items ++ 93 :: rest) := by
    simp [raw]
  rw [whole, value, if_neg (by decide), if_pos rfl]
  cases items with
  | nil =>
      have bracket : isSpace 93 = false := by decide
      rw [rawItems, List.nil_append, skip_of_head bracket]
      rfl
  | cons first others =>
      obtain ⟨c, text, split, solid, open_bracket⟩ := head_raw (made first (by simp))
      have start : rawItems true (first :: others) ++ 93 :: rest =
          c :: (text ++ (rawItems false others ++ 93 :: rest)) := by
        simp [rawItems, split]
      have enough' : 2 * (rawItems true (first :: others)).length + 1 ≤ fuel := by
        simp only [raw, List.length_append, List.length_cons] at enough
        omega
      have read := items_raw made reads enough' rest
      rw [start] at read ⊢
      rw [skip_of_head solid, if_neg (by simpa using open_bracket), read]
      rfl

theorem reads_object {entries : List (List UInt8 × Json)}
    (keys : ∀ entry ∈ entries, PlainText entry.1) (made : ∀ entry ∈ entries, Made PlainText entry.2)
    (reads : ∀ entry ∈ entries, Reads entry.2) : Reads (.object entries) := by
  intro fuel rest enough _
  obtain ⟨fuel, rfl⟩ := exists_fuel (.object keys made) enough
  have whole : raw (.object entries) ++ rest =
      123 :: (rawMembers true entries ++ 125 :: rest) := by
    simp [raw]
  rw [whole, value, if_neg (by decide), if_neg (by decide), if_pos rfl]
  cases entries with
  | nil =>
      have brace : isSpace 125 = false := by decide
      rw [rawMembers, List.nil_append, skip_of_head brace]
      rfl
  | cons first others =>
      have quote : isSpace 34 = false := by decide
      have start : rawMembers true (first :: others) ++ 125 :: rest =
          34 :: (first.1 ++ 34 :: 58 :: (raw first.2 ++ (rawMembers false others ++
            125 :: rest))) := by
        simp [rawMembers]
      have enough' : 2 * (rawMembers true (first :: others)).length + 1 ≤ fuel := by
        simp only [raw, List.length_append, List.length_cons] at enough
        omega
      have read := members_raw keys made reads enough' rest
      rw [start] at read ⊢
      rw [skip_of_head quote, if_neg (by simp), read]
      rfl

/-- **Texts without escapes** are read as they are. -/
theorem reads_raw {root : Json} (made : Made PlainText root) : Reads root := by
  induction made with
  | null => exact reads_null
  | bool flag => exact reads_bool flag
  | int n => exact reads_int n
  | string plain => exact reads_string plain
  | array each ih => exact reads_array each ih
  | object keys each ih => exact reads_object keys each ih

theorem parse_raw {root : Json} (made : Made PlainText root) : parse (raw root) = some root := by
  have read := reads_raw made (2 * (raw root).length + 1) [] (Nat.le_succ _) (by simp [Ends])
  have start := skip_raw made []
  rw [List.append_nil] at read start
  rw [parse, start, read]
  rfl

/-! ## The same values up to the order of members -/

section Pointwise

variable {α β γ : Type} {items : List α} {others : List β}

/-- Lists with the same images at each place have the same images. -/
theorem map_eq_of_each {f : α → γ} {g : β → γ} (length : items.length = others.length)
    (each : ∀ (i : Nat) (item : α) (other : β), items[i]? = some item → others[i]? = some other →
      f item = g other) : items.map f = others.map g := by
  refine List.ext_getElem (by simp [length]) fun i inside inside' => ?_
  rw [List.length_map] at inside inside'
  rw [List.getElem_map, List.getElem_map]
  exact each i _ _ (List.getElem?_eq_getElem inside) (List.getElem?_eq_getElem inside')

/-- What holds of each place of one list exactly if it holds of the other's. -/
theorem forall_mem_iff_of_each {P : α → Prop} {Q : β → Prop}
    (length : items.length = others.length)
    (each : ∀ (i : Nat) (item : α) (other : β), items[i]? = some item → others[i]? = some other →
      (P item ↔ Q other)) : (∀ item ∈ items, P item) ↔ ∀ other ∈ others, Q other := by
  constructor
  · intro all other member
    obtain ⟨i, inside, rfl⟩ := List.getElem_of_mem member
    have inside' : i < items.length := by omega
    exact (each i _ _ (List.getElem?_eq_getElem inside') (List.getElem?_eq_getElem inside)).mp
      (all _ (List.getElem_mem inside'))
  · intro all item member
    obtain ⟨i, inside, rfl⟩ := List.getElem_of_mem member
    have inside' : i < others.length := by omega
    exact (each i _ _ (List.getElem?_eq_getElem inside) (List.getElem?_eq_getElem inside')).mpr
      (all _ (List.getElem_mem inside'))

end Pointwise

theorem length_rawItems (items : List Json) :
    (rawItems false items).length = (items.map fun item => (raw item).length + 1).sum := by
  induction items with
  | nil => rfl
  | cons item items ih =>
      simp [rawItems, ih]
      omega

theorem length_rawMembers (members : List (List UInt8 × Json)) :
    (rawMembers false members).length =
      (members.map fun entry => entry.1.length + ((raw entry.2).length + 4)).sum := by
  induction members with
  | nil => rfl
  | cons entry members ih =>
      simp [rawMembers, ih]
      omega

/-- The order of members does not change the length of a text. -/
theorem Same.length_raw {root other : Json} (same : Same root other) :
    (raw root).length = (raw other).length := by
  induction same with
  | null | bool | int | real | string => rfl
  | array length each ih =>
      rename_i items others
      have elements : (rawItems false items).length = (rawItems false others).length := by
        rw [length_rawItems, length_rawItems]
        exact congrArg List.sum (map_eq_of_each length fun i item other found found' =>
          congrArg (· + 1) (ih i item other found found'))
      simp only [raw, List.length_append, List.length_cons, length_rawItems_true, elements]
  | object perm keys each ih =>
      rename_i members middle others
      have length : middle.length = others.length := by simpa using congrArg List.length keys
      have entries : (rawMembers false members).length = (rawMembers false others).length := by
        rw [length_rawMembers, length_rawMembers, (perm.map _).sum_eq]
        refine congrArg List.sum (map_eq_of_each length fun i entry other found found' => ?_)
        have key : entry.1 = other.1 := by
          have place := congrArg (fun keys => keys[i]?) keys
          simpa [found, found'] using place
        rw [key, ih i entry other found found']
      simp only [raw, List.length_append, List.length_cons, length_rawMembers_true, entries]

/-- The order of members does not change of which kind the strings are. -/
theorem Same.made_iff {kind : List UInt8 → Prop} {root other : Json} (same : Same root other) :
    Made kind root ↔ Made kind other := by
  induction same with
  | null | bool | int | real | string => exact Iff.rfl
  | array length each ih =>
      have elements := forall_mem_iff_of_each length ih
      exact ⟨fun | .array each => .array (elements.mp each),
        fun | .array each => .array (elements.mpr each)⟩
  | object perm keys each ih =>
      rename_i members middle others
      have length : middle.length = others.length := by simpa using congrArg List.length keys
      have entries := forall_mem_iff_of_each length ih
      have names : (∀ entry ∈ members, kind entry.1) ↔ ∀ entry ∈ others, kind entry.1 := by
        calc (∀ entry ∈ members, kind entry.1) ↔ ∀ entry ∈ middle, kind entry.1 := by
              simp only [perm.mem_iff]
          _ ↔ ∀ key ∈ middle.map Prod.fst, kind key := List.forall_mem_map.symm
          _ ↔ ∀ key ∈ others.map Prod.fst, kind key := by rw [keys]
          _ ↔ ∀ entry ∈ others, kind entry.1 := List.forall_mem_map
      have values : (∀ entry ∈ members, Made kind entry.2) ↔ ∀ entry ∈ middle, Made kind entry.2 := by
        simp only [perm.mem_iff]
      exact ⟨fun | .object keys each => .object (names.mp keys) (entries.mp (values.mp each)),
        fun | .object keys each => .object (names.mpr keys) (values.mpr (entries.mpr each))⟩

end Json
