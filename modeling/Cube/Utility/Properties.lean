import Mathlib.Data.List.TakeWhile
import Mathlib.Logic.Function.Basic
import Mathlib.Tactic.Common
import Cube.Lib.Outcome

/-! # Properties files

`properties`: a file is read line by line. A line is a group, a key with its value, blank or a
comment; a wrong one ends the program. The dictionary that values go to is a pointer, which the
constructors do not set.
-/

namespace Cube.Utility.Properties

/-- The program ends with `exit(1)`. -/
inductive Exit where
  | group
  | keyValue
  deriving DecidableEq, Repr

def backslash : UInt8 := 92

def isBlank (c : UInt8) : Bool := c == 32 || c == 9 || c == 13 || c == 10

/-! ## The parts of a line -/

/-- A part of a line as far as it is read, and the blanks behind that may belong to it. -/
structure Part where
  text : List UInt8
  whitespace : List UInt8
  deriving DecidableEq, Repr

namespace Part

def empty : Part := ⟨[], []⟩

def put (part : Part) (c : UInt8) : Part := ⟨part.text ++ part.whitespace ++ [c], []⟩

/-- A blank counts behind other characters only. -/
def blank (part : Part) (c : UInt8) : Part :=
  if part.text ≠ [] then ⟨part.text, part.whitespace ++ [c]⟩ else part

end Part

/-- The cases of the states for a character that does not end the part: what is read then, and the
line that is left. `escapes` are the characters that a backslash in front hides, where at least
`room` characters are left behind it. -/
def advance (room : Nat) (escapes : UInt8 → Bool) (part : Part) (c : UInt8) (line : List UInt8) :
    Part × List UInt8 :=
  if c = backslash then
    match line with
    | c' :: line' =>
        if room ≤ line.length then
          if escapes c' then (part.put c', line')
          else if c' = 32 then (part.blank c', line')
          else ((part.put backslash).put c', line')
        else (part.put c, line)
    | [] => (part.put c, line)
  else if isBlank c then (part.blank c, line)
  else (part.put c, line)

theorem length_advance (room : Nat) (escapes : UInt8 → Bool) (part : Part) (c : UInt8)
    (line : List UInt8) : (advance room escapes part c line).2.length ≤ line.length := by
  unfold advance
  split
  · cases line with
    | nil => exact Nat.le_refl _
    | cons c' line =>
        dsimp only
        split_ifs <;> simp
  · split_ifs <;> exact Nat.le_refl _

/-- A part up to the character that ends it, with the line behind. -/
def scanPart (room : Nat) (escapes ends : UInt8 → Bool) (part : Part) :
    List UInt8 → Part × Option (List UInt8)
  | [] => (part, none)
  | c :: line =>
      if ends c then (part, some line)
      else
        scanPart room escapes ends (advance room escapes part c line).1
          (advance room escapes part c line).2
termination_by line => line.length
decreasing_by exact Nat.lt_succ_of_le (length_advance ..)

def groupEscapes (c : UInt8) : Bool := c == backslash

def keyEscapes (c : UInt8) : Bool := c == backslash || c == 61

def valueEscapes (c : UInt8) : Bool := c == backslash

/-- The state `GROUP`. It hides a character where at least two are left. -/
def scanGroup : Part → List UInt8 → Part × Option (List UInt8) :=
  scanPart 2 groupEscapes (· == 93)

/-- The state `KEY`. -/
def scanKey : Part → List UInt8 → Part × Option (List UInt8) := scanPart 1 keyEscapes (· == 61)

/-- The state `VALUE`. -/
def scanValue : Part → List UInt8 → Part × Option (List UInt8) :=
  scanPart 1 valueEscapes fun _ => false

/-- What a line is. -/
inductive Parsed where
  | group (group : List UInt8)
  | properties (key value : List UInt8)
  deriving DecidableEq, Repr

/-- The loop of `parse_line`, and what it tests behind. -/
def parse (line : List UInt8) : Outcome Exit Parsed :=
  match line.dropWhile isBlank with
  | [] => return .properties [] []
  | c :: line =>
      if c = 35 then return .properties [] []
      else if c = 91 then
        match scanGroup .empty line with
        | (group, some _) => if group.text = [] then .reject .group else return .group group.text
        | (_, none) => .reject .group
      else
        match scanKey ⟨[c], []⟩ line with
        | (key, some line) =>
            if key.text = [] then .reject .keyValue
            else return .properties key.text (scanValue .empty line).1.text
        | (_, none) => .reject .keyValue

/-! ## The stored groups -/

/-- `properties_dict`, a map. -/
abbrev Dict := List UInt8 → Option (List UInt8)

end Properties

/-- The groups and the current one, if a group was read before. -/
@[ext] structure Properties where
  parameters : List UInt8 → Option Properties.Dict
  current : Option (List UInt8)
  current_mem : ∀ group ∈ current, (parameters group).isSome = true

namespace Properties

/-- A new object. -/
def new : Properties := ⟨fun _ => none, none, nofun⟩

def addGroup (self : Properties) (group : List UInt8) : Properties where
  parameters :=
    if (self.parameters group).isSome then self.parameters
    else Function.update self.parameters group (some fun _ => none)
  current := some group
  current_mem := by
    rintro _ ⟨⟩
    split
    · assumption
    · simp

/-- `insert`, which keeps the value of a key that is there. -/
def insert (dict : Dict) (key value : List UInt8) : Dict :=
  if (dict key).isSome then dict else Function.update dict key (some value)

/-- A value in the dictionary of a group. -/
def insertAt (self : Properties) (group key value : List UInt8) : Properties where
  parameters :=
    Function.update self.parameters group ((self.parameters group).map fun dict =>
      insert dict key value)
  current := self.current
  current_mem := by
    intro current among
    have some := self.current_mem current among
    by_cases same : current = group
    · subst same
      simpa using some
    · simpa [same] using some

/-- `add_properties`; without a group the pointer is not set. -/
def addProperties (self : Properties) (key value : List UInt8) : Outcome Exit Properties :=
  match self.current with
  | some group => return self.insertAt group key value
  | none => .fault

def parseLine (self : Properties) (line : List UInt8) : Outcome Exit Properties := do
  match ← parse line with
  | .group group => return self.addGroup group
  | .properties key value => self.addProperties key value

/-- The loop of `load` over the lines of a file. -/
def load (self : Properties) (lines : List (List UInt8)) : Outcome Exit Properties :=
  lines.foldlM parseLine self

/-! ## Lines -/

/-- A backslash in front of each character that has to be hidden. -/
def esc (escapes : UInt8 → Bool) (text : List UInt8) : List UInt8 :=
  text.flatMap fun c => if escapes c then [backslash, c] else [c]

/-- No blanks in front or behind. -/
structure Trimmed (text : List UInt8) : Prop where
  head : ∀ c ∈ text.head?, isBlank c = false
  last : ∀ c ∈ text.getLast?, isBlank c = false

def Blanks (text : List UInt8) : Prop := ∀ c ∈ text, isBlank c = true

/-- The lines that are to be accepted, with the blanks around their parts. -/
inductive Line where
  | group (b₀ b₁ name b₂ b₃ : List UInt8)
  | property (b₀ key b₁ b₂ value b₃ : List UInt8)
  | idle (b₀ comment : List UInt8)

namespace Line

def text : Line → List UInt8
  | group b₀ b₁ name b₂ b₃ => b₀ ++ 91 :: (b₁ ++ esc groupEscapes name ++ b₂) ++ 93 :: b₃
  | property b₀ key b₁ b₂ value b₃ =>
      b₀ ++ (esc keyEscapes key ++ b₁) ++ 61 :: (b₂ ++ esc valueEscapes value ++ b₃)
  | idle b₀ comment => b₀ ++ comment

def Valid : Line → Prop
  | group b₀ b₁ name b₂ b₃ =>
      Blanks b₀ ∧ Blanks b₁ ∧ Blanks b₂ ∧ Blanks b₃ ∧ name ≠ [] ∧ 93 ∉ name ∧ Trimmed name
  | property b₀ key b₁ b₂ value b₃ =>
      Blanks b₀ ∧ Blanks b₁ ∧ Blanks b₂ ∧ Blanks b₃ ∧ key ≠ [] ∧ key.head? ≠ some 35 ∧
        key.head? ≠ some 91 ∧ Trimmed key ∧ Trimmed value
  | idle b₀ comment => Blanks b₀ ∧ (comment = [] ∨ comment.head? = some 35)

/-- What a line is to be read as. -/
def Reads (line : Line) : Prop :=
  match line with
  | group _ _ name _ _ => parse line.text = .ok (.group name)
  | property _ key _ _ value _ => parse line.text = .ok (.properties key value)
  | idle _ _ => True

/-- What a line is to do: a value is stored only when there is a group. -/
def effect (self : Properties) : Line → Properties
  | group _ _ name _ _ => self.addGroup name
  | property _ key _ _ value _ =>
      match self.current with
      | some name => self.insertAt name key value
      | none => self
  | idle _ _ => self

def Right (self : Properties) (line : Line) : Prop :=
  line.Reads ∧ self.parseLine line.text = .ok (line.effect self)

/-- The key is read as it is: it does not start with `=`, and if it starts with backslashes, a space
follows them, which may be the one behind the key. -/
def KeyRead (key b₁ : List UInt8) : Prop :=
  if key.head? = some backslash then
    ((key ++ b₁).dropWhile (· == backslash)).head? = some 32
  else key.head? ≠ some 61

/-- The lines that do what they are to do, by the state before. -/
def Good (self : Properties) : Line → Prop
  | group _ _ _ _ _ => True
  | property _ key b₁ _ _ _ => self.current ≠ none ∧ KeyRead key b₁
  | idle _ _ =>
      ∃ name dict, self.current = some name ∧ self.parameters name = some dict ∧
        (dict []).isSome = true

/-- Every line of a file is good where it stands. -/
def AllGood : Properties → List Line → Prop
  | _, [] => True
  | self, line :: lines => line.Good self ∧ AllGood (line.effect self) lines

end Line

/-! ## Reading a part -/

namespace Part

/-- Everything read so far. -/
def all (part : Part) : List UInt8 := part.text ++ part.whitespace

/-- Characters that nothing hides and that hide nothing. -/
def feed (part : Part) (text : List UInt8) : Part :=
  text.foldl (fun part c => if isBlank c then part.blank c else part.put c) part

theorem feed_append (part : Part) (first second : List UInt8) :
    part.feed (first ++ second) = (part.feed first).feed second := List.foldl_append

theorem all_put (part : Part) (c : UInt8) : (part.put c).all = part.all ++ [c] := by
  simp [all, put]

theorem all_blank {part : Part} (some : part.text ≠ []) (c : UInt8) :
    (part.blank c).all = part.all ++ [c] := by
  simp [all, blank, some]

/-- Blanks in front of a part are passed over. -/
theorem feed_blanks {blanks : List UInt8} (space : Blanks blanks) : empty.feed blanks = empty := by
  induction blanks with
  | nil => rfl
  | cons c blanks ih =>
      obtain ⟨first, behind⟩ := List.forall_mem_cons.mp space
      rw [feed, List.foldl_cons, if_pos first]
      exact ih behind

/-- Blanks behind a part do not belong to it yet. -/
theorem text_feed_blanks (part : Part) {blanks : List UInt8} (space : Blanks blanks) :
    (part.feed blanks).text = part.text := by
  induction blanks generalizing part with
  | nil => rfl
  | cons c blanks ih =>
      obtain ⟨first, behind⟩ := List.forall_mem_cons.mp space
      rw [feed, List.foldl_cons, if_pos first, ← feed, ih _ behind, blank]
      split_ifs <;> rfl

theorem all_feed {part : Part} (some : part.text ≠ []) (text : List UInt8) :
    (part.feed text).all = part.all ++ text ∧ (part.feed text).text ≠ [] := by
  induction text generalizing part with
  | nil => exact ⟨(List.append_nil _).symm, some⟩
  | cons c text ih =>
      have step : ∀ next : Part, next.text ≠ [] → next.all = part.all ++ [c] →
          (next.feed text).all = part.all ++ c :: text ∧ (next.feed text).text ≠ [] := by
        intro next still same
        obtain ⟨whole, nonempty⟩ := ih still
        exact ⟨by rw [whole, same, List.append_assoc, List.singleton_append], nonempty⟩
      rw [feed, List.foldl_cons]
      by_cases space : isBlank c = true
      · rw [if_pos space]
        exact step _ (by simp [blank, some]) (all_blank some c)
      · rw [if_neg space]
        exact step _ (by simp [put]) (all_put part c)

/-- What is read ends with the last character that is no blank. -/
theorem text_feed {part : Part} (some : part.text ≠ []) {text : List UInt8}
    (last : ∀ c ∈ (part.all ++ text).getLast?, isBlank c = false)
    (closed : text = [] → part.whitespace = []) : (part.feed text).text = part.all ++ text := by
  rcases List.eq_nil_or_concat text with rfl | ⟨before, c, rfl⟩
  · simp [feed, all, closed rfl]
  · rw [List.concat_eq_append] at last ⊢
    have solid : isBlank c = false := last c (by simp)
    have whole := (all_feed some before).1
    rw [feed_append, ← List.append_assoc, ← whole]
    change (if isBlank c then _ else _ : Part).text = _
    rw [solid]
    rfl

/-- A trimmed text is read as it is. -/
theorem text_feed_trimmed {text : List UInt8} (trimmed : Trimmed text) :
    (empty.feed text).text = text := by
  cases text with
  | nil => rfl
  | cons c text =>
      have solid : isBlank c = false := trimmed.head c rfl
      have start : empty.feed (c :: text) = (empty.put c).feed text := by
        rw [feed, List.foldl_cons, solid]
        rfl
      rw [start, text_feed (by simp [put]) trimmed.last fun _ => rfl]
      rfl

/-- So it is between blanks. -/
theorem text_feed_between {before text behind : List UInt8} (space : Blanks before)
    (trimmed : Trimmed text) (space' : Blanks behind) :
    (empty.feed (before ++ text ++ behind)).text = text := by
  rw [feed_append, feed_append, feed_blanks space, text_feed_blanks _ space',
    text_feed_trimmed trimmed]

end Part

/-! ## Scanning escaped characters -/

section Scan

variable {room : Nat} {escapes ends : UInt8 → Bool}

theorem scanPart_nil (part : Part) : scanPart room escapes ends part [] = (part, none) := by
  rw [scanPart]

theorem scanPart_end {c : UInt8} (stop : ends c = true) (part : Part) (line : List UInt8) :
    scanPart room escapes ends part (c :: line) = (part, some line) := by
  rw [scanPart, if_pos stop]

theorem scanPart_cons {c : UInt8} (goes : ends c = false) (part : Part) (line : List UInt8) :
    scanPart room escapes ends part (c :: line) =
      scanPart room escapes ends (advance room escapes part c line).1
        (advance room escapes part c line).2 := by
  rw [scanPart, if_neg (by simp [goes])]

/-- The characters that are hidden: the backslash, and no blanks. -/
structure Hides (escapes : UInt8 → Bool) : Prop where
  backslash : escapes backslash = true
  solid : ∀ c, escapes c = true → isBlank c = false

/-- Escaped characters are read as they are. -/
theorem scanPart_esc (hides : Hides escapes) (goes : ends backslash = false) {text : List UInt8}
    (hidden : ∀ c ∈ text, ends c = true → escapes c = true) {line : List UInt8}
    (left : room ≤ line.length + 1) (part : Part) :
    scanPart room escapes ends part (esc escapes text ++ line) =
      scanPart room escapes ends (part.feed text) line := by
  induction text generalizing part with
  | nil => rfl
  | cons c text ih =>
      obtain ⟨first, behind⟩ := List.forall_mem_cons.mp hidden
      rw [esc, List.flatMap_cons, ← esc, List.append_assoc, Part.feed, List.foldl_cons, ← Part.feed]
      by_cases masked : escapes c = true
      · have enough : room ≤ (c :: (esc escapes text ++ line)).length := by
          simp only [List.length_cons, List.length_append]
          omega
        rw [if_pos masked, hides.solid c masked, List.cons_append, scanPart_cons goes]
        simp only [List.cons_append, List.nil_append, advance, if_true, if_pos enough, masked,
          Bool.false_eq_true, if_false]
        exact ih behind _
      · have plain : c ≠ backslash := fun same => masked (same ▸ hides.backslash)
        have inside : ends c = false := Bool.eq_false_iff.mpr fun stop => masked (first stop)
        rw [if_neg masked, List.singleton_append, scanPart_cons inside, ← ih behind]
        by_cases space : isBlank c = true
        · simp only [advance, if_neg plain, if_pos space]
        · simp only [advance, if_neg plain, if_neg space]

theorem esc_of_plain {text : List UInt8} (plain : ∀ c ∈ text, escapes c = false) :
    esc escapes text = text := by
  induction text with
  | nil => rfl
  | cons c text ih =>
      obtain ⟨first, behind⟩ := List.forall_mem_cons.mp plain
      rw [esc, List.flatMap_cons, ← esc, ih behind, first]
      rfl

theorem esc_append (first second : List UInt8) :
    esc escapes (first ++ second) = esc escapes first ++ esc escapes second :=
  List.flatMap_append

end Scan

theorem groupEscapes_hides : Hides groupEscapes where
  backslash := rfl
  solid := by
    intro c masked
    obtain rfl : c = backslash := by simpa [groupEscapes] using masked
    rfl

theorem keyEscapes_hides : Hides keyEscapes where
  backslash := rfl
  solid := by
    intro c masked
    rcases (by simpa [keyEscapes] using masked : c = backslash ∨ c = 61) with rfl | rfl <;> rfl

/-- Blanks around a part hide nothing. -/
theorem esc_between {escapes : UInt8 → Bool} (hides : Hides escapes) {before behind : List UInt8}
    (space : Blanks before) (space' : Blanks behind) (text : List UInt8) :
    before ++ esc escapes text ++ behind = esc escapes (before ++ text ++ behind) := by
  have plain : ∀ {blanks : List UInt8}, Blanks blanks → ∀ c ∈ blanks, escapes c = false := by
    intro blanks space c among
    have among_space := space c among
    exact Bool.eq_false_iff.mpr fun masked => by simp [hides.solid c masked] at among_space
  rw [esc_append, esc_append, esc_of_plain (plain space), esc_of_plain (plain space')]

/-! ## Lines of groups -/

theorem dropWhile_blanks {blanks : List UInt8} (space : Blanks blanks) {c : UInt8}
    (solid : isBlank c = false) (line : List UInt8) :
    (blanks ++ c :: line).dropWhile isBlank = c :: line := by
  rw [List.dropWhile_append_of_pos space, List.dropWhile_cons_of_neg (by simp [solid])]

theorem parse_group {b₀ b₁ name b₂ : List UInt8} (space₀ : Blanks b₀) (space₁ : Blanks b₁)
    (space₂ : Blanks b₂) (nonempty : name ≠ []) (plain : 93 ∉ name) (trimmed : Trimmed name)
    (b₃ : List UInt8) :
    parse (b₀ ++ 91 :: (b₁ ++ esc groupEscapes name ++ b₂) ++ 93 :: b₃) = .ok (.group name) := by
  have hidden : ∀ c ∈ b₁ ++ name ++ b₂, (c == 93) = true → groupEscapes c = true := by
    intro c among stop
    obtain rfl : c = 93 := by simpa using stop
    rcases List.mem_append.mp among with among | behind
    · rcases List.mem_append.mp among with before | inside
      · exact absurd (space₁ 93 before) (by decide)
      · exact absurd inside plain
    · exact absurd (space₂ 93 behind) (by decide)
  have scanned : scanGroup .empty (b₁ ++ esc groupEscapes name ++ b₂ ++ 93 :: b₃) =
      (Part.empty.feed (b₁ ++ name ++ b₂), some b₃) := by
    rw [esc_between groupEscapes_hides space₁ space₂, scanGroup,
      scanPart_esc groupEscapes_hides rfl hidden (by simp), scanPart_end rfl]
  have bracket : isBlank 91 = false := rfl
  rw [List.append_assoc, List.cons_append, parse, dropWhile_blanks space₀ bracket]
  simp only [scanned, Part.text_feed_between space₁ trimmed space₂, if_neg nonempty]
  rfl

/-! ## Lines of values -/

theorem scanValue_text {b₂ value b₃ : List UInt8} (space₂ : Blanks b₂) (trimmed : Trimmed value)
    (space₃ : Blanks b₃) :
    (scanValue .empty (b₂ ++ esc valueEscapes value ++ b₃)).1.text = value := by
  have same : valueEscapes = groupEscapes := rfl
  have scanned : scanPart 1 groupEscapes (fun _ => false) .empty
      (esc groupEscapes (b₂ ++ value ++ b₃) ++ []) =
        scanPart 1 groupEscapes (fun _ => false) (Part.empty.feed (b₂ ++ value ++ b₃)) [] :=
    scanPart_esc groupEscapes_hides rfl (by simp) (by simp) .empty
  rw [scanValue, same, esc_between groupEscapes_hides space₂ space₃, ← List.append_nil (esc _ _),
    scanned, scanPart_nil, Part.text_feed_between space₂ trimmed space₃]

/-- A key that starts with a character other than a mark. -/
theorem parse_key {b₀ line : List UInt8} (space : Blanks b₀) {c : UInt8}
    (solid : isBlank c = false) (comment : c ≠ 35) (bracket : c ≠ 91) :
    parse (b₀ ++ c :: line) =
      match scanKey ⟨[c], []⟩ line with
      | (key, some line) =>
          if key.text = [] then .reject .keyValue
          else .ok (.properties key.text (scanValue .empty line).1.text)
      | (_, none) => .reject .keyValue := by
  rw [parse, dropWhile_blanks space solid]
  simp only [if_neg comment, if_neg bracket, Outcome.pure_eq]

theorem parse_key_ok {b₀ line rest : List UInt8} (space : Blanks b₀) {c : UInt8}
    (solid : isBlank c = false) (comment : c ≠ 35) (bracket : c ≠ 91) {key : Part}
    (scanned : scanKey ⟨[c], []⟩ line = (key, some rest)) (some : key.text ≠ []) :
    parse (b₀ ++ c :: line) = .ok (.properties key.text (scanValue .empty rest).1.text) := by
  rw [parse_key space solid comment bracket, scanned]
  simp only [if_neg some]

theorem key_of_parse {b₀ line key value : List UInt8} (space : Blanks b₀) {c : UInt8}
    (solid : isBlank c = false) (comment : c ≠ 35) (bracket : c ≠ 91)
    (parsed : parse (b₀ ++ c :: line) = .ok (.properties key value)) :
    (scanKey ⟨[c], []⟩ line).1.text = key := by
  rw [parse_key space solid comment bracket] at parsed
  cases scanned : scanKey ⟨[c], []⟩ line with
  | mk part rest =>
      rw [scanned] at parsed
      cases rest with
      | none => exact absurd parsed nofun
      | some rest =>
          dsimp only at parsed
          split at parsed
          · exact absurd parsed nofun
          · exact (Parsed.properties.inj (Outcome.ok.inj parsed)).1

/-- What is read stays. -/
theorem prefix_scanPart {room : Nat} {escapes ends : UInt8 → Bool} (part : Part)
    (line : List UInt8) : part.text <+: (scanPart room escapes ends part line).1.text := by
  have put : ∀ (part : Part) (c : UInt8), part.text <+: (part.put c).text := fun part c =>
    ⟨part.whitespace ++ [c], by simp [Part.put]⟩
  have blank : ∀ (part : Part) (c : UInt8), part.text <+: (part.blank c).text := by
    intro part c
    rw [Part.blank]
    split_ifs <;> exact List.prefix_rfl
  have step : ∀ (part : Part) (c : UInt8) (line : List UInt8),
      part.text <+: (advance room escapes part c line).1.text := by
    intro part c line
    unfold advance
    split
    · cases line with
      | nil => exact put part c
      | cons c' line =>
          dsimp only
          split_ifs
          · exact put part c'
          · exact blank part c'
          · exact (put part backslash).trans (put _ c')
          · exact put part c
    · split_ifs
      · exact blank part c
      · exact put part c
  fun_induction scanPart room escapes ends part line with
  | case1 part => exact List.prefix_rfl
  | case2 part c line stop => exact List.prefix_rfl
  | case3 part c line goes ih => exact (step part c line).trans ih

/-! ## Keys -/

/-- A key behind its first character. -/
theorem scanKey_rest {part : Part} {text b₁ tail : List UInt8} (space : Blanks b₁) :
    scanKey part (esc keyEscapes text ++ b₁ ++ 61 :: tail) =
      (part.feed (text ++ b₁), some tail) := by
  have hidden : ∀ c ∈ text ++ b₁, (c == 61) = true → keyEscapes c = true := by
    intro c _ stop
    simp only [keyEscapes, stop, Bool.or_true]
  have none : Blanks [] := fun _ among => absurd among List.not_mem_nil
  have whole : esc keyEscapes text ++ b₁ = esc keyEscapes (text ++ b₁) :=
    esc_between keyEscapes_hides none space text
  rw [whole, scanKey, scanPart_esc keyEscapes_hides rfl hidden (by simp), scanPart_end rfl]

/-- A key whose first character is hidden by nothing is read as it is. -/
theorem scanKey_plain {c : UInt8} {key b₁ tail : List UInt8} (trimmed : Trimmed (c :: key))
    (space : Blanks b₁) :
    ∃ part, scanKey ⟨[c], []⟩ (esc keyEscapes key ++ b₁ ++ 61 :: tail) = (part, some tail) ∧
      part.text = c :: key := by
  refine ⟨_, scanKey_rest space, ?_⟩
  rw [Part.feed_append, Part.text_feed_blanks _ space,
    Part.text_feed (by simp) trimmed.last fun _ => rfl]
  rfl

/-- The first of some escaped backslashes is read as it stands, and the last one is left. -/
theorem esc_backslashes (n : Nat) :
    esc keyEscapes (.replicate (n + 1) backslash) =
      backslash :: (esc keyEscapes (.replicate n backslash) ++ [backslash]) := by
  induction n with
  | zero => rfl
  | succ n ih =>
      have more : esc keyEscapes (.replicate (n + 2) backslash) =
          backslash :: backslash :: esc keyEscapes (.replicate (n + 1) backslash) := rfl
      have once : esc keyEscapes (.replicate (n + 1) backslash) =
          backslash :: backslash :: esc keyEscapes (.replicate n backslash) := rfl
      rw [more]
      conv_lhs => rw [ih]
      conv_rhs => rw [once]
      rfl

theorem feed_backslashes (n : Nat) :
    Part.feed ⟨[backslash], []⟩ (.replicate n backslash) = ⟨.replicate (n + 1) backslash, []⟩ := by
  induction n with
  | zero => rfl
  | succ n ih =>
      rw [List.replicate_succ', Part.feed_append, ih]
      change Part.put _ backslash = _
      simp [Part.put, ← List.replicate_succ']

/-- A key that starts with backslashes: all but one of them are read, and the last one stands in
front of what follows them. -/
theorem scanKey_backslashes (n : Nat) (line : List UInt8) :
    scanKey ⟨[backslash], []⟩ (esc keyEscapes (.replicate n backslash) ++ backslash :: line) =
      scanKey (advance 1 keyEscapes ⟨.replicate (n + 1) backslash, []⟩ backslash line).1
        (advance 1 keyEscapes ⟨.replicate (n + 1) backslash, []⟩ backslash line).2 := by
  have hidden : ∀ c ∈ List.replicate n backslash, (c == 61) = true → keyEscapes c = true := by
    intro c _ stop
    simp only [keyEscapes, stop, Bool.or_true]
  rw [scanKey, scanPart_esc keyEscapes_hides rfl hidden (by simp), feed_backslashes,
    scanPart_cons rfl]

/-- A space behind the backslashes leaves them as they are. -/
theorem scanKey_space {n : Nat} {key b₁ tail : List UInt8}
    (trimmed : Trimmed (.replicate (n + 1) backslash ++ key)) (space : Blanks b₁)
    (follows : (key ++ b₁).head? = some 32) :
    ∃ part, scanKey ⟨[backslash], []⟩ (esc keyEscapes (.replicate n backslash) ++
        backslash :: (esc keyEscapes key ++ b₁ ++ 61 :: tail)) = (part, some tail) ∧
      part.text = .replicate (n + 1) backslash ++ key := by
  have advanced : ∀ line, advance 1 keyEscapes ⟨.replicate (n + 1) backslash, []⟩ backslash
      (32 :: line) = (⟨.replicate (n + 1) backslash, [32]⟩, line) := by
    intro line
    have other : keyEscapes 32 = false := rfl
    simp [advance, Part.blank, other]
  cases key with
  | nil =>
      cases b₁ with
      | nil => exact absurd follows nofun
      | cons c b₁ =>
          obtain rfl : c = 32 := Option.some.inj follows
          have line : esc keyEscapes [] ++ 32 :: b₁ ++ 61 :: tail =
              32 :: (esc keyEscapes [] ++ b₁ ++ 61 :: tail) := rfl
          have rest : Blanks b₁ := (List.forall_mem_cons.mp space).2
          refine ⟨_, by rw [scanKey_backslashes, line, advanced, scanKey_rest rest], ?_⟩
          exact (Part.text_feed_blanks _ rest).trans (List.append_nil _).symm
  | cons c key =>
      obtain rfl : c = 32 := Option.some.inj follows
      have line : esc keyEscapes (32 :: key) ++ b₁ ++ 61 :: tail =
          32 :: (esc keyEscapes key ++ b₁ ++ 61 :: tail) := rfl
      refine ⟨_, by rw [scanKey_backslashes, line, advanced, scanKey_rest space], ?_⟩
      have whole : (Part.mk (.replicate (n + 1) backslash) [32]).all ++ key =
          .replicate (n + 1) backslash ++ 32 :: key := by
        simp [Part.all]
      rw [Part.feed_append, Part.text_feed_blanks _ space, Part.text_feed (by simp), whole]
      · rw [whole]
        exact trimmed.last
      · rintro rfl
        exact absurd (trimmed.last 32 (by simp)) (by decide)

/-- Anything else behind the backslashes changes the key. -/
theorem scanKey_other {n : Nat} {key b₁ tail : List UInt8} (short : key.head? ≠ some backslash)
    (follows : (key ++ b₁).head? ≠ some 32) :
    (scanKey ⟨[backslash], []⟩ (esc keyEscapes (.replicate n backslash) ++
        backslash :: (esc keyEscapes key ++ b₁ ++ 61 :: tail))).1.text ≠
      .replicate (n + 1) backslash ++ key := by
  obtain ⟨c, line, starts⟩ : ∃ c line, esc keyEscapes key ++ b₁ ++ 61 :: tail = c :: line :=
    List.exists_cons_of_ne_nil (by simp)
  -- what is read in place of the character behind the backslashes
  obtain ⟨d, behind, read, differs⟩ : ∃ d behind,
      (advance 1 keyEscapes ⟨.replicate (n + 1) backslash, []⟩ backslash (c :: line)).1.text =
        .replicate (n + 1) backslash ++ d :: behind ∧ key.head? ≠ some d := by
    by_cases masked : keyEscapes c = true
    · refine ⟨c, [], by simp [advance, masked, Part.put], ?_⟩
      cases key with
      | nil => simp
      | cons k key =>
          rintro same
          obtain rfl : k = c := Option.some.inj same
          rw [esc, List.flatMap_cons, if_pos masked] at starts
          exact short (congrArg some (List.cons.inj starts).1.symm)
    · have other : c ≠ 32 := by
        rintro rfl
        cases key with
        | nil =>
            cases b₁ with
            | nil => exact absurd (List.cons.inj starts).1 (by decide)
            | cons b b₁ => exact follows (congrArg some (List.cons.inj starts).1)
        | cons k key =>
            rw [esc, List.flatMap_cons] at starts
            split at starts
            · exact absurd (List.cons.inj starts).1 (by decide)
            · exact follows (congrArg some (List.cons.inj starts).1)
      exact ⟨backslash, [c], by simp [advance, masked, other, Part.put], short⟩
  rw [scanKey_backslashes, starts]
  intro same
  have stays := @prefix_scanPart 1 keyEscapes (· == 61)
    (advance 1 keyEscapes ⟨.replicate (n + 1) backslash, []⟩ backslash (c :: line)).1
    (advance 1 keyEscapes ⟨.replicate (n + 1) backslash, []⟩ backslash (c :: line)).2
  rw [← scanKey, same, read, List.prefix_append_right_inj] at stays
  obtain ⟨rest, rfl⟩ := stays
  exact differs rfl

/-- A text as the backslashes in front and the rest. -/
theorem split_backslashes {text : List UInt8} (slashed : text.head? = some backslash) :
    ∃ n rest, text = .replicate (n + 1) backslash ++ rest ∧ rest.head? ≠ some backslash := by
  obtain ⟨text, rfl⟩ : ∃ rest, text = backslash :: rest := List.head?_eq_some_iff.mp slashed
  induction text with
  | nil => exact ⟨0, [], rfl, by simp⟩
  | cons c text ih =>
      by_cases more : c = backslash
      · subst more
        obtain ⟨n, rest, same, ends⟩ := ih rfl
        exact ⟨n + 1, rest, by rw [same]; rfl, ends⟩
      · exact ⟨0, c :: text, rfl, by simpa using more⟩

theorem dropWhile_backslashes (n : Nat) {rest : List UInt8}
    (ends : rest.head? ≠ some backslash) :
    (List.replicate n backslash ++ rest).dropWhile (· == backslash) = rest := by
  rw [List.dropWhile_append_of_pos (by simp)]
  cases rest with
  | nil => rfl
  | cons c rest => exact List.dropWhile_cons_of_neg (by simpa using ends)

/-- A key that begins with backslashes is read as it is exactly if a space follows them. -/
theorem parse_slashed_iff {b₀ key b₁ b₂ value b₃ : List UInt8} (space₀ : Blanks b₀)
    (space₁ : Blanks b₁) (space₂ : Blanks b₂) (space₃ : Blanks b₃)
    (slashed : key.head? = some backslash) (trimmed : Trimmed key) (trimmed' : Trimmed value) :
    parse (b₀ ++ (esc keyEscapes key ++ b₁) ++ 61 :: (b₂ ++ esc valueEscapes value ++ b₃)) =
        .ok (.properties key value) ↔
      ((key ++ b₁).dropWhile (· == backslash)).head? = some 32 := by
  obtain ⟨n, rest, rfl, ends⟩ := split_backslashes slashed
  have ends' : (rest ++ b₁).head? ≠ some backslash := by
    cases rest with
    | nil =>
        intro same
        exact absurd (space₁ backslash (List.mem_of_mem_head? same)) (by decide)
    | cons c rest => exact ends
  have line : b₀ ++ (esc keyEscapes (.replicate (n + 1) backslash ++ rest) ++ b₁) ++
      61 :: (b₂ ++ esc valueEscapes value ++ b₃) =
        b₀ ++ backslash :: (esc keyEscapes (.replicate n backslash) ++
          backslash :: (esc keyEscapes rest ++ b₁ ++
            61 :: (b₂ ++ esc valueEscapes value ++ b₃))) := by
    rw [esc_append, esc_backslashes]
    simp
  have dropped : ((.replicate (n + 1) backslash ++ rest ++ b₁ : List UInt8).dropWhile
      (· == backslash)) = rest ++ b₁ := by
    rw [List.append_assoc, dropWhile_backslashes _ ends']
  rw [line, dropped]
  constructor
  · intro parsed
    by_contra follows
    exact scanKey_other ends follows
      (key_of_parse space₀ rfl (by decide) (by decide) parsed)
  · intro follows
    obtain ⟨part, scanned, text⟩ := scanKey_space trimmed space₁ follows
    rw [parse_key_ok space₀ rfl (by decide) (by decide) scanned (by simp [text]), text,
      scanValue_text space₂ trimmed' space₃]

/-- A key that begins with `=` is read as a backslash. -/
theorem parse_equals_ne {b₀ key b₁ b₂ value b₃ : List UInt8} (space₀ : Blanks b₀) :
    parse (b₀ ++ (esc keyEscapes (61 :: key) ++ b₁) ++
        61 :: (b₂ ++ esc valueEscapes value ++ b₃)) ≠ .ok (.properties (61 :: key) value) := by
  intro parsed
  have line : b₀ ++ (esc keyEscapes (61 :: key) ++ b₁) ++
      61 :: (b₂ ++ esc valueEscapes value ++ b₃) =
        b₀ ++ backslash :: 61 ::
          (esc keyEscapes key ++ b₁ ++ 61 :: (b₂ ++ esc valueEscapes value ++ b₃)) := by
    have masked : keyEscapes 61 = true := rfl
    simp [esc, masked]
  rw [line] at parsed
  have read := key_of_parse space₀ rfl (by decide) (by decide) parsed
  rw [scanKey, scanPart_end rfl] at read
  exact absurd (List.cons.inj read).1 (by decide)

/-- A key that begins with a character that needs no escape is read as it is. -/
theorem parse_plain {c : UInt8} {b₀ key b₁ b₂ value b₃ : List UInt8} (space₀ : Blanks b₀)
    (space₁ : Blanks b₁) (space₂ : Blanks b₂) (space₃ : Blanks b₃) (comment : c ≠ 35)
    (bracket : c ≠ 91) (plain : keyEscapes c = false) (trimmed : Trimmed (c :: key))
    (trimmed' : Trimmed value) :
    parse (b₀ ++ (esc keyEscapes (c :: key) ++ b₁) ++
        61 :: (b₂ ++ esc valueEscapes value ++ b₃)) = .ok (.properties (c :: key) value) := by
  have solid : isBlank c = false := trimmed.head c rfl
  have line : b₀ ++ (esc keyEscapes (c :: key) ++ b₁) ++
      61 :: (b₂ ++ esc valueEscapes value ++ b₃) =
        b₀ ++ c :: (esc keyEscapes key ++ b₁ ++
          61 :: (b₂ ++ esc valueEscapes value ++ b₃)) := by
    simp [esc, plain]
  obtain ⟨part, scanned, text⟩ := scanKey_plain trimmed space₁
  rw [line, parse_key_ok space₀ solid comment bracket scanned (by simp [text]), text,
    scanValue_text space₂ trimmed' space₃]

/-- **Keys.** A line of a value is read as it is exactly if its key is. -/
theorem parse_property_iff {b₀ key b₁ b₂ value b₃ : List UInt8} (space₀ : Blanks b₀)
    (space₁ : Blanks b₁) (space₂ : Blanks b₂) (space₃ : Blanks b₃) (nonempty : key ≠ [])
    (comment : key.head? ≠ some 35) (bracket : key.head? ≠ some 91) (trimmed : Trimmed key)
    (trimmed' : Trimmed value) :
    parse (b₀ ++ (esc keyEscapes key ++ b₁) ++ 61 :: (b₂ ++ esc valueEscapes value ++ b₃)) =
        .ok (.properties key value) ↔ Line.KeyRead key b₁ := by
  rw [Line.KeyRead]
  by_cases slashed : key.head? = some backslash
  · rw [if_pos slashed]
    exact parse_slashed_iff space₀ space₁ space₂ space₃ slashed trimmed trimmed'
  · rw [if_neg slashed]
    obtain ⟨c, key, rfl⟩ := List.exists_cons_of_ne_nil nonempty
    by_cases equals : c = 61
    · subst equals
      exact iff_of_false (parse_equals_ne space₀) (by simp)
    · have plain : keyEscapes c = false := by
        simpa [keyEscapes, equals] using slashed
      exact iff_of_true (parse_plain space₀ space₁ space₂ space₃ (by simpa using comment)
        (by simpa using bracket) plain trimmed trimmed') (by simpa using equals)

/-! ## Lines and the stored groups -/

theorem parse_idle {b₀ comment : List UInt8} (space : Blanks b₀)
    (idle : comment = [] ∨ comment.head? = some 35) :
    parse (b₀ ++ comment) = .ok (.properties [] []) := by
  rcases idle with rfl | marked
  · have none : (b₀ ++ []).dropWhile isBlank = [] := by
      rw [List.dropWhile_append_of_pos space]
      rfl
    rw [parse, none]
    rfl
  · obtain ⟨comment, rfl⟩ := List.head?_eq_some_iff.mp marked
    rw [parse, dropWhile_blanks space rfl]
    rfl

/-- A value that is stored again leaves everything as it is. -/
theorem insertAt_eq_self {self : Properties} {group key value : List UInt8} {dict : Dict}
    (found : self.parameters group = some dict) :
    self.insertAt group key value = self ↔ (dict key).isSome = true := by
  have same : self.insertAt group key value = self ↔ insert dict key value = dict := by
    constructor
    · intro equal
      have there := congrFun (congrArg parameters equal) group
      simpa [insertAt, found] using there
    · intro equal
      refine Properties.ext ?_ rfl
      change Function.update self.parameters group _ = _
      rw [found, Option.map_some, equal, ← found, Function.update_eq_self]
  rw [same, insert]
  by_cases there : (dict key).isSome = true
  · simp [there]
  · rw [if_neg there]
    refine iff_of_false (fun equal => there ?_) there
    rw [← equal]
    simp

theorem parseLine_property {self : Properties} {b₀ key b₁ b₂ value b₃ : List UInt8}
    (read : (Line.property b₀ key b₁ b₂ value b₃).Reads) :
    self.parseLine (Line.property b₀ key b₁ b₂ value b₃).text = self.addProperties key value := by
  rw [parseLine, show parse _ = _ from read, Outcome.ok_bind]

theorem parseLine_idle {self : Properties} {b₀ comment : List UInt8}
    (valid : (Line.idle b₀ comment).Valid) :
    self.parseLine (Line.idle b₀ comment).text = self.addProperties [] [] := by
  rw [parseLine, Line.text, parse_idle valid.1 valid.2, Outcome.ok_bind]

/-- An idle line stores an empty value under the empty key. -/
theorem idle_right_iff {self : Properties} {b₀ comment : List UInt8}
    (valid : (Line.idle b₀ comment).Valid) :
    (Line.idle b₀ comment).Right self ↔ (Line.idle b₀ comment).Good self := by
  rw [Line.Right, parseLine_idle valid, Line.Good]
  cases current : self.current with
  | none => simp [addProperties, current]
  | some name =>
      obtain ⟨dict, found⟩ := Option.isSome_iff_exists.mp (self.current_mem name current)
      have same : self.insertAt name [] [] = self ↔ (dict []).isSome = true :=
        insertAt_eq_self found
      simp [addProperties, current, Line.Reads, Line.effect, same, found]

/-- A good line does what it is to do. -/
theorem right_of_good {self : Properties} {line : Line} (valid : line.Valid)
    (good : line.Good self) : line.Right self := by
  cases line with
  | group b₀ b₁ name b₂ b₃ =>
      obtain ⟨space₀, space₁, space₂, _, nonempty, plain, trimmed⟩ := valid
      have parsed := parse_group space₀ space₁ space₂ nonempty plain trimmed b₃
      refine ⟨parsed, ?_⟩
      rw [parseLine, Line.text, parsed]
      rfl
  | property b₀ key b₁ b₂ value b₃ =>
      obtain ⟨space₀, space₁, space₂, space₃, nonempty, comment, bracket, trimmed, trimmed'⟩ := valid
      obtain ⟨some, follows⟩ := good
      have read : (Line.property b₀ key b₁ b₂ value b₃).Reads :=
        (parse_property_iff space₀ space₁ space₂ space₃ nonempty comment bracket trimmed
          trimmed').mpr follows
      refine ⟨read, ?_⟩
      obtain ⟨name, current⟩ := Option.ne_none_iff_exists'.mp some
      rw [parseLine_property read]
      simp only [addProperties, Line.effect, current]
      rfl
  | idle b₀ comment => exact (idle_right_iff valid).mpr good

/-- **Lines.** A line does what it is to do exactly if it is a group, or a value with a key that is
read as it is below a group, or an idle line below a group that has a value under the empty key. -/
theorem line_right_iff (self : Properties) {line : Line} (valid : line.Valid) :
    line.Right self ↔ line.Good self := by
  refine ⟨fun right => ?_, right_of_good valid⟩
  cases line with
  | group => trivial
  | property b₀ key b₁ b₂ value b₃ =>
      obtain ⟨space₀, space₁, space₂, space₃, nonempty, comment, bracket, trimmed, trimmed'⟩ := valid
      obtain ⟨read, done⟩ := right
      refine ⟨fun none => ?_, (parse_property_iff space₀ space₁ space₂ space₃ nonempty comment
        bracket trimmed trimmed').mp read⟩
      rw [parseLine_property read] at done
      simp only [addProperties, none] at done
      exact absurd done nofun
  | idle b₀ comment => exact (idle_right_iff valid).mp right

/-- A file of good lines is read as they are. -/
theorem load_of_good {self : Properties} {lines : List Line} (valid : ∀ line ∈ lines, line.Valid)
    (good : Line.AllGood self lines) :
    self.load (lines.map Line.text) = .ok (lines.foldl (fun self line => line.effect self) self) := by
  induction lines generalizing self with
  | nil => rfl
  | cons line lines ih =>
      obtain ⟨first, behind⟩ := List.forall_mem_cons.mp valid
      have done := (right_of_good first good.1).2
      rw [List.map_cons, load, List.foldlM_cons, done, Outcome.ok_bind, List.foldl_cons]
      exact ih behind good.2

/-- A value below a group. -/
theorem line_right_value :
    (Line.property [] [107] [32] [32] [118] []).Right (new.addGroup [103]) ↔
      (Line.property [] [107] [32] [32] [118] []).Good (new.addGroup [103]) :=
  line_right_iff _ ⟨by simp [Blanks], by simp [Blanks, isBlank], by simp [Blanks, isBlank],
    by simp [Blanks], by simp, by simp, by simp,
    ⟨by rintro _ ⟨⟩; rfl, by rintro _ ⟨⟩; rfl⟩, ⟨by rintro _ ⟨⟩; rfl, by rintro _ ⟨⟩; rfl⟩⟩

/-- An empty line in front of the first group. -/
theorem line_not_right_empty : (Line.idle [] []).Valid ∧ ¬ (Line.idle [] []).Right new := by
  refine ⟨⟨by simp [Blanks], Or.inl rfl⟩, fun right => ?_⟩
  have fault : new.parseLine [] = .fault := rfl
  exact absurd (fault.symm.trans right.2) nofun

end Cube.Utility.Properties
