import Mathlib.Data.List.Basic
import Mathlib.Tactic.ByContra

/-! # The tokens of a text in SQL

A text is read character by character into words, literals and symbols. A literal ends at
its quote; two quotes in a row stand for one, and where the dialect has escapes, a backslash
and the character after it stand for what they denote.
-/

namespace SqlText

def quoteMark : Char := Char.ofNat 39

def backslash : Char := Char.ofNat 92

/-- Whether a backslash escapes the character after it. -/
structure Dialect where
  escapes : Bool
  deriving DecidableEq

inductive Token where
  | keyword (word : List Char)
  | name (word : List Char)
  | number (word : List Char)
  | literal (value : List Char)
  | symbol (char : Char)
  deriving DecidableEq

def keyword (word : String) : Token := .keyword word.toList

def isWordChar (c : Char) : Bool := c.isAlphanum || c == '_'

/-- The keywords of the statements that are read here. -/
def keywords : List (List Char) :=
  ["and", "as", "delete", "from", "inner", "insert", "into", "join", "on", "select", "set",
    "update", "values", "where"].map String.toList

def Token.ofWord (word : List Char) : Token :=
  let lower := word.map Char.toLower
  if lower ∈ keywords then .keyword lower
  else if word.head?.any Char.isDigit then .number word
  else .name word

/-- What a backslash and a character denote. -/
def escaped (c : Char) : List Char :=
  if c = '%' then [backslash, '%']
  else if c = '_' then [backslash, '_']
  else if c = '0' then [Char.ofNat 0]
  else if c = 'b' then [Char.ofNat 8]
  else if c = 't' then [Char.ofNat 9]
  else if c = 'n' then [Char.ofNat 10]
  else if c = 'r' then [Char.ofNat 13]
  else if c = 'Z' then [Char.ofNat 26]
  else [c]

/-- Where the reader is: between tokens, in a word, in a literal, behind a quote in a
literal, or behind a backslash in a literal. -/
inductive Mode where
  | between
  | word (word : List Char)
  | quoted (value : List Char)
  | quote (value : List Char)
  | escape (value : List Char)
  deriving DecidableEq

/-- A character between tokens. -/
def begin (c : Char) : List Token × Mode :=
  if c = ' ' then ([], .between)
  else if c = quoteMark then ([], .quoted [])
  else if isWordChar c then ([], .word [c])
  else ([.symbol c], .between)

/-- One character: the tokens that it completes, and where the reader is behind it. -/
def step (dialect : Dialect) (mode : Mode) (c : Char) : List Token × Mode :=
  match mode with
  | .between => begin c
  | .word word =>
      if isWordChar c then ([], .word (word ++ [c]))
      else (.ofWord word :: (begin c).1, (begin c).2)
  | .quoted value =>
      if c = quoteMark then ([], .quote value)
      else if dialect.escapes && c == backslash then ([], .escape value)
      else ([], .quoted (value ++ [c]))
  | .quote value =>
      if c = quoteMark then ([], .quoted (value ++ [quoteMark]))
      else (.literal value :: (begin c).1, (begin c).2)
  | .escape value => ([], .quoted (value ++ escaped c))

/-- The end of the text: it must not be inside a literal. -/
def finish : Mode → Option (List Token)
  | .between => some []
  | .word word => some [.ofWord word]
  | .quote value => some [.literal value]
  | .quoted _ => none
  | .escape _ => none

/-- The tokens of a text that is read from some place on. -/
def lexFrom (dialect : Dialect) : Mode → List Char → Option (List Token)
  | mode, [] => finish mode
  | mode, c :: text =>
      (lexFrom dialect (step dialect mode c).2 text).map ((step dialect mode c).1 ++ ·)

/-- The tokens of a text. -/
def lex (dialect : Dialect) (text : List Char) : Option (List Token) :=
  lexFrom dialect .between text

/-- The tokens that are completed in a text, and where the reader is behind it. -/
def scan (dialect : Dialect) : Mode → List Char → List Token × Mode
  | mode, [] => ([], mode)
  | mode, c :: text =>
      let later := scan dialect (step dialect mode c).2 text
      ((step dialect mode c).1 ++ later.1, later.2)

variable {dialect : Dialect}

theorem lexFrom_append (mode : Mode) (first second : List Char) :
    lexFrom dialect mode (first ++ second) =
      (lexFrom dialect (scan dialect mode first).2 second).map
        ((scan dialect mode first).1 ++ ·) := by
  induction first generalizing mode with
  | nil => simp [scan]
  | cons c first ih =>
      simp only [List.cons_append, lexFrom, scan, ih, Option.map_map]
      congr 1
      funext tokens
      exact (List.append_assoc _ _ _).symm

/-! ## Names -/

/-- A word that is read as a name. -/
structure IsName (word : List Char) : Prop where
  nonempty : word ≠ []
  chars : ∀ c ∈ word, isWordChar c = true
  isName : Token.ofWord word = .name word

instance (word : List Char) : Decidable (IsName word) :=
  decidable_of_iff (word ≠ [] ∧ word.all isWordChar = true ∧ Token.ofWord word = .name word)
    ⟨fun ⟨nonempty, chars, isName⟩ => ⟨nonempty, List.all_eq_true.mp chars, isName⟩,
      fun ⟨nonempty, chars, isName⟩ => ⟨nonempty, List.all_eq_true.mpr chars, isName⟩⟩

theorem isName_iff {word : List Char} : IsName word ↔ word ≠ [] ∧
    (∀ c ∈ word, isWordChar c = true) ∧ word.map Char.toLower ∉ keywords ∧
      ¬ word.head?.any Char.isDigit = true := by
  have read : Token.ofWord word = .name word ↔
      word.map Char.toLower ∉ keywords ∧ ¬ word.head?.any Char.isDigit = true := by
    simp only [Token.ofWord]
    split
    next isKeyword => simp [isKeyword]
    next notKeyword =>
      split
      next digit => simp [digit]
      next notDigit => simp [notKeyword, notDigit]
  rw [← read]
  exact ⟨fun named => ⟨named.nonempty, named.chars, named.isName⟩,
    fun ⟨nonempty, chars, isName⟩ => ⟨nonempty, chars, isName⟩⟩

theorem scan_word {word : List Char} (chars : ∀ c ∈ word, isWordChar c = true)
    (front : List Char) : scan dialect (.word front) word = ([], .word (front ++ word)) := by
  induction word generalizing front with
  | nil => rw [List.append_nil]; rfl
  | cons c word ih =>
      have first : isWordChar c = true := chars c List.mem_cons_self
      have rest : ∀ c ∈ word, isWordChar c = true :=
        fun c member => chars c (List.mem_cons_of_mem _ member)
      simp only [scan, step, first, if_true, ih rest, List.nil_append, List.append_assoc,
        List.cons_append]

theorem begin_word {c : Char} (wordChar : isWordChar c = true) : begin c = ([], .word [c]) := by
  have notBlank : c ≠ ' ' := by
    rintro rfl
    exact absurd wordChar (by decide)
  have notQuote : c ≠ quoteMark := by
    rintro rfl
    exact absurd wordChar (by decide)
  rw [begin, if_neg notBlank, if_neg notQuote, if_pos wordChar]

/-- A name is read as a word. -/
theorem scan_name {word : List Char} (named : IsName word) :
    scan dialect .between word = ([], .word word) := by
  have chars := named.chars
  cases word with
  | nil => exact (named.nonempty rfl).elim
  | cons first word =>
      have rest : ∀ c ∈ word, isWordChar c = true :=
        fun c member => chars c (List.mem_cons_of_mem _ member)
      simp only [scan, step, begin_word (chars first List.mem_cons_self), scan_word rest,
        List.nil_append, List.cons_append]

/-! ## Literals -/

/-- A character that a literal does not take as it is. -/
def special (dialect : Dialect) (c : Char) : Bool :=
  c == quoteMark || (dialect.escapes && c == backslash)

/-- A value that a literal gives back when it is written between quotes as it is: it has no
quote, and its backslashes do not escape. -/
def plain (dialect : Dialect) : List Char → Bool
  | [] => true
  | [c] => !special dialect c
  | c :: next :: value =>
      if c = quoteMark then false
      else if dialect.escapes && c == backslash then
        (next == '%' || next == '_') && plain dialect value
      else plain dialect (next :: value)

theorem special_iff {c : Char} : special dialect c = true ↔
    c = quoteMark ∨ dialect.escapes = true ∧ c = backslash := by
  simp [special]

theorem special_quoteMark : special dialect quoteMark = true :=
  special_iff.mpr (.inl rfl)

theorem special_backslash (escapes : dialect.escapes = true) :
    special dialect backslash = true :=
  special_iff.mpr (.inr ⟨escapes, rfl⟩)

theorem step_quoted_plain {c : Char} (ordinary : special dialect c = false) (front : List Char) :
    step dialect (.quoted front) c = ([], .quoted (front ++ [c])) := by
  rw [Bool.eq_false_iff, Ne, special_iff, not_or] at ordinary
  rw [step, if_neg ordinary.1, if_neg]
  simpa using ordinary.2

theorem step_quoted_quote (front : List Char) :
    step dialect (.quoted front) quoteMark = ([], .quote front) := by
  rw [step, if_pos rfl]

theorem step_quoted_backslash (escapes : dialect.escapes = true) (front : List Char) :
    step dialect (.quoted front) backslash = ([], .escape front) := by
  rw [step, if_neg (by decide), if_pos (by simp [escapes])]

theorem step_quote_quote (front : List Char) :
    step dialect (.quote front) quoteMark = ([], .quoted (front ++ [quoteMark])) := by
  rw [step, if_pos rfl]

theorem step_quote_other {c : Char} (notQuote : c ≠ quoteMark) (front : List Char) :
    step dialect (.quote front) c = (.literal front :: (begin c).1, (begin c).2) := by
  rw [step, if_neg notQuote]

theorem escaped_joker {c : Char} (joker : c = '%' ∨ c = '_') : escaped c = [backslash, c] := by
  rcases joker with rfl | rfl
  · rfl
  · rfl

/-- A plain value is read as it is. -/
theorem scan_plain {value : List Char} (isPlain : plain dialect value = true)
    (front : List Char) :
    scan dialect (.quoted front) value = ([], .quoted (front ++ value)) := by
  induction value using plain.induct dialect generalizing front with
  | case1 => rw [List.append_nil]; rfl
  | case2 c =>
      rw [plain, Bool.not_eq_true'] at isPlain
      simp only [scan, step_quoted_plain isPlain, List.append_nil]
  | case3 next value => simp [plain] at isPlain
  | case4 c next value notQuote escapes ih =>
      rw [plain, if_neg notQuote, if_pos escapes, Bool.and_eq_true] at isPlain
      obtain ⟨joker, isPlain⟩ := isPlain
      have same : c = backslash := by simpa using (Bool.and_eq_true_iff.mp escapes).2
      have denotes : escaped next = [backslash, next] := escaped_joker (by simpa using joker)
      have behind : step dialect (.quoted front) c = ([], .escape front) := by
        rw [step, if_neg notQuote, if_pos escapes]
      have both : step dialect (.escape front) next = ([], .quoted (front ++ [c, next])) := by
        rw [step, denotes, same]
      simp only [scan, behind, both, ih isPlain, List.nil_append, List.append_assoc,
        List.cons_append]
  | case5 c next value notQuote escapesNot ih =>
      rw [plain, if_neg notQuote, if_neg escapesNot] at isPlain
      have ordinary : special dialect c = false := by
        rw [Bool.eq_false_iff, Ne, special_iff, not_or]
        exact ⟨notQuote, by simpa using escapesNot⟩
      rw [scan, step_quoted_plain ordinary]
      simp only [ih isPlain, List.nil_append, List.append_assoc, List.cons_append]

theorem special_eq_false {c : Char} (notQuote : c ≠ quoteMark) (notBackslash : c ≠ backslash) :
    special dialect c = false := by
  rw [Bool.eq_false_iff, Ne, special_iff]
  rintro (quote | ⟨-, same⟩)
  · exact notQuote quote
  · exact notBackslash same

variable (dialect) in
/-- What a backslash and a character denote begins with a special character only where the
character is it. -/
theorem escaped_cases (c : Char) :
    (c = '%' ∨ c = '_') ∧ escaped c = [backslash, c] ∨
      ∃ d, escaped c = [d] ∧ (special dialect d = true → d = c) := by
  have control : ∀ d : Char, d ≠ quoteMark → d ≠ backslash → special dialect d = true → d = c := by
    intro d notQuote notBackslash isSpecial
    rw [special_eq_false notQuote notBackslash] at isSpecial
    cases isSpecial
  unfold escaped
  split
  next percent => exact .inl ⟨.inl percent, by rw [percent]⟩
  split
  next low => exact .inl ⟨.inr low, by rw [low]⟩
  right
  repeat'
    split
    next => exact ⟨_, rfl, control _ (by decide) (by decide)⟩
  exact ⟨c, rfl, fun _ => rfl⟩

theorem joker_ordinary {c : Char} (joker : c = '%' ∨ c = '_') : special dialect c = false := by
  rcases joker with rfl | rfl
  · exact special_eq_false (by decide) (by decide)
  · exact special_eq_false (by decide) (by decide)

/-! ### Values that are not plain -/

/-- The reader completes a literal first. -/
def Begins (result : Option (List Token)) (value : List Char) : Prop :=
  ∃ tokens, result = some (.literal value :: tokens)

theorem Begins.of_step {mode next : Mode} {c : Char} {text value : List Char}
    (silent : step dialect mode c = ([], next))
    (begins : Begins (lexFrom dialect mode (c :: text)) value) :
    Begins (lexFrom dialect next text) value := by
  obtain ⟨tokens, read⟩ := begins
  rw [lexFrom, silent] at read
  obtain ⟨later, readLater, whole⟩ := Option.map_eq_some_iff.mp read
  exact ⟨tokens, readLater.trans (congrArg some whole)⟩

theorem Begins.of_completed {mode next : Mode} {c : Char} {text value front : List Char}
    {tokens : List Token} (completed : step dialect mode c = (.literal front :: tokens, next))
    (begins : Begins (lexFrom dialect mode (c :: text)) value) : value = front := by
  obtain ⟨tokens, read⟩ := begins
  rw [lexFrom, completed] at read
  obtain ⟨later, -, whole⟩ := Option.map_eq_some_iff.mp read
  cases whole
  rfl

/-- The reader is in a literal: what it has of it, and what it has read of what comes next. -/
inductive Inside : Mode → List Char → List Char → Prop
  | quoted (front : List Char) : Inside (.quoted front) front []
  | quote (front : List Char) : Inside (.quote front) front [quoteMark]
  | escape (front : List Char) : Inside (.escape front) front [backslash]

/-- What the reader has of a literal stays its front. -/
theorem Begins.front {mode : Mode} {text value front pending : List Char}
    (begins : Begins (lexFrom dialect mode text) value) (inside : Inside mode front pending) :
    front <+: value := by
  induction text generalizing mode front pending with
  | nil =>
      obtain ⟨tokens, read⟩ := begins
      cases inside with
      | quoted => cases read
      | quote =>
          cases read
          exact List.prefix_rfl
      | escape => cases read
  | cons c text ih =>
      cases inside with
      | quoted =>
          cases isSpecial : special dialect c with
          | false =>
              exact (List.prefix_append front [c]).trans
                (ih (begins.of_step (step_quoted_plain isSpecial front)) (.quoted _))
          | true =>
              rcases special_iff.mp isSpecial with rfl | ⟨escapes, rfl⟩
              · exact ih (begins.of_step (step_quoted_quote front)) (.quote front)
              · exact ih (begins.of_step (step_quoted_backslash escapes front)) (.escape front)
      | quote =>
          by_cases quote : c = quoteMark
          · subst quote
            exact (List.prefix_append front [quoteMark]).trans
              (ih (begins.of_step (step_quote_quote front)) (.quoted _))
          · have complete := begins.of_completed (step_quote_other quote front)
            exact ⟨[], (List.append_nil front).trans complete.symm⟩
      | escape =>
          exact (List.prefix_append front (escaped c)).trans
            (ih (begins.of_step rfl) (.quoted _))

/-- Where the reader has more of the value, the value goes on with it. -/
theorem Begins.goes_on {front more word text : List Char}
    (begins : Begins (lexFrom dialect (.quoted (front ++ more)) text) (front ++ word)) :
    ∃ rest, word = more ++ rest := by
  obtain ⟨rest, whole⟩ := begins.front (.quoted _)
  rw [List.append_assoc, List.append_cancel_left_eq] at whole
  exact ⟨rest, whole.symm⟩

/-- Text that the reader has read and that is still expected of it: special characters. -/
structure Ahead (dialect : Dialect) (ahead : List Char) : Prop where
  nonempty : ahead ≠ []
  isSpecial : ∀ c ∈ ahead, special dialect c = true

theorem Ahead.of_cons {ahead rest other : List Char} {c : Char} (behind : Ahead dialect ahead)
    (expected : ahead ++ rest = c :: other) :
    special dialect c = true ∧ ∃ left, ahead = c :: left ∧ left ++ rest = other := by
  cases ahead with
  | nil => exact (behind.nonempty rfl).elim
  | cons first left =>
      rw [List.cons_append, List.cons.injEq] at expected
      obtain ⟨rfl, same⟩ := expected
      exact ⟨behind.isSpecial first List.mem_cons_self, left, rfl, same⟩

/-- One expected character is taken into the value, and more special ones are read. -/
theorem Ahead.forward {left more : List Char} {c : Char} (behind : Ahead dialect (c :: left))
    (some_more : more ≠ []) (all_special : ∀ c ∈ more, special dialect c = true) :
    Ahead dialect (left ++ more) where
  nonempty := fun none => some_more (List.append_eq_nil_iff.mp none).2
  isSpecial := by
    intro d member
    rcases List.mem_append.mp member with inLeft | inMore
    · exact behind.isSpecial d (List.mem_cons_of_mem _ inLeft)
    · exact all_special d inMore

/-- Two special characters are read while the first of those expected is taken. -/
theorem Ahead.of_two {ahead rest other : List Char} {c first second : Char}
    (behind : Ahead dialect ahead) (special_first : special dialect first = true)
    (special_second : special dialect second = true)
    (expected : ahead ++ (first :: second :: rest) = c :: other) :
    ∃ further, Ahead dialect further ∧ further ++ rest = other := by
  obtain ⟨-, left, rfl, onward⟩ := behind.of_cons expected
  have both : ∀ d ∈ [first, second], special dialect d = true := by
    simp [special_first, special_second]
  refine ⟨left ++ [first, second], behind.forward (List.cons_ne_nil _ _) both, ?_⟩
  rw [List.append_assoc]
  exact onward

/-- Behind a backslash the reader stays ahead: what it takes for the two characters is expected to
be a special one, so that it is the second of them. -/
theorem Ahead.of_escape {ahead rest other : List Char} {c : Char} (behind : Ahead dialect ahead)
    (escapes : dialect.escapes = true)
    (expected : ahead ++ (backslash :: c :: rest) = escaped c ++ other) :
    ∃ further, Ahead dialect further ∧ further ++ rest = other := by
  have slash := special_backslash escapes
  rcases escaped_cases dialect c with ⟨joker, both⟩ | ⟨d, one, same⟩
  · rw [both] at expected
    obtain ⟨-, left, rfl, onward⟩ := behind.of_cons expected
    have ordinary : special dialect c = false := joker_ordinary joker
    cases left with
    | nil =>
        obtain ⟨same, -⟩ := List.cons.inj onward
        rw [← same, slash] at ordinary
        cases ordinary
    | cons second left =>
        obtain ⟨same, -⟩ := List.cons.inj onward
        rw [← same, behind.isSpecial second (by simp)] at ordinary
        cases ordinary
  · rw [one] at expected
    have isSpecial := (behind.of_cons expected).1
    obtain rfl := same isSpecial
    exact behind.of_two slash isSpecial expected

/-- The value is not complete at a quote while the reader is ahead: the quote that ends it is
not followed by a special character. -/
theorem Ahead.incomplete {ahead input tail : List Char} (behind : Ahead dialect ahead)
    (ends : ∀ c ∈ tail.head?, special dialect c = false) :
    ahead ++ quoteMark :: input ≠ quoteMark :: tail := by
  intro expected
  obtain ⟨-, left, rfl, rfl⟩ := behind.of_cons expected
  cases left with
  | nil => exact absurd (ends quoteMark rfl) (by rw [special_quoteMark]; decide)
  | cons second left =>
      have isSpecial := behind.isSpecial second (by simp)
      exact absurd (ends second rfl) (by rw [isSpecial]; decide)

/-- A reader that is ahead of the expected text stays ahead, and does not come out with the
value that is expected, which ends at a quote that no special character follows. -/
theorem misread_of_ahead {mode : Mode} {front pending ahead word input tail : List Char}
    (inside : Inside mode front pending)
    (escapes : mode = .escape front → dialect.escapes = true) (behind : Ahead dialect ahead)
    (ends : ∀ c ∈ tail.head?, special dialect c = false)
    (expected : ahead ++ (pending ++ input) = word ++ quoteMark :: tail) :
    ¬ Begins (lexFrom dialect mode input) (front ++ word) := by
  induction input generalizing mode front pending ahead word with
  | nil =>
      rintro ⟨tokens, read⟩
      cases inside with
      | quoted => cases read
      | quote =>
          obtain ⟨same, -⟩ := List.cons.inj (Option.some.inj read)
          obtain rfl : word = [] := List.self_eq_append_right.mp (Token.literal.inj same)
          exact behind.incomplete ends expected
      | escape => cases read
  | cons c input ih =>
      intro begins
      cases inside with
      | quoted =>
          cases isSpecial : special dialect c with
          | false =>
              obtain ⟨rest, rfl⟩ := (begins.of_step (step_quoted_plain isSpecial front)).goes_on
              exact absurd (behind.of_cons expected).1 (by rw [isSpecial]; decide)
          | true =>
              rcases special_iff.mp isSpecial with rfl | ⟨escapes, rfl⟩
              · exact ih (.quote front) nofun behind expected
                  (begins.of_step (step_quoted_quote front))
              · exact ih (.escape front) (fun _ => escapes) behind expected
                  (begins.of_step (step_quoted_backslash escapes front))
      | quote =>
          by_cases quote : c = quoteMark
          · subst quote
            have later := begins.of_step (step_quote_quote front)
            obtain ⟨rest, rfl⟩ := later.goes_on
            obtain ⟨_, further, onward⟩ :=
              behind.of_two special_quoteMark special_quoteMark expected
            rw [← List.append_assoc] at later
            exact ih (.quoted _) nofun further onward later
          · have complete := begins.of_completed (step_quote_other quote front)
            obtain rfl : word = [] := List.append_right_eq_self.mp complete
            exact behind.incomplete ends expected
      | escape =>
          have later := begins.of_step (c := c) rfl
          obtain ⟨rest, rfl⟩ := later.goes_on
          obtain ⟨_, further, onward⟩ :=
            behind.of_escape (escapes rfl) (by simpa using expected)
          rw [← List.append_assoc] at later
          exact ih (.quoted _) nofun further onward later

theorem Ahead.single {c : Char} (isSpecial : special dialect c = true) : Ahead dialect [c] where
  nonempty := List.cons_ne_nil _ _
  isSpecial := by simpa using isSpecial

/-- A quote in a value ends the literal, or it is taken together with the quote behind it. -/
theorem misread_of_quote {value tail : List Char}
    (ends : ∀ c ∈ tail.head?, special dialect c = false) (front : List Char) :
    ¬ Begins (lexFrom dialect (.quoted front) (quoteMark :: (value ++ quoteMark :: tail)))
      (front ++ quoteMark :: value) := by
  intro begins
  have atQuote := begins.of_step (step_quoted_quote front)
  obtain ⟨c, input, expected⟩ : ∃ c input, value ++ quoteMark :: tail = c :: input :=
    List.exists_cons_of_ne_nil (by simp)
  rw [expected] at atQuote
  by_cases quote : c = quoteMark
  · subst quote
    have later := atQuote.of_step (step_quote_quote front)
    rw [List.append_cons front quoteMark value] at later
    exact misread_of_ahead (.quoted _) nofun (.single special_quoteMark) ends expected.symm later
  · have complete := atQuote.of_completed (step_quote_other quote front)
    exact absurd (List.append_right_eq_self.mp complete) (List.cons_ne_nil _ _)

/-- A backslash that escapes is not taken into the value, except before a joker. -/
theorem misread_of_backslash {value tail : List Char} (escapes : dialect.escapes = true)
    (noJoker : ∀ c ∈ value.head?, ¬ (c = '%' ∨ c = '_'))
    (ends : ∀ c ∈ tail.head?, special dialect c = false) (front : List Char) :
    ¬ Begins (lexFrom dialect (.quoted front) (backslash :: (value ++ quoteMark :: tail)))
      (front ++ backslash :: value) := by
  intro begins
  have atEscape := begins.of_step (step_quoted_backslash escapes front)
  obtain ⟨c, input, expected⟩ : ∃ c input, value ++ quoteMark :: tail = c :: input :=
    List.exists_cons_of_ne_nil (by simp)
  rw [expected] at atEscape
  have later := atEscape.of_step (c := c) rfl
  rcases escaped_cases dialect c with ⟨joker, -⟩ | ⟨d, one, same⟩
  · cases value with
    | nil =>
        obtain ⟨rfl, -⟩ := List.cons.inj expected
        revert joker
        decide
    | cons first value =>
        obtain ⟨rfl, -⟩ := List.cons.inj expected
        exact noJoker first rfl joker
  · rw [one] at later
    obtain ⟨rest, whole⟩ := later.goes_on
    obtain ⟨rfl, rfl⟩ := List.cons.inj whole
    obtain rfl := same (special_backslash escapes)
    rw [List.append_cons front backslash value] at later
    exact misread_of_ahead (.quoted _) nofun (.single (special_backslash escapes)) ends
      expected.symm later

/-- A value that is not plain is not read back. -/
theorem misread_of_not_plain {value tail : List Char} (notPlain : plain dialect value = false)
    (ends : ∀ c ∈ tail.head?, special dialect c = false) (front : List Char) :
    ¬ Begins (lexFrom dialect (.quoted front) (value ++ quoteMark :: tail)) (front ++ value) := by
  induction value using plain.induct dialect generalizing front with
  | case1 => cases notPlain
  | case2 c =>
      rw [plain, Bool.not_eq_false'] at notPlain
      rcases special_iff.mp notPlain with rfl | ⟨escapes, rfl⟩
      · exact misread_of_quote ends front
      · exact misread_of_backslash escapes (by simp) ends front
  | case3 next value => exact misread_of_quote ends front
  | case4 c next value notQuote escapes ih =>
      obtain ⟨escaping, same⟩ := Bool.and_eq_true_iff.mp escapes
      obtain rfl : c = backslash := by simpa using same
      by_cases joker : next = '%' ∨ next = '_'
      · have isJoker : (next == '%' || next == '_') = true := by simpa using joker
        rw [plain, if_neg notQuote, if_pos escapes, isJoker, Bool.true_and] at notPlain
        intro begins
        have later := (begins.of_step (step_quoted_backslash escaping front)).of_step (c := next) rfl
        rw [escaped_joker joker] at later
        refine ih notPlain (front ++ [backslash, next]) ?_
        simpa using later
      · exact misread_of_backslash escaping (by simpa using joker) ends front
  | case5 c next value notQuote escapesNot ih =>
      rw [plain, if_neg notQuote, if_neg escapesNot] at notPlain
      have ordinary : special dialect c = false := by
        rw [Bool.eq_false_iff, Ne, special_iff, not_or]
        exact ⟨notQuote, by simpa using escapesNot⟩
      intro begins
      refine ih notPlain (front ++ [c]) ?_
      simpa using begins.of_step (step_quoted_plain ordinary front)

end SqlText
