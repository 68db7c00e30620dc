import Mathlib.Algebra.BigOperators.Group.List.Basic
import Mathlib.Algebra.GroupWithZero.Nat
import Cube.Lib.SqlPiece

/-! # Texts that are read by parts

A text is read as its tokens exactly under a condition, whatever comes behind it; such texts are put
together. Of a literal whose text goes on otherwise than its value, another value is read or none,
and no tokens are longer than their text.
-/

namespace SqlText

variable {dialect : Dialect}

/-! ## Words and what is put together -/

/-- In front of a break the text is read as its tokens under a condition, and only under it. -/
structure Reads (dialect : Dialect) (text : List Char) (tokens : List Token) (condition : Prop) :
    Prop where
  read : condition → ∀ {rest : List Char}, Breaks rest →
    lexFrom dialect .between (text ++ rest) =
      (lexFrom dialect .between rest).map (tokens ++ ·)
  holds : ∀ {rest : List Char} {later : List Token}, Breaks rest →
    lexFrom dialect .between (text ++ rest) = some (tokens ++ later) → condition

/-- A word is read up to the break behind it. -/
theorem lexFrom_word {word rest : List Char} (nonempty : word ≠ [])
    (chars : ∀ c ∈ word, isWordChar c = true) (breaks : Breaks rest) :
    lexFrom dialect .between (word ++ rest) =
      (lexFrom dialect .between rest).map ([.ofWord word] ++ ·) := by
  have scanned : scan dialect .between word = ([], .word word) := by
    cases word with
    | nil => exact (nonempty rfl).elim
    | cons first word =>
        obtain ⟨front, behind⟩ := List.forall_mem_cons.mp chars
        simp only [scan, step, begin_word front, scan_word behind, List.nil_append,
          List.cons_append]
  rw [lexFrom_append, scanned]
  cases rest with
  | nil => rfl
  | cons c rest =>
      have ends := (isBreak_iff.mp (breaks c rfl)).1
      simp only [lexFrom, step, ends, Bool.false_eq_true, if_false, List.nil_append,
        Option.map_map]
      rfl

theorem reads_word {word : List Char} (nonempty : word ≠ [])
    (chars : ∀ c ∈ word, isWordChar c = true) : Reads dialect word [.ofWord word] True where
  read := fun _ _ breaks => lexFrom_word nonempty chars breaks
  holds := fun _ _ => trivial

theorem toLower_digit {c : Char} (digit : c.isDigit = true) : c.toLower = c := by
  simp only [Char.isDigit, Bool.and_eq_true, decide_eq_true_eq, ge_iff_le] at digit
  unfold Char.toLower
  split
  · rename_i upper
    have reversed := UInt32.le_trans upper.1 digit.2
    exact absurd reversed (by decide)
  · rfl

/-- Digits are read as a number. -/
theorem ofWord_digits {word : List Char} (nonempty : word ≠ [])
    (digits : ∀ c ∈ word, c.isDigit = true) : Token.ofWord word = .number word := by
  obtain ⟨c, rest, rfl⟩ := List.exists_cons_of_ne_nil nonempty
  have digit := digits c List.mem_cons_self
  have letters : ∀ word ∈ keywords, ¬ word.head?.any Char.isDigit = true := by decide
  have notKeyword : (c :: rest).map Char.toLower ∉ keywords := fun member =>
    letters _ member (by simp [toLower_digit digit, digit])
  simp only [Token.ofWord]
  rw [if_neg notKeyword, if_pos (by simpa using digit)]

theorem reads_name {word : List Char} (named : IsName word) :
    Reads dialect word [.name word] True := by
  have read : Reads dialect word [.ofWord word] True := reads_word named.nonempty named.chars
  rwa [named.isName] at read

theorem reads_literal (value : List Char) :
    Reads dialect (quoteMark :: (value ++ [quoteMark])) [.literal value]
      (plain dialect value = true) where
  read := by
    intro isPlain rest breaks
    rw [List.cons_append, List.append_assoc, List.singleton_append]
    exact lexFrom_literal isPlain breaks
  holds := by
    intro rest later breaks read
    rw [List.cons_append, List.append_assoc, List.singleton_append] at read
    cases isPlain : plain dialect value with
    | true => rfl
    | false =>
        have opening : step dialect .between quoteMark = ([], .quoted []) := rfl
        rw [lexFrom, opening] at read
        exact absurd ⟨later, by simpa using read⟩
          (misread_of_not_plain isPlain breaks.ordinary [])

theorem reads_nil : Reads dialect [] [] True where
  read := by
    intro _ rest _
    simp
  holds := fun _ _ => trivial

/-- A text that is complete by itself, in front of another. -/
theorem Reads.behind {fixed text : List Char} {front tokens : List Token} {condition : Prop}
    (scanned : scan dialect .between fixed = (front, .between))
    (reads : Reads dialect text tokens condition) :
    Reads dialect (fixed ++ text) (front ++ tokens) condition where
  read := by
    intro holds rest breaks
    rw [List.append_assoc, lexFrom_append, scanned, reads.read holds breaks, Option.map_map]
    congr 1
    funext later
    exact (List.append_assoc _ _ _).symm
  holds := by
    intro rest later breaks read
    rw [List.append_assoc, List.append_assoc, lexFrom_append, scanned, map_append_eq_some] at read
    exact reads.holds breaks read

/-- A text that is complete by itself. -/
theorem reads_fixed {fixed : List Char} {tokens : List Token}
    (scanned : scan dialect .between fixed = (tokens, .between)) :
    Reads dialect fixed tokens True := by
  have reads := reads_nil.behind scanned
  rwa [List.append_nil, List.append_nil] at reads

/-- Texts of which the second begins with a break. -/
theorem Reads.append {first second : List Char} {tokens others : List Token}
    {condition other : Prop} (reads : Reads dialect first tokens condition)
    (reads' : Reads dialect second others other)
    (breaks : ∀ rest, Breaks rest → Breaks (second ++ rest)) :
    Reads dialect (first ++ second) (tokens ++ others) (condition ∧ other) where
  read := by
    rintro ⟨holds, holds'⟩ rest breaksRest
    rw [List.append_assoc, reads.read holds (breaks rest breaksRest),
      reads'.read holds' breaksRest, Option.map_map]
    congr 1
    funext later
    exact (List.append_assoc _ _ _).symm
  holds := by
    intro rest later breaksRest read
    rw [List.append_assoc, List.append_assoc] at read
    have holds := reads.holds (breaks rest breaksRest) read
    rw [reads.read holds (breaks rest breaksRest), map_append_eq_some] at read
    exact ⟨holds, reads'.holds breaksRest read⟩

theorem Reads.congr {text : List Char} {tokens : List Token} {condition other : Prop}
    (reads : Reads dialect text tokens condition) (same : condition ↔ other) :
    Reads dialect text tokens other := propext same ▸ reads

/-- A whole text is read as its tokens exactly under the condition. -/
theorem Reads.lex_iff {text : List Char} {tokens : List Token} {condition : Prop}
    (reads : Reads dialect text tokens condition) :
    lex dialect text = some tokens ↔ condition := by
  have ends : Breaks [] := nofun
  constructor
  · intro read
    have whole : lexFrom dialect .between (text ++ []) = some (tokens ++ []) := by
      rwa [List.append_nil, List.append_nil]
    exact reads.holds ends whole
  · intro holds
    have read := reads.read holds ends
    rwa [List.append_nil, lexFrom, finish, Option.map_some, List.append_nil] at read

/-- Entries with a separator between them that is complete by itself. -/
theorem reads_intercalate {ι : Type} {text : ι → List Char} {tokens : ι → List Token}
    {condition : ι → Prop} {c : Char} {separator : List Char} {between : List Token}
    (breaks : isBreak c = true)
    (scanned : scan dialect .between (c :: separator) = (between, .between)) {entries : List ι}
    (each : ∀ entry ∈ entries, Reads dialect (text entry) (tokens entry) (condition entry)) :
    Reads dialect ((c :: separator).intercalate (entries.map text))
      (between.intercalate (entries.map tokens)) (∀ entry ∈ entries, condition entry) := by
  induction entries with
  | nil => exact reads_nil.congr (by simp)
  | cons first entries ih =>
      obtain ⟨one, others⟩ := List.forall_mem_cons.mp each
      cases entries with
      | nil => simpa using one
      | cons second entries =>
          have reads := one.append ((ih others).behind scanned) fun _ _ => breaks_cons breaks _
          simpa only [List.map_cons, List.intercalate_cons_cons, List.append_assoc,
            List.forall_mem_cons] using reads

/-! ## Literals that go on otherwise -/

theorem special_blank : special dialect ' ' = false := special_eq_false (by decide) (by decide)

/-- A reader that is ahead does not come out with the value at a blank. -/
theorem misread_at_blank {mode : Mode} {front pending ahead word rest more : List Char}
    (inside : Inside mode front pending) (behind : Ahead dialect ahead)
    (expected : ahead ++ rest = word) :
    ¬ Begins (lexFrom dialect mode (' ' :: more)) (front ++ word) := by
  intro begins
  cases inside with
  | quoted =>
      obtain ⟨after, rfl⟩ := (begins.of_step (step_quoted_plain special_blank front)).goes_on
      exact absurd (behind.of_cons expected).1 (by rw [special_blank]; decide)
  | quote =>
      have whole := begins.of_completed (step_quote_other (by decide) front)
      obtain rfl : word = [] := List.append_right_eq_self.mp whole
      exact behind.nonempty (List.append_eq_nil_iff.mp expected).1
  | escape =>
      have later := begins.of_step (c := ' ') rfl
      obtain ⟨after, rfl⟩ := later.goes_on
      exact absurd (behind.of_cons expected).1 (by rw [special_blank]; decide)

/-- A reader that is ahead stays ahead up to a blank, so that it does not come out with the value
that goes on otherwise. -/
theorem misread_of_ahead_blank {mode : Mode} {front pending ahead word input rest more : List Char}
    (inside : Inside mode front pending)
    (escapes : mode = .escape front → dialect.escapes = true) (behind : Ahead dialect ahead)
    (expected : ahead ++ (pending ++ (input ++ rest)) = word) :
    ¬ Begins (lexFrom dialect mode (input ++ ' ' :: more)) (front ++ word) := by
  induction input generalizing mode front pending ahead word with
  | nil => exact misread_at_blank inside behind expected
  | cons c input ih =>
      intro begins
      rw [List.cons_append] at begins
      cases inside with
      | quoted =>
          cases isSpecial : special dialect c with
          | false =>
              obtain ⟨after, rfl⟩ := (begins.of_step (step_quoted_plain isSpecial front)).goes_on
              exact absurd (behind.of_cons expected).1 (by rw [isSpecial]; decide)
          | true =>
              rcases special_iff.mp isSpecial with rfl | ⟨escapes, rfl⟩
              · exact ih (.quote front) nofun behind expected
                  (begins.of_step (step_quoted_quote front))
              · exact ih (.escape front) (fun _ => escapes) behind expected
                  (begins.of_step (step_quoted_backslash escapes front))
      | quote =>
          by_cases quote : c = quoteMark
          · subst quote
            have later := begins.of_step (step_quote_quote front)
            obtain ⟨after, rfl⟩ := later.goes_on
            obtain ⟨_, further, onward⟩ :=
              behind.of_two special_quoteMark special_quoteMark expected
            rw [← List.append_assoc] at later
            exact ih (.quoted _) nofun further onward later
          · have whole := begins.of_completed (step_quote_other quote front)
            obtain rfl : word = [] := List.append_right_eq_self.mp whole
            exact behind.nonempty (List.append_eq_nil_iff.mp expected).1
      | escape =>
          have later := begins.of_step (c := c) rfl
          obtain ⟨after, rfl⟩ := later.goes_on
          obtain ⟨_, further, onward⟩ :=
            behind.of_escape (escapes rfl) (by simpa using expected)
          rw [← List.append_assoc] at later
          exact ih (.quoted _) nofun further onward later

/-- A quote in a value in front of a blank. -/
theorem misread_of_quote_blank (value rest more front : List Char) :
    ¬ Begins (lexFrom dialect (.quoted front) (quoteMark :: (value ++ ' ' :: more)))
      (front ++ quoteMark :: (value ++ rest)) := by
  intro begins
  have atQuote := begins.of_step (step_quoted_quote front)
  cases value with
  | nil =>
      have whole := atQuote.of_completed (step_quote_other (by decide) front)
      exact absurd (List.append_right_eq_self.mp whole) (List.cons_ne_nil _ _)
  | cons c value =>
      rw [List.cons_append] at atQuote
      by_cases quote : c = quoteMark
      · subst quote
        have later := atQuote.of_step (step_quote_quote front)
        rw [List.append_cons front quoteMark (_ ++ rest)] at later
        exact misread_of_ahead_blank (.quoted _) nofun (.single special_quoteMark) rfl later
      · have whole := atQuote.of_completed (step_quote_other quote front)
        exact absurd (List.append_right_eq_self.mp whole) (List.cons_ne_nil _ _)

/-- A backslash in a value in front of a blank, except before a joker. -/
theorem misread_of_backslash_blank (value : List Char) (escapes : dialect.escapes = true)
    (noJoker : ∀ c ∈ value.head?, ¬ (c = '%' ∨ c = '_')) (rest more front : List Char) :
    ¬ Begins (lexFrom dialect (.quoted front) (backslash :: (value ++ ' ' :: more)))
      (front ++ backslash :: (value ++ rest)) := by
  intro begins
  have atEscape := begins.of_step (step_quoted_backslash escapes front)
  cases value with
  | nil =>
      have later := atEscape.of_step (c := ' ') rfl
      obtain ⟨after, whole⟩ := later.goes_on
      exact absurd (List.cons.inj whole).1 (by decide)
  | cons c value =>
      rw [List.cons_append] at atEscape
      have later := atEscape.of_step (c := c) rfl
      rcases escaped_cases dialect c with ⟨joker, -⟩ | ⟨d, one, same⟩
      · exact noJoker c rfl joker
      · rw [one] at later
        obtain ⟨after, whole⟩ := later.goes_on
        obtain ⟨rfl, -⟩ := List.cons.inj whole
        obtain rfl := same (special_backslash escapes)
        rw [List.append_cons front backslash (_ ++ rest)] at later
        exact misread_of_ahead_blank (.quoted _) nofun (.single (special_backslash escapes)) rfl
          later

/-- A value of which the text goes on with a blank, and it does not, is not read back. -/
theorem misread_of_blank {value rest more : List Char} {d : Char} (differs : d ≠ ' ')
    (front : List Char) :
    ¬ Begins (lexFrom dialect (.quoted front) (value ++ ' ' :: more))
      (front ++ (value ++ d :: rest)) := by
  have atBlank : ∀ front : List Char,
      ¬ Begins (lexFrom dialect (.quoted front) (' ' :: more)) (front ++ d :: rest) := by
    intro front begins
    obtain ⟨after, whole⟩ := (begins.of_step (step_quoted_plain special_blank front)).goes_on
    exact differs (List.cons.inj whole).1
  induction value using plain.induct dialect generalizing front with
  | case1 => exact atBlank front
  | case2 c =>
      intro begins
      cases isSpecial : special dialect c with
      | false =>
          refine atBlank (front ++ [c]) ?_
          simpa using begins.of_step (step_quoted_plain isSpecial front)
      | true =>
          rcases special_iff.mp isSpecial with rfl | ⟨escapes, rfl⟩
          · exact misread_of_quote_blank [] _ _ front begins
          · exact misread_of_backslash_blank [] escapes (by simp) _ _ front begins
  | case3 next value => exact misread_of_quote_blank (next :: value) _ _ front
  | case4 c next value notQuote escapes ih =>
      obtain ⟨escaping, same⟩ := Bool.and_eq_true_iff.mp escapes
      obtain rfl : c = backslash := by simpa using same
      by_cases joker : next = '%' ∨ next = '_'
      · intro begins
        have later := (begins.of_step (step_quoted_backslash escaping front)).of_step (c := next) rfl
        rw [escaped_joker joker] at later
        refine ih (front ++ [backslash, next]) ?_
        simpa using later
      · exact misread_of_backslash_blank (next :: value) escaping (by simpa using joker) _ _
          front
  | case5 c next value notQuote escapesNot ih =>
      have ordinary : special dialect c = false := by
        rw [Bool.eq_false_iff, Ne, special_iff, not_or]
        exact ⟨notQuote, by simpa using escapesNot⟩
      intro begins
      refine ih (front ++ [c]) ?_
      simpa using begins.of_step (step_quoted_plain ordinary front)

/-! ## No tokens are longer than their text -/

/-- The characters that a token takes at least. -/
def Token.size : Token → Nat
  | keyword word => word.length
  | name word => word.length
  | number word => word.length
  | literal value => value.length + 2
  | symbol _ => 1

def tokensSize (tokens : List Token) : Nat := (tokens.map Token.size).sum

/-- What the reader has of a token. -/
def Mode.size : Mode → Nat
  | between => 0
  | word read => read.length
  | quoted value => value.length + 1
  | quote value => value.length + 2
  | escape value => value.length + 2

@[simp] theorem tokensSize_nil : tokensSize [] = 0 := rfl

@[simp] theorem tokensSize_cons (token : Token) (tokens : List Token) :
    tokensSize (token :: tokens) = token.size + tokensSize tokens := List.sum_cons

@[simp] theorem tokensSize_append (first second : List Token) :
    tokensSize (first ++ second) = tokensSize first + tokensSize second := by
  rw [tokensSize, List.map_append, List.sum_append]
  rfl

theorem size_ofWord (word : List Char) : (Token.ofWord word).size = word.length := by
  simp only [Token.ofWord]
  split
  · exact List.length_map _
  · split <;> rfl

theorem size_begin (c : Char) : tokensSize (begin c).1 + (begin c).2.size ≤ 1 := by
  unfold begin
  split_ifs <;> simp [Mode.size, Token.size]

theorem size_step (mode : Mode) (c : Char) :
    tokensSize (step dialect mode c).1 + (step dialect mode c).2.size ≤ mode.size + 1 := by
  have begun := size_begin c
  cases mode with
  | between => exact begun
  | word word =>
      rw [step]
      split
      · simp [Mode.size]
      · rw [tokensSize_cons, size_ofWord]
        change word.length + tokensSize (begin c).1 + (begin c).2.size ≤ word.length + 1
        omega
  | quoted value =>
      rw [step]
      split_ifs <;> simp [Mode.size]
  | quote value =>
      rw [step]
      split
      · simp [Mode.size]
      · rw [tokensSize_cons, Token.size]
        change value.length + 2 + tokensSize (begin c).1 + (begin c).2.size ≤ value.length + 2 + 1
        omega
  | escape value =>
      have short : (escaped c).length ≤ 2 := by
        unfold escaped
        split_ifs <;> simp
      simp only [step, tokensSize_nil, Mode.size, List.length_append]
      omega

/-- The tokens of a text are no longer than it. -/
theorem size_lexFrom {mode : Mode} {text : List Char} {tokens : List Token}
    (read : lexFrom dialect mode text = some tokens) :
    tokensSize tokens ≤ mode.size + text.length := by
  induction text generalizing mode tokens with
  | nil =>
      cases mode with
      | between =>
          cases read
          exact Nat.zero_le _
      | word read =>
          cases read
          simp [size_ofWord, Mode.size]
      | quote value =>
          cases read
          simp [Token.size, Mode.size]
      | quoted | escape => cases read
  | cons c text ih =>
      obtain ⟨later, readLater, rfl⟩ := Option.map_eq_some_iff.mp read
      have now : tokensSize (step dialect mode c).1 + (step dialect mode c).2.size ≤ mode.size + 1 :=
        size_step mode c
      have behind := ih readLater
      rw [tokensSize_append, List.length_cons]
      omega

end SqlText
