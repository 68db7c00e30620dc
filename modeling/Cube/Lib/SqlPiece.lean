import Cube.Lib.SqlToken

/-! # Texts in SQL from pieces

A text is put together from fixed texts, names and values between quotes. It is read as the
tokens of its pieces if and only if the names are names and the values are plain.
-/

namespace SqlText

/-- A piece of a text: a fixed text and its tokens, a name, or a value between quotes. -/
inductive Piece where
  | fixed (text : List Char) (tokens : List Token)
  | name (word : List Char)
  | literal (value : List Char)

namespace Piece

def text : Piece → List Char
  | fixed text _ => text
  | name word => word
  | literal value => quoteMark :: (value ++ [quoteMark])

def tokens : Piece → List Token
  | fixed _ tokens => tokens
  | name word => [.name word]
  | literal value => [.literal value]

/-- A name is a name, and a value is plain. -/
def Sound (dialect : Dialect) : Piece → Prop
  | fixed _ _ => True
  | name word => IsName word
  | literal value => plain dialect value = true

@[simp] theorem sound_fixed (dialect : Dialect) (text : List Char) (tokens : List Token) :
    (fixed text tokens).Sound dialect := trivial

@[simp] theorem sound_name (dialect : Dialect) (word : List Char) :
    (name word).Sound dialect ↔ IsName word := Iff.rfl

@[simp] theorem sound_literal (dialect : Dialect) (value : List Char) :
    (literal value).Sound dialect ↔ plain dialect value = true := Iff.rfl

end Piece

def textOf (pieces : List Piece) : List Char := pieces.flatMap Piece.text

def tokensOf (pieces : List Piece) : List Token := pieces.flatMap Piece.tokens

@[simp] theorem textOf_nil : textOf [] = [] := rfl

@[simp] theorem textOf_cons (piece : Piece) (pieces : List Piece) :
    textOf (piece :: pieces) = piece.text ++ textOf pieces := List.flatMap_cons

@[simp] theorem textOf_append (first second : List Piece) :
    textOf (first ++ second) = textOf first ++ textOf second := List.flatMap_append

@[simp] theorem tokensOf_nil : tokensOf [] = [] := rfl

@[simp] theorem tokensOf_cons (piece : Piece) (pieces : List Piece) :
    tokensOf (piece :: pieces) = piece.tokens ++ tokensOf pieces := List.flatMap_cons

@[simp] theorem tokensOf_append (first second : List Piece) :
    tokensOf (first ++ second) = tokensOf first ++ tokensOf second := List.flatMap_append

/-- A character that ends a word and does not continue a literal. -/
def isBreak (c : Char) : Bool := !isWordChar c && c != quoteMark && c != backslash

/-- A text that begins with a break, or is empty. -/
def Breaks (text : List Char) : Prop := ∀ c ∈ text.head?, isBreak c = true

/-- The pieces can be told apart: a fixed text is read by itself, and a name or a literal is
followed by a break. -/
def Fits (dialect : Dialect) : List Piece → Prop
  | [] => True
  | .fixed text tokens :: pieces =>
      scan dialect .between text = (tokens, .between) ∧ Fits dialect pieces
  | .name _ :: pieces => Breaks (textOf pieces) ∧ Fits dialect pieces
  | .literal _ :: pieces => Breaks (textOf pieces) ∧ Fits dialect pieces

variable {dialect : Dialect}

theorem isBreak_iff {c : Char} : isBreak c = true ↔
    isWordChar c = false ∧ c ≠ quoteMark ∧ c ≠ backslash := by
  simp [isBreak, and_assoc]

theorem breaks_cons {c : Char} (breaks : isBreak c = true) (text : List Char) :
    Breaks (c :: text) := by
  simpa [Breaks] using breaks

theorem Breaks.ordinary {text : List Char} (breaks : Breaks text) :
    ∀ c ∈ text.head?, special dialect c = false := by
  intro c first
  obtain ⟨-, notQuote, notBackslash⟩ := isBreak_iff.mp (breaks c first)
  exact special_eq_false notQuote notBackslash

/-! ## Every name that is read is a name -/

/-- A word that is being read. -/
def Mode.Sane (mode : Mode) : Prop :=
  ∀ word, mode = .word word → word ≠ [] ∧ ∀ c ∈ word, isWordChar c = true

theorem Mode.between_sane : Mode.between.Sane := nofun

theorem isName_of_ofWord {word read : List Char} (nonempty : read ≠ [])
    (chars : ∀ c ∈ read, isWordChar c = true) (isName : Token.ofWord read = .name word) :
    IsName word := by
  have same : read = word := by
    simp only [Token.ofWord] at isName
    split at isName
    · cases isName
    · split at isName
      · cases isName
      · exact Token.name.inj isName
  subst same
  exact ⟨nonempty, chars, isName⟩

theorem begin_sane (c : Char) :
    (begin c).2.Sane ∧ ∀ word, Token.name word ∉ (begin c).1 := by
  unfold begin
  split
  · exact ⟨nofun, by simp⟩
  · split
    · exact ⟨nofun, by simp⟩
    · split
      next wordChar =>
        refine ⟨?_, by simp⟩
        rintro word same
        cases same
        exact ⟨List.cons_ne_nil _ _, by simpa using wordChar⟩
      · exact ⟨nofun, by simp⟩

/-- A step completes no name that is not one. -/
theorem step_sane (dialect : Dialect) {mode : Mode} (sane : mode.Sane) (c : Char) :
    (step dialect mode c).2.Sane ∧
      ∀ word, Token.name word ∈ (step dialect mode c).1 → IsName word := by
  obtain ⟨saneBegin, noName⟩ := begin_sane c
  cases mode with
  | between => exact ⟨saneBegin, fun word member => (noName word member).elim⟩
  | word read =>
      obtain ⟨nonempty, chars⟩ := sane read rfl
      unfold step
      dsimp only
      split
      next wordChar =>
        refine ⟨?_, by simp⟩
        rintro word same
        cases same
        refine ⟨by simp, ?_⟩
        intro d member
        rcases List.mem_append.mp member with earlier | last
        · exact chars d earlier
        · rwa [List.mem_singleton.mp last]
      next =>
        refine ⟨saneBegin, ?_⟩
        intro word member
        rcases List.mem_cons.mp member with isWord | later
        · exact isName_of_ofWord nonempty chars isWord.symm
        · exact (noName word later).elim
  | quoted value =>
      unfold step
      dsimp only
      split
      · exact ⟨nofun, by simp⟩
      · split
        · exact ⟨nofun, by simp⟩
        · exact ⟨nofun, by simp⟩
  | quote value =>
      unfold step
      dsimp only
      split
      · exact ⟨nofun, by simp⟩
      · refine ⟨saneBegin, ?_⟩
        intro word member
        rcases List.mem_cons.mp member with isLiteral | later
        · cases isLiteral
        · exact (noName word later).elim
  | escape value => exact ⟨nofun, by simp [step]⟩

/-- Every name that is read is a name. -/
theorem isName_of_lexFrom {mode : Mode} (sane : mode.Sane) {text word : List Char}
    {tokens : List Token} (read : lexFrom dialect mode text = some tokens)
    (member : Token.name word ∈ tokens) : IsName word := by
  induction text generalizing mode tokens with
  | nil =>
      cases mode with
      | between =>
          cases read
          cases member
      | word front =>
          cases read
          obtain ⟨nonempty, chars⟩ := sane front rfl
          exact isName_of_ofWord nonempty chars (List.mem_singleton.mp member).symm
      | quoted value => cases read
      | quote value =>
          cases read
          cases List.mem_singleton.mp member
      | escape value => cases read
  | cons c text ih =>
      obtain ⟨saneNext, named⟩ := step_sane dialect sane c
      obtain ⟨later, readLater, rfl⟩ := Option.map_eq_some_iff.mp read
      rcases List.mem_append.mp member with now | after
      · exact named word now
      · exact ih saneNext readLater after

/-! ## Reading pieces -/

theorem map_append_eq_some {read : Option (List Token)} {first second : List Token} :
    read.map (first ++ ·) = some (first ++ second) ↔ read = some second :=
  (Option.map_injective (List.append_right_injective first)).eq_iff' rfl

/-- A name is read up to the break behind it. -/
theorem lexFrom_name {word rest : List Char} (named : IsName word) (breaks : Breaks rest) :
    lexFrom dialect .between (word ++ rest) =
      (lexFrom dialect .between rest).map ([.name word] ++ ·) := by
  rw [lexFrom_append, scan_name named]
  cases rest with
  | nil =>
      simp only [lexFrom, finish, named.isName, List.nil_append, Option.map_some,
        List.append_nil]
  | cons c rest =>
      have ends := (isBreak_iff.mp (breaks c rfl)).1
      simp only [lexFrom, step, ends, Bool.false_eq_true, if_false, named.isName,
        List.nil_append, Option.map_map]
      rfl

/-- A plain value is read up to the break behind its literal. -/
theorem lexFrom_literal {value rest : List Char} (isPlain : plain dialect value = true)
    (breaks : Breaks rest) :
    lexFrom dialect .between (quoteMark :: (value ++ quoteMark :: rest)) =
      (lexFrom dialect .between rest).map ([.literal value] ++ ·) := by
  have opening : step dialect .between quoteMark = ([], .quoted []) := rfl
  rw [lexFrom, opening, lexFrom_append, scan_plain isPlain, lexFrom, step_quoted_quote]
  simp only [List.nil_append, Option.map_id']
  cases rest with
  | nil => rfl
  | cons c rest =>
      have notQuote := (isBreak_iff.mp (breaks c rfl)).2.1
      rw [lexFrom, lexFrom, step_quote_other notQuote]
      simp only [step, Option.map_map]
      rfl

/-- The pieces of a text are read as their tokens if and only if they are sound. -/
theorem lex_pieces {pieces : List Piece} (fits : Fits dialect pieces) :
    lex dialect (textOf pieces) = some (tokensOf pieces) ↔
      ∀ piece ∈ pieces, piece.Sound dialect := by
  unfold lex
  induction pieces with
  | nil => simp [lexFrom, finish]
  | cons piece pieces ih =>
      rw [List.forall_mem_cons, textOf_cons, tokensOf_cons]
      cases piece with
      | fixed text tokens =>
          obtain ⟨scanned, fits⟩ := fits
          rw [← ih fits]
          simp only [Piece.text, Piece.tokens, Piece.Sound, lexFrom_append, scanned, true_and,
            map_append_eq_some]
      | name word =>
          obtain ⟨breaks, fits⟩ := fits
          rw [← ih fits]
          constructor
          · intro read
            have named : IsName word :=
              isName_of_lexFrom Mode.between_sane read List.mem_cons_self
            rw [Piece.text, lexFrom_name named breaks] at read
            exact ⟨named, map_append_eq_some.mp read⟩
          · rintro ⟨named, read⟩
            rw [Piece.text, lexFrom_name named breaks]
            exact map_append_eq_some.mpr read
      | literal value =>
          obtain ⟨breaks, fits⟩ := fits
          rw [← ih fits]
          simp only [Piece.text, Piece.tokens, Piece.Sound, List.cons_append, List.append_assoc,
            List.nil_append]
          cases isPlain : plain dialect value with
          | true =>
              rw [lexFrom_literal isPlain breaks, eq_self, true_and]
              exact map_append_eq_some
          | false =>
              refine iff_of_false ?_ (by simp)
              intro read
              refine misread_of_not_plain isPlain breaks.ordinary [] ⟨tokensOf pieces, ?_⟩
              have opening : step dialect .between quoteMark = ([], .quoted []) := rfl
              rw [lexFrom, opening] at read
              simpa using read

/-! ## Lists of pieces -/

theorem flatMap_intercalate {α β : Type} (f : α → List β) (between : List α)
    (lists : List (List α)) :
    (between.intercalate lists).flatMap f =
      (between.flatMap f).intercalate (lists.map fun list => list.flatMap f) := by
  induction lists with
  | nil => rfl
  | cons first lists ih =>
      cases lists with
      | nil => simp only [List.intercalate_singleton, List.map_cons, List.map_nil]
      | cons second lists =>
          rw [List.intercalate_cons_cons, List.flatMap_append, List.flatMap_append, ih]
          simp only [List.map_cons, List.intercalate_cons_cons]

theorem filterMap_intercalate {α β : Type} {f : α → Option β} {between : List α}
    (skipped : between.filterMap f = []) (lists : List (List α)) :
    (between.intercalate lists).filterMap f = lists.flatMap (List.filterMap f) := by
  induction lists with
  | nil => rfl
  | cons first lists ih =>
      cases lists with
      | nil => simp only [List.intercalate_singleton, List.flatMap_singleton]
      | cons second lists =>
          rw [List.intercalate_cons_cons, List.filterMap_append, List.filterMap_append, ih,
            skipped, List.append_nil, ← List.flatMap_cons]

/-- What holds of the separator and of the entries holds of the list, and the other way. -/
theorem forall_mem_intercalate {α : Type} {P : α → Prop} {between : List α}
    {lists : List (List α)} (separated : ∀ a ∈ between, P a) :
    (∀ a ∈ between.intercalate lists, P a) ↔ ∀ list ∈ lists, ∀ a ∈ list, P a := by
  induction lists with
  | nil => simp
  | cons first lists ih =>
      cases lists with
      | nil => simp
      | cons second lists =>
          rw [List.forall_mem_cons, ← ih, List.intercalate_cons_cons, List.forall_mem_append,
            List.forall_mem_append]
          exact ⟨fun ⟨⟨inFirst, _⟩, later⟩ => ⟨inFirst, later⟩,
            fun ⟨inFirst, later⟩ => ⟨⟨inFirst, separated⟩, later⟩⟩

/-- A loop that passes over some elements goes over the others. -/
theorem flatMap_filter {α β : Type} (p : α → Bool) (f : α → List β) (list : List α) :
    (list.filter p).flatMap f = list.flatMap fun a => if p a then f a else [] := by
  induction list with
  | nil => rfl
  | cons a list ih =>
      by_cases kept : p a = true
      · rw [List.filter_cons_of_pos kept, List.flatMap_cons, List.flatMap_cons, if_pos kept, ih]
      · rw [List.filter_cons_of_neg kept, List.flatMap_cons, if_neg kept, ih, List.nil_append]

/-- Entries that each end with the separator, without the last separator. -/
theorem dropLast_flatMap {α β : Type} (f : α → List β) (between : β) (list : List α) :
    (list.flatMap fun a => f a ++ [between]).dropLast = [between].intercalate (list.map f) := by
  induction list with
  | nil => rfl
  | cons first list ih =>
      cases list with
      | nil => simp only [List.flatMap_singleton, List.dropLast_concat, List.map_cons,
          List.map_nil, List.intercalate_singleton]
      | cons second list =>
          rw [List.flatMap_cons, List.dropLast_append_of_ne_nil (by simp), ih]
          simp only [List.map_cons, List.intercalate_cons_cons]

/-- Entries behind the first each begin with the separator. -/
theorem intercalate_cons_eq {α : Type} (between first : List α) (lists : List (List α)) :
    between.intercalate (first :: lists) = first ++ lists.flatMap (between ++ ·) := by
  induction lists generalizing first with
  | nil => simp only [List.intercalate_singleton, List.flatMap_nil, List.append_nil]
  | cons second lists ih =>
      rw [List.intercalate_cons_cons, ih, List.flatMap_cons, List.append_assoc,
        List.append_assoc]

theorem textOf_intercalate (between : List Piece) (lists : List (List Piece)) :
    textOf (between.intercalate lists) = (textOf between).intercalate (lists.map textOf) :=
  flatMap_intercalate Piece.text between lists

theorem tokensOf_intercalate (between : List Piece) (lists : List (List Piece)) :
    tokensOf (between.intercalate lists) = (tokensOf between).intercalate (lists.map tokensOf) :=
  flatMap_intercalate Piece.tokens between lists

/-- A list of entries with a fixed text between them. -/
def listed (separator : Piece) (entries : List (List Piece)) : List Piece :=
  [separator].intercalate entries

theorem textOf_listed (text : List Char) (tokens : List Token) (entries : List (List Piece)) :
    textOf (listed (.fixed text tokens) entries) = text.intercalate (entries.map textOf) := by
  rw [listed, textOf_intercalate, textOf_cons, textOf_nil, List.append_nil]
  rfl

theorem tokensOf_listed (text : List Char) (tokens : List Token) (entries : List (List Piece)) :
    tokensOf (listed (.fixed text tokens) entries) =
      tokens.intercalate (entries.map tokensOf) := by
  rw [listed, tokensOf_intercalate, tokensOf_cons, tokensOf_nil, List.append_nil]
  rfl

/-- Entries that fit before a break fit as a list. -/
theorem fits_listed {text : List Char} {tokens : List Token} {entries : List (List Piece)}
    {rest : List Piece} (scanned : scan dialect .between text = (tokens, .between))
    (breaks : ∀ more, Breaks (text ++ more))
    (entry : ∀ pieces ∈ entries, ∀ rest, Breaks (textOf rest) → Fits dialect rest →
      Fits dialect (pieces ++ rest))
    (breaksRest : Breaks (textOf rest)) (fitsRest : Fits dialect rest) :
    Fits dialect (listed (.fixed text tokens) entries ++ rest) := by
  induction entries with
  | nil => exact fitsRest
  | cons first entries ih =>
      have first_fits := entry first List.mem_cons_self
      have others := ih fun pieces member => entry pieces (List.mem_cons_of_mem _ member)
      cases entries with
      | nil =>
          rw [listed, List.intercalate_singleton]
          exact first_fits rest breaksRest fitsRest
      | cons second entries =>
          rw [listed, List.intercalate_cons_cons, List.append_assoc, List.append_assoc]
          refine first_fits _ ?_ ⟨scanned, others⟩
          rw [List.singleton_append, textOf_cons]
          exact breaks _

end SqlText
