import Cube.Base.Version

/-! # Recognising numbers

`is_number` of `util.cpp`: integers, and the scanner of decimal numbers with its compressed table of
transitions. A read outside of a table faults, and so would a chain of defaults that does not end.
-/

namespace Cube.Base.Number

open Decimal

/-- The characters of a text that is left; behind them is the NUL. -/
def isNonnegativeInteger (s : List UInt8) : Bool :=
  if s.head? = some 48 ∧ s.tail ≠ [] then false
  else s ≠ [] && s.all isDigit

def isInteger (s : List UInt8) : Bool :=
  isNonnegativeInteger (if s.head? = some 43 ∨ s.head? = some 45 then s.tail else s)

/-! ## The tables -/

def yyAccept : List Nat :=
  [0,
    0, 0, 3, 2, 2, 2, 2, 1, 0, 0,
    0, 1, 1, 1, 1, 0, 1, 0, 1, 0]

def yyEc : List Nat :=
  [0,
    1, 1, 1, 1, 1, 1, 1, 1, 2, 2,
    2, 2, 2, 1, 1, 1, 1, 1, 1, 1,
    1, 1, 1, 1, 1, 1, 1, 1, 1, 1,
    1, 2, 1, 1, 1, 1, 1, 1, 1, 1,
    1, 1, 3, 1, 3, 4, 1, 5, 5, 5,
    5, 5, 5, 5, 5, 5, 5, 1, 1, 1,
    1, 1, 1, 1, 1, 1, 1, 1, 6, 1,
    1, 1, 1, 1, 1, 1, 1, 1, 1, 1,
    1, 1, 1, 1, 1, 1, 1, 1, 1, 1,
    1, 1, 1, 1, 1, 1, 1, 1, 1, 1,

    6, 1, 1, 1, 1, 1, 1, 1, 1, 1,
    1, 1, 1, 1, 1, 1, 1, 1, 1, 1,
    1, 1, 1, 1, 1, 1, 1, 1, 1, 1,
    1, 1, 1, 1, 1, 1, 1, 1, 1, 1,
    1, 1, 1, 1, 1, 1, 1, 1, 1, 1,
    1, 1, 1, 1, 1, 1, 1, 1, 1, 1,
    1, 1, 1, 1, 1, 1, 1, 1, 1, 1,
    1, 1, 1, 1, 1, 1, 1, 1, 1, 1,
    1, 1, 1, 1, 1, 1, 1, 1, 1, 1,
    1, 1, 1, 1, 1, 1, 1, 1, 1, 1,

    1, 1, 1, 1, 1, 1, 1, 1, 1, 1,
    1, 1, 1, 1, 1, 1, 1, 1, 1, 1,
    1, 1, 1, 1, 1, 1, 1, 1, 1, 1,
    1, 1, 1, 1, 1, 1, 1, 1, 1, 1,
    1, 1, 1, 1, 1, 1, 1, 1, 1, 1,
    1, 1, 1, 1, 1]

def yyMeta : List Nat := [0, 1, 2, 1, 1, 3, 1]

def yyBase : List Nat :=
  [0,
    0, 0, 27, 28, 5, 7, 0, 11, 0, 0,
    0, 0, 16, 0, 21, 20, 0, 0, 19, 28,
    17, 17, 11]

def yyDef : List Nat :=
  [0,
    20, 1, 20, 20, 20, 20, 21, 20, 5, 6,
    21, 8, 20, 22, 13, 20, 15, 23, 15, 0,
    20, 20, 20]

def yyNxt : List Nat :=
  [0,
    4, 5, 6, 7, 8, 4, 9, 10, 11, 12,
    11, 12, 14, 19, 15, 12, 16, 14, 14, 13,
    13, 16, 18, 19, 19, 17, 20, 3, 20, 20,
    20, 20, 20, 20]

def yyChk : List Nat :=
  [0,
    1, 1, 1, 1, 1, 1, 5, 5, 5, 5,
    6, 6, 8, 23, 8, 8, 8, 13, 22, 21,
    13, 13, 16, 19, 16, 15, 3, 20, 20, 20,
    20, 20, 20, 20]

def lastDfa : Nat := 19

def jambase : Nat := 28

/-! ## The scanner -/

/-- The inner loop: the chain of defaults up to an entry of the state. A chain that has not ended
after as many steps as there are states would never end. -/
def chain : Nat → Nat → Nat → Outcome Empty (Nat × Nat)
  | 0, _, _ => .fault
  | steps + 1, curr, c => do
      let base ← Buffer.read yyBase curr
      let owner ← Buffer.read yyChk (base + c)
      if owner = curr then return (curr, c)
      let curr ← Buffer.read yyDef curr
      if curr ≥ lastDfa + 2 then
        let c ← Buffer.read yyMeta c
        chain steps curr c
      else chain steps curr c

/-- The next state. -/
def transition (curr c : Nat) : Outcome Empty Nat := do
  let (curr, c) ← chain yyBase.length curr c
  let base ← Buffer.read yyBase curr
  Buffer.read yyNxt (base + c)

/-- The loop over the characters from a state on. -/
def scan : List UInt8 → Nat → Outcome Empty Bool
  | [], _ => return false
  | char :: s, curr => do
      let c ← Buffer.read yyEc char.toNat
      let accept ← Buffer.read yyAccept curr
      if accept = 1 ∧ s = [] then return true
      let curr ← transition curr c
      let base ← Buffer.read yyBase curr
      if base ≠ jambase then scan s curr else return false

def isNumber (s : List UInt8) : Outcome Empty Bool :=
  if isInteger s then return true else scan s 1

/-! ## Numbers -/

def Sign (text : List UInt8) : Prop := text = [] ∨ text = [43] ∨ text = [45]

def Digits (text : List UInt8) : Prop := text ≠ [] ∧ ∀ c ∈ text, isDigit c = true

def Blanks (text : List UInt8) : Prop := ∀ c ∈ text, isSpace c = true

/-- Digits with an optional point and further digits, or a point followed by digits. -/
def Mantissa (text : List UInt8) : Prop :=
  Digits text ∨
    (∃ whole fraction, Digits whole ∧ (∀ c ∈ fraction, isDigit c = true) ∧
      text = whole ++ 46 :: fraction) ∨
    ∃ fraction, Digits fraction ∧ text = 46 :: fraction

def Exponent (text : List UInt8) : Prop :=
  ∃ e sign digits, (e = 101 ∨ e = 69) ∧ Sign sign ∧ Digits digits ∧ text = e :: (sign ++ digits)

/-- The texts that `is_number` is to recognise. -/
def IsNumber (text : List UInt8) : Prop :=
  ∃ sign number, Sign sign ∧ text = sign ++ number ∧
    (isNonnegativeInteger number = true ∨
      ∃ mantissa exponent, Mantissa mantissa ∧ (exponent = [] ∨ Exponent exponent) ∧
        number = mantissa ++ exponent)

/-- Exponents, any number of them, and blanks. -/
def Rest (text : List UInt8) : Prop :=
  ∃ (exponents : List (List UInt8)) (blanks : List UInt8), (∀ e ∈ exponents, Exponent e) ∧
    Blanks blanks ∧ text = exponents.flatten ++ blanks

/-- A decimal number as the tables have it: with blanks around it, and any number of exponents. -/
def Loose (text : List UInt8) : Prop :=
  ∃ blanks sign mantissa rest, Blanks blanks ∧ Sign sign ∧ Mantissa mantissa ∧ Rest rest ∧
    text = blanks ++ sign ++ mantissa ++ rest

/-- The last character is the only digit behind a point that has none in front, or the only one of
an exponent. -/
def Short (text : List UInt8) : Prop :=
  ∃ front d, text = front ++ [d] ∧
    ((∃ sign, Sign sign ∧ front = sign ++ [46]) ∨
      ∃ head e sign, (e = 101 ∨ e = 69) ∧ Sign sign ∧ front = head ++ e :: sign)

/-- The answer is returned, and it says whether the text is a number. -/
def Right (s : List UInt8) : Prop :=
  ∃ answer, isNumber s = .ok answer ∧ (answer = true ↔ IsNumber s)

/-! ## The scanner as an automaton -/

/-- The classes of characters. -/
inductive CharClass where
  | other
  | blank
  | sign
  | point
  | digit
  | exponent
  deriving DecidableEq

namespace CharClass

def all : List CharClass := [other, blank, sign, point, digit, exponent]

theorem mem_all (c : CharClass) : c ∈ all := by
  cases c <;> decide

/-- The number of a class in the tables. -/
def code : CharClass → Nat
  | other => 1
  | blank => 2
  | sign => 3
  | point => 4
  | digit => 5
  | exponent => 6

def of (c : UInt8) : CharClass :=
  if isDigit c then digit
  else if isSpace c then blank
  else if c = 43 ∨ c = 45 then sign
  else if c = 46 then point
  else if c = 101 ∨ c = 69 then exponent
  else other

end CharClass

/-- Where the scanner stands in a number. -/
inductive Phase where
  /-- nothing but blanks so far -/
  | front
  | signed
  /-- a digit has to follow -/
  | due
  /-- in the digits in front of a point -/
  | whole
  /-- in other digits -/
  | digits
  /-- behind an `e` -/
  | exponent
  /-- in the blanks behind -/
  | back
  deriving DecidableEq

namespace Phase

def next : Phase → CharClass → Option Phase
  | front, .blank => front
  | front, .sign => signed
  | front, .point => due
  | front, .digit => whole
  | signed, .point => due
  | signed, .digit => whole
  | due, .digit => digits
  | whole, .digit => whole
  | whole, .point => digits
  | whole, .exponent => exponent
  | whole, .blank => back
  | digits, .digit => digits
  | digits, .exponent => exponent
  | digits, .blank => back
  | exponent, .sign => due
  | exponent, .digit => digits
  | back, .blank => back
  | _, _ => none

/-- A number may end here. -/
def ends : Phase → Bool
  | whole | digits | back => true
  | _ => false

/-- The phase behind some more characters. -/
def run (phase : Phase) (text : List UInt8) : Option Phase :=
  text.foldlM (fun phase c => phase.next (.of c)) phase

/-- The rest of a text leads to the end of a number. -/
def accepts (phase : Phase) (text : List UInt8) : Bool := (phase.run text).any ends

@[simp] theorem accepts_nil (phase : Phase) : phase.accepts [] = phase.ends := rfl

theorem accepts_cons_eq (phase : Phase) (c : UInt8) (text : List UInt8) :
    phase.accepts (c :: text) = (phase.next (.of c)).any fun later => later.accepts text := by
  rw [accepts, run, List.foldlM_cons]
  cases phase.next (.of c) with
  | none => rfl
  | some later => rfl

/-- The phases of the states of the tables; the other ones are not reached. -/
def ofState : List (Nat × Phase) :=
  [(1, front), (5, front), (9, front), (6, signed), (10, signed), (7, due), (11, due), (18, due),
    (8, whole), (12, whole), (13, digits), (15, digits), (17, digits), (19, digits),
    (16, exponent), (14, back)]

end Phase

theorem yyEc_eq {c : UInt8} (text : c ≠ 0) : yyEc[c.toNat]? = some (CharClass.of c).code := by
  have table : yyEc =
      0 :: (List.range 255).map fun n => (CharClass.of (UInt8.ofNat (n + 1))).code := by
    decide +kernel
  have positive : c.toNat ≠ 0 := fun nul => text (UInt8.toNat_inj.mp nul)
  obtain ⟨n, same⟩ := Nat.exists_eq_add_one_of_ne_zero positive
  have small : n < 255 := by
    have bound := c.toNat_lt
    omega
  rw [table, same, List.getElem?_cons_succ, List.getElem?_map, List.getElem?_range small,
    Option.map_some, ← same, UInt8.ofNat_toNat]

/-- A state of the tables with its phase. -/
def InPhase (curr : Nat) (phase : Phase) : Prop := (curr, phase) ∈ Phase.ofState

theorem start_inPhase : InPhase 1 .front := List.mem_cons_self

/-- What the tables hold for a state. -/
theorem accept_of_inPhase {curr : Nat} {phase : Phase} (inPhase : InPhase curr phase) :
    ∃ accept, Buffer.read yyAccept curr = (.ok accept : Outcome Empty Nat) ∧
      (accept = 1 ↔ phase.ends = true) := by
  have table : ∀ state ∈ Phase.ofState, ∃ accept ∈ yyAccept,
      Buffer.read yyAccept state.1 = (.ok accept : Outcome Empty Nat) ∧
        (accept = 1 ↔ state.2.ends = true) := by
    decide
  obtain ⟨accept, _, found⟩ := table (curr, phase) inPhase
  exact ⟨accept, found⟩

/-- A transition leads to a state of the next phase, or to one that ends the loop. -/
theorem transition_of_inPhase {curr : Nat} {phase : Phase} (inPhase : InPhase curr phase)
    (c : CharClass) :
    ∃ next base, transition curr c.code = .ok next ∧
      Buffer.read yyBase next = (.ok base : Outcome Empty Nat) ∧
      (phase.next c = none → base = jambase) ∧
      ∀ later ∈ phase.next c, base ≠ jambase ∧ InPhase next later := by
  have table : ∀ state ∈ Phase.ofState, ∀ c ∈ CharClass.all,
      (transition state.1 c.code >>= fun next => Buffer.read yyBase next >>= fun base =>
        .ok (decide ((state.2.next c = none → base = jambase) ∧
          ∀ later ∈ state.2.next c, base ≠ jambase ∧ (next, later) ∈ Phase.ofState))) =
        (.ok true : Outcome Empty Bool) := by
    decide
  obtain ⟨next, moved, rest⟩ :=
    Outcome.bind_eq_ok.mp (table (curr, phase) inPhase c c.mem_all)
  obtain ⟨base, read, found⟩ := Outcome.bind_eq_ok.mp rest
  have holds := of_decide_eq_true (Outcome.ok.inj found)
  exact ⟨next, base, moved, read, holds⟩

/-- The loop answers whether the text in front of its last character may end there. -/
theorem scan_of_inPhase {s : List UInt8} (plain : 0 ∉ s) {curr : Nat} {phase : Phase}
    (inPhase : InPhase curr phase) :
    scan s curr = .ok (decide (s ≠ []) && phase.accepts s.dropLast) := by
  induction s generalizing curr phase with
  | nil => rfl
  | cons char s ih =>
      have text : char ≠ 0 := fun nul => plain (nul ▸ List.mem_cons_self)
      have behind : 0 ∉ s := fun nul => plain (List.mem_cons_of_mem _ nul)
      obtain ⟨accept, accepted, ends⟩ := accept_of_inPhase inPhase
      rw [scan, Buffer.read_eq_ok.mpr (yyEc_eq text), Outcome.ok_bind, accepted, Outcome.ok_bind]
      obtain ⟨next, base, moved, read, ended, goes⟩ := transition_of_inPhase inPhase (.of char)
      cases s with
      | nil =>
          by_cases final : accept = 1
          · simp [final, ends.mp final]
          · have unfinished : phase.ends = false := by simpa [ends] using final
            simp [final, unfinished, moved, read, scan]
      | cons char' s =>
          rw [if_neg (by simp), moved, Outcome.ok_bind, read, Outcome.ok_bind]
          simp only [ne_eq, reduceCtorEq, not_false_eq_true, decide_true, Bool.true_and,
            List.dropLast_cons_of_ne_nil, Phase.accepts_cons_eq]
          cases follows : phase.next (.of char) with
          | none => simp [ended follows]
          | some later =>
              obtain ⟨more, inLater⟩ := goes later follows
              rw [if_pos more, ih behind inLater]
              simp

/-! ## The automaton and the numbers -/

/-- The classes of the characters that occur in numbers. -/
theorem CharClass.of_eq_iff (c : UInt8) :
    (of c = digit ↔ isDigit c = true) ∧ (of c = blank ↔ isSpace c = true) ∧
      (of c = sign ↔ c = 43 ∨ c = 45) ∧ (of c = point ↔ c = 46) ∧
      (of c = exponent ↔ c = 101 ∨ c = 69) := by
  have digits : isDigit c = true → isSpace c = false ∧ c ≠ 43 ∧ c ≠ 45 ∧ c ≠ 46 ∧ c ≠ 101 ∧
      c ≠ 69 := by
    grind [isDigit, isSpace]
  have blanks : isSpace c = true → c ≠ 43 ∧ c ≠ 45 ∧ c ≠ 46 ∧ c ≠ 101 ∧ c ≠ 69 := by
    grind [isSpace]
  unfold of
  grind

namespace Phase

/-- What may follow in a phase. -/
def Follows : Phase → List UInt8 → Prop
  | front, text => Loose text
  | signed, text => ∃ mantissa rest, Mantissa mantissa ∧ Rest rest ∧ text = mantissa ++ rest
  | due, text => ∃ digits rest, Digits digits ∧ Rest rest ∧ text = digits ++ rest
  | whole, text =>
      ∃ whole rest, (∀ c ∈ whole, isDigit c = true) ∧ text = whole ++ rest ∧
        (Rest rest ∨ ∃ fraction more, (∀ c ∈ fraction, isDigit c = true) ∧ Rest more ∧
          rest = 46 :: (fraction ++ more))
  | digits, text =>
      ∃ digits rest, (∀ c ∈ digits, isDigit c = true) ∧ Rest rest ∧ text = digits ++ rest
  | exponent, text =>
      ∃ sign digits rest, Sign sign ∧ Digits digits ∧ Rest rest ∧ text = sign ++ digits ++ rest
  | back, text => Blanks text

theorem rest_of_blanks {text : List UInt8} (blanks : Blanks text) : Rest text :=
  ⟨[], text, by simp, blanks, rfl⟩

theorem rest_of_exponent {e : UInt8} (marks : e = 101 ∨ e = 69) {text : List UInt8}
    (follows : exponent.Follows text) : Rest (e :: text) := by
  obtain ⟨sign, digits, _, signed, some, ⟨exponents, blanks, each, space, rfl⟩, rfl⟩ := follows
  refine ⟨(e :: (sign ++ digits)) :: exponents, blanks, ?_, space, by simp⟩
  rw [List.forall_mem_cons]
  exact ⟨⟨e, sign, digits, marks, signed, some, rfl⟩, each⟩

theorem digits_cons {c : UInt8} (digit : isDigit c = true) {text : List UInt8}
    (plain : ∀ c ∈ text, isDigit c = true) : Digits (c :: text) :=
  ⟨List.cons_ne_nil c text, List.forall_mem_cons.mpr ⟨digit, plain⟩⟩

/-- A number may end where nothing more need follow. -/
theorem follows_nil {phase : Phase} (final : phase.ends = true) : phase.Follows [] := by
  have none : Rest [] := rest_of_blanks (by simp [Blanks])
  cases phase with
  | whole => exact ⟨[], [], by simp, rfl, Or.inl none⟩
  | digits => exact ⟨[], [], by simp, none, rfl⟩
  | back => simp [Follows, Blanks]
  | front | signed | due | exponent => exact absurd final (by decide)

theorem blanks_cons {c : UInt8} (blank : isSpace c = true) {text : List UInt8}
    (blanks : Blanks text) : Blanks (c :: text) := List.forall_mem_cons.mpr ⟨blank, blanks⟩

theorem front_of_signed {text : List UInt8} (follows : signed.Follows text) :
    front.Follows text := by
  obtain ⟨mantissa, rest, number, behind, rfl⟩ := follows
  exact ⟨[], [], mantissa, rest, by simp [Blanks], Or.inl rfl, number, behind, rfl⟩

theorem signed_of_point {text : List UInt8} (follows : due.Follows text) :
    signed.Follows (46 :: text) := by
  obtain ⟨digits, rest, some, behind, rfl⟩ := follows
  exact ⟨46 :: digits, rest, Or.inr (Or.inr ⟨digits, some, rfl⟩), behind, rfl⟩

theorem signed_of_digit {c : UInt8} (digit : isDigit c = true) {text : List UInt8}
    (follows : whole.Follows text) : signed.Follows (c :: text) := by
  obtain ⟨whole, rest, plain, rfl, behind | ⟨fraction, more, plain', behind, rfl⟩⟩ := follows
  · exact ⟨c :: whole, rest, Or.inl (digits_cons digit plain), behind, rfl⟩
  · exact ⟨c :: whole ++ 46 :: fraction, more,
      Or.inr (Or.inl ⟨c :: whole, fraction, digits_cons digit plain, plain', rfl⟩), behind,
      by simp⟩

theorem later_eq {phase later expected : Phase} {c : UInt8} {kind : CharClass}
    (goes : phase.next (.of c) = some later) (isKind : CharClass.of c = kind)
    (step : phase.next kind = some expected) : expected = later := by
  rw [isKind, step] at goes
  exact Option.some.inj goes

theorem not_next {phase later : Phase} {c : UInt8} {kind : CharClass}
    (goes : phase.next (.of c) = some later) (isKind : CharClass.of c = kind)
    (step : phase.next kind = none) : False := by
  rw [isKind, step] at goes
  exact nomatch goes

theorem follows_front {later : Phase} {c : UInt8} {text : List UInt8}
    (goes : front.next (.of c) = some later) (follows : later.Follows text) :
    front.Follows (c :: text) := by
  obtain ⟨digit, blank, sign, point, marks⟩ := CharClass.of_eq_iff c
  cases kind : CharClass.of c with
  | blank =>
      obtain rfl : front = later := later_eq goes kind rfl
      obtain ⟨blanks, sign, mantissa, rest, space, signed, number, behind, rfl⟩ := follows
      exact ⟨c :: blanks, sign, mantissa, rest, blanks_cons (blank.mp kind) space, signed,
        number, behind, rfl⟩
  | sign =>
      obtain rfl : signed = later := later_eq goes kind rfl
      obtain ⟨mantissa, rest, number, behind, rfl⟩ := follows
      refine ⟨[], [c], mantissa, rest, by simp [Blanks], Or.inr ?_, number, behind, rfl⟩
      simpa using sign.mp kind
  | point =>
      obtain rfl : due = later := later_eq goes kind rfl
      obtain rfl := point.mp kind
      exact front_of_signed (signed_of_point follows)
  | digit =>
      obtain rfl : whole = later := later_eq goes kind rfl
      exact front_of_signed (signed_of_digit (digit.mp kind) follows)
  | other | exponent => exact (not_next goes kind rfl).elim

theorem follows_signed {later : Phase} {c : UInt8} {text : List UInt8}
    (goes : signed.next (.of c) = some later) (follows : later.Follows text) :
    signed.Follows (c :: text) := by
  obtain ⟨digit, blank, sign, point, marks⟩ := CharClass.of_eq_iff c
  cases kind : CharClass.of c with
  | point =>
      obtain rfl : due = later := later_eq goes kind rfl
      obtain rfl := point.mp kind
      exact signed_of_point follows
  | digit =>
      obtain rfl : whole = later := later_eq goes kind rfl
      exact signed_of_digit (digit.mp kind) follows
  | other | blank | sign | exponent => exact (not_next goes kind rfl).elim

theorem follows_due {later : Phase} {c : UInt8} {text : List UInt8}
    (goes : due.next (.of c) = some later) (follows : later.Follows text) :
    due.Follows (c :: text) := by
  obtain ⟨digit, blank, sign, point, marks⟩ := CharClass.of_eq_iff c
  cases kind : CharClass.of c with
  | digit =>
      obtain rfl : digits = later := later_eq goes kind rfl
      obtain ⟨digits, rest, plain, behind, rfl⟩ := follows
      exact ⟨c :: digits, rest, digits_cons (digit.mp kind) plain, behind, rfl⟩
  | other | blank | sign | point | exponent => exact (not_next goes kind rfl).elim

theorem follows_whole {later : Phase} {c : UInt8} {text : List UInt8}
    (goes : whole.next (.of c) = some later) (follows : later.Follows text) :
    whole.Follows (c :: text) := by
  obtain ⟨digit, blank, sign, point, marks⟩ := CharClass.of_eq_iff c
  cases kind : CharClass.of c with
  | digit =>
      obtain rfl : whole = later := later_eq goes kind rfl
      obtain ⟨whole, rest, plain, rfl, behind⟩ := follows
      exact ⟨c :: whole, rest, (digits_cons (digit.mp kind) plain).2, rfl, behind⟩
  | point =>
      obtain rfl : digits = later := later_eq goes kind rfl
      obtain rfl := point.mp kind
      obtain ⟨fraction, more, plain, behind, rfl⟩ := follows
      exact ⟨[], _, by simp, rfl, Or.inr ⟨fraction, more, plain, behind, rfl⟩⟩
  | exponent =>
      obtain rfl : Phase.exponent = later := later_eq goes kind rfl
      exact ⟨[], c :: text, by simp, rfl, Or.inl (rest_of_exponent (marks.mp kind) follows)⟩
  | blank =>
      obtain rfl : back = later := later_eq goes kind rfl
      exact ⟨[], c :: text, by simp, rfl,
        Or.inl (rest_of_blanks (blanks_cons (blank.mp kind) follows))⟩
  | other | sign => exact (not_next goes kind rfl).elim

theorem follows_digits {later : Phase} {c : UInt8} {text : List UInt8}
    (goes : digits.next (.of c) = some later) (follows : later.Follows text) :
    digits.Follows (c :: text) := by
  obtain ⟨digit, blank, sign, point, marks⟩ := CharClass.of_eq_iff c
  cases kind : CharClass.of c with
  | digit =>
      obtain rfl : digits = later := later_eq goes kind rfl
      obtain ⟨digits, rest, plain, behind, rfl⟩ := follows
      exact ⟨c :: digits, rest, (digits_cons (digit.mp kind) plain).2, behind, rfl⟩
  | exponent =>
      obtain rfl : Phase.exponent = later := later_eq goes kind rfl
      exact ⟨[], c :: text, by simp, rest_of_exponent (marks.mp kind) follows, rfl⟩
  | blank =>
      obtain rfl : back = later := later_eq goes kind rfl
      exact ⟨[], c :: text, by simp,
        rest_of_blanks (blanks_cons (blank.mp kind) follows), rfl⟩
  | other | sign | point => exact (not_next goes kind rfl).elim

theorem follows_exponent {later : Phase} {c : UInt8} {text : List UInt8}
    (goes : exponent.next (.of c) = some later) (follows : later.Follows text) :
    exponent.Follows (c :: text) := by
  obtain ⟨digit, blank, sign, point, marks⟩ := CharClass.of_eq_iff c
  cases kind : CharClass.of c with
  | sign =>
      obtain rfl : due = later := later_eq goes kind rfl
      obtain ⟨digits, rest, some, behind, rfl⟩ := follows
      refine ⟨[c], digits, rest, Or.inr ?_, some, behind, rfl⟩
      simpa using sign.mp kind
  | digit =>
      obtain rfl : digits = later := later_eq goes kind rfl
      obtain ⟨digits, rest, plain, behind, rfl⟩ := follows
      exact ⟨[], c :: digits, rest, Or.inl rfl, digits_cons (digit.mp kind) plain, behind,
        rfl⟩
  | other | blank | point | exponent => exact (not_next goes kind rfl).elim

theorem follows_back {later : Phase} {c : UInt8} {text : List UInt8}
    (goes : back.next (.of c) = some later) (follows : later.Follows text) :
    back.Follows (c :: text) := by
  obtain ⟨digit, blank, sign, point, marks⟩ := CharClass.of_eq_iff c
  cases kind : CharClass.of c with
  | blank =>
      obtain rfl : back = later := later_eq goes kind rfl
      exact blanks_cons (blank.mp kind) follows
  | other | sign | point | digit | exponent => exact (not_next goes kind rfl).elim

/-- What follows a transition follows the phase with the character in front. -/
theorem follows_cons {phase later : Phase} {c : UInt8} {text : List UInt8}
    (goes : phase.next (.of c) = some later) (follows : later.Follows text) :
    phase.Follows (c :: text) := by
  cases phase with
  | front => exact follows_front goes follows
  | signed => exact follows_signed goes follows
  | due => exact follows_due goes follows
  | whole => exact follows_whole goes follows
  | digits => exact follows_digits goes follows
  | exponent => exact follows_exponent goes follows
  | back => exact follows_back goes follows

theorem follows_of_accepts {phase : Phase} {text : List UInt8}
    (accepted : phase.accepts text = true) : phase.Follows text := by
  induction text generalizing phase with
  | nil => exact follows_nil accepted
  | cons c text ih =>
      rw [accepts_cons_eq] at accepted
      cases goes : phase.next (.of c) with
      | none => simp [goes] at accepted
      | some later => exact follows_cons goes (ih (by simpa [goes] using accepted))

/-! The automaton reads the parts of a number one after the other. -/

theorem accepts_cons {phase later : Phase} {c : UInt8} (goes : phase.next (.of c) = some later)
    (text : List UInt8) : phase.accepts (c :: text) = later.accepts text := by
  rw [accepts_cons_eq, goes, Option.any_some]

theorem of_digit {c : UInt8} (digit : isDigit c = true) : CharClass.of c = .digit :=
  (CharClass.of_eq_iff c).1.mpr digit

/-- Characters of one class that a phase stays in. -/
theorem accepts_append {phase : Phase} {kind : CharClass} (stays : phase.next kind = some phase)
    {front : List UInt8} (each : ∀ c ∈ front, CharClass.of c = kind) (text : List UInt8) :
    phase.accepts (front ++ text) = phase.accepts text := by
  induction front with
  | nil => rfl
  | cons c front ih =>
      obtain ⟨first, behind⟩ := List.forall_mem_cons.mp each
      rw [List.cons_append, accepts_cons (show _ = some phase by rw [first, stays]), ih behind]

theorem accepts_digits {phase later : Phase} (goes : phase.next .digit = some later)
    (stays : later.next .digit = some later) {front : List UInt8} (some : Digits front)
    (text : List UInt8) : phase.accepts (front ++ text) = later.accepts text := by
  obtain ⟨nonempty, plain⟩ := some
  cases front with
  | nil => exact absurd rfl nonempty
  | cons c front =>
      obtain ⟨first, behind⟩ := List.forall_mem_cons.mp plain
      rw [List.cons_append, accepts_cons (by rw [of_digit first, goes]),
        accepts_append stays fun c among => of_digit (behind c among)]

theorem accepts_blanks {phase : Phase} (final : phase.ends = true)
    (goes : phase.next .blank = some back) {text : List UInt8} (blanks : Blanks text) :
    phase.accepts text = true := by
  have kind : ∀ c ∈ text, CharClass.of c = .blank := fun c among =>
    (CharClass.of_eq_iff c).2.1.mpr (blanks c among)
  cases text with
  | nil => exact final
  | cons c text =>
      obtain ⟨first, behind⟩ := List.forall_mem_cons.mp kind
      rw [accepts_cons (by rw [first, goes]), ← List.append_nil text, accepts_append rfl behind]
      rfl

theorem of_exponent {e : UInt8} (marks : e = 101 ∨ e = 69) : CharClass.of e = .exponent :=
  (CharClass.of_eq_iff e).2.2.2.2.mpr marks

theorem accepts_exponent {sign front : List UInt8} (signed : Sign sign) (some : Digits front)
    (text : List UInt8) :
    exponent.accepts (sign ++ front ++ text) = digits.accepts text := by
  rcases signed with rfl | rfl | rfl
  · exact accepts_digits rfl rfl some text
  · exact (accepts_cons rfl (front ++ text)).trans (accepts_digits rfl rfl some text)
  · exact (accepts_cons rfl (front ++ text)).trans (accepts_digits rfl rfl some text)

theorem accepts_rest {phase : Phase} (final : phase.ends = true)
    (blank : phase.next .blank = some back) (marks : phase.next .exponent = some exponent)
    {text : List UInt8} (rest : Rest text) : phase.accepts text = true := by
  obtain ⟨exponents, blanks, each, space, rfl⟩ := rest
  induction exponents generalizing phase with
  | nil => exact accepts_blanks final blank space
  | cons first exponents ih =>
      obtain ⟨⟨e, sign, front, e_marks, signed, some, rfl⟩, behind⟩ := List.forall_mem_cons.mp each
      rw [List.flatten_cons, List.append_assoc, List.cons_append,
        accepts_cons (by rw [of_exponent e_marks, marks]), accepts_exponent signed some]
      exact ih rfl rfl rfl behind

theorem accepts_mantissa {phase : Phase} (digit : phase.next .digit = some whole)
    (point : phase.next .point = some due) {mantissa rest : List UInt8}
    (number : Mantissa mantissa) (behind : Rest rest) :
    phase.accepts (mantissa ++ rest) = true := by
  rcases number with some | ⟨front, fraction, some, plain, rfl⟩ | ⟨fraction, some, rfl⟩
  · rw [accepts_digits digit rfl some]
    exact accepts_rest rfl rfl rfl behind
  · rw [List.append_assoc, accepts_digits digit rfl some, List.cons_append,
      accepts_cons (show _ = Option.some digits from rfl),
      accepts_append rfl fun c among => of_digit (plain c among)]
    exact accepts_rest rfl rfl rfl behind
  · rw [List.cons_append, accepts_cons (show _ = Option.some due from point),
      accepts_digits rfl rfl some]
    exact accepts_rest rfl rfl rfl behind

/-- **The tables as a grammar.** The automaton accepts decimal numbers, loosely. -/
theorem accepts_iff {text : List UInt8} : front.accepts text = true ↔ Loose text := by
  refine ⟨follows_of_accepts, ?_⟩
  rintro ⟨blanks, sign, mantissa, rest, space, signed, number, behind, rfl⟩
  have kind : ∀ c ∈ blanks, CharClass.of c = .blank := fun c among =>
    (CharClass.of_eq_iff c).2.1.mpr (space c among)
  rw [List.append_assoc, List.append_assoc, accepts_append rfl kind]
  rcases signed with rfl | rfl | rfl
  · rw [List.nil_append]
    exact accepts_mantissa rfl rfl number behind
  · exact (accepts_cons rfl (mantissa ++ rest)).trans (accepts_mantissa rfl rfl number behind)
  · exact (accepts_cons rfl (mantissa ++ rest)).trans (accepts_mantissa rfl rfl number behind)

end Phase

/-! ## What is recognised -/

/-- The integers, and the texts that are a number without their last character. -/
theorem isNumber_eq {s : List UInt8} (plain : 0 ∉ s) :
    ∃ answer, isNumber s = .ok answer ∧
      (answer = true ↔ isInteger s = true ∨ s ≠ [] ∧ Loose s.dropLast) := by
  rw [isNumber]
  by_cases integer : isInteger s = true
  · exact ⟨true, by rw [if_pos integer]; rfl, by simp [integer]⟩
  · refine ⟨_, by rw [if_neg integer, scan_of_inPhase plain start_inPhase], ?_⟩
    simp [integer, Phase.accepts_iff]

theorem isNumber_of_isInteger {s : List UInt8} (integer : isInteger s = true) : IsNumber s := by
  rw [isInteger] at integer
  cases s with
  | nil => exact absurd integer (by decide)
  | cons c s =>
      split at integer
      · rename_i signed
        refine ⟨[c], s, Or.inr ?_, rfl, Or.inl integer⟩
        simpa using signed
      · exact ⟨[], c :: s, Or.inl rfl, rfl, Or.inl integer⟩

theorem digits_of_isNonnegativeInteger {text : List UInt8}
    (integer : isNonnegativeInteger text = true) : Digits text := by
  rw [isNonnegativeInteger] at integer
  split at integer
  · exact absurd integer (by decide)
  · simpa [Digits] using integer

theorem isNonnegativeInteger_singleton {d : UInt8} (digit : isDigit d = true) :
    isNonnegativeInteger [d] = true := by
  simp [isNonnegativeInteger, digit]

/-- A number is one loosely. -/
theorem IsNumber.loose {text : List UInt8} (number : IsNumber text) : Loose text := by
  obtain ⟨sign, rest, signed, rfl, integer | ⟨mantissa, exponent, decimal, power, rfl⟩⟩ := number
  · exact ⟨[], sign, rest, [], by simp [Blanks], signed,
      Or.inl (digits_of_isNonnegativeInteger integer), Phase.rest_of_blanks (by simp [Blanks]),
      by simp⟩
  · refine ⟨[], sign, mantissa, exponent, by simp [Blanks], signed, decimal, ?_, by simp⟩
    rcases power with rfl | power
    · exact Phase.rest_of_blanks (by simp [Blanks])
    · exact ⟨[exponent], [], by simpa using power, by simp [Blanks], by simp⟩

/-- A number has no blanks. -/
theorem IsNumber.solid {text : List UInt8} (number : IsNumber text) :
    ∀ c ∈ text, CharClass.of c ≠ .blank := by
  have digits : ∀ {part : List UInt8}, (∀ c ∈ part, isDigit c = true) →
      ∀ c ∈ part, CharClass.of c ≠ .blank := by
    intro part plain c among
    simp [Phase.of_digit (plain c among)]
  have sign : ∀ {part : List UInt8}, Sign part → ∀ c ∈ part, CharClass.of c ≠ .blank := by
    rintro _ (rfl | rfl | rfl)
    · simp
    · simp [show CharClass.of 43 = .sign from rfl]
    · simp [show CharClass.of 45 = .sign from rfl]
  have point : CharClass.of 46 ≠ .blank := by decide
  obtain ⟨_, rest, signed, rfl, integer | ⟨mantissa, exponent, decimal, power, rfl⟩⟩ := number
  · refine List.forall_mem_append.mpr ⟨sign signed, digits ?_⟩
    exact (digits_of_isNonnegativeInteger integer).2
  · refine List.forall_mem_append.mpr ⟨sign signed, List.forall_mem_append.mpr ⟨?_, ?_⟩⟩
    · rcases decimal with some | ⟨whole, fraction, some, plain, rfl⟩ | ⟨fraction, some, rfl⟩
      · exact digits some.2
      · exact List.forall_mem_append.mpr
          ⟨digits some.2, List.forall_mem_cons.mpr ⟨point, digits plain⟩⟩
      · exact List.forall_mem_cons.mpr ⟨point, digits some.2⟩
    · rcases power with rfl | ⟨e, _, front, marks, signed', some, rfl⟩
      · simp
      · refine List.forall_mem_cons.mpr
          ⟨?_, List.forall_mem_append.mpr ⟨sign signed', digits some.2⟩⟩
        simp [Phase.of_exponent marks]

namespace Phase

theorem run_concat (phase : Phase) (text : List UInt8) (c : UInt8) :
    phase.run (text ++ [c]) = (phase.run text).bind fun later => later.next (.of c) := by
  simp [run, List.foldlM_append]

/-- The last step of a run. -/
theorem last_of_run {phase later : Phase} {text : List UInt8}
    (reached : phase.run text = some later) :
    text = [] ∧ phase = later ∨
      ∃ before c middle, text = before ++ [c] ∧ phase.run before = some middle ∧
        middle.next (.of c) = some later := by
  rcases List.eq_nil_or_concat text with rfl | ⟨before, c, rfl⟩
  · exact Or.inl ⟨rfl, Option.some.inj reached⟩
  · rw [List.concat_eq_append, run_concat, Option.bind_eq_some_iff] at reached
    obtain ⟨middle, first, last⟩ := reached
    exact Or.inr ⟨before, c, middle, List.concat_eq_append, first, last⟩

/-- What leads to the phases in which a number cannot end. -/
theorem next_eq_some {phase later : Phase} {kind : CharClass} (goes : phase.next kind = some later)
    (unended : later.ends = false) :
    later = front ∧ kind = .blank ∨
      later = signed ∧ phase = front ∧ kind = .sign ∨
      later = due ∧ (phase = front ∨ phase = signed) ∧ kind = .point ∨
      later = due ∧ phase = exponent ∧ kind = .sign ∨
      later = exponent ∧ kind = .exponent := by
  cases phase <;> cases kind <;> cases goes <;> simp_all [ends]

theorem next_exponent {phase later : Phase} (goes : phase.next .exponent = some later) :
    later = exponent := by
  cases phase <;> cases goes <;> rfl

theorem digit_of_next {phase later : Phase} {kind : CharClass} (goes : phase.next kind = some later)
    (unended : phase.ends = false) (final : later.ends = true) : kind = .digit := by
  cases phase <;> cases kind <;> cases goes <;> simp_all [ends]

variable {text : List UInt8} (solid : ∀ c ∈ text, CharClass.of c ≠ .blank)
include solid

theorem eq_nil_of_run_front (reached : front.run text = some front) : text = [] := by
  rcases last_of_run reached with ⟨rfl, _⟩ | ⟨before, c, middle, rfl, _, goes⟩
  · rfl
  · have blank : CharClass.of c = .blank := by
      rcases next_eq_some goes rfl with ⟨_, kind⟩ | ⟨⟨⟩, _⟩ | ⟨⟨⟩, _⟩ | ⟨⟨⟩, _⟩ | ⟨⟨⟩, _⟩
      exact kind
    exact absurd blank (solid c (by simp))

theorem sign_of_run_signed (reached : front.run text = some signed) : Sign text := by
  rcases last_of_run reached with ⟨_, ⟨⟩⟩ | ⟨before, c, middle, rfl, first, goes⟩
  rcases next_eq_some goes rfl with ⟨⟨⟩, _⟩ | ⟨_, rfl, kind⟩ | ⟨⟨⟩, _⟩ | ⟨⟨⟩, _⟩ | ⟨⟨⟩, _⟩
  have none := eq_nil_of_run_front (fun c among => solid c (by simp [among])) first
  rcases (CharClass.of_eq_iff c).2.2.1.mp kind with rfl | rfl
  · simp [none, Sign]
  · simp [none, Sign]

end Phase

theorem isInteger_of_sign {sign : List UInt8} (signed : Sign sign) {d : UInt8}
    (digit : isDigit d = true) : isInteger (sign ++ [d]) = true := by
  have single := isNonnegativeInteger_singleton digit
  rcases signed with rfl | rfl | rfl
  · have plus : d ≠ 43 := by
      rintro rfl
      exact absurd digit (by decide)
    have minus : d ≠ 45 := by
      rintro rfl
      exact absurd digit (by decide)
    simpa [isInteger, plus, minus] using single
  · simpa [isInteger] using single
  · simpa [isInteger] using single

/-- What stands in front of the last character leads to no end where that is the only digit. -/
theorem not_ends_of_short {before : List UInt8} {phase : Phase}
    (reached : Phase.front.run before = some phase)
    (short : (∃ sign, Sign sign ∧ before = sign ++ [46]) ∨
      ∃ head e sign, (e = 101 ∨ e = 69) ∧ Sign sign ∧ before = head ++ e :: sign) :
    phase.ends = false := by
  rcases short with ⟨sign, signed, rfl⟩ | ⟨head, e, sign, marks, signed, rfl⟩
  · have due : Phase.front.run (sign ++ [46]) = some .due := by
      rcases signed with rfl | rfl | rfl <;> decide
    obtain rfl := Option.some.inj (due.symm.trans reached)
    rfl
  · have marked : ∃ middle, Phase.front.run (head ++ [e]) = some middle ∧
        middle.run sign = some phase := by
      rw [List.append_cons, Phase.run, List.foldlM_append] at reached
      exact Option.bind_eq_some_iff.mp reached
    obtain ⟨middle, first, last⟩ := marked
    rw [Phase.run_concat, Option.bind_eq_some_iff] at first
    obtain ⟨earlier, _, goes⟩ := first
    rw [Phase.of_exponent marks] at goes
    obtain rfl := Phase.next_exponent goes
    rcases signed with rfl | rfl | rfl
    · obtain rfl := Option.some.inj last
      rfl
    · obtain rfl : Phase.due = phase := Option.some.inj last
      rfl
    · obtain rfl : Phase.due = phase := Option.some.inj last
      rfl

/-- Behind the mark of an exponent the first digit is the only one. -/
theorem short_of_exponent {before : List UInt8}
    (reached : Phase.front.run before = some Phase.exponent) (d : UInt8) :
    Short (before ++ [d]) := by
  rcases Phase.last_of_run reached with ⟨_, ⟨⟩⟩ | ⟨head, e, _, rfl, _, marks⟩
  rcases Phase.next_eq_some marks rfl with ⟨⟨⟩, _⟩ | ⟨⟨⟩, _⟩ | ⟨⟨⟩, _⟩ | ⟨⟨⟩, _⟩ | ⟨_, kind⟩
  exact ⟨head ++ [e], d, rfl,
    Or.inr ⟨head, e, [], (CharClass.of_eq_iff e).2.2.2.2.mp kind, Or.inl rfl, rfl⟩⟩

/-- Where a digit is due, the first one is the only one: behind a point without digits in front, and
behind the sign of an exponent. -/
theorem short_of_due {before : List UInt8} (solid : ∀ c ∈ before, CharClass.of c ≠ .blank)
    (reached : Phase.front.run before = some Phase.due) (d : UInt8) : Short (before ++ [d]) := by
  rcases Phase.last_of_run reached with ⟨_, ⟨⟩⟩ | ⟨head, c, middle, rfl, earlier, goes⟩
  have head_solid : ∀ c ∈ head, CharClass.of c ≠ .blank := fun c among =>
    solid c (List.mem_append_left _ among)
  rcases Phase.next_eq_some goes rfl with
    ⟨⟨⟩, _⟩ | ⟨⟨⟩, _⟩ | ⟨_, rfl | rfl, kind⟩ | ⟨_, rfl, kind⟩ | ⟨⟨⟩, _⟩
  · obtain rfl := (CharClass.of_eq_iff c).2.2.2.1.mp kind
    obtain rfl := Phase.eq_nil_of_run_front head_solid earlier
    exact ⟨[46], d, rfl, Or.inl ⟨[], Or.inl rfl, rfl⟩⟩
  · obtain rfl := (CharClass.of_eq_iff c).2.2.2.1.mp kind
    have sign := Phase.sign_of_run_signed head_solid earlier
    exact ⟨head ++ [46], d, rfl, Or.inl ⟨head, sign, rfl⟩⟩
  · have sign : Sign [c] := by
      simpa [Sign] using (CharClass.of_eq_iff c).2.2.1.mp kind
    rcases Phase.last_of_run earlier with ⟨_, ⟨⟩⟩ | ⟨start, e, _, rfl, _, marks⟩
    rcases Phase.next_eq_some marks rfl with ⟨⟨⟩, _⟩ | ⟨⟨⟩, _⟩ | ⟨⟨⟩, _⟩ | ⟨⟨⟩, _⟩ | ⟨_, kind⟩
    exact ⟨start ++ [e] ++ [c], d, rfl, Or.inr ⟨start, e, [c],
      (CharClass.of_eq_iff e).2.2.2.2.mp kind, sign, by simp⟩⟩

/-- A number that is no integer is one without its last character, if that is not the only digit
of its part. -/
theorem loose_dropLast_iff {s : List UInt8} (number : IsNumber s) (decimal : isInteger s = false) :
    s ≠ [] ∧ Loose s.dropLast ↔ ¬ Short s := by
  have accepted := Phase.accepts_iff.mpr number.loose
  have solid := number.solid
  rcases List.eq_nil_or_concat s with rfl | ⟨before, d, rfl⟩
  · exact absurd accepted (by decide)
  rw [List.concat_eq_append] at *
  rw [Phase.accepts, Option.any_eq_true] at accepted
  obtain ⟨final, reached, ends⟩ := accepted
  rw [Phase.run_concat, Option.bind_eq_some_iff] at reached
  obtain ⟨phase, reached, goes⟩ := reached
  have shorter : Loose before ↔ phase.ends = true := by
    rw [← Phase.accepts_iff, Phase.accepts, reached, Option.any_some]
  rw [List.dropLast_concat, shorter]
  simp only [ne_eq, List.append_eq_nil_iff, List.cons_ne_self, and_false, not_false_eq_true,
    true_and]
  constructor
  · rintro ends ⟨before', d', same, short⟩
    obtain ⟨rfl, _⟩ := List.append_inj' same rfl
    exact absurd ends (by simp [not_ends_of_short reached short])
  · intro long
    by_contra unended
    have unended := Bool.eq_false_iff.mpr unended
    have digit := (CharClass.of_eq_iff d).1.mp (Phase.digit_of_next goes unended ends)
    have front_solid : ∀ c ∈ before, CharClass.of c ≠ .blank := fun c among =>
      solid c (List.mem_append_left _ among)
    cases phase with
    | whole | digits | back => exact absurd unended (by decide)
    | front =>
        obtain rfl := Phase.eq_nil_of_run_front front_solid reached
        exact absurd (isInteger_of_sign (Or.inl rfl) digit) (Bool.eq_false_iff.mp decimal)
    | signed =>
        have sign := Phase.sign_of_run_signed front_solid reached
        exact absurd (isInteger_of_sign sign digit) (Bool.eq_false_iff.mp decimal)
    | exponent => exact long (short_of_exponent reached d)
    | due => exact long (short_of_due front_solid reached d)

/-- **Numbers are recognised** exactly among the integers, the other numbers whose last character is
not the only digit of its part, and the texts that without their last character are no number
either. -/
theorem recognised_iff {s : List UInt8} (plain : 0 ∉ s) :
    Right s ↔ isInteger s = true ∨ (IsNumber s ∧ ¬ Short s) ∨
      (¬ IsNumber s ∧ ¬ (s ≠ [] ∧ Loose s.dropLast)) := by
  obtain ⟨answer, returned, meaning⟩ := isNumber_eq plain
  have right : Right s ↔ (answer = true ↔ IsNumber s) := by
    simp [Right, returned]
  rw [right, meaning]
  by_cases integer : isInteger s = true
  · simp [integer, isNumber_of_isInteger integer]
  · by_cases number : IsNumber s
    · have shorter := loose_dropLast_iff number (Bool.eq_false_iff.mpr integer)
      simp [integer, number, shorter]
    · simp [integer, number]

/-- `12.5` is recognised. -/
theorem recognised_decimal :
    Right [49, 50, 46, 53] ↔ isInteger [49, 50, 46, 53] = true ∨
      (IsNumber [49, 50, 46, 53] ∧ ¬ Short [49, 50, 46, 53]) ∨
      (¬ IsNumber [49, 50, 46, 53] ∧
        ¬ ([49, 50, 46, 53] ≠ ([] : List UInt8) ∧ Loose [49, 50, 46, 53].dropLast)) :=
  recognised_iff (by decide)

/-- `1e5`, which is not. -/
theorem not_recognised_exponent : ¬ Right [49, 101, 53] := by
  have number : IsNumber [49, 101, 53] :=
    ⟨[], [49, 101, 53], Or.inl rfl, rfl, Or.inr ⟨[49], [101, 53],
      Or.inl ⟨by simp, List.forall_mem_singleton.mpr rfl⟩,
      Or.inr ⟨101, [], [53], Or.inl rfl, Or.inl rfl,
        ⟨by simp, List.forall_mem_singleton.mpr rfl⟩, rfl⟩, rfl⟩⟩
  rintro ⟨answer, returned, meaning⟩
  have refused : isNumber [49, 101, 53] = .ok false := by decide
  obtain rfl := Outcome.ok.inj (returned.symm.trans refused)
  exact absurd (meaning.mpr number) (by decide)

end Cube.Base.Number
