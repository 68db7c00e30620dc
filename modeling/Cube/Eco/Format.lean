import Mathlib.Data.List.TakeWhile
import Cube.Eco.FixBufferBounds

/-! # Formats

`Format` puts the texts that it is given in the place of the `@` of a template. Its position stands
at the `@` that was replaced last, counted from where the search for it began.
-/

namespace Cube.Eco

open FixBuffer

/-- A text without a terminator in it. -/
structure PlainText where
  chars : CString
  plain : ∀ c ∈ chars, c ≠ nul

/-- An argument, as a C string or as a `std::string`. -/
inductive FormatArg where
  | text (v : PlainText)
  | string (v : PlainText)

def FormatArg.chars : FormatArg → CString
  | text v => v.chars
  | string v => v.chars

/-- The insertion of an argument. -/
def FormatArg.streamed : FormatArg → BufferOp
  | text v => .appendText v.chars
  | string v => .appendString v.chars

/-- `-1` as an `uint32_t`. -/
def noPos : UInt32 := 0xFFFFFFFF

/-- `find_first`, with its cast to 32 bits. -/
def findFirst32 (key : CString) (flag : Char) : UInt32 :=
  match findFirst key flag with
  | some pos => UInt32.ofNat pos
  | none => noPos

/-- `Format`: `m_format`, `m_cur_pos` and the buffer of `m_stream`. -/
structure Format (size : UInt32) where
  format : CString
  curPos : UInt32
  stream : FixBuffer size

namespace Format

variable {size : UInt32}

/-- `operator%`. -/
def arg (f : Format size) (v : FormatArg) : Outcome Empty (Format size) :=
  if f.curPos = noPos then .ok f
  else do
    let str := f.format.drop f.curPos.toNat
    let curPos := findFirst32 str '@'
    if curPos = noPos then do
      let stream ← f.stream.appendText str
      .ok { f with curPos := curPos, stream := stream }
    else do
      let stream ← f.stream.append str curPos
      let stream ← v.streamed.step stream
      .ok { f with curPos := curPos, stream := stream }

/-- `operator const char*`, with the text that it shows. -/
def toText (f : Format size) : Outcome Empty CString :=
  if f.curPos ≠ noPos then do
    let stream ← f.stream.appendText (f.format.drop f.curPos.toNat)
    .ok stream.text
  else .ok f.stream.text

/-- Arguments in turn. -/
def args (f : Format size) : List FormatArg → Outcome Empty (Format size)
  | [] => .ok f
  | v :: rest => do (← f.arg v).args rest

/-- `Format(format) % v % ..`, as a text. -/
def formatted (raw : RawArray size) (format : PlainText) (vs : List FormatArg) :
    Outcome Empty CString := do
  let stream ← construct raw
  let f ← args ⟨format.chars, 0, stream⟩ vs
  f.toText

end Format

/-- A template with arguments in the place of its first `@`. -/
def substitute : CString → List FormatArg → CString
  | [], _ => []
  | c :: format, vs =>
      if c = '@' then
        match vs with
        | v :: vs => v.chars ++ substitute format vs
        | [] => c :: substitute format []
      else c :: substitute format vs

/-! ## Templates -/

theorem substitute_cons_of_ne {c : Char} (other : c ≠ '@') (format : CString)
    (vs : List FormatArg) : substitute (c :: format) vs = c :: substitute format vs := by
  rw [substitute.eq_def]
  exact if_neg other

theorem substitute_cons_at (format : CString) (v : FormatArg) (vs : List FormatArg) :
    substitute ('@' :: format) (v :: vs) = v.chars ++ substitute format vs := by
  rw [substitute.eq_def]
  exact if_pos rfl

theorem substitute_nil (format : CString) : substitute format [] = format := by
  induction format with
  | nil => rfl
  | cons c format ih =>
      rw [substitute.eq_def]
      simp only [ih, ite_self]

theorem substitute_of_plain {format : CString} (plain : '@' ∉ format) (vs : List FormatArg) :
    substitute format vs = format := by
  induction format with
  | nil => rfl
  | cons c format ih =>
      rw [List.mem_cons, not_or] at plain
      rw [substitute_cons_of_ne (Ne.symm plain.1), ih plain.2]

theorem substitute_append {front : CString} (plain : '@' ∉ front) (back : CString)
    (vs : List FormatArg) : substitute (front ++ back) vs = front ++ substitute back vs := by
  induction front with
  | nil => rfl
  | cons c front ih =>
      rw [List.mem_cons, not_or] at plain
      rw [List.cons_append, substitute_cons_of_ne (Ne.symm plain.1), ih plain.2]
      rfl

/-- The size with which an argument is appended. -/
def FormatArg.size : FormatArg → Nat
  | text v => v.chars.length
  | string v => v.chars.length % 2 ^ 32

def argsSize (vs : List FormatArg) : Nat := (vs.map FormatArg.size).sum

theorem FormatArg.size_of_lt {v : FormatArg} (small : v.chars.length < 2 ^ 32) :
    v.size = v.chars.length := by
  cases v with
  | text v => rfl
  | string v => exact Nat.mod_eq_of_lt small

theorem length_substitute_le {format : CString} {vs : List FormatArg}
    (small : (substitute format vs).length < 2 ^ 32) :
    (substitute format vs).length ≤ format.length + argsSize vs := by
  induction format generalizing vs with
  | nil => exact Nat.zero_le _
  | cons c format ih =>
      by_cases placeholder : c = '@'
      · subst placeholder
        cases vs with
        | nil =>
            rw [substitute_nil]
            exact Nat.le_add_right ..
        | cons v vs =>
            rw [substitute_cons_at, List.length_append] at small ⊢
            have rest := ih (by omega : (substitute format vs).length < 2 ^ 32)
            have sum : argsSize (v :: vs) = v.size + argsSize vs := List.sum_cons
            rw [List.length_cons, sum, FormatArg.size_of_lt (by omega)]
            omega
      · rw [substitute_cons_of_ne placeholder, List.length_cons] at small ⊢
        have rest := ih (by omega : (substitute format vs).length < 2 ^ 32)
        rw [List.length_cons]
        omega

/-- A template up to its first `@`. -/
theorem split_template {format : CString} (member : '@' ∈ format) :
    ∃ front back, format = front ++ '@' :: back ∧ '@' ∉ front := by
  obtain ⟨front, back, split, plain⟩ := List.eq_append_cons_of_mem member
  exact ⟨front, back, split, plain⟩

theorem findFirst_of_not_mem {key : CString} {flag : Char} (plain : flag ∉ key) :
    findFirst key flag = none := by
  induction key with
  | nil => rfl
  | cons c key ih =>
      rw [List.mem_cons, not_or] at plain
      rw [findFirst, if_neg (Ne.symm plain.1), ih plain.2, Option.map_none]

theorem findFirst_split {front : CString} {flag : Char} (plain : flag ∉ front) (back : CString) :
    findFirst (front ++ flag :: back) flag = some front.length := by
  induction front with
  | nil => exact if_pos rfl
  | cons c front ih =>
      rw [List.mem_cons, not_or] at plain
      rw [List.cons_append, findFirst, if_neg (Ne.symm plain.1), ih plain.2, Option.map_some,
        List.length_cons]

theorem cText_of_plain {chars : CString} (plain : ∀ c ∈ chars, c ≠ nul) : cText chars = chars :=
  List.takeWhile_eq_self_iff.mpr fun c member => decide_eq_true (plain c member)

namespace Format

variable {size : UInt32}

/-! ## What the code makes of a template -/

/-- A stream that is at least as long as a number, or full. -/
structure Long (count : Nat) (stream : FixBuffer size) : Prop where
  sound : stream.Sound
  long : stream.text.length = (capacity size).toNat ∨ count ≤ stream.text.length

variable {stream stream' : FixBuffer size}

/-- Text without a length makes a stream longer by all of it. -/
theorem Long.appendText {count : Nat} (long : Long count stream) {chars : CString}
    (plain : ∀ c ∈ chars, c ≠ nul) (appended : stream.appendText chars = .ok stream') :
    Long (count + chars.length) stream' ∧
      stream'.text.length = stream.text.length + chars.length := by
  have holds := long.sound.holds
  have within := holds.within
  obtain ⟨rest, shows⟩ := holds
  have room_eq := Holds.room_eq shows
  by_cases fits : (cText chars).length < (nul :: rest).length
  · obtain ⟨made, appended', holds'⟩ := appendText_shows chars shows fits
    obtain rfl := Outcome.ok.inj (appended.symm.trans appended')
    rw [cText_of_plain plain] at holds' fits
    have length : stream'.text.length = stream.text.length + chars.length := by
      rw [holds'.sound.2, List.length_append]
    rw [List.length_cons] at fits
    refine ⟨⟨holds'.sound.1, ?_⟩, length⟩
    rcases long.long with full | enough
    · exact .inl (by omega)
    · exact .inr (by omega)
  · rw [appendText_full chars shows (Nat.le_of_not_lt fits)] at appended
    cases appended

/-- Text with a length makes a stream longer by all of it, or full. -/
theorem Long.append {count more : Nat} (long : Long count stream) {buf : CString} {n : UInt32}
    (counts : n.toNat = more) (readable : more ≤ buf.length)
    (appended : stream.append buf n = .ok stream') : Long (count + more) stream' := by
  have holds := long.sound.holds
  have within := holds.within
  have taken_eq : taken size stream.text n =
      min more ((capacity size).toNat - stream.text.length) := by
    rw [taken, room, counts]
  have inside : taken size stream.text n ≤ buf.length := by omega
  obtain ⟨made, appended', holds'⟩ := append_holds holds buf inside
  obtain rfl := Outcome.ok.inj (appended.symm.trans appended')
  refine ⟨holds'.sound.1, ?_⟩
  rw [holds'.sound.2, List.length_append, List.length_take]
  rcases long.long with full | enough
  · exact .inl (by omega)
  · omega

/-- An argument makes a stream longer by its size, or full. -/
theorem Long.arg {count : Nat} (long : Long count stream) {v : FormatArg}
    (inserted : v.streamed.step stream = .ok stream') : Long (count + v.size) stream' := by
  cases v with
  | text v => exact (long.appendText v.plain inserted).1
  | string v =>
      refine long.append (n := UInt32.ofNat v.chars.length) ?_ (Nat.mod_le ..) inserted
      rw [UInt32.toNat_ofNat']
      rfl

section Placeholder

variable {front back : CString} (plain : '@' ∉ front) (short : front.length < 2 ^ 32 - 1)

/-- After an argument the position is the length of the text in front of the first `@`, or it is
back at the start. -/
structure Stuck (front back : CString) (count : Nat) (f : Format size) : Prop where
  format : f.format = front ++ '@' :: back
  curPos : f.curPos.toNat = front.length ∨ f.curPos.toNat = 0
  long : Long count f.stream

theorem ne_noPos {pos : UInt32} (small : pos.toNat < 2 ^ 32 - 1) : pos ≠ noPos := by
  rintro rfl
  exact absurd small (by decide)

include plain short

/-- What is found from one of the positions. -/
theorem findFirst32_stuck {pos : UInt32}
    (curPos : pos.toNat = front.length ∨ pos.toNat = 0) :
    ∃ next : UInt32, findFirst32 ((front ++ '@' :: back).drop pos.toNat) '@' = next ∧
      (next.toNat = front.length ∨ next.toNat = 0) ∧
      next.toNat ≤ ((front ++ '@' :: back).drop pos.toNat).length ∧
      (pos.toNat = 0 → next.toNat = front.length) := by
  rcases Nat.eq_zero_or_pos pos.toNat with start | later
  · have found : findFirst32 ((front ++ '@' :: back).drop pos.toNat) '@' =
        UInt32.ofNat front.length := by
      rw [start, List.drop_zero, findFirst32, findFirst_split plain]
    have value : (UInt32.ofNat front.length).toNat = front.length := by
      rw [UInt32.toNat_ofNat']
      exact Nat.mod_eq_of_lt (by omega)
    refine ⟨_, found, .inl value, ?_, fun _ => value⟩
    rw [value, start, List.drop_zero, List.length_append]
    exact Nat.le_add_right ..
  · have behind : pos.toNat = front.length := curPos.resolve_right (Nat.ne_of_gt later)
    refine ⟨0, ?_, .inr rfl, Nat.zero_le _, fun start => ?_⟩
    · rw [behind, List.drop_left, findFirst32, findFirst, if_pos rfl]
      rfl
    · exact (Nat.ne_of_gt later start).elim

theorem Stuck.arg {count : Nat} {f f' : Format size} (stuck : Stuck front back count f)
    {v : FormatArg} (inserted : f.arg v = .ok f') : Stuck front back (count + v.size) f' := by
  have placed : f.curPos ≠ noPos := ne_noPos (by rcases stuck.curPos with pos | pos <;> omega)
  obtain ⟨next, found, nextPos, readable, -⟩ :=
    @findFirst32_stuck _ back plain short _ stuck.curPos
  have again : next ≠ noPos := ne_noPos (by rcases nextPos with pos | pos <;> omega)
  rw [Format.arg, if_neg placed, stuck.format] at inserted
  simp only [found, if_neg again] at inserted
  obtain ⟨stream, appended, inserted⟩ := Outcome.bind_eq_ok.mp inserted
  obtain ⟨stream', streamed, made⟩ := Outcome.bind_eq_ok.mp inserted
  cases made
  have longer := stuck.long.append rfl readable appended
  have counted : Long count stream :=
    ⟨longer.sound, longer.long.imp_right fun enough => Nat.le_trans (Nat.le_add_right ..) enough⟩
  exact ⟨rfl, nextPos, counted.arg streamed⟩

/-- The first argument, behind the text in front of the first `@`. -/
theorem stuck_first {stream : FixBuffer size} (empty : stream.Sound) {f' : Format size}
    {v : FormatArg} (inserted : Format.arg ⟨front ++ '@' :: back, 0, stream⟩ v = .ok f') :
    Stuck front back (front.length + v.size) f' := by
  have none : Long 0 stream := ⟨empty, .inr (Nat.zero_le _)⟩
  have curPos : (0 : UInt32).toNat = front.length ∨ (0 : UInt32).toNat = 0 := .inr rfl
  obtain ⟨next, found, nextPos, readable, first⟩ :=
    @findFirst32_stuck _ back plain short _ curPos
  have again : next ≠ noPos := ne_noPos (by rcases nextPos with pos | pos <;> omega)
  rw [Format.arg, if_neg (by decide : (0 : UInt32) ≠ noPos)] at inserted
  simp only [found, if_neg again] at inserted
  obtain ⟨stream', appended, inserted⟩ := Outcome.bind_eq_ok.mp inserted
  obtain ⟨stream'', streamed, made⟩ := Outcome.bind_eq_ok.mp inserted
  cases made
  have longer := none.append (first rfl) (first rfl ▸ readable) appended
  rw [Nat.zero_add] at longer
  exact ⟨rfl, nextPos, longer.arg streamed⟩

theorem Stuck.args {count : Nat} {f f' : Format size} (stuck : Stuck front back count f)
    {vs : List FormatArg} (inserted : f.args vs = .ok f') :
    Stuck front back (count + argsSize vs) f' := by
  induction vs generalizing count f with
  | nil =>
      cases inserted
      exact stuck
  | cons v vs ih =>
      obtain ⟨next, first, rest⟩ := Outcome.bind_eq_ok.mp inserted
      have sum : argsSize (v :: vs) = v.size + argsSize vs := List.sum_cons
      rw [sum, ← Nat.add_assoc]
      exact ih (stuck.arg plain short first) rest

omit plain in
/-- The text shows the first `@` and what follows it, behind all the arguments. -/
theorem Stuck.toText {count : Nat} {f : Format size} (stuck : Stuck front back count f)
    (visible : ∀ c ∈ front ++ '@' :: back, c ≠ nul) {text : CString}
    (shown : f.toText = .ok text) : count + ('@' :: back).length ≤ text.length := by
  have placed : f.curPos ≠ noPos := ne_noPos (by rcases stuck.curPos with pos | pos <;> omega)
  rw [Format.toText, if_pos placed, stuck.format] at shown
  obtain ⟨stream, appended, shown⟩ := Outcome.bind_eq_ok.mp shown
  cases shown
  obtain ⟨longer, length⟩ := stuck.long.appendText
    (fun c member => visible c (List.mem_of_mem_drop member)) appended
  have within := longer.sound.holds.within
  have some : ('@' :: back).length ≤ ((front ++ '@' :: back).drop f.curPos.toNat).length := by
    rcases stuck.curPos with pos | pos
    · rw [pos, List.drop_left]
    · rw [pos, List.drop_zero, List.length_append]
      exact Nat.le_add_left ..
  rw [List.length_cons] at some ⊢
  rcases stuck.long.long with full | enough
  · omega
  · omega

end Placeholder

/-! ## Templates without a placeholder, and without arguments -/

/-- Surplus arguments are ignored. -/
theorem args_of_noPos {f : Format size} (done : f.curPos = noPos) (vs : List FormatArg) :
    f.args vs = .ok f := by
  induction vs with
  | nil => rfl
  | cons v vs ih => rw [args, arg, if_pos done, Outcome.ok_bind, ih]

/-- A text that fits is streamed into an empty buffer. -/
theorem appendText_empty {stream : FixBuffer size} (empty : stream.Holds []) {chars : CString}
    (plain : ∀ c ∈ chars, c ≠ nul) (fits : chars.length ≤ (capacity size).toNat) :
    ∃ stream', stream.appendText chars = .ok stream' ∧ stream'.text = chars := by
  obtain ⟨rest, shows⟩ := empty
  have room_eq := (Holds.room_eq shows).1
  have same := cText_of_plain plain
  obtain ⟨stream', appended, holds⟩ := appendText_shows chars shows (by
    rw [same, List.length_cons]
    rw [List.length_nil] at room_eq
    omega)
  rw [same, List.nil_append] at holds
  exact ⟨stream', appended, holds.sound.2⟩

theorem formatted_no_args (raw : RawArray size) (format : PlainText)
    (fits : format.chars.length ≤ (capacity size).toNat) :
    formatted raw format [] = .ok format.chars := by
  obtain ⟨stream, constructed, empty⟩ := clear_holds raw.pos ⟨raw.data, 0, raw.held⟩
  obtain ⟨stream', appended, text⟩ := appendText_empty empty format.plain fits
  rw [formatted, construct, constructed, Outcome.ok_bind, args, Outcome.ok_bind, toText,
    if_pos (show (0 : UInt32) ≠ noPos by decide)]
  change (stream.appendText format.chars >>= fun stream => Outcome.ok stream.text) = _
  rw [appended, Outcome.ok_bind, text]

theorem formatted_plain (raw : RawArray size) (format : PlainText) (plain : '@' ∉ format.chars)
    (fits : format.chars.length ≤ (capacity size).toNat) (vs : List FormatArg) :
    formatted raw format vs = .ok format.chars := by
  cases vs with
  | nil => exact formatted_no_args raw format fits
  | cons v vs =>
      obtain ⟨stream, constructed, empty⟩ := clear_holds raw.pos ⟨raw.data, 0, raw.held⟩
      obtain ⟨stream', appended, text⟩ := appendText_empty empty format.plain fits
      have first : Format.arg ⟨format.chars, 0, stream⟩ v =
          .ok ⟨format.chars, noPos, stream'⟩ := by
        have found : findFirst32 (format.chars.drop (0 : UInt32).toNat) '@' = noPos := by
          rw [findFirst32, findFirst_of_not_mem (fun member => plain (List.mem_of_mem_drop member))]
        rw [Format.arg, if_neg (by decide : (0 : UInt32) ≠ noPos)]
        simp only [found]
        change (stream.appendText format.chars >>= fun stream =>
          Outcome.ok (Format.mk format.chars noPos stream)) = _
        rw [appended, Outcome.ok_bind]
      rw [formatted, construct, constructed, Outcome.ok_bind, args, first, Outcome.ok_bind,
        args_of_noPos rfl, Outcome.ok_bind, toText, if_neg (not_not.mpr rfl), text]

/-- A template with a placeholder and an argument gives more than its text. -/
theorem formatted_placeholder {raw : RawArray size} {format : PlainText} {v : FormatArg}
    {vs : List FormatArg} (member : '@' ∈ format.chars)
    (fits : (substitute format.chars (v :: vs)).length ≤ (capacity size).toNat) :
    formatted raw format (v :: vs) ≠ .ok (substitute format.chars (v :: vs)) := by
  intro returned
  obtain ⟨front, back, split, plain⟩ := split_template member
  obtain ⟨empty, constructed, holds⟩ := clear_holds raw.pos ⟨raw.data, 0, raw.held⟩
  have bound := size.toNat_lt
  have total := capacity_toNat raw.pos
  have expected : substitute format.chars (v :: vs) = front ++ (v.chars ++ substitute back vs) := by
    rw [split, substitute_append plain, substitute_cons_at]
  rw [expected, List.length_append, List.length_append] at fits
  rw [formatted, construct, constructed, Outcome.ok_bind, expected, split] at returned
  obtain ⟨f, inserted, shown⟩ := Outcome.bind_eq_ok.mp returned
  obtain ⟨f₁, first, rest⟩ := Outcome.bind_eq_ok.mp inserted
  have short : front.length < 2 ^ 32 - 1 := by omega
  have stuck := (stuck_first plain short holds.sound.1 first).args plain short rest
  have longer := stuck.toText short (split ▸ format.plain) shown
  have others := length_substitute_le (by omega : (substitute back vs).length < 2 ^ 32)
  have size_eq := FormatArg.size_of_lt (v := v) (by omega)
  rw [List.length_append, List.length_append, List.length_cons] at longer
  omega

/-- **Substitution.** A template is shown with its arguments in the place of its first `@`, if and
only if it has no `@`, or there are no arguments. -/
theorem formatted_iff (raw : RawArray size) (format : PlainText) (vs : List FormatArg)
    (fits : (substitute format.chars vs).length ≤ (capacity size).toNat) :
    formatted raw format vs = .ok (substitute format.chars vs) ↔
      '@' ∉ format.chars ∨ vs = [] := by
  by_cases plain : '@' ∉ format.chars
  · rw [substitute_of_plain plain] at fits ⊢
    exact iff_of_true (formatted_plain raw format plain fits vs) (.inl plain)
  · cases vs with
    | nil =>
        rw [substitute_nil] at fits ⊢
        exact iff_of_true (formatted_no_args raw format fits) (.inr rfl)
    | cons v vs =>
        refine iff_of_false (formatted_placeholder (not_not.mp plain) fits) ?_
        exact not_or.mpr ⟨plain, nofun⟩

/-- An array of eight characters. -/
def eightChars : RawArray 8 := ⟨List.replicate 8 '?', rfl, by decide⟩

def template : PlainText := ⟨['a', '@', 'b'], ne_nul_of_all rfl⟩

def argument : FormatArg := .text ⟨['x'], ne_nul_of_all rfl⟩

theorem formatted_template :
    formatted eightChars template [argument] = .ok (substitute template.chars [argument]) ↔
      '@' ∉ template.chars ∨ [argument] = [] :=
  formatted_iff eightChars template [argument] (by decide)

/-- The text is `ax@b`. -/
theorem placeholder_kept :
    formatted eightChars template [argument] ≠ .ok (substitute template.chars [argument]) := by
  decide

end Format

end Cube.Eco
