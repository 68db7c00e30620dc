import Cube.Base.Base64

/-! # Decoding undoes encoding

When the string overload of `base64_decode` is safe and returns what it decoded, and the round trip
of byte strings through both string overloads.
-/

namespace Cube.Base.Base64

/-! ## When the string overload is sound -/

/-- The call reads no position outside its text and writes none outside its buffer, and it returns
as many characters as were decoded. -/
def Sound (call : Call) : Prop :=
  ∃ string decoded, base64Decode call.input call.length = .ok string ∧
    decodeLoop [] call.text.length call.input = .ok decoded ∧ string.length = decoded.length

/-- The text has a character other than `=`, six times its length is an `int`, and the number of `=`
at its end fits the characters in front of the first `=` and the characters in between. -/
structure Padded (call : Call) : Prop where
  fits : 6 * call.count < 2 ^ 31
  other : ∃ c ∈ call.text, c ≠ eq
  atLeast : 3 * (call.text.length - (front call.text).length - (back call.text).length) +
    3 * (front call.text).length % 4 ≤ (back call.text).length + 3
  atMost : (back call.text).length ≤
    3 * (call.text.length - (front call.text).length - (back call.text).length) +
      3 * (front call.text).length % 4

/-- The string overload behind its predicted length: a buffer, the decoded bytes with a NUL in it,
and as many of its characters as were predicted. -/
def fill (decLength : Int) (decoded : List UInt8) : Outcome AllocError (List (Option UInt8)) := do
  let decString ← newChars (decLength + 1)
  let decString ← Buffer.patch decString 0 ((decoded ++ [0]).map some)
  return decString.take decLength.toNat

/-- A buffer of the right size is filled with the decoded bytes. -/
theorem fill_length (decoded : List UInt8) :
    fill decoded.length decoded = .ok (decoded.map some) := by
  have size : newChars (decoded.length + 1) =
      .ok (List.replicate (decoded ++ [0]).length none) := by
    rw [newChars, if_neg (by omega), List.length_append, List.length_singleton]
    rfl
  have whole : @Buffer.patch AllocError _ (List.replicate (decoded ++ [0]).length none) 0
      ((decoded ++ [0]).map some) = .ok ((decoded ++ [0]).map some) :=
    Buffer.patch_eq_ok.mpr ⟨by simp, by simp⟩
  rw [fill, size, Outcome.ok_bind, whole, Outcome.ok_bind]
  simp

/-- Where the returned string has as many characters as were decoded, they were predicted. -/
theorem length_of_fill {decLength : Int} {decoded : List UInt8} {string : List (Option UInt8)}
    (filled : fill decLength decoded = .ok string) (same : string.length = decoded.length) :
    decLength = decoded.length := by
  obtain ⟨buffer, allocated, filled⟩ := Outcome.bind_eq_ok.mp filled
  obtain ⟨written, patched, filled⟩ := Outcome.bind_eq_ok.mp filled
  obtain rfl := Outcome.ok.inj filled
  obtain ⟨inside, rfl⟩ := Buffer.patch_eq_ok.mp patched
  have size : 0 ≤ decLength + 1 ∧ buffer.length = (decLength + 1).toNat := by
    by_cases negative : decLength + 1 < 0
    · simp [newChars, negative] at allocated
    · simp only [newChars, negative, ↓reduceIte, Outcome.ok.injEq] at allocated
      rw [← allocated, List.length_replicate]
      omega
  simp only [List.length_map, List.length_append, List.length_singleton] at inside
  simp only [List.length_take, List.length_append, List.length_map, List.length_drop,
    List.length_singleton] at same
  omega

/-- What the overload does on a text that is scanned and measured without overflow. -/
theorem base64Decode_eq {call : Call} (other : ∃ c ∈ call.text, c ≠ eq)
    (fits : 6 * call.count < 2 ^ 31) :
    base64Decode call.input call.length =
      fill (3 * call.text.length / 4 - (back call.text).length)
        (decodeChars [] (front call.text)) := by
  have positive : 0 < call.count := by
    obtain ⟨c, found, _⟩ := other
    have nonempty := List.length_pos_of_mem found
    rw [call.length_text] at nonempty
    omega
  have inside := call.count_toNat_le
  have again : passedLength call.input call.count = .ok call.count := if_neg (by omega)
  have rounds_eq : rounds call.input call.count = call.count.toNat := if_neg (by omega)
  have scanned : numEq call.input call.count.toNat = .ok (back call.text).length := by
    rw [numEq_text, if_pos other]
  have predicted : (6 * call.count).tdiv 8 - (back call.text).length =
      3 * call.text.length / 4 - (back call.text).length := by
    rw [call.length_text, Int.tdiv_eq_ediv_of_nonneg (by omega)]
    omega
  have decoded : decodeLoop [] call.count.toNat call.input =
      .ok (decodeChars [] (front call.text)) := decodeLoop_eq [] inside
  simp only [base64Decode, call.passedLength_eq, base64DecLen, scanned,
    asInt_of_fits (show -2 ^ 31 ≤ 6 * call.count by omega) fits, base64DecodeInto, again, rounds_eq,
    decoded, Outcome.ok_bind, Outcome.pure_eq, predicted, fill, Outcome.bind_assoc]

/-- A call that returns has a character other than `=`, and its length was measured without
overflow. -/
theorem measured_of_ok {call : Call} {string : List (Option UInt8)}
    (returned : base64Decode call.input call.length = .ok string) :
    (∃ c ∈ call.text, c ≠ eq) ∧ 6 * call.count < 2 ^ 31 := by
  obtain ⟨length, passed, returned⟩ := Outcome.bind_eq_ok.mp returned
  obtain rfl := Outcome.ok.inj (call.passedLength_eq.symm.trans passed)
  obtain ⟨decLength, predicted, _⟩ := Outcome.bind_eq_ok.mp returned
  obtain ⟨equals, scanned, predicted⟩ := Outcome.bind_eq_ok.mp predicted
  obtain ⟨bits, int, _⟩ := Outcome.bind_eq_ok.mp predicted
  constructor
  · by_contra none_other
    rw [numEq_text, if_neg none_other] at scanned
    cases scanned
  · by_contra large
    rw [asInt, if_neg fun fits => large fits.2] at int
    cases int

/-- Decoding is sound exactly if the padding agrees with the predicted length. -/
theorem sound_iff (call : Call) : Sound call ↔ Padded call := by
  have decoded : decodeLoop [] call.text.length call.input =
      .ok (decodeChars [] (front call.text)) := by
    rw [call.length_text]
    exact decodeLoop_eq [] call.count_toNat_le
  have size : (decodeChars [] (front call.text)).length = 3 * (front call.text).length / 4 := by
    rw [length_decodeChars _ _ (by simp), List.length_nil, Nat.zero_add]
  have apart := length_front_add_back call.text
  constructor
  · rintro ⟨string, bytes, returned, read, same⟩
    obtain rfl := Outcome.ok.inj (decoded.symm.trans read)
    obtain ⟨other, fits⟩ := measured_of_ok returned
    rw [base64Decode_eq other fits] at returned
    have predicted := length_of_fill returned same
    rw [size] at predicted
    exact ⟨fits, other, by omega, by omega⟩
  · intro padded
    refine ⟨_, _, ?_, decoded, List.length_map some⟩
    have predicted : (3 * call.text.length / 4 - (back call.text).length : Int) =
        (decodeChars [] (front call.text)).length := by
      rw [size]
      have least := padded.atLeast
      have most := padded.atMost
      omega
    rw [base64Decode_eq padded.other padded.fits, predicted, fill_length]

/-! ## The round trip -/

theorem and_three (n : Nat) : n &&& 3 = n % 4 := Nat.and_two_pow_sub_one_eq_mod n 2

theorem and_fifteen (n : Nat) : n &&& 15 = n % 16 := Nat.and_two_pow_sub_one_eq_mod n 4

theorem and_sixty_three (n : Nat) : n &&& 63 = n % 64 := Nat.and_two_pow_sub_one_eq_mod n 6

/-- Three bytes as four numbers of six bits. -/
theorem toNat_a3ToA4 (x y z : UInt8) : (a3ToA4 x y z).map UInt8.toNat =
    [x.toNat / 4, x.toNat % 4 * 16 + y.toNat / 16, y.toNat % 16 * 4 + z.toNat / 64,
      z.toNat % 64] := by
  have first := x.toNat_lt
  have second := y.toNat_lt
  have third := z.toNat_lt
  simp only [a3ToA4, List.map_cons, UInt8.toNat_add, UInt8.toNat_and, UInt8.toNat_shiftLeft,
    UInt8.toNat_shiftRight, UInt8.reduceToNat, Nat.reduceMod, Nat.shiftRight_and_distrib,
    Nat.reduceShiftRight, and_three, and_fifteen, and_sixty_three, List.map_nil, List.cons.injEq]
  simp only [Nat.shiftRight_eq_div_pow, Nat.shiftLeft_eq, and_true]
  omega

/-- Four numbers of six bits as three bytes. -/
theorem toNat_a4ToA3 {p q r s : UInt8} (first : p.toNat < 64) (second : q.toNat < 64)
    (third : r.toNat < 64) (fourth : s.toNat < 64) : (a4ToA3 p q r s).map UInt8.toNat =
      [p.toNat * 4 + q.toNat / 16, q.toNat % 16 * 16 + r.toNat / 4,
        r.toNat % 4 * 64 + s.toNat] := by
  simp only [a4ToA3, List.map_cons, UInt8.toNat_add, UInt8.toNat_and, UInt8.toNat_shiftLeft,
    UInt8.toNat_shiftRight, UInt8.reduceToNat, Nat.reduceMod, Nat.shiftRight_and_distrib,
    Nat.reduceShiftRight, and_three, and_fifteen, List.map_nil, List.cons.injEq]
  simp only [Nat.shiftRight_eq_div_pow, Nat.shiftLeft_eq, and_true]
  omega

/-- The letters of the alphabet are looked up as their numbers, and no letter is `=` or a NUL. -/
theorem lookup_letter : ∀ number < 64,
    b64Lookup (letter (UInt8.ofNat number)) = UInt8.ofNat number ∧
      letter (UInt8.ofNat number) ≠ eq ∧ letter (UInt8.ofNat number) ≠ 0 := by
  decide +kernel

/-- A number of six bits. -/
def SixBits (number : UInt8) : Prop := number.toNat < 64

theorem SixBits.lookup {number : UInt8} (short : SixBits number) :
    b64Lookup (letter number) = number := by
  simpa using (lookup_letter number.toNat short).1

theorem SixBits.ne_eq {number : UInt8} (short : SixBits number) : letter number ≠ eq := by
  simpa using (lookup_letter number.toNat short).2.1

theorem SixBits.ne_nul {number : UInt8} (short : SixBits number) : letter number ≠ 0 := by
  simpa using (lookup_letter number.toNat short).2.2

/-- Three bytes are four numbers of six bits, which are put together as the bytes again. -/
theorem exists_a3ToA4 (x y z : UInt8) : ∃ p q r s, a3ToA4 x y z = [p, q, r, s] ∧
    SixBits p ∧ SixBits q ∧ SixBits r ∧ SixBits s ∧ a4ToA3 p q r s = [x, y, z] := by
  have numbers := toNat_a3ToA4 x y z
  have first := x.toNat_lt
  have second := y.toNat_lt
  have third := z.toNat_lt
  refine ⟨_, _, _, _, rfl, ?_⟩
  simp only [a3ToA4, List.map_cons, List.map_nil, List.cons.injEq, and_true] at numbers
  obtain ⟨pEq, qEq, rEq, sEq⟩ := numbers
  have pShort : SixBits ((x &&& 0xfc) >>> 2) := by rw [SixBits, pEq]; omega
  have qShort : SixBits (((x &&& 0x03) <<< 4) + ((y &&& 0xf0) >>> 4)) := by
    rw [SixBits, qEq]; omega
  have rShort : SixBits (((y &&& 0x0f) <<< 2) + ((z &&& 0xc0) >>> 6)) := by
    rw [SixBits, rEq]; omega
  have sShort : SixBits (z &&& 0x3f) := by rw [SixBits, sEq]; omega
  refine ⟨pShort, qShort, rShort, sShort, ?_⟩
  apply List.map_injective_iff.mpr (fun _ _ => UInt8.toNat_inj.mp)
  rw [toNat_a4ToA3 pShort qShort rShort sShort, pEq, qEq, rEq, sEq]
  simp only [List.map_cons, List.map_nil, List.cons.injEq, and_true]
  omega

/-- Letters with no `=` and no NUL among them, with `=` up to a multiple of four, which decode to
the bytes. -/
structure Encodes (bytes letters : List UInt8) (padding : Nat) : Prop where
  text : encodeBytes [] bytes = letters ++ List.replicate padding eq
  plain : ∀ c ∈ letters, c ≠ eq ∧ c ≠ 0
  decoded : decodeChars [] letters = bytes
  padded : letters.length + padding = (bytes.length + 2) / 3 * 4
  few : padding = (3 - bytes.length % 3) % 3

/-- Every byte string is encoded, three bytes at a time. -/
theorem exists_encodes : ∀ bytes : List UInt8, ∃ letters padding, Encodes bytes letters padding
  | [] => ⟨[], 0, rfl, nofun, rfl, rfl, rfl⟩
  | [x] => by
      obtain ⟨p, q, r, s, numbers, first, second, third, fourth, back⟩ := exists_a3ToA4 x 0 0
      refine ⟨[letter p, letter q], 2, ?_, ?_, ?_, by simp, by simp⟩
      · simp [encodeBytes, encodeRest, numbers, List.replicate]
      · simp [first.ne_eq, first.ne_nul, second.ne_eq, second.ne_nul]
      · have head : (a4ToA3 p q r s).take 1 = [x] := by rw [back]; rfl
        simpa [decodeChars, decodeRest, first.lookup, second.lookup, a4ToA3] using head
  | [x, y] => by
      obtain ⟨p, q, r, s, numbers, first, second, third, fourth, back⟩ := exists_a3ToA4 x y 0
      refine ⟨[letter p, letter q, letter r], 1, ?_, ?_, ?_, by simp, by simp⟩
      · simp [encodeBytes, encodeRest, numbers, List.replicate]
      · simp [first.ne_eq, first.ne_nul, second.ne_eq, second.ne_nul, third.ne_eq, third.ne_nul]
      · have head : (a4ToA3 p q r s).take 2 = [x, y] := by rw [back]; rfl
        simpa [decodeChars, decodeRest, first.lookup, second.lookup, third.lookup, a4ToA3]
          using head
  | x :: y :: z :: bytes => by
      obtain ⟨letters, padding, rest⟩ := exists_encodes bytes
      obtain ⟨p, q, r, s, numbers, first, second, third, fourth, back⟩ := exists_a3ToA4 x y z
      refine ⟨letter p :: letter q :: letter r :: letter s :: letters, padding, ?_, ?_, ?_, ?_, ?_⟩
      · simp [encodeBytes, numbers, rest.text]
      · simp [first.ne_eq, first.ne_nul, second.ne_eq, second.ne_nul, third.ne_eq, third.ne_nul,
          fourth.ne_eq, fourth.ne_nul]
        exact fun c member => rest.plain c member
      · simp [decodeChars, first.lookup, second.lookup, third.lookup, fourth.lookup, back,
          rest.decoded]
      · have four := rest.padded
        simp only [List.length_cons]
        omega
      · have few := rest.few
        simp only [List.length_cons]
        omega

namespace Encodes

variable {bytes letters : List UInt8} {padding : Nat}

theorem front_eq (encodes : Encodes bytes letters padding) :
    front (encodeBytes [] bytes) = letters := by
  have whole : letters.takeWhile (· ≠ eq) = letters :=
    List.takeWhile_eq_self_iff.mpr fun c member => by simpa using (encodes.plain c member).1
  have none_left : (List.replicate padding eq).takeWhile (· ≠ eq) = [] := by
    cases padding with
    | zero => rfl
    | succ padding => simp [List.replicate_succ]
  rw [encodes.text, front, List.takeWhile_append, whole, if_pos rfl, none_left, List.append_nil]

theorem back_eq (encodes : Encodes bytes letters padding) :
    back (encodeBytes [] bytes) = List.replicate padding eq := by
  have stops : letters.reverse.takeWhile (· = eq) = [] := by
    apply List.takeWhile_eq_nil_iff.mpr
    intro nonempty
    have member := List.mem_reverse.mp (List.getElem_mem nonempty)
    simpa using (encodes.plain _ member).1
  have whole : (List.replicate padding eq).takeWhile (· = eq) = List.replicate padding eq :=
    List.takeWhile_eq_self_iff.mpr fun c member => by simp [List.eq_of_mem_replicate member]
  rw [encodes.text, back, List.rtakeWhile, List.reverse_append, List.reverse_replicate,
    List.takeWhile_append, whole, if_pos rfl, stops, List.append_nil, List.reverse_replicate]

theorem no_nul (encodes : Encodes bytes letters padding) : 0 ∉ encodeBytes [] bytes := by
  rw [encodes.text]
  intro member
  rcases List.mem_append.mp member with inside | padded
  · exact (encodes.plain 0 inside).2 rfl
  · exact absurd (List.eq_of_mem_replicate padded) (by decide)

theorem length_eq (encodes : Encodes bytes letters padding) :
    (encodeBytes [] bytes).length = (bytes.length + 2) / 3 * 4 := by
  rw [encodes.text, List.length_append, List.length_replicate, encodes.padded]

end Encodes

/-- Decoding the encoded text of a byte string that is not empty gives the byte string. -/
theorem base64Decode_encoded {bytes : List UInt8} (nonempty : bytes ≠ [])
    (short : bytes.length < 2 ^ 28) {call : Call} (text : call.text = encodeBytes [] bytes) :
    base64Decode call.input call.length = .ok (bytes.map some) := by
  obtain ⟨letters, padding, encodes⟩ := exists_encodes bytes
  have size := encodes.length_eq
  have positive := List.length_pos_iff.mpr nonempty
  have parts := encodes.padded
  have few := encodes.few
  have long : 0 < letters.length := by omega
  have other : ∃ c ∈ call.text, c ≠ eq := by
    obtain ⟨c, member⟩ := List.exists_mem_of_length_pos long
    refine ⟨c, ?_, (encodes.plain c member).1⟩
    rw [text, encodes.text]
    exact List.mem_append_left _ member
  have counted := call.length_text
  rw [text, size] at counted
  have predicted : (3 * call.text.length / 4 - (back call.text).length : Int) =
      (decodeChars [] (front call.text)).length := by
    rw [text, encodes.back_eq, encodes.front_eq, encodes.decoded, List.length_replicate, size]
    omega
  rw [base64Decode_eq other (by omega), predicted, fill_length, text, encodes.front_eq,
    encodes.decoded]

/-- The first NUL of a filled buffer ends its string. -/
theorem cString_eq {text : List UInt8} (plain : 0 ∉ text) :
    cString ((text ++ [0]).map some) = .ok text := by
  induction text with
  | nil => rfl
  | cons c text ih =>
      have here : c ≠ 0 := fun nul => plain (nul ▸ List.mem_cons_self)
      have rest := ih fun member => plain (List.mem_cons_of_mem _ member)
      simp only [List.cons_append, List.map_cons, cString, here, ↓reduceIte, rest, Outcome.ok_bind,
        Outcome.pure_eq]

/-- The string overload of `base64_encode` on a byte string whose encoded length is an `int`. -/
theorem base64Encode_eq {call : Call} (low : 0 ≤ call.count) (high : call.count < 2 ^ 30) :
    base64Encode call.input call.length = .ok (encodeBytes [] call.text) := by
  obtain ⟨letters, padding, encodes⟩ := exists_encodes call.text
  have size := encodes.length_eq
  rw [call.length_text] at size
  have again : passedLength call.input call.count = .ok call.count := if_neg (by omega)
  have rounds_eq : rounds call.input call.count = call.count.toNat := if_neg (by omega)
  have predicted : base64EncLen call.count = .ok (encodeBytes [] call.text).length := by
    rw [base64EncLen, asInt_of_fits (by omega) (by omega), Outcome.ok_bind,
      Int.tmod_eq_emod_of_nonneg (by omega), Int.tdiv_eq_ediv_of_nonneg (by omega),
      asInt_of_fits (by omega) (by omega), size]
    congr 1
    omega
  have allocated : newChars ((encodeBytes [] call.text).length + 1) =
      .ok (List.replicate (encodeBytes [] call.text ++ [0]).length none) := by
    rw [newChars, if_neg (by omega), List.length_append, List.length_singleton]
    rfl
  have encoded : encodeLoop [] call.count.toNat call.input = .ok (encodeBytes [] call.text) :=
    encodeLoop_eq [] call.count_toNat_le
  have whole : @Buffer.patch AllocError _
      (List.replicate (encodeBytes [] call.text ++ [0]).length none) 0
      ((encodeBytes [] call.text ++ [0]).map some) =
        .ok ((encodeBytes [] call.text ++ [0]).map some) :=
    Buffer.patch_eq_ok.mpr ⟨by simp, by simp⟩
  simp only [base64Encode, call.passedLength_eq, predicted, allocated, base64EncodeInto, again,
    rounds_eq, encoded, whole, cString_eq encodes.no_nul, Outcome.ok_bind, Outcome.pure_eq]

/-- A string that is passed with its length or up to its NUL. -/
def Passes (text : List UInt8) (call : Call) : Prop :=
  call.input = text ++ [0] ∧ (call.length = text.length ∨ call.length < 0)

theorem Passes.text_eq {text : List UInt8} {call : Call} (passes : Passes text call)
    (plain : 0 ∉ text) (short : text.length < 2 ^ 31) : call.text = text := by
  obtain ⟨input, length⟩ := passes
  have count : call.count = text.length := by
    unfold Call.count
    rcases length with given | negative
    · rw [if_neg (by omega), given]
    · rw [if_pos negative, input, takeWhile_nul plain]
      exact Int.bmod_eq_of_le_mul_two (by omega) (by omega)
  rw [Call.text, count, input, Int.toNat_natCast, List.take_left]

/-- Encoding the byte string returns a text, and decoding that text, however its length is given,
returns the byte string. -/
def RoundTrip (call : Call) : Prop :=
  ∃ text, base64Encode call.input call.length = .ok text ∧
    ∀ second : Call, Passes text second →
      base64Decode second.input second.length = .ok (call.text.map some)

/-- The round trip of a byte string below 2^28 fails for the empty one only, and decoding a text is
sound exactly where its padding agrees with its length. -/
theorem codec_iff (bytes text : Call) (low : 0 ≤ bytes.count) (high : bytes.count < 2 ^ 28) :
    (RoundTrip bytes ↔ bytes.text ≠ []) ∧ (Sound text ↔ Padded text) := by
  refine ⟨?_, sound_iff text⟩
  have encoded := base64Encode_eq low (by omega)
  constructor
  · rintro ⟨encodedText, returned, decoded⟩ empty
    rw [encoded, empty] at returned
    obtain rfl := Outcome.ok.inj returned
    have faulted := decoded ⟨[0], 0, by decide, by decide⟩ ⟨rfl, .inl rfl⟩
    rw [show base64Decode [0] 0 = .fault from rfl] at faulted
    cases faulted
  · intro nonempty
    obtain ⟨letters, padding, encodes⟩ := exists_encodes bytes.text
    have size := encodes.length_eq
    rw [bytes.length_text] at size
    refine ⟨_, encoded, fun second passes => ?_⟩
    refine base64Decode_encoded nonempty ?_ (passes.text_eq encodes.no_nul (by omega))
    rw [bytes.length_text]
    omega

/-- Two bytes are encoded with one `=` and decoded; `aGk=` is their text. -/
theorem codec_two_bytes :
    RoundTrip ⟨[104, 105], 2, by decide, by decide⟩ ∧
      Sound ⟨[97, 71, 107, 61], 4, by decide, by decide⟩ := by
  have both := codec_iff ⟨[104, 105], 2, by decide, by decide⟩
    ⟨[97, 71, 107, 61], 4, by decide, by decide⟩ (by decide) (by decide)
  refine ⟨both.1.mpr ?_, both.2.mpr ⟨?_, ⟨97, ?_, ?_⟩, ?_, ?_⟩⟩
  all_goals decide

/-- The empty byte string is read in front of its encoded text, and one letter with five `=` is
written behind its buffer. -/
theorem codec_empty :
    ¬ RoundTrip ⟨[0], -1, by decide, by decide⟩ ∧
      ¬ Sound ⟨[65, 61, 61, 61, 61, 61, 0], -1, by decide, List.mem_of_elem_eq_true rfl⟩ := by
  constructor
  · rintro ⟨text, returned, decoded⟩
    have encoded : base64Encode [0] (-1) = .ok [] := by decide +kernel
    obtain rfl := Outcome.ok.inj (encoded.symm.trans returned)
    have faulted := decoded ⟨[0], 0, by decide, by decide⟩ ⟨rfl, .inl rfl⟩
    rw [show base64Decode [0] 0 = .fault from rfl] at faulted
    cases faulted
  · rintro ⟨string, decoded, returned, _⟩
    rw [show base64Decode [65, 61, 61, 61, 61, 61, 0] (-1) = .fault by decide +kernel] at returned
    cases returned

end Cube.Base.Base64
