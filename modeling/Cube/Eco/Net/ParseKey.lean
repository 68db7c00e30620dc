import Mathlib.Algebra.Group.Int.Defs
import Mathlib.Algebra.Group.Nat.Defs
import Cube.Eco.Net.ShakeHandKey

/-! # Parsing the key of a shake-hand

The key is to be the value of a header with exactly the name of the key.
-/

namespace Cube.Eco.Net.WebSocketShakeHand

/-! ## Taking the value -/

theorem asign_eq_ok {d : List UInt8} {s : UInt32} {serverKey : EcoString}
    (inside : s.toNat ≤ d.length) :
    asign d s = .ok serverKey ↔
      s.toNat ≤ maxStringSize ∧ serverKey.content = d.take s.toNat := by
  have copied : (Buffer.slice d 0 s.toNat : Outcome Empty _) = .ok (d.take s.toNat) :=
    if_pos (by rwa [Nat.zero_add])
  have length : (d.take s.toNat).length = s.toNat := List.length_take_of_le inside
  have whole : ∀ zeros : List UInt8, zeros.length = s.toNat →
      zeros.take 0 ++ d.take s.toNat ++ zeros.drop (0 + (d.take s.toNat).length) =
        d.take s.toNat := by
    intro zeros same
    rw [length, Nat.zero_add, List.drop_of_length_le (Nat.le_of_eq same), List.take_zero,
      List.nil_append, List.append_nil]
  rw [asign, Outcome.bind_eq_ok]
  constructor
  · rintro ⟨resized, held, copy⟩
    obtain ⟨small, zeros⟩ := EcoString.resize_empty.mp held
    rw [copied, Outcome.ok_bind] at copy
    have content := (EcoString.copyTo_eq_ok.mp copy).2
    rw [whole _ (by rw [zeros, List.length_replicate])] at content
    exact ⟨small, content⟩
  · rintro ⟨small, content⟩
    have zeros : (List.replicate s.toNat (0 : UInt8)).length = s.toNat := List.length_replicate
    refine ⟨⟨List.replicate s.toNat 0, le_of_eq_of_le zeros small⟩,
      EcoString.resize_empty.mpr ⟨small, rfl⟩, ?_⟩
    rw [copied, Outcome.ok_bind, EcoString.copyTo_eq_ok]
    refine ⟨?_, content.trans (whole _ zeros).symm⟩
    rw [length, Nat.zero_add]
    exact Nat.le_of_eq zeros.symm

/-- The CR at the end is looked for at the last byte, which an empty value does not have. -/
theorem trimCr_eq_ok {value cut : EcoString} :
    trimCr value = .ok cut ↔ value.content ≠ [] ∧ cut.content = dropCr value.content := by
  have wrapped : (value.size - 1).toNat = (2 ^ 32 - 1 + value.content.length) % 2 ^ 32 := by
    rw [UInt32.toNat_sub, EcoString.size_toNat]
    rfl
  have fits := value.fits
  rcases List.eq_nil_or_concat value.content with empty | ⟨front, last, content⟩
  · have missing : (value.get (value.size - 1).toNat : Outcome Empty UInt8) = .fault := by
      rw [EcoString.get, empty]
      rfl
    rw [trimCr, missing, Outcome.fault_bind]
    exact iff_of_false nofun fun both => both.1 empty
  · rw [List.concat_eq_append] at content
    have position : (value.size - 1).toNat = front.length := by
      rw [wrapped, content, List.length_append, List.length_singleton]
      rw [content, List.length_append, List.length_singleton] at fits
      simp only [maxStringSize] at fits
      omega
    have read : (value.get (value.size - 1).toNat : Outcome Empty UInt8) = .ok last := by
      rw [EcoString.get, content, position]
      exact Buffer.read_append front [] last
    have nonempty : value.content ≠ [] := by
      rw [content]
      exact List.append_ne_nil_of_right_ne_nil front (List.cons_ne_nil last [])
    rw [trimCr, read, Outcome.ok_bind, and_iff_right nonempty, dropCr, content, List.getLast?_concat,
      List.dropLast_concat]
    by_cases ends : last = cr
    · have shorter : (value.size - 1).toNat ≤ value.content.length := by
        rw [position, content, List.length_append]
        exact Nat.le_add_right ..
      rw [if_pos ends, if_pos (congrArg some ends), EcoString.resize_of_le shorter, position, content,
        List.take_left]
    · rw [if_neg ends, if_neg fun same => ends (Option.some.inj same), ← content,
        Outcome.ok.injEq, EcoString.ext_iff, eq_comm]

/-- What is returned for a value. -/
def keyed (websocketReq : Bool) (value : List UInt8) : List UInt8 :=
  value ++ if websocketReq then magicKey else []

theorem length_dropCr (text : List UInt8) : (dropCr text).length ≤ text.length := by
  rw [dropCr]
  split
  next =>
    rw [List.length_dropLast]
    exact Nat.sub_le ..
  next => exact Nat.le_refl _

variable {websocketReq : Bool}

theorem keyed_eq_ok {value serverKey : EcoString} :
    (if websocketReq then value.append magicKey else .ok value : Outcome Empty EcoString) =
        .ok serverKey ↔
      serverKey.content = keyed websocketReq value.content := by
  cases websocketReq with
  | true => exact EcoString.ofContent_eq_ok
  | false =>
      rw [keyed, if_neg Bool.false_ne_true, if_neg Bool.false_ne_true, List.append_nil,
        Outcome.ok.injEq, EcoString.ext_iff, eq_comm]

theorem valueSize_place (header : Header) (text : List UInt8) :
    (header.place text).valueSize = header.rest.length - 1 := by
  simp only [Place.valueSize, Header.place, Header.line, List.length_append, List.length_cons]
  omega

/-- Behind the colon and the byte that is skipped. -/
theorem data_drop {header : Header} {skipped : UInt8} {value : List UInt8}
    (rest : header.rest = skipped :: value) (text : List UInt8) :
    (header.place text).data.drop ((header.place text).keyEnd + 2) = value ++ lf :: text := by
  have front : (header.place text).data =
      (header.name ++ [colon, skipped]) ++ (value ++ lf :: text) := by
    simp only [Header.place, Header.line, rest, List.append_assoc, List.cons_append,
      List.nil_append]
  rw [front]
  exact List.drop_left' (by rw [List.length_append]; rfl)

/-- What is assigned is the value, if it can be held. -/
theorem asign_place {header : Header} {skipped : UInt8} {value : List UInt8}
    (rest : header.rest = skipped :: value) (narrow : header.rest.length ≤ 2 ^ 32)
    (text : List UInt8) (held : EcoString) :
    asign (value ++ lf :: text) (UInt32.ofInt (header.place text).valueSize) = .ok held ↔
      value.length ≤ maxStringSize ∧ held.content = value := by
  have length : header.rest.length = value.length + 1 := by rw [rest, List.length_cons]
  have size : (UInt32.ofInt (header.place text).valueSize).toNat = value.length := by
    rw [valueSize_place, length, UInt32.ofInt, UInt32.toNat_ofNat']
    omega
  have inside : value.length ≤ (value ++ lf :: text).length := by
    rw [List.length_append]
    exact Nat.le_add_right ..
  rw [asign_eq_ok (size ▸ inside), size, List.take_left]

/-- **Taking the key.** Behind the colon of the header there have to be two bytes. The first one is
skipped. -/
theorem takeKey_eq_ok {header : Header} {text : List UInt8} {serverKey : EcoString}
    (nonempty : 1 ≤ header.rest.length) (narrow : header.rest.length ≤ 2 ^ 32) :
    takeKey (header.place text) websocketReq = .ok serverKey ↔
      2 ≤ header.rest.length ∧ header.rest.length ≤ maxStringSize + 1 ∧
        serverKey.content = keyed websocketReq (dropCr header.rest.tail) := by
  obtain ⟨skipped, value, rest⟩ := List.exists_cons_of_length_pos nonempty
  have tail : header.rest.tail = value := by rw [rest, List.tail_cons]
  have length : header.rest.length = value.length + 1 := by rw [rest, List.length_cons]
  have assigns := asign_place rest narrow text
  rw [takeKey, data_drop rest, tail, length, Outcome.bind_eq_ok]
  constructor
  · rintro ⟨held, assigned, rest⟩
    obtain ⟨small, content⟩ := (assigns held).mp assigned
    obtain ⟨cut, ended, last⟩ := Outcome.bind_eq_ok.mp rest
    obtain ⟨nonempty, trimmed⟩ := trimCr_eq_ok.mp ended
    rw [content] at nonempty trimmed
    have long := List.length_pos_iff.mpr nonempty
    refine ⟨by omega, by omega, ?_⟩
    rw [← trimmed]
    exact keyed_eq_ok.mp last
  · rintro ⟨long, small, content⟩
    have fits : value.length ≤ maxStringSize := by omega
    have nonempty : value ≠ [] := List.length_pos_iff.mp (by omega)
    have shorter : (dropCr value).length ≤ maxStringSize :=
      Nat.le_trans (length_dropCr value) fits
    refine ⟨⟨value, fits⟩, (assigns _).mpr ⟨fits, rfl⟩, Outcome.bind_eq_ok.mpr
      ⟨⟨dropCr value, shorter⟩, trimCr_eq_ok.mpr ⟨nonempty, rfl⟩, keyed_eq_ok.mpr content⟩⟩

/-! ## Parsing -/

/-- The key is parsed as it should be: nothing outside the text is read, no length is negative or
wraps, and what is returned is the value of a header with the name of the key. -/
structure KeyParsed (request : List UInt8) (websocketReq : Bool) : Prop where
  defined : (parseKey request websocketReq).Defined
  measured : ∀ place ∈ locate (keyName websocketReq) request,
    0 ≤ place.valueSize ∧ place.valueSize < 2 ^ 32
  returned : ∀ serverKey, parseKey request websocketReq = .ok (some serverKey) →
    ∃ header ∈ headers request, header.name = keyName websocketReq ∧
      serverKey.content = keyed websocketReq header.value
  refused : parseKey request websocketReq = .ok none →
    ∀ header ∈ headers request, header.name ≠ keyName websocketReq

/-- The header of the line that has not ended. -/
def openHeader (request : List UInt8) : Option Header :=
  (lines request).getLast?.bind Header.ofLine

/-- The first line that mentions the key leads to the value of a header with its name. -/
def KeyReadable (request : List UInt8) (websocketReq : Bool) : Prop :=
  match firstMention (keyName websocketReq) request with
  | none => ∀ header ∈ openHeader request, header.name ≠ keyName websocketReq
  | some mention =>
      2 ≤ mention.rest.length ∧ mention.rest.length ≤ maxStringSize + 1 ∧
        (keyed websocketReq (dropCr mention.rest.tail)).length ≤ maxStringSize ∧
          ∃ header ∈ headers request, header.name = keyName websocketReq ∧
            header.value = dropCr mention.rest.tail

theorem mem_headers {request : List UInt8} {header : Header} :
    header ∈ headers request ↔ header ∈ endedHeaders request ∨ header ∈ openHeader request := by
  have nonempty : lines request ≠ [] := List.splitOn_ne_nil lf request
  have parts : lines request = (lines request).dropLast ++ [(lines request).getLast nonempty] :=
    (List.dropLast_append_getLast nonempty).symm
  rw [headers, parts, List.filterMap_append, List.mem_append, endedHeaders, openHeader,
    List.getLast?_eq_some_getLast nonempty, Option.bind_some]
  refine or_congr Iff.rfl ?_
  simp

theorem zero_not_mem_keyName (websocketReq : Bool) : 0 ∉ keyName websocketReq := by
  cases websocketReq <;> decide

/-- Without a mention in the lines that have ended, nothing is found. -/
theorem keyParsed_iff_of_none {request : List UInt8}
    (first : firstMention (keyName websocketReq) request = none) :
    KeyParsed request websocketReq ↔
      ∀ header ∈ openHeader request, header.name ≠ keyName websocketReq := by
  obtain ⟨text, located⟩ := locate_spec (zero_not_mem_keyName websocketReq) request
  rw [first, Option.map_none] at located
  have result : parseKey request websocketReq = .ok none := by rw [parseKey, located]
  have ended : ∀ header ∈ endedHeaders request, header.name ≠ keyName websocketReq := by
    intro header member same
    have unmentioned := List.find?_eq_none.mp first header member
    exact unmentioned (decide_eq_true (same ▸ List.infix_refl _))
  constructor
  · intro parsed header last
    exact parsed.refused result header (mem_headers.mpr (.inr last))
  · intro others
    refine ⟨result ▸ Outcome.defined_ok _, ?_, ?_, ?_⟩
    · rw [located]
      exact nofun
    · intro serverKey returned
      exact nomatch returned.symm.trans result
    · intro _ header member
      exact (mem_headers.mp member).elim (ended header) (others header)

/-- The first mention is taken, if its value can be held. -/
theorem parseKey_eq_some {request text : List UInt8} {mention : Header} {serverKey : EcoString}
    (located : locate (keyName websocketReq) request = some (mention.place text)) :
    parseKey request websocketReq = .ok (some serverKey) ↔
      takeKey (mention.place text) websocketReq = .ok serverKey := by
  rw [parseKey, located]
  constructor
  · intro returned
    obtain ⟨key, took, same⟩ := Outcome.bind_eq_ok.mp returned
    rw [took]
    exact congrArg Outcome.ok (Option.some.inj (Outcome.ok.inj same))
  · intro took
    simp only [took, Outcome.ok_bind]

theorem keyParsed_iff_of_mention {request : List UInt8} {mention : Header}
    (first : firstMention (keyName websocketReq) request = some mention) :
    KeyParsed request websocketReq ↔
      2 ≤ mention.rest.length ∧ mention.rest.length ≤ maxStringSize + 1 ∧
        (keyed websocketReq (dropCr mention.rest.tail)).length ≤ maxStringSize ∧
          ∃ header ∈ headers request, header.name = keyName websocketReq ∧
            header.value = dropCr mention.rest.tail := by
  obtain ⟨text, located⟩ := locate_spec (zero_not_mem_keyName websocketReq) request
  rw [first, Option.map_some] at located
  constructor
  · intro parsed
    have measured := parsed.measured _ located
    rw [valueSize_place] at measured
    obtain ⟨_, taken⟩ := Outcome.defined_iff_ok.mp parsed.defined
    rw [parseKey, located] at taken
    obtain ⟨serverKey, took, _⟩ := Outcome.bind_eq_ok.mp taken
    obtain ⟨long, small, content⟩ := (takeKey_eq_ok (by omega) (by omega)).mp took
    obtain ⟨header, member, named, same⟩ :=
      parsed.returned serverKey ((parseKey_eq_some located).mpr took)
    exact ⟨long, small, content ▸ serverKey.fits, header, member, named,
      List.append_cancel_right (same.symm.trans content)⟩
  · rintro ⟨long, small, fits, header, member, named, same⟩
    simp only [maxStringSize] at small
    have took : takeKey (mention.place text) websocketReq = .ok ⟨_, fits⟩ :=
      (takeKey_eq_ok (by omega) (by omega)).mpr ⟨long, small, rfl⟩
    have returned := (parseKey_eq_some located).mpr took
    refine ⟨returned ▸ Outcome.defined_ok _, ?_, ?_, ?_⟩
    · rw [located]
      rintro place ⟨⟩
      rw [valueSize_place]
      exact ⟨by omega, by omega⟩
    · intro serverKey taken
      have once := Option.some.inj (Outcome.ok.inj (returned.symm.trans taken))
      exact ⟨header, member, named, by rw [← once, same]⟩
    · intro refused
      cases refused.symm.trans returned

/-- **Parsing the key.** The key is parsed as it should be if and only if the first line that
mentions it can be read as a header with its name. -/
theorem key_parsed_iff (request : List UInt8) (websocketReq : Bool) :
    KeyParsed request websocketReq ↔ KeyReadable request websocketReq := by
  rw [KeyReadable]
  cases first : firstMention (keyName websocketReq) request with
  | none => exact keyParsed_iff_of_none first
  | some mention => exact keyParsed_iff_of_mention first

/-- A header without a value: the byte before the first one of an empty string is read. -/
theorem key_not_parsed : ¬ KeyParsed (bytes "Sec-WebSocket-Key:\r\n\r\n") true := by
  intro parsed
  have mentioned : firstMention (keyName true) (bytes "Sec-WebSocket-Key:\r\n\r\n") =
      some ⟨keyName true, [cr], by decide⟩ := by decide +kernel
  obtain ⟨text, located⟩ :=
    locate_spec (zero_not_mem_keyName true) (bytes "Sec-WebSocket-Key:\r\n\r\n")
  rw [mentioned, Option.map_some] at located
  obtain ⟨_, taken⟩ := Outcome.defined_iff_ok.mp parsed.defined
  rw [parseKey, located] at taken
  obtain ⟨serverKey, took, _⟩ := Outcome.bind_eq_ok.mp taken
  have long := ((takeKey_eq_ok (by decide) (by decide)).mp took).1
  exact absurd long (by decide)

end Cube.Eco.Net.WebSocketShakeHand
