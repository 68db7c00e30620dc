import Mathlib.Algebra.Group.Nat.Defs
import Cube.Lib.Buffer

/-! # Compressed data

`Flate::append_encode` and `FlateUnk::decode`, which inflates data of an unknown size in units of
the size of the compressed data. The functions of zlib are those of another library and come in as
parameters. A `uInt` and a `uint32_t` have 32 bits.
-/

namespace Cube.Eco.ZlibFlate

/-! ## The library -/

/-- `Z_OK`. -/
def zOk : Int := 0

/-- `Z_STREAM_END`. -/
def zStreamEnd : Int := 1

/-- `Z_NEED_DICT`. -/
def zNeedDict : Int := 2

/-- `Z_DATA_ERROR`. -/
def zDataError : Int := -3

/-- `Z_BUF_ERROR`. -/
def zBufError : Int := -5

/-- The functions of zlib, with the states of its streams. `inflate` and `compress2` get the room
for their output and return what they write. -/
structure Zlib (σ : Type) where
  inflateInit : List UInt8 → Int × σ
  inflate : σ → Nat → Int × List UInt8 × σ
  inflateEnd : σ → Int
  compressBound : Nat → Nat
  compress2 : List UInt8 → Nat → Int × List UInt8

/-- How the compressed data ends. -/
inductive Ending where
  | complete
  | needsDictionary
  | truncated
  | corrupt
deriving DecidableEq

/-- What `inflate` may return where it has written everything. -/
def Ending.returned : Ending → List Int
  | complete => [zStreamEnd]
  | needsDictionary => [zNeedDict]
  | truncated => [zOk, zBufError]
  | corrupt => [zDataError]

/-- What compressed data decodes to up to its ending, and what of that a stream has still to
write. -/
structure Decoding (σ : Type) where
  decoded : List UInt8 → List UInt8 × Ending
  left : σ → List UInt8 × Ending

/-- The documented behaviour of `inflate`: it writes as much as there is room for. -/
structure Contract {σ : Type} (zlib : Zlib σ) (decoding : Decoding σ) : Prop where
  starts (input : List UInt8) : (zlib.inflateInit input).1 = zOk
  begins (input : List UInt8) :
    decoding.left (zlib.inflateInit input).2 = decoding.decoded input
  writes (strm : σ) {room : Nat} (positive : 0 < room) :
    (zlib.inflate strm room).2.1 = (decoding.left strm).1.take room
  leaves (strm : σ) {room : Nat} (positive : 0 < room) :
    decoding.left (zlib.inflate strm room).2.2 =
      ((decoding.left strm).1.drop room, (decoding.left strm).2)
  full (strm : σ) {room : Nat} (positive : 0 < room)
    (more : room < (decoding.left strm).1.length) :
    (zlib.inflate strm room).1 = zOk
  last (strm : σ) {room : Nat} (positive : 0 < room)
    (fits : (decoding.left strm).1.length ≤ room) :
    (zlib.inflate strm room).1 ∈ (decoding.left strm).2.returned ∨
      (decoding.left strm).1.length = room ∧ (zlib.inflate strm room).1 = zOk
  /-- The first call makes progress if there is data and room. -/
  progress (input : List UInt8) (nonempty : input ≠ []) {room : Nat} (positive : 0 < room) :
    (zlib.inflate (zlib.inflateInit input).2 room).1 ≠ zBufError
  /-- No call makes progress without data and without room. -/
  starved : (zlib.inflate (zlib.inflateInit []).2 0).1 = zBufError ∧
    (zlib.inflate (zlib.inflateInit []).2 0).2.1 = []
  ends (strm : σ) : zlib.inflateEnd strm = zOk

variable {σ : Type} (zlib : Zlib σ)

/-! ## The code -/

/-- `std::string::resize`. -/
def resize (str : List UInt8) (n : Nat) : List UInt8 :=
  str.take n ++ List.replicate (n - str.length) 0

/-- `Flate::append_encode`, with what becomes of the result. -/
def appendEncode (dest sour : List UInt8) : Bool × List UInt8 :=
  if sour.length = 0 then (false, dest)
  else
    let resultSize := zlib.compressBound sour.length
    if resultSize ≤ 0 then (false, dest)
    else
      let initSize := dest.length % 2 ^ 32
      let (ret, written) := zlib.compress2 sour resultSize
      let dest := Buffer.overwrite (resize dest (initSize + resultSize)) initSize written
      if ret ≠ zOk then (false, [])
      else (true, resize dest (initSize + written.length))

/-- `StreamObject`: what of its `z_stream` is read. -/
structure StreamObject (σ : Type) where
  strm : σ
  availOut : Nat
  totalOut : Nat

namespace StreamObject

/-- `Inflate`: what is returned, and the bytes that are written. -/
def inflate (obj : StreamObject σ) (uncompUnitSize : Nat) : Int × List UInt8 × StreamObject σ :=
  let availOut := uncompUnitSize % 2 ^ 32
  let (ret, written, strm) := zlib.inflate obj.strm availOut
  (ret, written, ⟨strm, availOut - written.length, obj.totalOut + written.length⟩)

/-- `InflateEnd`. -/
def inflateEnd (obj : StreamObject σ) : Bool := zlib.inflateEnd obj.strm != zOk

/-- `HasMoreData`. -/
def hasMoreData (obj : StreamObject σ) (ret : Int) : Bool :=
  obj.availOut == 0 && ret != zStreamEnd

end StreamObject

/-- The loop of `decode` for a number of rounds: the stream, if no call failed, and the result. -/
def uncompress (uncompUnitSize : Nat) : Nat → StreamObject σ → List UInt8 → Nat →
    Option (Option (StreamObject σ) × List UInt8)
  | 0, _, _, _ => none
  | rounds + 1, obj, result, lastPos =>
      let result := result ++ List.replicate uncompUnitSize 0
      let (ret, written, obj) := obj.inflate zlib uncompUnitSize
      let result := Buffer.overwrite result lastPos written
      if ret < zOk then some (none, result)
      else if obj.hasMoreData ret then
        uncompress uncompUnitSize rounds obj result (lastPos + uncompUnitSize)
      else some (some obj, result)

/-- The data that `avail_in` lets `inflate` see. -/
def seen (sour : List UInt8) : List UInt8 := sour.take (sour.length % 2 ^ 32)

/-- `FlateUnk::decode`, with what becomes of the result, if it needs no more rounds than these. -/
def decode (rounds : Nat) (result sour : List UInt8) : Option (Bool × List UInt8) :=
  if sour.length = 0 then some (false, result)
  else
    let (ret, strm) := zlib.inflateInit (seen sour)
    if ret ≠ zOk then some (false, result)
    else
      (uncompress zlib sour.length rounds ⟨strm, 0, 0⟩ result result.length).map fun ended =>
        match ended.1 with
        | none => (false, ended.2)
        | some obj => (obj.inflateEnd zlib, resize ended.2 (result.length + obj.totalOut))

/-- What is appended to `dest` for a text is decoded to the text behind `result`. -/
def RoundTrip (dest result sour : List UInt8) : Prop :=
  ∃ encoded, appendEncode zlib dest sour = (true, dest ++ encoded) ∧
    ∃ rounds, decode zlib rounds result encoded = some (true, result ++ sour)

/-- The data is not accepted, and the result is as before. -/
def Rejected (result sour : List UInt8) : Prop :=
  ∃ rounds, decode zlib rounds result sour = some (false, result)

/-- Nothing comes of the data before its ending, and no error is found in it. -/
def Silent (decoding : Decoding σ) (sour : List UInt8) : Prop :=
  sour = [] ∨ seen sour ≠ [] ∧ (decoding.decoded (seen sour)).1 = [] ∧
    (decoding.decoded (seen sour)).2 ≠ .corrupt

variable {zlib} {decoding : Decoding σ}

theorem length_resize (str : List UInt8) (n : Nat) : (resize str n).length = n := by
  simp only [resize, List.length_append, List.length_take, List.length_replicate]
  omega

/-! ## The loop -/

/-- More rounds do not change what the loop ends with. -/
theorem uncompress_mono {unit rounds more : Nat} {obj : StreamObject σ} {result : List UInt8}
    {lastPos : Nat} {ended : Option (StreamObject σ) × List UInt8}
    (stops : uncompress zlib unit rounds obj result lastPos = some ended) (le : rounds ≤ more) :
    uncompress zlib unit more obj result lastPos = some ended := by
  induction rounds generalizing more obj result lastPos with
  | zero => exact absurd stops nofun
  | succ rounds ih =>
      obtain ⟨more, rfl⟩ := Nat.exists_eq_add_one_of_ne_zero (by omega : more ≠ 0)
      rw [uncompress] at stops ⊢
      dsimp only at stops ⊢
      split
      · rwa [if_pos ‹_›] at stops
      · rw [if_neg ‹_›] at stops
        split
        · rw [if_pos ‹_›] at stops
          exact ih stops (by omega)
        · rwa [if_neg ‹_›] at stops

/-- What holds when the loop has ended. -/
structure Inflated (decoding : Decoding σ) (unit : Nat) (obj : StreamObject σ)
    (result : List UInt8) (ended : Option (StreamObject σ) × List UInt8) : Prop where
  grown : result.length + unit ≤ ended.2.length
  passed : ∀ after, ended.1 = some after → (decoding.left obj.strm).2 ≠ .corrupt ∧
    after.totalOut = obj.totalOut + (decoding.left obj.strm).1.length
  failed : ended.1 = none → (decoding.left obj.strm).2 ≠ .complete
  written : unit < 2 ^ 32 → ended.1 ≠ none →
    ended.2.take (result.length + (decoding.left obj.strm).1.length) =
      result ++ (decoding.left obj.strm).1

/-- What one call of `Inflate` does. -/
structure Called (decoding : Decoding σ) (unit : Nat) (obj : StreamObject σ)
    (call : Int × List UInt8 × StreamObject σ) : Prop where
  writes : call.2.1 = (decoding.left obj.strm).1.take (unit % 2 ^ 32)
  leaves : decoding.left call.2.2.strm =
    ((decoding.left obj.strm).1.drop (unit % 2 ^ 32), (decoding.left obj.strm).2)
  counts : call.2.2.totalOut = obj.totalOut + call.2.1.length
  more : call.2.2.hasMoreData call.1 = true → unit % 2 ^ 32 ≤ (decoding.left obj.strm).1.length
  fails : call.1 < zOk → (decoding.left obj.strm).2 ≠ .complete
  stops : ¬ call.1 < zOk → ¬ call.2.2.hasMoreData call.1 = true →
    (decoding.left obj.strm).1.length ≤ unit % 2 ^ 32 ∧ (decoding.left obj.strm).2 ≠ .corrupt

theorem Contract.called (contract : Contract zlib decoding) {unit : Nat}
    (positive : 0 < unit % 2 ^ 32) (obj : StreamObject σ) :
    Called decoding unit obj (obj.inflate zlib unit) := by
  have writes := contract.writes obj.strm positive
  have last := contract.last obj.strm positive
  refine ⟨writes, contract.leaves obj.strm positive, rfl, fun more => ?_, fun negative complete => ?_,
    fun sound done => ?_⟩
  · simp only [StreamObject.inflate, StreamObject.hasMoreData, writes, Bool.and_eq_true,
      beq_iff_eq, List.length_take] at more
    omega
  · change (zlib.inflate obj.strm (unit % 2 ^ 32)).1 < zOk at negative
    by_cases more : unit % 2 ^ 32 < (decoding.left obj.strm).1.length
    · rw [contract.full obj.strm positive more] at negative
      exact absurd negative (by decide)
    · rcases last (Nat.le_of_not_lt more) with final | ⟨_, ok⟩
      · rw [complete, Ending.returned, List.mem_singleton] at final
        rw [final] at negative
        exact absurd negative (by decide)
      · rw [ok] at negative
        exact absurd negative (by decide)
  · change ¬ (zlib.inflate obj.strm (unit % 2 ^ 32)).1 < zOk at sound
    simp only [StreamObject.inflate, StreamObject.hasMoreData, writes, Bool.and_eq_true,
      beq_iff_eq, List.length_take, bne_iff_ne, not_and, not_not] at done
    have fits : (decoding.left obj.strm).1.length ≤ unit % 2 ^ 32 := by
      by_contra longer
      have ok := contract.full obj.strm positive (Nat.lt_of_not_le longer)
      rw [ok] at done
      exact absurd (done (by omega)) (by decide)
    refine ⟨fits, fun corrupt => ?_⟩
    rcases last fits with final | ⟨exact_fit, ok⟩
    · rw [corrupt, Ending.returned, List.mem_singleton] at final
      rw [final] at sound
      exact sound (by decide)
    · rw [ok] at done
      exact absurd (done (by omega)) (by decide)

variable {unit : Nat} {obj : StreamObject σ} {call : Int × List UInt8 × StreamObject σ}

/-- The result behind a call that wrote into the unit that was appended. -/
theorem Called.length_overwrite (called : Called decoding unit obj call) (result : List UInt8) :
    (Buffer.overwrite (result ++ List.replicate unit 0) result.length call.2.1).length =
      result.length + unit := by
  have unit_le : unit % 2 ^ 32 ≤ unit := Nat.mod_le _ _
  have room : call.2.1.length ≤ unit := by
    rw [called.writes, List.length_take]
    omega
  rw [Buffer.length_overwrite (by simp [room]), List.length_append, List.length_replicate]

/-- A call that fails ends the loop. -/
theorem Called.inflated_failed (called : Called decoding unit obj call) (failed : call.1 < zOk)
    (result : List UInt8) :
    Inflated decoding unit obj result
      (none, Buffer.overwrite (result ++ List.replicate unit 0) result.length call.2.1) :=
  ⟨Nat.le_of_eq (called.length_overwrite result).symm, by rintro _ ⟨⟩,
    fun _ => called.fails failed, fun _ differs => absurd rfl differs⟩

/-- A call that leaves room ends the loop. -/
theorem Called.inflated_last (called : Called decoding unit obj call) (sound : ¬ call.1 < zOk)
    (last : ¬ call.2.2.hasMoreData call.1 = true) (result : List UInt8) :
    Inflated decoding unit obj result (some call.2.2,
      Buffer.overwrite (result ++ List.replicate unit 0) result.length call.2.1) := by
  obtain ⟨fits, passed⟩ := called.stops sound last
  have all : call.2.1 = (decoding.left obj.strm).1 := by
    rw [called.writes, List.take_of_length_le fits]
  refine ⟨Nat.le_of_eq (called.length_overwrite result).symm, fun after same => ?_, nofun,
    fun _ _ => ?_⟩
  · obtain rfl := Option.some.inj same
    exact ⟨passed, by rw [called.counts, all]⟩
  · rw [all, Buffer.overwrite, List.take_left]
    exact List.take_left' (by rw [List.length_append])

/-- A call that fills the unit leaves the rest to those behind it. -/
theorem Called.inflated_more (called : Called decoding unit obj call)
    (more : call.2.2.hasMoreData call.1 = true) {result : List UInt8}
    {ended : Option (StreamObject σ) × List UInt8}
    (inflated : Inflated decoding unit call.2.2
      (Buffer.overwrite (result ++ List.replicate unit 0) result.length call.2.1) ended) :
    Inflated decoding unit obj result ended := by
  have longer := called.more more
  have length := called.length_overwrite result
  refine ⟨?_, fun after passed => ?_, fun failed => ?_, fun small passed => ?_⟩
  · have grown := inflated.grown
    omega
  · obtain ⟨sound, total⟩ := inflated.passed after passed
    rw [called.leaves] at sound total
    refine ⟨sound, ?_⟩
    rw [total, called.counts, called.writes, List.length_take, List.length_drop]
    omega
  · have ending := inflated.failed failed
    rwa [called.leaves] at ending
  · have written := inflated.written small passed
    have whole : unit % 2 ^ 32 = unit := Nat.mod_eq_of_lt small
    have full : call.2.1.length = unit := by
      rw [called.writes, List.length_take]
      omega
    rw [Buffer.overwrite_left rfl (by rw [List.length_replicate, full]), called.leaves,
      called.writes, List.length_append, List.append_assoc, List.take_append_drop] at written
    rw [← written]
    congr 1
    rw [List.length_take, List.length_drop]
    omega

/-- **The loop ends**, and it knows how much it has written. -/
theorem uncompress_inflated (contract : Contract zlib decoding) (positive : 0 < unit % 2 ^ 32)
    (obj : StreamObject σ) (result : List UInt8) :
    ∃ rounds ended, uncompress zlib unit rounds obj result result.length = some ended ∧
      Inflated decoding unit obj result ended := by
  induction size : (decoding.left obj.strm).1.length using Nat.strongRecOn
    generalizing obj result with
  | _ size' ih =>
      subst size
      have called := contract.called positive obj
      generalize call_eq : obj.inflate zlib unit = call at called
      by_cases failed : call.1 < zOk
      · refine ⟨1, _, ?_, called.inflated_failed failed result⟩
        simp only [uncompress, call_eq, failed, if_true]
      · by_cases more : call.2.2.hasMoreData call.1 = true
        · have longer := called.more more
          have shorter : (decoding.left call.2.2.strm).1.length <
              (decoding.left obj.strm).1.length := by
            rw [called.leaves, List.length_drop]
            omega
          obtain ⟨rounds, ended, stops, inflated⟩ := ih _ shorter call.2.2 _ rfl
          rw [called.length_overwrite] at stops
          refine ⟨rounds + 1, ended, ?_, called.inflated_more more inflated⟩
          simpa only [uncompress, call_eq, failed, if_false, more, if_true] using stops
        · refine ⟨1, _, ?_, called.inflated_last failed more result⟩
          simp only [uncompress, call_eq, failed, if_false, more, Bool.false_eq_true]

/-! ## Decoding -/

/-- More rounds do not change what `decode` returns. -/
theorem decode_unique {rounds others : Nat} {result sour : List UInt8}
    {first second : Bool × List UInt8} (one : decode zlib rounds result sour = some first)
    (two : decode zlib others result sour = some second) : first = second := by
  have more : ∀ {less more : Nat} {ended : Bool × List UInt8},
      decode zlib less result sour = some ended → less ≤ more →
        decode zlib more result sour = some ended := by
    intro less more ended stops le
    unfold decode at stops ⊢
    split_ifs at stops ⊢ with empty
    · exact stops
    · dsimp only at stops ⊢
      split_ifs at stops ⊢ with fails
      · exact stops
      · obtain ⟨loop, stops, same⟩ := Option.map_eq_some_iff.mp stops
        rw [uncompress_mono stops le]
        exact congrArg some same
  have last := more one (Nat.le_max_left rounds others)
  rw [more two (Nat.le_max_right rounds others)] at last
  exact (Option.some.inj last).symm

/-- What `decode` makes of the end of the loop. -/
theorem Contract.decode_eq (contract : Contract zlib decoding) {sour : List UInt8}
    (nonempty : sour ≠ []) (rounds : Nat) (result : List UInt8) :
    decode zlib rounds result sour =
      (uncompress zlib sour.length rounds ⟨(zlib.inflateInit (seen sour)).2, 0, 0⟩ result
        result.length).map fun ended =>
          (false, ended.1.elim ended.2 fun obj => resize ended.2 (result.length + obj.totalOut)) := by
  have size : sour.length ≠ 0 := fun zero => nonempty (List.eq_nil_of_length_eq_zero zero)
  have started := contract.starts (seen sour)
  unfold decode
  rw [if_neg size]
  dsimp only
  rw [if_neg (not_not.mpr started)]
  congr 1
  funext ended
  cases ended.1 with
  | none => rfl
  | some obj => simp only [StreamObject.inflateEnd, contract.ends, bne_self_eq_false, Option.elim]

/-- Data of a multiple of the largest size is not seen at all, and the first call fails. -/
theorem Contract.decode_starved (contract : Contract zlib decoding) {sour : List UInt8}
    (nonempty : sour ≠ []) (unseen : seen sour = []) (result : List UInt8) :
    decode zlib 1 result sour =
      some (false, result ++ List.replicate sour.length 0) := by
  have room : sour.length % 2 ^ 32 = 0 := by
    have size := congrArg List.length unseen
    rw [seen, List.length_take, List.length_nil] at size
    have positive := List.length_pos_iff.mpr nonempty
    omega
  obtain ⟨error, nothing⟩ := contract.starved
  have negative : zBufError < zOk := by decide
  rw [contract.decode_eq nonempty, unseen]
  simp only [uncompress, StreamObject.inflate, room, error, nothing, negative, if_true,
    Buffer.overwrite_nil, Option.map_some, Option.elim]

/-- The loop over data of which something is seen. -/
theorem Contract.decode_inflated (contract : Contract zlib decoding) {sour : List UInt8}
    (some_seen : seen sour ≠ []) (result : List UInt8) :
    ∃ rounds ended, decode zlib rounds result sour = some (false,
        ended.1.elim ended.2 fun obj => resize ended.2 (result.length + obj.totalOut)) ∧
      Inflated decoding sour.length ⟨(zlib.inflateInit (seen sour)).2, 0, 0⟩ result ended := by
  have positive : 0 < sour.length % 2 ^ 32 := by
    have size := List.length_pos_iff.mpr some_seen
    rw [seen, List.length_take] at size
    omega
  have nonempty : sour ≠ [] := by
    rintro rfl
    exact some_seen List.take_nil
  obtain ⟨rounds, ended, stops, inflated⟩ :=
    uncompress_inflated contract positive ⟨(zlib.inflateInit (seen sour)).2, 0, 0⟩ result
  refine ⟨rounds, ended, ?_, inflated⟩
  rw [contract.decode_eq nonempty, stops]
  rfl

/-- `decode` ends for all data, and it returns false for all data. -/
theorem Contract.decode_false (contract : Contract zlib decoding) (result sour : List UInt8) :
    ∃ rounds after, decode zlib rounds result sour = some (false, after) := by
  by_cases empty : sour = []
  · exact ⟨0, result, by simp [decode, empty]⟩
  · by_cases unseen : seen sour = []
    · exact ⟨1, _, contract.decode_starved empty unseen result⟩
    · obtain ⟨rounds, ended, decoded, _⟩ := contract.decode_inflated unseen result
      exact ⟨rounds, _, decoded⟩

/-- The text of complete data of less than 4 GiB is appended. -/
theorem Contract.decode_complete (contract : Contract zlib decoding) {sour : List UInt8}
    (nonempty : sour ≠ []) (small : sour.length < 2 ^ 32)
    (complete : (decoding.decoded sour).2 = .complete) (result : List UInt8) :
    ∃ rounds, decode zlib rounds result sour =
      some (false, result ++ (decoding.decoded sour).1) := by
  have whole : seen sour = sour := by rw [seen, Nat.mod_eq_of_lt small, List.take_length]
  obtain ⟨rounds, ended, decoded, inflated⟩ :=
    contract.decode_inflated (whole.symm ▸ nonempty) result
  refine ⟨rounds, decoded.trans ?_⟩
  have written := inflated.written small
  have failed := inflated.failed
  have passed := inflated.passed
  simp only [whole, contract.begins, Nat.zero_add] at written failed passed
  obtain ⟨last, after⟩ := ended
  cases last with
  | none => exact absurd complete (failed rfl)
  | some obj =>
      have text := written nofun
      have size := congrArg List.length text
      rw [List.length_take, List.length_append] at size
      dsimp only at size
      have all : result.length + (decoding.decoded sour).1.length - after.length = 0 := by omega
      rw [Option.elim, (passed obj rfl).2, resize, text, all, List.replicate_zero, List.append_nil]

/-- A result that stays as it is has got no text. -/
theorem Contract.silent_of_rejected (contract : Contract zlib decoding) {result sour : List UInt8}
    (nonempty : sour ≠ []) (rejected : Rejected zlib result sour) : Silent decoding sour := by
  obtain ⟨rounds, decoded⟩ := rejected
  have positive := List.length_pos_iff.mpr nonempty
  by_cases unseen : seen sour = []
  · have same := decode_unique decoded (contract.decode_starved nonempty unseen result)
    have size := congrArg (List.length ∘ Prod.snd) same
    simp only [Function.comp_apply, List.length_append, List.length_replicate] at size
    omega
  · obtain ⟨others, ended, decoded', inflated⟩ := contract.decode_inflated unseen result
    have size := congrArg (List.length ∘ Prod.snd) (decode_unique decoded decoded')
    have grown := inflated.grown
    have passed := inflated.passed
    simp only [contract.begins, Nat.zero_add] at passed
    obtain ⟨last, after⟩ := ended
    cases last with
    | none =>
        simp only [Function.comp_apply, Option.elim] at size
        dsimp only at grown
        omega
    | some obj =>
        obtain ⟨sound, total⟩ := passed obj rfl
        simp only [Function.comp_apply, Option.elim, length_resize] at size
        exact Or.inr ⟨unseen, List.eq_nil_of_length_eq_zero (by omega), sound⟩

/-- Of silent data the first call meets the ending, which is no error. -/
theorem Contract.first_sound (contract : Contract zlib decoding) {sour : List UInt8}
    (some_seen : seen sour ≠ []) (silent : (decoding.decoded (seen sour)).1 = [])
    (sound : (decoding.decoded (seen sour)).2 ≠ .corrupt) {room : Nat} (positive : 0 < room) :
    ¬ (zlib.inflate (zlib.inflateInit (seen sour)).2 room).1 < zOk := by
  have left := contract.begins (seen sour)
  have progress := contract.progress (seen sour) some_seen positive
  have last := contract.last (zlib.inflateInit (seen sour)).2 positive (by simp [left, silent])
  rw [left] at last
  rcases last with final | ⟨full, _⟩
  · cases ending : (decoding.decoded (seen sour)).2 with
    | corrupt => exact absurd ending sound
    | complete | needsDictionary =>
        rw [ending, Ending.returned, List.mem_singleton] at final
        rw [final]
        decide
    | truncated =>
        simp only [ending, Ending.returned, List.mem_cons, List.not_mem_nil, or_false,
          progress] at final
        rw [final]
        decide
  · simp only [silent, List.length_nil] at full
    omega

theorem Contract.rejected_of_silent (contract : Contract zlib decoding) (result : List UInt8)
    {sour : List UInt8} (nonempty : sour ≠ []) (some_seen : seen sour ≠ [])
    (silent : (decoding.decoded (seen sour)).1 = [])
    (sound : (decoding.decoded (seen sour)).2 ≠ .corrupt) : Rejected zlib result sour := by
  have room : 0 < sour.length % 2 ^ 32 := by
    have size := List.length_pos_iff.mpr some_seen
    rw [seen, List.length_take] at size
    omega
  have nothing := contract.writes (zlib.inflateInit (seen sour)).2 room
  rw [contract.begins, silent, List.take_nil] at nothing
  have returned := contract.first_sound some_seen silent sound room
  refine ⟨1, ?_⟩
  rw [contract.decode_eq nonempty]
  have available : ((sour.length % 2 ^ 32) == 0) = false := by simpa using Nat.ne_of_gt room
  simp only [uncompress, StreamObject.inflate, returned, if_false, nothing,
    StreamObject.hasMoreData, List.length_nil, Nat.sub_zero, available, Bool.false_and,
    Bool.false_eq_true, Buffer.overwrite_nil, Option.map_some, Option.elim, Nat.add_zero,
    resize]
  simp

/-- Data that is not accepted leaves the result as it was exactly if nothing comes of it. -/
theorem Contract.rejected_iff (contract : Contract zlib decoding) (result sour : List UInt8) :
    Rejected zlib result sour ↔ Silent decoding sour := by
  by_cases empty : sour = []
  · exact iff_of_true ⟨0, by simp [decode, empty]⟩ (Or.inl empty)
  · refine ⟨contract.silent_of_rejected empty, ?_⟩
    rintro (none | ⟨some_seen, silent, sound⟩)
    · exact absurd none empty
    · exact contract.rejected_of_silent result empty some_seen silent sound

/-- `decode` never returns true, so that no text makes the round trip. It ends for all data, and the
result is as before exactly if nothing comes of the data. -/
theorem flate_trips_iff (contract : Contract zlib decoding) :
    (∀ dest result sour : List UInt8, ¬ RoundTrip zlib dest result sour) ∧
      ∀ result sour : List UInt8,
        (∃ rounds after, decode zlib rounds result sour = some (false, after)) ∧
          (Rejected zlib result sour ↔ Silent decoding sour) := by
  refine ⟨fun dest result sour trip => ?_, fun result sour =>
    ⟨contract.decode_false result sour, contract.rejected_iff result sour⟩⟩
  obtain ⟨encoded, _, rounds, decoded⟩ := trip
  obtain ⟨others, after, decoded'⟩ := contract.decode_false result encoded
  exact nomatch congrArg Prod.fst (decode_unique decoded decoded')

/-! ## A library -/

/-- What one call writes and returns where this is left. -/
def inflateLeft (left : List UInt8 × Ending) (room : Nat) : Int × List UInt8 × List UInt8 × Ending :=
  if room = 0 then (zBufError, [], left)
  else if room < left.1.length then (zOk, left.1.take room, left.1.drop room, left.2)
  else (left.2.returned.headD zOk, left.1, [], left.2)

/-- The library that decodes in this way and compresses one text. -/
def oneText (decoded : List UInt8 → List UInt8 × Ending) (compressed : List UInt8) :
    Zlib (List UInt8 × Ending) where
  inflateInit := fun input => (zOk, decoded input)
  inflate := inflateLeft
  inflateEnd := fun _ => zOk
  compressBound := fun size => size + 13
  compress2 := fun _ _ => (zOk, compressed)

theorem oneText_contract (decoded : List UInt8 → List UInt8 × Ending) (compressed : List UInt8) :
    Contract (oneText decoded compressed) ⟨decoded, id⟩ where
  starts := fun _ => rfl
  begins := fun _ => rfl
  writes := by
    intro (strm : List UInt8 × Ending) room positive
    change (inflateLeft strm room).2.1 = strm.1.take room
    rw [inflateLeft, if_neg (Nat.ne_of_gt positive)]
    split
    · rfl
    · rename_i fits
      exact (List.take_of_length_le (Nat.le_of_not_lt fits)).symm
  leaves := by
    intro (strm : List UInt8 × Ending) room positive
    change (inflateLeft strm room).2.2 = (strm.1.drop room, strm.2)
    rw [inflateLeft, if_neg (Nat.ne_of_gt positive)]
    split
    · rfl
    · rename_i fits
      rw [List.drop_eq_nil_of_le (Nat.le_of_not_lt fits)]
  full := by
    intro (strm : List UInt8 × Ending) room positive (more : room < strm.1.length)
    change (inflateLeft strm room).1 = zOk
    rw [inflateLeft, if_neg (Nat.ne_of_gt positive), if_pos more]
  last := by
    intro (strm : List UInt8 × Ending) room positive (fits : strm.1.length ≤ room)
    left
    change (inflateLeft strm room).1 ∈ strm.2.returned
    rw [inflateLeft, if_neg (Nat.ne_of_gt positive), if_neg (Nat.not_lt_of_le fits)]
    cases strm.2 <;> simp [Ending.returned]
  progress := by
    intro input nonempty room positive
    change (inflateLeft (decoded input) room).1 ≠ zBufError
    have ok : ∀ ending : Ending, ending.returned.headD zOk ≠ zBufError := by
      intro ending
      cases ending <;> decide
    rw [inflateLeft, if_neg (Nat.ne_of_gt positive)]
    split
    · exact ok .truncated
    · exact ok (decoded input).2
  starved := ⟨rfl, rfl⟩
  ends := fun _ => rfl

/-- The compressed text `a`. -/
def compressedA : List UInt8 := [120, 218, 75, 4, 0, 0, 98, 0, 98]

/-- What the parts of the compressed text `a` decode to. -/
def decodedA (input : List UInt8) : List UInt8 × Ending :=
  if input = compressedA then ([97], .complete)
  else if input.isPrefixOf compressedA then (if input.length < 4 then [] else [97], .truncated)
  else ([], .corrupt)

/-- Two bytes of the compressed text `a` are not accepted, and the result is as before. -/
theorem flate_trips_head : Rejected (oneText decodedA compressedA) [98] [120, 218] := by
  have silent : Silent (σ := List UInt8 × Ending) ⟨decodedA, id⟩ [120, 218] := by
    refine Or.inr ⟨?_, ?_, ?_⟩ <;> decide
  exact ((flate_trips_iff (oneText_contract decodedA compressedA)).2 [98] [120, 218]).2.mpr silent

/-- The text `a` is compressed and decoded, but `decode` returns false; and of four bytes of the
compressed text a byte is left in the result. -/
theorem flate_trips_fail :
    appendEncode (oneText decodedA compressedA) [] [97] = (true, compressedA) ∧
      decode (oneText decodedA compressedA) 1 [98] compressedA = some (false, [98, 97]) ∧
      ¬ RoundTrip (oneText decodedA compressedA) [] [98] [97] ∧
      decode (oneText decodedA compressedA) 1 [98] [120, 218, 75, 4] = some (false, [98, 97]) ∧
      ¬ Rejected (oneText decodedA compressedA) [98] [120, 218, 75, 4] := by
  have encoded : appendEncode (oneText decodedA compressedA) [] [97] = (true, compressedA) := by
    decide
  have decoded : decode (oneText decodedA compressedA) 1 [98] compressedA =
      some (false, [98, 97]) := by
    decide
  have head : decode (oneText decodedA compressedA) 1 [98] [120, 218, 75, 4] =
      some (false, [98, 97]) := by
    decide
  refine ⟨encoded, decoded, ?_, head, ?_⟩
  · rintro ⟨other, appended, rounds, trip⟩
    have same := congrArg Prod.snd (encoded.symm.trans appended)
    rw [List.nil_append] at same
    subst same
    exact nomatch congrArg Prod.fst (decode_unique decoded trip)
  · rintro ⟨rounds, rejected⟩
    exact nomatch congrArg Prod.snd (decode_unique head rejected)

end Cube.Eco.ZlibFlate
