import Cube.Base.Base64RoundTrip
import Cube.Eco.Codec.Sha1Runs
import Cube.Eco.Net.Net
import Cube.Eco.Net.ParseKey
import Cube.Eco.Net.TcpConnector

/-! # The shake-hand of a WebSocket

The server takes the key of the request, and answers with the SHA-1 digest of the key and a fixed
text. The client compares the key of the answer with the one it expects. Either side has read at
most the bytes of one buffer.
-/

namespace Cube.Eco.Net.WebSocketShakeHand

open Cube.Base.Base64 (encodeBytes letter)

/-! ## The code -/

/-- `base64_encode` of `codec/base64.cpp`, whose loop is that of the base library. -/
def base64Encode (bytesToEncode : List UInt8) : List UInt8 := encodeBytes [] bytesToEncode

/-- The words of a digest in memory, behind `htonl`. -/
def digestBytes (messageDigest : Words) : List UInt8 :=
  hton32 messageDigest.a ++ hton32 messageDigest.b ++ hton32 messageDigest.c ++
    hton32 messageDigest.d ++ hton32 messageDigest.e

/-- The text of the answer, piece by piece. -/
def appendResponse (resp : EcoString) (accept : List UInt8) : Outcome Empty EcoString := do
  let resp ← resp.append (bytes "HTTP/1.1 101 Switching Protocols\r\n")
  let resp ← resp.append (bytes "Connection: upgrade\r\n")
  let resp ← resp.append (bytes "Sec-WebSocket-Accept: ")
  let resp ← resp.append accept
  let resp ← resp.append (bytes "\r\n")
  resp.append (bytes "Upgrade: websocket\r\n\r\n")

/-- `parse_req`: whether it returns true, and `m_resp` behind it. The digest is made by an object on
the memory it finds; without a digest, words without a value would be sent. -/
def parseReq (resp : EcoString) (memory : SHA1) (request : List UInt8) :
    Outcome Empty (Bool × EcoString) := do
  match ← parseKey request true with
  | none => return (false, resp)
  | some serverKey =>
      let sha ← (SHA1.new memory).inputText (serverKey.content ++ [0])
      let (said, _) ← sha.result
      match said with
      | none => .fault
      | some messageDigest =>
          let resp ← resp.reserve 1024
          let resp ← resp.resize 0
          let resp ← appendResponse resp (base64Encode (digestBytes messageDigest))
          return (true, resp)

/-- `parse_rsp`, with `strcmp` of the key found and the one that is expected. -/
def parseRsp (request key : List UInt8) : Outcome Empty Bool := do
  match ← parseKey request false with
  | none => return false
  | some serverKey => return serverKey.content.takeWhile (· != 0) = key.takeWhile (· != 0)

/-! ## The answer -/

/-- The key that accepts a key. -/
def acceptKey (key : List UInt8) : List UInt8 :=
  base64Encode (digestBytes (SHA1.digest (key ++ magicKey)))

/-- The answer with a key. -/
def response (accept : List UInt8) : List UInt8 :=
  bytes "HTTP/1.1 101 Switching Protocols\r\n" ++ bytes "Connection: upgrade\r\n" ++
    bytes "Sec-WebSocket-Accept: " ++ accept ++ bytes "\r\n" ++ bytes "Upgrade: websocket\r\n\r\n"

theorem length_digestBytes (messageDigest : Words) : (digestBytes messageDigest).length = 20 := by
  simp only [digestBytes, List.length_append, length_hton32]

/-- What is encoded are letters and `=`. -/
theorem mem_encodeBytes {a3 text : List UInt8} {c : UInt8} (member : c ∈ encodeBytes a3 text) :
    c = Base.Base64.eq ∨ ∃ number, letter number = c := by
  have mapped {numbers : List UInt8} (inside : c ∈ numbers.map letter) :
      c = Base.Base64.eq ∨ ∃ number, letter number = c := by
    obtain ⟨number, _, same⟩ := List.mem_map.mp inside
    exact .inr ⟨number, same⟩
  fun_induction encodeBytes a3 text with
  | case1 a3 =>
      have padding (count : Nat) (inside : c ∈ List.replicate count Base.Base64.eq) :
          c = Base.Base64.eq ∨ ∃ number, letter number = c := .inl (List.eq_of_mem_replicate inside)
      rw [Base.Base64.encodeRest.eq_def] at member
      split at member
      · exact absurd member List.not_mem_nil
      · exact (List.mem_append.mp member).elim mapped (padding 2)
      · exact (List.mem_append.mp member).elim mapped (padding 1)
  | case2 a3 byte bytes x y z full ih => exact (List.mem_append.mp member).elim mapped ih
  | case3 a3 byte bytes full ih => exact ih member

theorem letter_ne_lf (number : UInt8) : letter number ≠ lf := by
  have all : ∀ n < 256, letter (UInt8.ofNat n) ≠ lf := by decide +kernel
  simpa using all number.toNat number.toNat_lt

/-- The key that accepts is one text on one line. -/
theorem acceptKey_plain (key : List UInt8) :
    lf ∉ acceptKey key ∧ 0 ∉ acceptKey key ∧ (acceptKey key).length = 28 := by
  obtain ⟨letters, padding, encodes⟩ :=
    Base.Base64.exists_encodes (digestBytes (SHA1.digest (key ++ magicKey)))
  refine ⟨fun member => ?_, encodes.no_nul, ?_⟩
  · rcases mem_encodeBytes member with same | ⟨number, same⟩
    · exact absurd same (by decide)
    · exact letter_ne_lf number same
  · rw [acceptKey, base64Encode, encodes.length_eq, length_digestBytes]

theorem appendResponse_eq {resp : EcoString} (empty : resp.content = []) {accept : List UInt8}
    (short : accept.length = 28) :
    ∃ reply, appendResponse resp accept = .ok reply ∧ reply.content = response accept := by
  have fits : (response accept).length ≤ maxStringSize := by
    simp only [response, List.length_append, short]
    decide
  refine ⟨⟨response accept, fits⟩, ?_, rfl⟩
  simp only [appendResponse, EcoString.append_append]
  rw [EcoString.append, EcoString.ofContent_eq_ok, empty, List.nil_append]
  simp only [response, List.append_assoc]

/-! ## The client -/

/-- The header with the key, in the answer. -/
def acceptHeader (accept : List UInt8) : Header where
  name := keyName false
  rest := 32 :: (accept ++ [cr])
  plain := by decide

def connectionHeader : Header where
  name := bytes "Connection"
  rest := bytes " upgrade\r"
  plain := by decide

theorem response_eq (accept : List UInt8) :
    response accept = bytes "HTTP/1.1 101 Switching Protocols\r" ++ lf ::
      (connectionHeader.line ++ lf ::
        ((acceptHeader accept).line ++ lf :: bytes "Upgrade: websocket\r\n\r\n")) := by
  have first : bytes "HTTP/1.1 101 Switching Protocols\r\n" =
      bytes "HTTP/1.1 101 Switching Protocols\r" ++ [lf] := by decide +kernel
  have second : bytes "Connection: upgrade\r\n" = connectionHeader.line ++ [lf] := by
    decide +kernel
  have third : bytes "Sec-WebSocket-Accept: " = keyName false ++ [colon, 32] := by decide +kernel
  have ended : bytes "\r\n" = [cr, lf] := by decide +kernel
  rw [response, first, second, third, ended]
  simp only [Header.line, acceptHeader, List.append_assoc, List.cons_append, List.nil_append]

theorem locate_response {accept : List UInt8} (plain : lf ∉ accept) :
    ∃ text, locate (keyName false) (response accept) = some ((acceptHeader accept).place text) := by
  have whole : lf ∉ (acceptHeader accept).line := by
    change lf ∉ keyName false ++ ([colon, 32] ++ (accept ++ [cr]))
    simp only [List.mem_append, not_or]
    exact ⟨by decide +kernel, by decide, plain, by decide⟩
  have named : keyName false <:+: (acceptHeader accept).name := List.infix_refl _
  refine ⟨bytes "Upgrade: websocket\r\n\r\n", ?_⟩
  rw [response_eq, locate_plain (by decide +kernel) (by decide +kernel),
    locate_header (zero_not_mem_keyName false) (by decide +kernel), if_neg (by decide +kernel),
    locate_header (zero_not_mem_keyName false) whole, if_pos named]

/-- **The client.** The answer is accepted exactly by the key it was made with. -/
theorem parseRsp_response {accept : List UInt8} (plain : lf ∉ accept) (text : 0 ∉ accept)
    (short : accept.length = 28) (key : List UInt8) :
    parseRsp (response accept) key = .ok (decide (key.takeWhile (· != 0) = accept)) := by
  obtain ⟨rest, located⟩ := locate_response plain
  have length : (acceptHeader accept).rest.length = 30 := by
    simp only [acceptHeader, List.length_cons, List.length_append, short, List.length_nil]
  have value : keyed false (dropCr (acceptHeader accept).rest.tail) = accept := by
    change keyed false (dropCr (accept ++ [cr])) = accept
    rw [dropCr, List.getLast?_concat, if_pos rfl, List.dropLast_concat]
    exact List.append_nil accept
  have took : takeKey ((acceptHeader accept).place rest) false = .ok ⟨accept, by
      rw [short]
      decide⟩ :=
    (takeKey_eq_ok (by omega) (by omega)).mpr ⟨by omega, by rw [length]; decide, value.symm⟩
  have parsed := (parseKey_eq_some located).mpr took
  have whole : accept.takeWhile (· != 0) = accept :=
    List.takeWhile_eq_self_iff.mpr fun c member =>
      bne_iff_ne.mpr fun same => text (same ▸ member)
  rw [parseRsp, parsed, Outcome.ok_bind]
  change Outcome.ok (decide (accept.takeWhile (· != 0) = _)) = _
  rw [whole, decide_eq_decide.mpr eq_comm]

/-! ## The server -/

/-- A header of a line that has ended is a part of the text. -/
theorem line_infix {text : List UInt8} {header : Header} (member : header ∈ endedHeaders text) :
    header.line <:+: text := by
  induction text using line_induction with
  | last text unended =>
      rw [endedHeaders_of_not_mem unended] at member
      exact absurd member List.not_mem_nil
  | line line text whole ih =>
      rw [endedHeaders_append whole] at member
      rcases List.mem_append.mp member with here | later
      · rcases Header.line_cases line with plain | ⟨first, rfl⟩
        · rw [Header.ofLine_of_not_mem plain] at here
          exact absurd here List.not_mem_nil
        · rw [Header.ofLine_line, Option.toList_some, List.mem_singleton] at here
          rw [here]
          exact (List.prefix_append ..).isInfix
      · exact (ih later).trans ((List.suffix_cons lf text).trans (List.suffix_append ..)).isInfix

theorem mem_of_mem_dropCr {text : List UInt8} {c : UInt8} (member : c ∈ dropCr text) :
    c ∈ text := by
  rw [dropCr] at member
  split at member
  · exact List.mem_of_mem_dropLast member
  · exact member

/-- Behind the colon of a header without a value, more bytes are assigned than there can be. -/
theorem takeKey_empty {header : Header} (empty : header.rest = []) (text : List UInt8) :
    takeKey (header.place text) true = .fault := by
  have size : UInt32.ofInt (header.place text).valueSize = 2 ^ 32 - 1 := by
    rw [valueSize_place, empty]
    decide
  rw [takeKey, size, asign, EcoString.resize, EcoString.reserve, if_pos (by decide)]
  rfl

variable {request : List UInt8} {memory : SHA1} {resp : EcoString} {mention : Header}

/-- A value of two bytes behind the colon is answered. -/
theorem parseReq_of_mention (plain : 0 ∉ request) (short : request.length ≤ size)
    (room : memory.messageBlock.length = 64)
    (found : firstMention (keyName true) request = some mention) (long : 2 ≤ mention.rest.length) :
    ∃ reply, parseReq resp memory request = .ok (true, reply) ∧
      reply.content = response (acceptKey (dropCr mention.rest.tail)) := by
  obtain ⟨text, located⟩ := locate_spec (zero_not_mem_keyName true) request
  rw [found, Option.map_some] at located
  have inside : mention.line <:+: request := line_infix (List.mem_of_find?_eq_some found)
  have rest : mention.rest.length ≤ 1024 := by
    have length := inside.length_le
    rw [Header.line, List.length_append, List.length_cons] at length
    rw [size] at short
    omega
  have value : (dropCr mention.rest.tail).length ≤ 1024 := by
    refine Nat.le_trans (length_dropCr _) (Nat.le_trans ?_ rest)
    rw [List.length_tail]
    exact Nat.sub_le ..
  have fits : (keyed true (dropCr mention.rest.tail)).length ≤ 1060 := by
    have magic : magicKey.length = 36 := by decide +kernel
    rw [keyed, if_pos rfl, List.length_append, magic]
    omega
  have ended : 0 ∉ keyed true (dropCr mention.rest.tail) := by
    rw [keyed, if_pos rfl, List.mem_append, not_or]
    refine ⟨fun member => plain (inside.subset ?_), by decide +kernel⟩
    have tail := List.mem_of_mem_tail (mem_of_mem_dropCr member)
    exact List.mem_append_right _ (List.mem_cons_of_mem colon tail)
  have took : takeKey (mention.place text) true =
      .ok ⟨keyed true (dropCr mention.rest.tail), Nat.le_trans fits (by decide)⟩ :=
    (takeKey_eq_ok (by omega) (by omega)).mpr ⟨long, Nat.le_trans rest (by decide), rfl⟩
  have parsed := (parseKey_eq_some located).mpr took
  obtain ⟨taken, input, represents⟩ := (SHA1.represents_reset room).inputText
    (keyed true (dropCr mention.rest.tail) ++ [0]) (List.mem_append_right _ (by decide))
  have whole : (keyed true (dropCr mention.rest.tail) ++ [0]).takeWhile (· != 0) =
      keyed true (dropCr mention.rest.tail) := by
    have nonzero : ∀ c ∈ keyed true (dropCr mention.rest.tail), (c != 0) = true :=
      fun c member => bne_iff_ne.mpr fun same => ended (same ▸ member)
    rw [List.takeWhile_append_of_pos nonzero]
    exact List.append_nil _
  rw [whole, SHA1.Phase.foldl_take (by decide), if_pos (by rw [List.length_nil]; omega),
    List.nil_append] at represents
  obtain ⟨last, said, _⟩ := represents.result
  obtain ⟨emptied, cut⟩ : ∃ emptied : EcoString, (resp.resize 0 : Outcome Empty _) = .ok emptied ∧
      emptied.content = [] :=
    ⟨.empty, (EcoString.resize_of_le (Nat.zero_le _)).mpr rfl, rfl⟩
  obtain ⟨reply, appended, content⟩ := appendResponse_eq cut.2 (acceptKey_plain
    (dropCr mention.rest.tail)).2.2
  refine ⟨reply, ?_, content⟩
  have reserved : (resp.reserve 1024 : Outcome Empty _) = .ok resp :=
    EcoString.reserve_eq_ok.mpr ⟨by decide, rfl⟩
  have started : (SHA1.new memory).inputText (keyed true (dropCr mention.rest.tail) ++ [0]) =
      .ok taken := input
  rw [parseReq, parsed, Outcome.ok_bind]
  change (SHA1.inputText _ (SHA1.new memory) >>= _) = _
  rw [started, Outcome.ok_bind, said, Outcome.ok_bind]
  change ((resp.reserve 1024 : Outcome Empty _) >>= _) = _
  rw [reserved, Outcome.ok_bind, cut.1, Outcome.ok_bind]
  change (appendResponse emptied (acceptKey (dropCr mention.rest.tail)) >>= _) = _
  rw [appended]
  rfl

/-- What is answered has a key, which has a value. -/
theorem mention_of_parseReq {reply : EcoString}
    (answered : parseReq resp memory request = .ok (true, reply)) :
    ∃ mention, firstMention (keyName true) request = some mention ∧ 2 ≤ mention.rest.length := by
  obtain ⟨text, located⟩ := locate_spec (zero_not_mem_keyName true) request
  obtain ⟨found, parsed, rest⟩ := Outcome.bind_eq_ok.mp answered
  cases mentioned : firstMention (keyName true) request with
  | none =>
      rw [mentioned, Option.map_none] at located
      rw [parseKey, located, Outcome.ok.injEq] at parsed
      subst parsed
      cases rest
  | some mention =>
      rw [mentioned, Option.map_some] at located
      refine ⟨mention, rfl, ?_⟩
      rw [parseKey, located] at parsed
      obtain ⟨serverKey, took, _⟩ := Outcome.bind_eq_ok.mp parsed
      by_cases empty : mention.rest = []
      · rw [takeKey_empty empty] at took
        cases took
      · by_contra small
        have one := List.length_pos_iff.mpr empty
        exact small ((takeKey_eq_ok one (by omega)).mp took).1

/-- **The shake-hand.** A request is answered exactly if behind the colon of the first header that
mentions the key there are two bytes or more. The client accepts the answer exactly if it expects
the digest of the value behind the colon and the space. -/
theorem shake_hand (plain : 0 ∉ request) (short : request.length ≤ size)
    (room : memory.messageBlock.length = 64) :
    ((∃ reply, parseReq resp memory request = .ok (true, reply)) ↔
      ∃ mention, firstMention (keyName true) request = some mention ∧
        2 ≤ mention.rest.length) ∧
      ∀ reply, parseReq resp memory request = .ok (true, reply) →
        ∃ mention, firstMention (keyName true) request = some mention ∧
          ∀ key, parseRsp reply.content key =
            .ok (decide (key.takeWhile (· != 0) = acceptKey (dropCr mention.rest.tail))) := by
  refine ⟨⟨?_, ?_⟩, ?_⟩
  · rintro ⟨reply, answered⟩
    exact mention_of_parseReq answered
  · rintro ⟨mention, found, long⟩
    obtain ⟨reply, answered, _⟩ := parseReq_of_mention plain short room found long
    exact ⟨reply, answered⟩
  · intro reply answered
    obtain ⟨mention, found, long⟩ := mention_of_parseReq answered
    obtain ⟨made, same, content⟩ := parseReq_of_mention plain short room found long
    obtain ⟨line, text, length⟩ := acceptKey_plain (dropCr mention.rest.tail)
    rw [same] at answered
    cases answered
    exact ⟨mention, found, fun key => content ▸ parseRsp_response line text length key⟩

def sampleRequest : List UInt8 :=
  bytes "GET / HTTP/1.1\r\nSec-WebSocket-Key: dGhlIHNhbXBsZSBub25jZQ==\r\n\r\n"

/-- The request is answered, and its key is the value of its one header. -/
theorem shake_hand_sample :
    ∃ reply, parseReq .empty SHA1.blank sampleRequest = .ok (true, reply) :=
  (shake_hand (by decide +kernel) (by decide +kernel) (by decide)).1.mpr
    ⟨⟨keyName true, bytes " dGhlIHNhbXBsZSBub25jZQ==\r", by decide +kernel⟩, by decide +kernel,
      by decide +kernel⟩

end Cube.Eco.Net.WebSocketShakeHand
