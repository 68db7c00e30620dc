import Mathlib.Algebra.Order.Group.Nat
import Mathlib.Data.List.Basic
import Mathlib.Tactic.Common

/-! # Hashing in blocks

An iterated hash goes through a text in blocks of one size and folds a compression over them. Whoever
absorbs the text symbol by symbol keeps a chaining value and the symbols since the last whole block.
The text is filled up to whole blocks by a mark, by zeros, and by a tail of a fixed size.
-/

namespace BlockHash

variable {σ α : Type*}

/-- The whole blocks of a text, from its beginning. -/
def blocks (size : Nat) (text : List α) : List (List α) :=
  (List.range (text.length / size)).map fun k => (text.drop (size * k)).take size

/-- The compression folded over the blocks of a text. -/
def fold (compress : σ → List α → σ) (size : Nat) (initial : σ) (text : List α) : σ :=
  (blocks size text).foldl compress initial

theorem blocks_of_lt {size : Nat} {text : List α} (short : text.length < size) :
    blocks size text = [] := by
  rw [blocks, Nat.div_eq_of_lt short]
  rfl

theorem blocks_append {size : Nat} {block : List α} (positive : 0 < size)
    (whole : block.length = size) (text : List α) :
    blocks size (block ++ text) = block :: blocks size text := by
  have count : (block ++ text).length / size = text.length / size + 1 := by
    rw [List.length_append, whole, Nat.add_comm, Nat.add_div_right _ positive]
  rw [blocks, count, List.range_succ_eq_map, List.map_cons, List.map_map]
  refine congrArg₂ List.cons ?_ ?_
  · rw [Nat.mul_zero, List.drop_zero, List.take_left' whole]
  · refine List.map_congr_left fun k _ => ?_
    have further : size * (k + 1) = block.length + size * k := by
      rw [whole, Nat.mul_succ, Nat.add_comm]
    change ((block ++ text).drop (size * (k + 1))).take size = _
    rw [further, List.drop_length_add_append]

variable {compress : σ → List α → σ} {size : Nat} {initial : σ}

theorem fold_nil (positive : 0 < size) : fold compress size initial [] = initial := by
  rw [fold, blocks_of_lt positive]
  rfl

theorem fold_block {block : List α} (positive : 0 < size) (whole : block.length = size)
    (text : List α) :
    fold compress size initial (block ++ text) =
      fold compress size (compress initial block) text := by
  rw [fold, blocks_append positive whole, List.foldl_cons]
  rfl

/-- Behind whole blocks the fold goes on from what they were folded to. -/
theorem fold_append (positive : 0 < size) {front : List α} (whole : size ∣ front.length)
    (back : List α) :
    fold compress size initial (front ++ back) =
      fold compress size (fold compress size initial front) back := by
  obtain ⟨count, length⟩ := whole
  induction count generalizing front initial with
  | zero =>
      have empty : front = [] := List.eq_nil_of_length_eq_zero length
      rw [empty, List.nil_append, fold_nil positive]
  | succ count ih =>
      have block : (front.take size).length = size := by
        rw [List.length_take, length, Nat.mul_succ]
        exact Nat.min_eq_left (Nat.le_add_left ..)
      have rest : (front.drop size).length = size * count := by
        rw [List.length_drop, length, Nat.mul_succ, Nat.add_sub_cancel]
      calc fold compress size initial (front ++ back)
          = fold compress size initial (front.take size ++ (front.drop size ++ back)) := by
            rw [← List.append_assoc, List.take_append_drop]
        _ = fold compress size (fold compress size (compress initial (front.take size))
              (front.drop size)) back := by rw [fold_block positive block, ih rest]
        _ = fold compress size (fold compress size initial (front.take size ++ front.drop size))
              back := by rw [fold_block positive block]
        _ = fold compress size (fold compress size initial front) back := by
            rw [List.take_append_drop]

/-! ## Absorbing a text symbol by symbol -/

/-- The blocks of a text have been folded, up to fewer symbols than a block has. -/
structure Absorbed (compress : σ → List α → σ) (size : Nat) (initial : σ) (text : List α)
    (chaining : σ) (pending : List α) : Prop where
  partial_block : pending.length < size
  parts : ∃ front, text = front ++ pending ∧ size ∣ front.length ∧
    chaining = fold compress size initial front

namespace Absorbed

variable {text pending : List α} {chaining : σ}

theorem start (positive : 0 < size) : Absorbed compress size initial [] initial [] :=
  ⟨positive, [], rfl, Nat.dvd_zero size, (fold_nil positive).symm⟩

/-- A symbol that does not fill the block is kept. -/
theorem keep (absorbed : Absorbed compress size initial text chaining pending) {symbol : α}
    (room : pending.length + 1 < size) :
    Absorbed compress size initial (text ++ [symbol]) chaining (pending ++ [symbol]) := by
  obtain ⟨front, same, whole, folded⟩ := absorbed.parts
  refine ⟨?_, front, ?_, whole, folded⟩
  · rwa [List.length_append, List.length_singleton]
  · rw [same, List.append_assoc]

/-- What fills whole blocks is folded. -/
theorem fold_close (absorbed : Absorbed compress size initial text chaining pending)
    (tail : List α) :
    fold compress size initial (text ++ tail) =
      fold compress size chaining (pending ++ tail) := by
  obtain ⟨front, same, whole, folded⟩ := absorbed.parts
  have positive : 0 < size := Nat.lt_of_le_of_lt (Nat.zero_le _) absorbed.partial_block
  rw [same, List.append_assoc, fold_append positive whole, folded]

/-- The symbol that fills a block lets the block be compressed. -/
theorem compress_full (absorbed : Absorbed compress size initial text chaining pending)
    {symbol : α} (full : pending.length + 1 = size) :
    Absorbed compress size initial (text ++ [symbol]) (compress chaining (pending ++ [symbol]))
      [] := by
  obtain ⟨front, same, whole, folded⟩ := absorbed.parts
  have positive : 0 < size := Nat.lt_of_le_of_lt (Nat.zero_le _) absorbed.partial_block
  have block : (pending ++ [symbol]).length = size := by
    rw [List.length_append, List.length_singleton, full]
  refine ⟨positive, text ++ [symbol], (List.append_nil _).symm, ?_, ?_⟩
  · rw [same, List.append_assoc, List.length_append, block]
    exact Nat.dvd_add whole (Nat.dvd_refl size)
  · have closed := absorbed.fold_close [symbol]
    rw [closed, ← List.append_nil (pending ++ [symbol]), fold_block positive block,
      List.append_nil, fold_nil positive]

end Absorbed

/-! ## Filling up to whole blocks -/

/-- How many zeros a text of a length needs to fill whole blocks. -/
def zerosFor (size length : Nat) : Nat := (size - length % size) % size

theorem zerosFor_add {size whole : Nat} (multiple : size ∣ whole) (length : Nat) :
    zerosFor size (whole + length) = zerosFor size length := by
  obtain ⟨count, rfl⟩ := multiple
  rw [zerosFor, Nat.mul_add_mod, zerosFor]

/-- A text with its padding: a mark, zeros up to whole blocks, and the tail. -/
def padded (size : Nat) (mark zero : α) (tail text : List α) : List α :=
  text ++ mark :: List.replicate (zerosFor size (text.length + 1 + tail.length)) zero ++ tail

theorem padded_eq (mark zero : α) (tail text : List α) :
    padded size mark zero tail text = text ++
      (mark :: List.replicate (zerosFor size (text.length + 1 + tail.length)) zero ++ tail) :=
  List.append_assoc ..

end BlockHash
