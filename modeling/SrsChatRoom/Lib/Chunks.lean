import Mathlib.Tactic

/-!
# Chunks of a list

A list is cut into chunks of `n` elements, of which the last one may be shorter. `flatten_chunks`
says that the first `count` chunks together are the first `count * n` elements.
-/

namespace SrsChatRoom

variable {α : Type*}

/-- The `i`-th chunk. -/
def chunk (l : List α) (n i : ℕ) : List α := (l.drop (i * n)).take n

/-- The first `count` chunks. -/
def chunks (l : List α) (n count : ℕ) : List (List α) := (List.range count).map (chunk l n)

theorem length_chunk (l : List α) (n i : ℕ) : (chunk l n i).length = min n (l.length - i * n) := by
  rw [chunk, List.length_take, List.length_drop]

/-- A chunk has an element exactly where it starts inside the list. -/
theorem length_chunk_pos_iff (l : List α) {n : ℕ} (hn : 0 < n) (i : ℕ) :
    0 < (chunk l n i).length ↔ i * n < l.length := by
  rw [length_chunk]
  omega

theorem length_chunk_le (l : List α) (n i : ℕ) : (chunk l n i).length ≤ n := by
  rw [length_chunk]
  exact Nat.min_le_left _ _

theorem flatten_chunks (l : List α) (n count : ℕ) :
    (chunks l n count).flatten = l.take (count * n) := by
  induction count with
  | zero => simp [chunks]
  | succ count ih =>
    have hsplit : chunks l n (count + 1) = chunks l n count ++ [chunk l n count] := by
      rw [chunks, List.range_succ, List.map_append]
      rfl
    rw [hsplit, List.flatten_append, ih, List.flatten_singleton, chunk, Nat.succ_mul,
      List.take_add]

/-- All of the list, where the chunks reach its end. -/
theorem flatten_chunks_all (l : List α) {n count : ℕ} (h : l.length ≤ count * n) :
    (chunks l n count).flatten = l := by
  rw [flatten_chunks, List.take_of_length_le h]

end SrsChatRoom
