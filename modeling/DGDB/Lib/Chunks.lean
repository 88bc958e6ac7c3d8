import Mathlib

/-!
# Lists in pieces

A list cut into pieces of a given length, of which the last may be shorter.
-/

namespace Chunks

variable {α : Type*} {n k : ℕ} {l : List α}

/-- The `k`-th piece of length `n`. -/
def piece (n : ℕ) (l : List α) (k : ℕ) : List α := (l.drop (n * k)).take n

/-- The number of pieces. -/
def count (n : ℕ) (l : List α) : ℕ := (l.length + n - 1) / n

def pieces (n : ℕ) (l : List α) : List (List α) := (List.range (count n l)).map (piece n l)

theorem count_eq (n : ℕ) (l : List α) : count n l = l.length ⌈/⌉ n := rfl

theorem lt_count_iff (hn : 0 < n) : k < count n l ↔ n * k < l.length := by
  rw [← not_le, ← not_le, count_eq, ceilDiv_le_iff_le_mul hn]

@[simp] theorem length_pieces (n : ℕ) (l : List α) : (pieces n l).length = count n l := by
  rw [pieces, List.length_map, List.length_range]

theorem length_piece (n : ℕ) (l : List α) (k : ℕ) :
    (piece n l k).length = min n (l.length - n * k) := by
  rw [piece, List.length_take, List.length_drop]

theorem length_piece_pos (hn : 0 < n) (h : k < count n l) : 0 < (piece n l k).length := by
  rw [lt_count_iff hn] at h
  rw [length_piece]
  omega

/-- A piece before the last is as long as it can be. -/
theorem length_piece_of_lt (hn : 0 < n) (h : k + 1 < count n l) : (piece n l k).length = n := by
  rw [lt_count_iff hn, Nat.mul_succ] at h
  rw [length_piece]
  omega

theorem take_piece (n : ℕ) (l : List α) (k : ℕ) :
    l.take (n * k) ++ piece n l k = l.take (n * (k + 1)) := by
  rw [piece, Nat.mul_succ, List.take_add]

theorem take_count (hn : 0 < n) (h : count n l ≤ k) : l.take (n * k) = l := by
  apply List.take_of_length_le
  rwa [← not_lt, lt_count_iff hn, not_lt] at h

theorem flatten_range_map_piece (n : ℕ) (l : List α) (k : ℕ) :
    ((List.range k).map (piece n l)).flatten = l.take (n * k) := by
  induction k with
  | zero => simp
  | succ k ih =>
    rw [List.range_succ, List.map_append, List.flatten_append, ih, ← take_piece]
    simp

theorem flatten_pieces (hn : 0 < n) (l : List α) : (pieces n l).flatten = l := by
  rw [pieces, flatten_range_map_piece, take_count hn le_rfl]

theorem getElem?_pieces (h : k < count n l) : (pieces n l)[k]? = some (piece n l k) := by
  rw [pieces, List.getElem?_map, List.getElem?_range h]
  rfl

theorem mem_pieces {x : List α} : x ∈ pieces n l ↔ ∃ k < count n l, x = piece n l k := by
  simp only [pieces, List.mem_map, List.mem_range]
  exact exists_congr fun k => and_congr_right fun _ => eq_comm

theorem mem_dropLast_pieces {x : List α} (h : x ∈ (pieces n l).dropLast) :
    ∃ k, k + 1 < count n l ∧ x = piece n l k := by
  obtain ⟨k, hk⟩ := List.mem_iff_getElem?.mp h
  rw [List.getElem?_dropLast, length_pieces] at hk
  split_ifs at hk with hlt
  rw [getElem?_pieces (by omega)] at hk
  exact ⟨k, by omega, (Option.some.inj hk).symm⟩

end Chunks
