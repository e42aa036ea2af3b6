import Mathlib.Algebra.Ring.Nat

/-!
# Pieces of a list

`chunks k` cuts a list into pieces of `k`, the last one shorter (`slice::chunks`), and
`chunkCount` is their number (`len().div_ceil(k)`). A piece is also reached by its number:
`chunkAt k l i` is the `i`-th, so that pieces that come back in another order can be told
apart and put together again (`flatten_chunks`).
-/

namespace Scm.Chunks

open List

variable {α : Type}

/-- `len().div_ceil(k)`. -/
def chunkCount (k : Nat) (l : List α) : Nat := (l.length + k - 1) / k

/-- The `i`-th piece. -/
def chunkAt (k : Nat) (l : List α) (i : Nat) : List α := (l.drop (i * k)).take k

/-- `slice::chunks`. -/
def chunks (k : Nat) (l : List α) : List (List α) :=
  (List.range (chunkCount k l)).map (chunkAt k l)

theorem length_chunkAt_le (k : Nat) (l : List α) (i : Nat) : (chunkAt k l i).length ≤ k := by
  rw [chunkAt, length_take]
  exact Nat.min_le_left _ _

variable {k : Nat}

theorem chunkCount_pos {l : List α} (hk : 0 < k) (hl : l ≠ []) : 0 < chunkCount k l := by
  have hlen := length_pos_iff.mpr hl
  exact Nat.div_pos (by omega) hk

/-- The pieces reach to the end of the list. -/
theorem length_le_chunkCount_mul (hk : 0 < k) (l : List α) : l.length ≤ chunkCount k l * k := by
  have hdiv := Nat.div_add_mod (l.length + k - 1) k
  have hmod := Nat.mod_lt (l.length + k - 1) hk
  rw [chunkCount, Nat.mul_comm]
  omega

/-- The first `n` pieces are the first `n * k` elements. -/
theorem flatten_map_chunkAt (k : Nat) (l : List α) :
    ∀ n, ((List.range n).map (chunkAt k l)).flatten = l.take (n * k)
  | 0 => by simp
  | n + 1 => by
    rw [range_succ, map_append, flatten_append, flatten_map_chunkAt k l n,
      Nat.succ_mul, take_add]
    simp [chunkAt]

theorem flatten_chunks (hk : 0 < k) (l : List α) : (chunks k l).flatten = l := by
  rw [chunks, flatten_map_chunkAt, take_of_length_le (length_le_chunkCount_mul hk l)]

theorem sum_length_chunkAt (hk : 0 < k) (l : List α) :
    ((List.range (chunkCount k l)).map fun i => (chunkAt k l i).length).sum = l.length := by
  conv => rhs; rw [← flatten_chunks hk l]
  rw [length_flatten, chunks, map_map]
  rfl

end Scm.Chunks
