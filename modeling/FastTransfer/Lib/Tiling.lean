import Mathlib.Data.List.Basic

/-!
# A list cut into blocks of a fixed length

`block c l i` is the `i`-th block of `c` elements of `l`; the last block may
be shorter. `blockCount c n` is the number of blocks of a list of length `n`
(`n / c` rounded up). The blocks below `blockCount` are not empty and their
concatenation is the list.
-/

namespace Tiling

variable {β : Type*}

/-- The elements of `l` at positions `a ≤ j < b`. -/
def slice (l : List β) (a b : Nat) : List β := (l.take b).drop a

@[simp] theorem length_slice (l : List β) (a b : Nat) :
    (slice l a b).length = min b l.length - a := by
  simp [slice]

/-- A slice of a slice, by positions relative to the outer one. -/
theorem slice_of_slice (l : List β) (a b c d : Nat) :
    slice (slice l a b) c d = slice l (a + c) (min (a + d) b) := by
  simp [slice, List.take_drop, List.take_take, List.drop_drop]

/-- An end past the list is the end of the list. -/
@[simp] theorem slice_min_length (l : List β) (a b : Nat) :
    slice l a (min b l.length) = slice l a b := by
  simp only [slice, List.take_eq_take_min (i := b)]

/-- `n / c` rounded up. -/
def blockCount (c n : Nat) : Nat := (n + c - 1) / c

/-- The `i`-th block of `c` elements. -/
def block (c : Nat) (l : List β) (i : Nat) : List β :=
  slice l (i * c) (i * c + c)

theorem lt_blockCount {c n i : Nat} (hc : 0 < c) : i < blockCount c n ↔ i * c < n := by
  rw [blockCount, ← Nat.succ_le_iff, Nat.le_div_iff_mul_le hc, Nat.succ_mul]
  omega

theorem blockCount_eq_zero {c n : Nat} (hc : 0 < c) : blockCount c n = 0 ↔ n = 0 := by
  have h := lt_blockCount (i := 0) (n := n) hc
  omega

theorem le_blockCount_mul {c : Nat} (n : Nat) (hc : 0 < c) : n ≤ blockCount c n * c := by
  by_contra h
  have hlt := (lt_blockCount hc).mpr (show blockCount c n * c < n by omega)
  exact absurd hlt (Nat.lt_irrefl _)

theorem length_block (c : Nat) (l : List β) (i : Nat) :
    (block c l i).length = min c (l.length - i * c) := by
  rw [block, length_slice]
  omega

theorem block_length_pos {c : Nat} {l : List β} {i : Nat} (hc : 0 < c)
    (hi : i < blockCount c l.length) : 0 < (block c l i).length := by
  have := (lt_blockCount hc).mp hi
  rw [length_block]
  omega

/-- The first `k` blocks are the first `k * c` elements. -/
theorem flatMap_block_range (c : Nat) (l : List β) (k : Nat) :
    (List.range k).flatMap (block c l) = l.take (k * c) := by
  induction k with
  | zero => simp
  | succ k ih =>
      rw [List.range_succ, List.flatMap_append, ih, Nat.succ_mul, List.take_add]
      simp [block, slice, List.take_drop]

theorem blocks_below (c : Nat) (l : List β) (k : Nat) :
    (List.range k).flatMap (block c l) <+: l := by
  rw [flatMap_block_range]
  exact List.take_prefix _ _

/-- **The blocks tile the list.** -/
theorem flatMap_block {c : Nat} (l : List β) (hc : 0 < c) :
    (List.range (blockCount c l.length)).flatMap (block c l) = l := by
  rw [flatMap_block_range, List.take_of_length_le (le_blockCount_mul l.length hc)]

end Tiling
