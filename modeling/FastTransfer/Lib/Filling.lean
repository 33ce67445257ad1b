import FastTransfer.Lib.Tiling

/-!
# Filling a list block by block

`overwrite l a d` puts `d` over the elements of `l` from position `a` on.
When the blocks of a source are written over a list of the same length, each
at its own place and in any order, then those that have been written stay, and
when all of them have been, the list is the source.
-/

namespace Filling

open Tiling

variable {β : Type*}

/-- Write `d` over the elements from `a` on. -/
def overwrite (l : List β) (a : Nat) (d : List β) : List β :=
  l.take a ++ d ++ l.drop (a + d.length)

section Overwrite

variable {l d : List β} {a : Nat}

theorem length_overwrite (h : a + d.length ≤ l.length) : (overwrite l a d).length = l.length := by
  simp only [overwrite, List.length_append, List.length_take, List.length_drop]
  omega

/-- What has been written is there. -/
theorem slice_overwrite_self (h : a + d.length ≤ l.length) :
    slice (overwrite l a d) a (a + d.length) = d := by
  have hlen : (l.take a).length = a := by rw [List.length_take]; omega
  rw [slice, overwrite, List.take_left' (by rw [List.length_append, hlen]), List.drop_left' hlen]

theorem slice_overwrite_before {b c : Nat} (h : a + d.length ≤ l.length) (hc : c ≤ a) :
    slice (overwrite l a d) b c = slice l b c := by
  have hlen : c ≤ (l.take a).length := by rw [List.length_take]; omega
  rw [slice, slice, overwrite, List.append_assoc, List.take_append_of_le_length hlen,
    List.take_take, Nat.min_eq_left hc]

theorem slice_overwrite_after {b c : Nat} (h : a + d.length ≤ l.length)
    (hb : a + d.length ≤ b) : slice (overwrite l a d) b c = slice l b c := by
  have hdrop : (overwrite l a d).drop b = l.drop b := by
    have hlen : (l.take a ++ d).length = a + d.length := by
      rw [List.length_append, List.length_take]
      omega
    rw [overwrite, List.drop_append, List.drop_eq_nil_of_le (by omega), List.nil_append, hlen,
      List.drop_drop]
    congr 1
    omega
  rw [slice, slice, List.drop_take, List.drop_take, hdrop]

/-- Another block stays as it is. -/
theorem block_overwrite_ne {c i j : Nat} (hd : d.length ≤ c)
    (hfit : i * c + d.length ≤ l.length) (hji : j ≠ i) :
    block c (overwrite l (i * c) d) j = block c l j := by
  rw [block, block]
  rcases Nat.lt_or_gt_of_ne hji with hlt | hgt
  · have hle : j * c + c ≤ i * c := by
      rw [← Nat.succ_mul]
      exact Nat.mul_le_mul_right c hlt
    exact slice_overwrite_before hfit hle
  · have hle : i * c + c ≤ j * c := by
      rw [← Nat.succ_mul]
      exact Nat.mul_le_mul_right c hgt
    exact slice_overwrite_after hfit (by omega)

end Overwrite

/-- The blocks in `done` of `out` are those of `src`. -/
structure Filled (c : Nat) (src out : List β) (done : Nat → Prop) : Prop where
  length : out.length = src.length
  blocks : ∀ i, done i → block c out i = block c src i

section Filled

variable {c : Nat} {src out : List β} {done : Nat → Prop}

theorem Filled.mono (h : Filled c src out done) {done' : Nat → Prop}
    (hdone : ∀ i, done' i → done i) : Filled c src out done' :=
  ⟨h.length, fun i hi => h.blocks i (hdone i hi)⟩

/-- **Another block is written**, before or after others. -/
theorem Filled.write (h : Filled c src out done) {i : Nat} (hi : i * c ≤ src.length)
    {done' : Nat → Prop} (hdone : ∀ j, done' j → done j ∨ j = i) :
    Filled c src (overwrite out (i * c) (block c src i)) done' := by
  have hlen := length_block c src i
  have hfit : i * c + (block c src i).length ≤ out.length := by
    rw [hlen, h.length]
    omega
  refine ⟨(length_overwrite hfit).trans h.length, fun j hj => ?_⟩
  by_cases hji : j = i
  · subst hji
    -- the block may end at the end of the list
    have hself := slice_overwrite_self hfit
    rw [block, ← slice_min_length, length_overwrite hfit, h.length]
    have hmin : min (j * c + c) src.length = j * c + (block c src j).length := by
      rw [hlen]
      omega
    rw [hmin, hself]
  · have hkept : block c (overwrite out (i * c) (block c src i)) j = block c out j :=
      block_overwrite_ne (hlen ▸ Nat.min_le_left _ _) hfit hji
    rw [hkept]
    exact h.blocks j ((hdone j hj).resolve_right hji)

/-- **When every block has been written, the list is the source.** -/
theorem Filled.eq (h : Filled c src out done) (hc : 0 < c)
    (hall : ∀ i < blockCount c src.length, done i) : out = src := by
  calc out = (List.range (blockCount c out.length)).flatMap (block c out) :=
        (flatMap_block out hc).symm
    _ = (List.range (blockCount c src.length)).flatMap (block c src) := by
        rw [h.length, List.flatMap_def, List.flatMap_def]
        congr 1
        exact List.map_congr_left fun i hi => h.blocks i (hall i (List.mem_range.mp hi))
    _ = src := flatMap_block src hc

end Filled

end Filling
