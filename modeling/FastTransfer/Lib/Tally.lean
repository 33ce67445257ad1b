import Mathlib.Algebra.Order.BigOperators.Group.List
import Mathlib.Algebra.Order.Ring.Nat
import Mathlib.Data.List.Perm.Subperm

/-!
# Counting over a table of workers

A table is a list whose entries are replaced one at a time (`List.set`). A
quantity summed over the table changes by what the replaced entry changes;
the lemmas state this without subtraction, so that `omega` can use them.
-/

namespace Tally

variable {τ β : Type*}

theorem sum_map_set (f : τ → Nat) {l : List τ} {i : Nat} {x y : τ} (h : l[i]? = some y) :
    ((l.set i x).map f).sum + f y = (l.map f).sum + f x := by
  induction l generalizing i with
  | nil => simp at h
  | cons z l ih =>
      cases i with
      | zero =>
          obtain rfl : z = y := by simpa using h
          simp only [List.set_cons_zero, List.map_cons, List.sum_cons]
          omega
      | succ i =>
          have := ih (i := i) (by simpa using h)
          simp only [List.set_cons_succ, List.map_cons, List.sum_cons]
          omega

theorem le_sum_map (f : τ → Nat) {l : List τ} {i : Nat} {y : τ} (h : l[i]? = some y) :
    f y ≤ (l.map f).sum := by
  have hy : y ∈ l := List.mem_of_getElem? h
  exact List.single_le_sum (fun _ _ => Nat.zero_le _) _ (List.mem_map_of_mem hy)

/-- After a replacement: the new entry, or one that was there. -/
theorem getElem?_set_cases {l : List τ} {i j : Nat} {x y : τ} (h : (l.set i x)[j]? = some y) :
    j = i ∧ y = x ∨ j ≠ i ∧ l[j]? = some y := by
  rw [List.getElem?_set] at h
  split_ifs at h with hij
  · exact .inl ⟨hij.symm, (Option.some.inj h).symm⟩
  · exact .inr ⟨fun heq => hij heq.symm, h⟩

/-- An entry, with what stands before and after it. -/
theorem split_at {l : List τ} {i : Nat} {y : τ} (h : l[i]? = some y) :
    ∃ l₁ l₂, l = l₁ ++ y :: l₂ ∧ ∀ x, l.set i x = l₁ ++ x :: l₂ := by
  obtain ⟨hlt, rfl⟩ := List.getElem?_eq_some_iff.mp h
  refine ⟨l.take i, l.drop (i + 1), ?_, fun x => ?_⟩
  · rw [← List.drop_eq_getElem_cons hlt, List.take_append_drop]
  · rw [List.set_eq_take_append_cons_drop, if_pos hlt]

theorem filter_set_of_not {p : τ → Bool} {l : List τ} {i : Nat} {x y : τ} (h : l[i]? = some y)
    (hy : p y = false) (hx : p x = false) : (l.set i x).filter p = l.filter p := by
  obtain ⟨l₁, l₂, rfl, hset⟩ := split_at h
  rw [hset, List.filter_append, List.filter_append, List.filter_cons_of_neg (by simp [hx]),
    List.filter_cons_of_neg (by simp [hy])]

/-- The only entry of its kind is replaced. -/
theorem filter_set_of_only {p : τ → Bool} {l : List τ} {i : Nat} {x y : τ} (h : l[i]? = some y)
    (hy : p y = true) (honly : l.filter p = [y]) : (l.set i x).filter p = [x].filter p := by
  obtain ⟨l₁, l₂, rfl, hset⟩ := split_at h
  rw [List.filter_append, List.filter_cons_of_pos hy] at honly
  have hlen := congrArg List.length honly
  rw [List.length_append, List.length_cons, List.length_singleton] at hlen
  have h₁ : l₁.filter p = [] := List.eq_nil_of_length_eq_zero (by omega)
  have h₂ : l₂.filter p = [] := List.eq_nil_of_length_eq_zero (by omega)
  rw [hset, List.filter_append, ← List.singleton_append, List.filter_append, h₁, h₂,
    List.append_nil, List.nil_append]

theorem forall_mem_set {p : τ → Prop} {l : List τ} {i : Nat} {x : τ}
    (h : ∀ y ∈ l, p y) (hx : p x) : ∀ y ∈ l.set i x, p y := by
  intro y hy
  rcases List.mem_or_eq_of_mem_set hy with hy | rfl
  · exact h y hy
  · exact hx

/-- After an addition: an entry that was there, or the new one. -/
theorem getElem?_concat_cases {l : List τ} {j : Nat} {x y : τ} (h : (l ++ [x])[j]? = some y) :
    l[j]? = some y ∨ j = l.length ∧ y = x := by
  rw [List.getElem?_append] at h
  split_ifs at h with hj
  · exact .inl h
  · obtain ⟨hlt, heq⟩ := List.getElem?_eq_some_iff.mp h
    simp only [List.length_singleton] at hlt
    exact .inr ⟨(show j = l.length by omega), by simpa using heq.symm⟩

theorem getElem?_concat_of_some {l : List τ} {j : Nat} {x y : τ} (h : l[j]? = some y) :
    (l ++ [x])[j]? = some y := by
  rw [List.getElem?_append_left (List.getElem?_eq_some_iff.mp h).1, h]

/-- Numbers below `n`, each occurring once, are a permutation of `0, …, n - 1`. -/
theorem perm_range_of_count {l : List Nat} {n : Nat}
    (h : ∀ i, l.count i = if i < n then 1 else 0) : l.Perm (List.range n) := by
  rw [List.perm_iff_count]
  intro i
  rw [h i, List.count_range]

/-- As many different numbers below `n` as there are, so all of them. -/
theorem mem_of_nodup_of_length {l : List Nat} {n : Nat} (hnd : l.Nodup)
    (hlt : ∀ i ∈ l, i < n) (hlen : l.length = n) : ∀ i < n, i ∈ l := by
  intro i hi
  have hsub : l ⊆ List.range n := fun j hj => List.mem_range.mpr (hlt j hj)
  have hperm := (hnd.subperm hsub).perm_of_length_le (by simp [hlen])
  exact hperm.mem_iff.mpr (List.mem_range.mpr hi)

end Tally
