import Mathlib.Data.List.Induction
import Mathlib.Data.List.Nodup
import FastTransfer.Lib.Tally

/-!
# In-order delivery of numbered messages

A log of messages `(number, content)` arrives in any order, with repetitions.
What should be delivered is the first content of each number, in the order of
the numbers, as far as there is no gap. `log.lookup i` is the first content
that arrived for `i`.

`InOrder log next pending out` says that a reassembler with write position
`next`, the messages `pending` set aside and the delivered contents `out` is
right about `log`. `Draining` is the same inside the loop that follows an
in-order arrival, when the message at the write position may still be among
the pending ones. One lemma for each thing a reassembler does leads from one
to the other.
-/

namespace Reassembly

variable {α : Type*}

/-- Everything before `next` is delivered; later first arrivals are pending. -/
structure Draining (log : List (Nat × α)) (next : Nat) (pending : Nat → Option α)
    (out : List α) : Prop where
  out_eq : out.map some = (List.range next).map (log.lookup ·)
  pending_eq : ∀ i, pending i = if next ≤ i then log.lookup i else none

/-- A right reassembler between two arrivals: the write position is a gap. -/
structure InOrder (log : List (Nat × α)) (next : Nat) (pending : Nat → Option α)
    (out : List α) : Prop extends Draining log next pending out where
  gap : log.lookup next = none

section
variable {log : List (Nat × α)} {next i : Nat} {pending : Nat → Option α} {out : List α}

theorem InOrder.empty : InOrder ([] : List (Nat × α)) 0 (fun _ => none) [] where
  out_eq := rfl
  pending_eq := fun i => by simp
  gap := rfl

theorem lookup_snoc (log : List (Nat × α)) (i j : Nat) (a : α) :
    (log ++ [(i, a)]).lookup j =
      (log.lookup j).or (if j = i then some a else none) := by
  rw [List.lookup_append, List.lookup_cons]
  by_cases hj : j = i
  · simp [hj]
  · have hb : (j == i) = false := by simpa using hj
    simp [hj, hb]

/-- A repeated number changes no first arrival. -/
theorem lookup_repeat (h : log.lookup i ≠ none) (a : α) (j : Nat) :
    (log ++ [(i, a)]).lookup j = log.lookup j := by
  rw [lookup_snoc]
  by_cases hj : j = i
  · subst hj
    obtain ⟨b, hb⟩ := Option.ne_none_iff_exists'.mp h
    simp [hb]
  · simp [hj]

theorem Draining.lookup_of_lt (h : Draining log next pending out) (hi : i < next) :
    log.lookup i = out[i]? := by
  have := congrArg (·[i]?) h.out_eq
  simp only [List.getElem?_map, List.getElem?_range hi, Option.map_some] at this
  cases ho : out[i]? with
  | none => simp [ho] at this
  | some a => simpa [ho] using this.symm

theorem Draining.length_out (h : Draining log next pending out) : out.length = next := by
  simpa using congrArg List.length h.out_eq

/-- What has arrived: the numbers already delivered and the pending ones. -/
theorem InOrder.arrived_iff (h : InOrder log next pending out) :
    log.lookup i ≠ none ↔ i < next ∨ pending i ≠ none := by
  rw [h.pending_eq i]
  by_cases hi : i < next
  · have hlen : i < out.length := by rw [h.length_out]; exact hi
    rw [h.lookup_of_lt hi, List.getElem?_eq_getElem hlen]
    simp [hi]
  · rw [if_pos (show next ≤ i by omega)]
    simp [hi]

/-- A pending number is strictly above the write position. -/
theorem InOrder.lt_of_pending (h : InOrder log next pending out) {a : α}
    (hp : pending i = some a) : next < i ∧ log.lookup i = some a := by
  rw [h.pending_eq i] at hp
  split at hp
  · rename_i hle
    refine ⟨Nat.lt_of_le_of_ne hle ?_, hp⟩
    rintro rfl
    simp [h.gap] at hp
  · cases hp

/-- A number that arrived before: nothing is done. -/
theorem InOrder.duplicate (h : InOrder log next pending out)
    (hi : log.lookup i ≠ none) (a : α) :
    InOrder (log ++ [(i, a)]) next pending out where
  out_eq := by simpa only [lookup_repeat hi] using h.out_eq
  pending_eq := by simpa only [lookup_repeat hi] using h.pending_eq
  gap := by rw [lookup_repeat hi, h.gap]

/-- A new number above the write position: it is set aside. -/
theorem InOrder.stash (h : InOrder log next pending out) (hi : next < i) {a : α}
    (hnew : log.lookup i = none) {pending' : Nat → Option α}
    (hp : ∀ j, pending' j = if j = i then some a else pending j) :
    InOrder (log ++ [(i, a)]) next pending' out where
  out_eq := by
    rw [h.out_eq]
    apply List.map_congr_left
    intro j hj
    have hne : j ≠ i := by
      have := List.mem_range.mp hj
      omega
    simp [lookup_snoc, hne]
  pending_eq := by
    intro j
    rw [hp j, lookup_snoc, h.pending_eq j]
    by_cases hj : j = i
    · subst hj
      simp [hnew, Nat.le_of_lt hi]
    · simp [hj]
  gap := by
    have hne : next ≠ i := by omega
    simp [lookup_snoc, hne, h.gap]

/-- The number at the write position: it is delivered. -/
theorem InOrder.deliver (h : InOrder log next pending out) (a : α) :
    Draining (log ++ [(next, a)]) (next + 1) pending (out ++ [a]) where
  out_eq := by
    rw [List.map_append, h.out_eq, List.range_succ, List.map_append]
    congr 1
    · apply List.map_congr_left
      intro j hj
      have hne : j ≠ next := by
        have := List.mem_range.mp hj
        omega
      simp [lookup_snoc, hne]
    · simp [lookup_snoc, h.gap]
  pending_eq := by
    intro j
    rw [h.pending_eq j, lookup_snoc]
    by_cases hj : j = next
    · subst hj
      simp [h.gap]
    · have hiff : next ≤ j ↔ next + 1 ≤ j := by omega
      simp [hj, hiff]

/-- The drain loop delivers the pending message at the write position. -/
theorem Draining.deliver (h : Draining log next pending out) {a : α}
    (ha : pending next = some a) {pending' : Nat → Option α}
    (hp : ∀ j, pending' j = if j = next then none else pending j) :
    Draining log (next + 1) pending' (out ++ [a]) where
  out_eq := by
    have hlook : log.lookup next = some a := by
      rw [← ha, h.pending_eq next, if_pos (Nat.le_refl _)]
    simp [h.out_eq, List.range_succ, hlook]
  pending_eq := by
    intro j
    rw [hp j, h.pending_eq j]
    by_cases hj : j = next
    · subst hj
      have hlt : ¬ j + 1 ≤ j := by omega
      simp [hlt]
    · have hiff : next ≤ j ↔ next + 1 ≤ j := by omega
      simp [hj, hiff]

/-- The drain loop ends: nothing is pending at the write position. -/
theorem Draining.inOrder (h : Draining log next pending out)
    (hnone : pending next = none) : InOrder log next pending out where
  toDraining := h
  gap := by rw [← hnone, h.pending_eq next, if_pos (Nat.le_refl _)]

/-! ## Completion

When every number that arrives is below `n`, the write position reaches `n`
exactly when all of them have arrived, and then nothing is pending. -/

theorem InOrder.next_le (h : InOrder log next pending out) {n : Nat}
    (hlt : ∀ j, log.lookup j ≠ none → j < n) : next ≤ n := by
  by_contra hn
  exact Nat.lt_irrefl n (hlt n (h.arrived_iff.mpr (.inl (show n < next by omega))))

theorem InOrder.next_eq_iff (h : InOrder log next pending out) {n : Nat}
    (hlt : ∀ j, log.lookup j ≠ none → j < n) :
    next = n ↔ ∀ j < n, log.lookup j ≠ none := by
  constructor
  · rintro rfl j hj
    exact h.arrived_iff.mpr (.inl hj)
  · intro hall
    have hle := h.next_le hlt
    by_contra hne
    exact hall next (show next < n by omega) h.gap

theorem InOrder.pending_none (h : InOrder log next pending out)
    (hlt : ∀ j, log.lookup j ≠ none → j < next) (i : Nat) : pending i = none := by
  by_contra hp
  have hi := hlt i (h.arrived_iff.mpr (.inr hp))
  rw [h.pending_eq i, if_neg (show ¬ next ≤ i by omega)] at hp
  exact hp rfl

end

/-! ## The first arrivals of a log -/

/-- The arrivals whose number had not arrived before, in order of arrival. -/
def firsts (log : List (Nat × α)) : List (Nat × α) :=
  log.foldl (fun acc e => if (acc.lookup e.1).isSome then acc else acc ++ [e]) []

@[simp] theorem firsts_nil : firsts ([] : List (Nat × α)) = [] := rfl

private theorem firsts_snoc_self (log : List (Nat × α)) (e : Nat × α) :
    firsts (log ++ [e])
      = if ((firsts log).lookup e.1).isSome then firsts log else firsts log ++ [e] := by
  rw [firsts, List.foldl_append]
  rfl

/-- Dropping the later arrivals of a number keeps the first one. -/
theorem lookup_firsts (log : List (Nat × α)) (i : Nat) :
    (firsts log).lookup i = log.lookup i := by
  induction log using List.reverseRecOn with
  | nil => rfl
  | append_singleton log e ih =>
      obtain ⟨j, a⟩ := e
      rw [firsts_snoc_self, lookup_snoc]
      by_cases hj : i = j
      · subst hj
        cases hl : log.lookup i with
        | none => simp [ih, hl, lookup_snoc]
        | some b => simp [ih, hl]
      · split
        · simp [ih]
        · simp [ih, hj, lookup_snoc]

theorem firsts_snoc (log : List (Nat × α)) (e : Nat × α) :
    firsts (log ++ [e])
      = if (log.lookup e.1).isSome then firsts log else firsts log ++ [e] := by
  rw [firsts_snoc_self, lookup_firsts]

theorem lookup_isSome_iff {log : List (Nat × α)} {i : Nat} :
    (log.lookup i).isSome ↔ i ∈ log.map Prod.fst := by
  induction log with
  | nil => simp
  | cons e log ih =>
      obtain ⟨j, a⟩ := e
      rw [List.lookup_cons]
      by_cases hj : i = j
      · simp [hj]
      · have hb : (i == j) = false := by simpa using hj
        simp only [hb, ih, List.map_cons, List.mem_cons, hj, false_or]

theorem mem_of_lookup {log : List (Nat × α)} {i : Nat} {a : α} (h : log.lookup i = some a) :
    (i, a) ∈ log := by
  obtain ⟨l₁, l₂, rfl, -⟩ := List.lookup_eq_some_iff.mp h
  simp

theorem lt_of_lookup {log : List (Nat × α)} {n : Nat} (h : ∀ e ∈ log, e.1 < n) {i : Nat}
    (hi : log.lookup i ≠ none) : i < n := by
  rw [← Option.isSome_iff_ne_none, lookup_isSome_iff] at hi
  obtain ⟨e, he, rfl⟩ := List.mem_map.mp hi
  exact h e he

/-- No number occurs twice among the first arrivals. -/
theorem nodup_firsts (log : List (Nat × α)) : ((firsts log).map Prod.fst).Nodup := by
  induction log using List.reverseRecOn with
  | nil => simp
  | append_singleton log e ih =>
      rw [firsts_snoc]
      split
      · exact ih
      · rename_i hnew
        rw [← lookup_firsts, lookup_isSome_iff] at hnew
        rw [List.map_append, List.nodup_append]
        refine ⟨ih, by simp, ?_⟩
        rintro i hi j hj rfl
        obtain rfl : i = e.1 := by simpa using hj
        exact hnew hi

theorem mem_firsts_fst {log : List (Nat × α)} {i : Nat} :
    i ∈ (firsts log).map Prod.fst ↔ log.lookup i ≠ none := by
  rw [← lookup_isSome_iff, lookup_firsts, Option.isSome_iff_ne_none]

theorem eq_nil_of_firsts {log : List (Nat × α)} (h : (firsts log).length = 0) : log = [] := by
  have hnil : firsts log = [] := List.length_eq_zero_iff.mp h
  rw [List.eq_nil_iff_forall_not_mem]
  intro e he
  have hmem : e.1 ∈ log.map Prod.fst := List.mem_map_of_mem he
  rw [← lookup_isSome_iff, ← lookup_firsts, hnil] at hmem
  cases hmem

/-- **Counting decides completion**: when every number that arrives is below
`n`, as many different numbers as `n` have arrived exactly when the write
position is `n`. -/
theorem InOrder.length_firsts_eq_iff {log : List (Nat × α)} {next n : Nat}
    {pending : Nat → Option α} {out : List α} (h : InOrder log next pending out)
    (hlt : ∀ j, log.lookup j ≠ none → j < n) : (firsts log).length = n ↔ next = n := by
  have hnd := nodup_firsts log
  have hmem : ∀ j ∈ (firsts log).map Prod.fst, j < n := fun j hj => hlt j (mem_firsts_fst.mp hj)
  constructor
  · intro hlen
    rw [h.next_eq_iff hlt]
    intro j hj
    exact mem_firsts_fst.mp (Tally.mem_of_nodup_of_length hnd hmem (by simpa using hlen) j hj)
  · intro hnext
    have hall := (h.next_eq_iff hlt).mp hnext
    have hperm : ((firsts log).map Prod.fst).Perm (List.range n) := by
      rw [List.perm_ext_iff_of_nodup hnd List.nodup_range]
      intro j
      rw [List.mem_range]
      exact ⟨hmem j, fun hj => mem_firsts_fst.mpr (hall j hj)⟩
    simpa using hperm.length_eq

end Reassembly
