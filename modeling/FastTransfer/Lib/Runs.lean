import Mathlib.Logic.Relation

/-!
# Runs of partial step functions

A system is a step function `σ → α → Option σ`: `none` means that the action
is not enabled. Everything a model proves "in every reachable state" or "in
every run whose steps all meet a condition" goes through the two rules here:
an invariant of each step is an invariant of every run, and a list of actions
that executes is a run.
-/

namespace Runs

variable {σ α : Type*} (step : σ → α → Option σ) (ok : σ → α → Prop)

/-- One step by an action that meets `ok` in the state it is taken from. -/
def StepsWhen (s s' : σ) : Prop := ∃ a, ok s a ∧ step s a = some s'

/-- The states of the runs from `s` whose steps all meet `ok`. -/
def ReachWhen : σ → σ → Prop := Relation.ReflTransGen (StepsWhen step ok)

/-- The states of all runs from `s`. -/
def Reach : σ → σ → Prop := ReachWhen step fun _ _ => True

variable {step ok}

theorem ReachWhen.refl (s : σ) : ReachWhen step ok s s := Relation.ReflTransGen.refl

theorem ReachWhen.next {s t u : σ} {a : α} (h : ReachWhen step ok s t)
    (hok : ok t a) (hs : step t a = some u) : ReachWhen step ok s u :=
  Relation.ReflTransGen.tail h ⟨a, hok, hs⟩

theorem ReachWhen.trans {s t u : σ} (h : ReachWhen step ok s t)
    (h' : ReachWhen step ok t u) : ReachWhen step ok s u :=
  Relation.ReflTransGen.trans h h'

/-- **The run rule**: what holds at the start and is kept by every step that
meets the condition holds in every state of every such run. -/
theorem ReachWhen.invariant {I : σ → Prop} {s t : σ} (h : ReachWhen step ok s t)
    (h0 : I s) (hstep : ∀ u a v, I u → ok u a → step u a = some v → I v) : I t := by
  induction h with
  | refl => exact h0
  | tail _ hlast ih =>
      obtain ⟨a, hok, hs⟩ := hlast
      exact hstep _ a _ ih hok hs

theorem Reach.invariant {I : σ → Prop} {s t : σ} (h : Reach step s t)
    (h0 : I s) (hstep : ∀ u a v, I u → step u a = some v → I v) : I t :=
  ReachWhen.invariant h h0 fun u a v hu _ hs => hstep u a v hu hs

theorem ReachWhen.mono {ok' : σ → α → Prop} {s t : σ} (h : ReachWhen step ok s t)
    (hok : ∀ u a, ok u a → ok' u a) : ReachWhen step ok' s t := by
  apply h.invariant (I := ReachWhen step ok' s) (.refl s)
  intro u a v hu ha hs
  exact hu.next (hok u a ha) hs

/-- **The refinement rule**: if every step from a state in `I` is a step of another
system, seen through `f`, or no step at all, then what a run reaches is seen as what
the other system reaches. -/
theorem ReachWhen.refines {τ β : Type*} {step' : τ → β → Option τ} {ok' : τ → β → Prop}
    {f : σ → τ} {I : σ → Prop} {s t : σ} (h : ReachWhen step ok s t) (h0 : I s)
    (hstep : ∀ u a v, I u → ok u a → step u a = some v →
      I v ∧ (f v = f u ∨ ∃ b, ok' (f u) b ∧ step' (f u) b = some (f v))) :
    ReachWhen step' ok' (f s) (f t) := by
  have hboth : I t ∧ ReachWhen step' ok' (f s) (f t) := by
    apply h.invariant (I := fun u => I u ∧ ReachWhen step' ok' (f s) (f u)) ⟨h0, .refl _⟩
    rintro u a v ⟨hu, hreach⟩ hok hs
    obtain ⟨hv, hsame | ⟨b, hok', hs'⟩⟩ := hstep u a v hu hok hs
    · exact ⟨hv, hsame ▸ hreach⟩
    · exact ⟨hv, hreach.next hok' hs'⟩
  exact hboth.2

/-! ## Runs as lists of actions -/

variable (step ok)

/-- Take the actions of a list in order; `none` if one is not enabled. -/
def run : σ → List α → Option σ
  | s, [] => some s
  | s, a :: as => (step s a).bind fun s' => run s' as

/-- Every action of the list meets `ok` in the state it is taken from. -/
def Meets : σ → List α → Prop
  | _, [] => True
  | s, a :: as => ok s a ∧ ∀ s' ∈ step s a, Meets s' as

instance decidableMeets [∀ s a, Decidable (ok s a)] :
    ∀ (s : σ) (as : List α), Decidable (Meets step ok s as)
  | _, [] => inferInstanceAs (Decidable True)
  | s, a :: as =>
      have : ∀ s', Decidable (Meets step ok s' as) := fun s' => decidableMeets s' as
      inferInstanceAs (Decidable (ok s a ∧ ∀ s' ∈ step s a, Meets step ok s' as))

variable {step ok}

theorem run_append (s : σ) (as bs : List α) :
    run step s (as ++ bs) = (run step s as).bind fun t => run step t bs := by
  induction as generalizing s with
  | nil => rfl
  | cons a as ih =>
      cases hs : step s a with
      | none => simp [run, hs]
      | some s' => simpa [run, hs] using ih s'

theorem reachWhen_of_run {s t : σ} (as : List α) (hrun : run step s as = some t)
    (hok : Meets step ok s as) : ReachWhen step ok s t := by
  induction as generalizing s with
  | nil =>
      cases hrun
      exact ReachWhen.refl _
  | cons a as ih =>
      cases hs : step s a with
      | none => simp [run, hs] at hrun
      | some s' =>
          simp only [run, hs, Option.bind_some] at hrun
          exact ((ReachWhen.refl _).next hok.1 hs).trans (ih hrun (hok.2 s' hs))

/-- A condition that looks at the actions only. -/
theorem meets_of_forall {as : List α} (h : ∀ a ∈ as, ∀ s, ok s a) (s : σ) :
    Meets step ok s as := by
  induction as generalizing s with
  | nil => exact trivial
  | cons a as ih =>
      exact ⟨h a List.mem_cons_self s,
        fun s' _ => ih (fun b hb => h b (List.mem_cons_of_mem _ hb)) s'⟩

theorem reach_of_run {s t : σ} (as : List α) (hrun : run step s as = some t) :
    Reach step s t :=
  reachWhen_of_run as hrun (meets_of_forall (fun _ _ _ => trivial) s)

/-- **The exactness rule**: if each action of a run keeps `Good` exactly when it
meets `ok`, then the run ends in `Good` exactly when all its actions meet `ok`. -/
theorem good_iff_meets {I Good : σ → Prop} {s t : σ} {as : List α}
    (hrun : run step s as = some t) (h0 : I s)
    (hstep : ∀ a ∈ as, ∀ u v, I u → step u a = some v → I v ∧ (Good v ↔ Good u ∧ ok u a)) :
    Good t ↔ Good s ∧ Meets step ok s as := by
  induction as generalizing s with
  | nil =>
      cases hrun
      exact (and_iff_left trivial).symm
  | cons a as ih =>
      obtain ⟨s', hs', hrun'⟩ := Option.bind_eq_some_iff.mp hrun
      obtain ⟨hI, hgood⟩ := hstep a List.mem_cons_self s s' h0 hs'
      have hrest := ih hrun' hI fun b hb => hstep b (List.mem_cons_of_mem _ hb)
      have hmeets : Meets step ok s (a :: as) ↔ ok s a ∧ Meets step ok s' as := by
        simp [Meets, hs']
      rw [hrest, hgood, hmeets, and_assoc]

variable (step) in
/-- `Good` holds in every state that the actions of the list lead through. -/
def Always (Good : σ → Prop) : σ → List α → Prop
  | s, [] => Good s
  | s, a :: as => Good s ∧ ∀ s' ∈ step s a, Always Good s' as

theorem Always.last {Good : σ → Prop} {s t : σ} {as : List α} (h : Always step Good s as)
    (hrun : run step s as = some t) : Good t := by
  induction as generalizing s with
  | nil =>
      cases hrun
      exact h
  | cons a as ih =>
      obtain ⟨s', hs', hrest⟩ := Option.bind_eq_some_iff.mp hrun
      exact ih (h.2 s' hs') hrest

instance decidableAlways (Good : σ → Prop) [∀ s, Decidable (Good s)] :
    ∀ (s : σ) (as : List α), Decidable (Always step Good s as)
  | s, [] => inferInstanceAs (Decidable (Good s))
  | s, a :: as =>
      have : ∀ s', Decidable (Always step Good s' as) := fun s' => decidableAlways Good s' as
      inferInstanceAs (Decidable (Good s ∧ ∀ s' ∈ step s a, Always step Good s' as))

/-- The exactness rule for what has to hold all the time: from a state in `Good`
an action leads to one exactly when it meets `ok`. -/
theorem always_iff_meets {I Good : σ → Prop} {s t : σ} {as : List α}
    (hrun : run step s as = some t) (h0 : I s) (hgood : Good s)
    (hstep : ∀ u a v, I u → step u a = some v → I v ∧ (Good u → (Good v ↔ ok u a))) :
    Always step Good s as ↔ Meets step ok s as := by
  induction as generalizing s with
  | nil => exact iff_of_true hgood trivial
  | cons a as ih =>
      obtain ⟨s', hs', hrun'⟩ := Option.bind_eq_some_iff.mp hrun
      obtain ⟨hI, hiff⟩ := hstep s a s' h0 hs'
      have halways : Always step Good s (a :: as) ↔ Always step Good s' as := by
        simp [Always, hs', hgood]
      have hmeets : Meets step ok s (a :: as) ↔ ok s a ∧ Meets step ok s' as := by
        simp [Meets, hs']
      rw [halways, hmeets]
      by_cases hok : ok s a
      · rw [ih hrun' hI ((hiff hgood).mpr hok), and_iff_right hok]
      · refine iff_of_false (fun h => hok ((hiff hgood).mp ?_)) fun h => hok h.1
        cases as with
        | nil => exact h
        | cons b bs => exact h.1

/-! ## Runs that end -/

section Measure

variable {μ : σ → Nat}

/-- **The rule of termination**: a measure that every step decreases bounds the
length of every run. -/
theorem length_le_of_decreasing (hstep : ∀ s a s', step s a = some s' → μ s' < μ s)
    {s t : σ} {as : List α} (hrun : run step s as = some t) : as.length + μ t ≤ μ s := by
  induction as generalizing s with
  | nil =>
      cases hrun
      exact Nat.le_of_eq (Nat.zero_add _)
  | cons a as ih =>
      obtain ⟨s', hs', hrest⟩ := Option.bind_eq_some_iff.mp hrun
      have hdec := hstep s a s' hs'
      have hle := ih hrest
      rw [List.length_cons]
      omega

/-- Such a system can be run until no step is left. -/
theorem exists_run_to_end (hstep : ∀ s a s', step s a = some s' → μ s' < μ s) (s : σ) :
    ∃ as t, run step s as = some t ∧ ∀ a, step t a = none := by
  induction hn : μ s using Nat.strongRecOn generalizing s with
  | ind n ih =>
      by_cases hend : ∀ a, step s a = none
      · exact ⟨[], s, rfl, hend⟩
      · obtain ⟨a, ha⟩ := Classical.not_forall.mp hend
        obtain ⟨s', hs'⟩ := Option.ne_none_iff_exists'.mp ha
        obtain ⟨as, t, hrun, hlast⟩ := ih (μ s') (hn ▸ hstep s a s' hs') s' rfl
        exact ⟨a :: as, t, by rw [run, hs', Option.bind_some, hrun], hlast⟩

end Measure

/-! ## Recorded runs -/

section Recorded

variable {ρ : Type*} (step) (note : σ → α → σ → ρ → ρ)

/-- The system with a record of its steps. -/
def recorded (x : σ × ρ) (a : α) : Option (σ × ρ) :=
  (step x.1 a).map fun s' => (s', note x.1 a s' x.2)

variable {step note}

theorem recorded_eq_some {x y : σ × ρ} {a : α} (h : recorded step note x a = some y) :
    step x.1 a = some y.1 ∧ y.2 = note x.1 a y.1 x.2 := by
  obtain ⟨s', hs', rfl⟩ := Option.map_eq_some_iff.mp h
  exact ⟨hs', rfl⟩

/-- Every run can be recorded. -/
theorem exists_recorded {s t : σ} {as : List α} (h : run step s as = some t) (r : ρ) :
    ∃ r', run (recorded step note) (s, r) as = some (t, r') := by
  induction as generalizing s r with
  | nil =>
      cases h
      exact ⟨r, rfl⟩
  | cons a as ih =>
      obtain ⟨s', hs', hrest⟩ := Option.bind_eq_some_iff.mp h
      obtain ⟨r', hr'⟩ := ih hrest (note s a s' r)
      exact ⟨r', by simpa [run, recorded, hs'] using hr'⟩

theorem meets_recorded {x : σ × ρ} {as : List α} :
    Meets (recorded step note) (fun x a => ok x.1 a) x as ↔ Meets step ok x.1 as := by
  induction as generalizing x with
  | nil => exact Iff.rfl
  | cons a as ih =>
      cases hs : step x.1 a with
      | none => simp [Meets, recorded, hs]
      | some s' => simp [Meets, recorded, hs, ih]

end Recorded

end Runs
