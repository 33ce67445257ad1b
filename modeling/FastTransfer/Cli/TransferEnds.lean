import FastTransfer.Cli.CutTransfer

/-!
# The striped transfer ends

Every break of a connection uses up some of the work that is left, as every step
does. So all runs end, and where a run without breaks has ended, the file has
arrived and is verified.
-/

namespace FastTransfer.Cli

section Stream

variable {n : Nat} {st st' : Stream}

theorem Stream.cut_work {l : Nat} (h : st.cut l = some st') : st'.work n < st.work n := by
  rw [Stream.cut] at h
  split_ifs at h with hcut
  obtain rfl := Option.some.inj h
  simp only [Stream.work, List.length_nil, List.length_take]
  cases hsending : st.sending with
  | running i =>
      have hturn := turnWork_lt (n - i)
      simp only [Sending.turns]
      omega
  | ended | panicked =>
      simp only [Stream.closed, hsending, decide_eq_true_eq, not_and, not_le] at hcut
      by_cases hnil : st.inFlight = []
      · have hlt := hcut hnil
        simp only [Sending.turns]
        omega
      · have hpos := List.length_pos_iff.mpr hnil
        simp only [Sending.turns]
        omega

end Stream

namespace Striped

section Work

variable {lib : Libraries} {file : SourceFile} {s s' : Striped}

theorem cutStep_work {a : CutAction} (hs : cutStep lib file s a = some s') :
    s'.work < s.work := by
  cases a with
  | act a => exact step_work hs
  | cut k n =>
      obtain ⟨st, hk, hs⟩ := Option.bind_eq_some_iff.mp hs
      obtain ⟨st', hst, hs⟩ := Option.bind_eq_some_iff.mp hs
      obtain rfl := Option.some.inj hs
      have hwork := setStream_work hk st'
      have hlt := Stream.cut_work (n := s.totalChunks) hst
      omega

end Work

/-- **The transfer ends**: a run has no more steps than there is work at its
start, even if streams break in it; from wherever a run without breaks stands it
can go on, and where it cannot, the file has arrived and is verified. -/
theorem transfer_ends (lib : Libraries) (file : SourceFile) (hsize : file.size < 2 ^ 63)
    (hfits : HeaderFits lib file) :
    ∃ s₀, start lib file 0 = some s₀ ∧
      (∀ as s, Runs.run (cutStep lib file) s₀ as = some s → as.length + s.work ≤ s₀.work) ∧
      ∀ as s, Runs.run (step lib file) s₀ as = some s →
        ∃ bs t, Runs.run (step lib file) s bs = some t ∧ Final lib file t ∧ Done lib file t := by
  obtain ⟨s₀, hstart, h₀⟩ := striping_start lib file hsize
  refine ⟨s₀, hstart, fun as s hrun => ?_, fun as s hrun => ?_⟩
  · exact Runs.length_le_of_decreasing (fun _ _ _ hs => cutStep_work hs) hrun
  · have hdec : ∀ s a s', step lib file s a = some s' → s'.work < s.work :=
      fun _ _ _ hs => step_work hs
    obtain ⟨bs, t, hmore, hfinal⟩ := Runs.exists_run_to_end hdec s
    have hreach := (Runs.reach_of_run as hrun).trans (Runs.reach_of_run bs hmore)
    have ht : Striping lib file t :=
      Runs.Reach.invariant hreach h₀ fun _ _ _ hu hs => hu.step hsize hfits hs
    exact ⟨bs, t, hmore, hfinal, Final.done hfinal ht⟩

/-- From the start, with the file of one byte. -/
theorem transfer_ends_oneByte :
    ∃ s₀ bs t, start oneByteLibraries oneByteFile 0 = some s₀ ∧
      Runs.run (step oneByteLibraries oneByteFile) s₀ bs = some t ∧
      Done oneByteLibraries oneByteFile t := by
  obtain ⟨s₀, hstart, -, hends⟩ := transfer_ends oneByteLibraries oneByteFile (by decide)
    oneByte_headerFits
  obtain ⟨bs, t, hrun, -, hdone⟩ := hends [] s₀ rfl
  exact ⟨s₀, bs, t, hstart, hrun, hdone⟩

end Striped

end FastTransfer.Cli
