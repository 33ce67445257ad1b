import FastTransfer.Cli.CutStreams

/-!
# The transfer over broken connections, start to end

Only chunks of the file are written, each to its place, and the other places of
the output file stay empty. When no step is left, the file is verified just when
the chunks that are missing make no difference.
-/

namespace FastTransfer.Cli

open Tiling Filling

namespace Striped

/-! ## The places of the chunks that are missing -/

section Blank

variable {lib : Libraries} {file : SourceFile} {s s' : Striped} {k : Nat} {st st' : Stream}

/-- Nothing is where no chunk has been written. -/
def Blank (s : Striped) : Prop := ∀ i, s.Missing i → ∀ b ∈ block chunkSize s.output i, b = 0

theorem not_missing {i : Nat} : ¬ s.Missing i ↔ ∃ st ∈ s.streams, i ∈ st.written := by
  simp [Missing]

theorem missing_of_setStream {i : Nat} (hk : s.streams[k]? = some st)
    (hwritten : ∀ j ∈ st.written, j ∈ st'.written) (h : (s.setStream k st').Missing i) :
    s.Missing i := by
  have hlt := (List.getElem?_eq_some_iff.mp hk).1
  intro v hv hi
  obtain ⟨j, hj⟩ := List.mem_iff_getElem?.mp hv
  by_cases hjk : j = k
  · subst hjk
    obtain rfl := Option.some.inj (hj.symm.trans hk)
    exact h st' (List.mem_set hlt st') (hwritten i hi)
  · have hset : (s.streams.set k st')[j]? = some v := by
      rw [List.getElem?_set_ne (Ne.symm hjk), hj]
    exact h v (List.mem_of_getElem? hset) hi

theorem Blank.congr (h : s.Blank) (houtput : s'.output = s.output)
    (hstreams : s'.streams = s.streams) : s'.Blank := by
  intro i hi
  rw [houtput]
  rw [Missing, hstreams] at hi
  exact h i hi

theorem Blank.setStream (h : s.Blank) (hk : s.streams[k]? = some st)
    (hwritten : st'.written = st.written) : (s.setStream k st').Blank := fun i hi =>
  h i (missing_of_setStream hk (fun _ hj => hwritten ▸ hj) hi)

/-- A new file is empty. -/
theorem blank_of_replicate {n : Nat} (h : s.output = List.replicate n 0) : s.Blank := by
  intro i _ b hb
  rw [h] at hb
  exact List.eq_of_mem_replicate (List.mem_of_mem_take (List.mem_of_mem_drop hb))

theorem Blank.step {a : Action} (h : s.Blank) (hs : Striping lib file s)
    (hsize : file.size < 2 ^ 63) (hstep : Striped.step lib file s a = some s') : s'.Blank := by
  cases a with
  | send k =>
      obtain ⟨st, hk, hstep⟩ := Option.bind_eq_some_iff.mp hstep
      obtain ⟨st', hst, hstep⟩ := Option.bind_eq_some_iff.mp hstep
      obtain rfl := Option.some.inj hstep
      obtain ⟨r, n, hc⟩ := hs.streams k st hk
      rw [hs.total] at hst
      exact h.setStream hk (hc.send hsize hst).2.2
  | deliver k l =>
      obtain ⟨st, hk, hstep⟩ := Option.bind_eq_some_iff.mp hstep
      obtain ⟨st', hst, hstep⟩ := Option.bind_eq_some_iff.mp hstep
      obtain rfl := Option.some.inj hstep
      obtain ⟨r, n, hc⟩ := hs.streams k st hk
      exact h.setStream hk (hc.deliver hst).2.2
  | recvHeader =>
      cases hphase : s.phase with
      | running header | failed => simp [Striped.step, hphase] at hstep
      | awaiting =>
          simp only [Striped.step, hphase] at hstep
          obtain ⟨st, hk, hstep⟩ := Option.bind_eq_some_iff.mp hstep
          cases hrecv : recvMessage st.arrived with
          | ok headerData rest =>
              cases hheader : lib.fromSlice headerData with
              | some header =>
                  simp only [Striped.recvHeader, hrecv, hheader, Option.some.injEq] at hstep
                  subst hstep
                  exact blank_of_replicate rfl
              | none =>
                  simp only [Striped.recvHeader, hrecv, hheader, Option.some.injEq] at hstep
                  subst hstep
                  have hwritten : ({ st with arrived := rest } : Stream).written = st.written := rfl
                  exact (h.setStream hk hwritten).congr rfl rfl
          | short =>
              simp only [Striped.recvHeader, hrecv] at hstep
              split_ifs at hstep
              obtain rfl := Option.some.inj hstep
              exact h.congr rfl rfl
          | failed =>
              simp only [Striped.recvHeader, hrecv, Option.some.injEq] at hstep
              subst hstep
              exact h.congr rfl rfl
  | recv k =>
      cases hphase : s.phase with
      | awaiting | failed => simp [Striped.step, hphase] at hstep
      | running header =>
          simp only [Striped.step, hphase] at hstep
          obtain ⟨st, hk, hstep⟩ := Option.bind_eq_some_iff.mp hstep
          obtain ⟨st', hst, hstep⟩ := Option.bind_eq_some_iff.mp hstep
          obtain rfl := Option.some.inj hstep
          exact h.setStream hk (recv_written hst)
  | write k =>
      obtain ⟨st, hk, hstep⟩ := Option.bind_eq_some_iff.mp hstep
      obtain ⟨⟨st', output⟩, hst, hstep⟩ := Option.bind_eq_some_iff.mp hstep
      obtain rfl := Option.some.inj hstep
      obtain ⟨r, n, hc⟩ := hs.streams k st hk
      rcases hs.receiver with ⟨-, hall⟩ | ⟨-, hfilled⟩
      · simp [Stream.write, (hall st (List.mem_of_getElem? hk)).1] at hst
      · obtain ⟨-, i, hlt, hwritten, rfl⟩ := hc.write hfilled.length hst
        intro j hj
        have hset : (s.setStream k st').Missing j := fun v hv => hj v hv
        have hmissing : s.Missing j :=
          missing_of_setStream hk (fun m hm => by simp [hwritten, hm]) hset
        have hne : j ≠ i := by
          rintro rfl
          exact hset st' (List.mem_set (List.getElem?_eq_some_iff.mp hk).1 st') (by simp [hwritten])
        have hfit : i * chunkSize + (chunk file i).length ≤ s.output.length := by
          have := lt_chunkCount.mp hlt
          rw [length_chunk, hfilled.length, SourceFile.size]
          rw [SourceFile.size] at this
          omega
        have hshort : (chunk file i).length ≤ chunkSize := by
          rw [length_chunk]
          omega
        rw [block_overwrite_ne hshort hfit hne]
        exact h j hmissing

end Blank

/-! ## The results -/

section Results

variable {lib : Libraries} {file : SourceFile} {s s₀ s' : Striped} {k : Nat} {st : Stream}

/-- The invariant: beside the transfer stands one without cuts. -/
structure Cutting (lib : Libraries) (file : SourceFile) (s s₀ : Striped) : Prop where
  shadowed : Shadowed s s₀
  striping : Striping lib file s₀
  blank : s₀.Blank

theorem Cutting.step {a : CutAction} (h : Cutting lib file s s₀) (hsize : file.size < 2 ^ 63)
    (hfits : HeaderFits lib file) (hs : cutStep lib file s a = some s') :
    ∃ s₀', Cutting lib file s' s₀' := by
  cases a with
  | act a =>
      rcases h.shadowed.step hs with hsame | ⟨s₀', hs₀, hnext⟩
      · exact ⟨s₀, hsame, h.striping, h.blank⟩
      · exact ⟨s₀', hnext, h.striping.step hsize hfits hs₀, h.blank.step h.striping hsize hs₀⟩
  | cut k n =>
      obtain ⟨st, hk, hs⟩ := Option.bind_eq_some_iff.mp hs
      obtain ⟨st', hst, hs⟩ := Option.bind_eq_some_iff.mp hs
      obtain rfl := Option.some.inj hs
      obtain ⟨st₀, hk₀, hshadow⟩ := h.shadowed.get hk
      obtain ⟨r, m, hc⟩ := h.striping.streams k st₀ hk₀
      exact ⟨s₀.setStream k (st₀.restored n), h.shadowed.setStream k (hshadow.cut hst),
        h.striping.setStream hk₀ ⟨r, m, hc.restored n⟩ (fun _ => rfl) rfl,
        h.blank.setStream hk₀ rfl⟩

theorem Cutting.missing_iff (h : Cutting lib file s s₀) (i : Nat) : s.Missing i ↔ s₀.Missing i := by
  constructor
  · intro hi st₀ hst₀
    obtain ⟨k, hk₀⟩ := List.mem_iff_getElem?.mp hst₀
    have hlt : k < s.streams.length :=
      h.shadowed.length ▸ (List.getElem?_eq_some_iff.mp hk₀).1
    have hk := List.getElem?_eq_getElem hlt
    rw [← (h.shadowed.streams k _ st₀ hk hk₀).written]
    exact hi _ (List.getElem_mem hlt)
  · intro hi st hst
    obtain ⟨k, hk⟩ := List.mem_iff_getElem?.mp hst
    obtain ⟨st₀, hk₀, hshadow⟩ := h.shadowed.get hk
    rw [hshadow.written]
    exact hi st₀ (List.mem_of_getElem? hk₀)

/-- What the receiver has read is the header that was sent. -/
theorem Cutting.running (h : Cutting lib file s s₀) {header : FileHeader}
    (hphase : s.phase = .running header) :
    header = fileHeader lib file (chunkCount file) ∧
      Filled chunkSize file.bytes s.output fun i => ¬ s.Missing i := by
  have hphase₀ : s₀.phase = .running header := by
    rw [← h.shadowed.phase.resolve_right (by simp [hphase]), hphase]
  rcases h.striping.receiver with ⟨hwaiting, -⟩ | ⟨hrunning, hfilled⟩
  · simp [hwaiting] at hphase₀
  · refine ⟨Phase.running.inj (hphase₀.symm.trans hrunning), h.shadowed.output ▸ hfilled.mono ?_⟩
    intro i hi
    exact not_missing.mp fun hmissing => hi ((h.missing_iff i).mpr hmissing)

theorem Received.written {r : Nat} {receiving : Receiving} {written : List Nat}
    (h : Received file k r receiving written) :
    ∃ m ≤ r, written = (List.range m).map (Cli.stripe k) ∧ (receiving = .ended → m = r) := by
  cases h with
  | reading => exact ⟨r, Nat.le_refl r, rfl, fun _ => rfl⟩
  | writing m => exact ⟨m, Nat.le_succ m, rfl, by simp⟩
  | ended => exact ⟨r, Nat.le_refl r, rfl, fun _ => rfl⟩

theorem Cutting.lt_of_written (h : Cutting lib file s s₀) {i : Nat} (hi : ¬ s.Missing i) :
    i < chunkCount file ∧ s₀.phase ≠ .awaiting := by
  rw [h.missing_iff, not_missing] at hi
  obtain ⟨st₀, hst₀, hi⟩ := hi
  obtain ⟨k, hk₀⟩ := List.mem_iff_getElem?.mp hst₀
  obtain ⟨r, n, hc⟩ := h.striping.streams k st₀ hk₀
  constructor
  · obtain ⟨m, hm, hwritten, -⟩ := Received.written hc.received
    rw [hwritten] at hi
    obtain ⟨l, hl, rfl⟩ := List.mem_map.mp hi
    exact hc.below l (by have := List.mem_range.mp hl; omega)
  · intro hphase
    rcases h.striping.receiver with ⟨-, hall⟩ | ⟨hrunning, -⟩
    · rw [(hall st₀ hst₀).2] at hi
      exact List.not_mem_nil hi
    · simp [hrunning] at hphase

/-- A task that found the marker has written its whole stripe. -/
theorem Cutting.stripe_written (h : Cutting lib file s s₀) (hk : s.streams[k]? = some st)
    (hended : st.receiving = .ended) {i : Nat} (hi : i < chunkCount file)
    (hmod : i % numStreams = k) : i ∈ st.written := by
  obtain ⟨st₀, hk₀, hshadow⟩ := h.shadowed.get hk
  have hended₀ : st₀.receiving = .ended := by
    rcases hshadow.receiving with heq | ⟨hfailed, -⟩
    · rw [← heq, hended]
    · simp [hfailed] at hended
  obtain ⟨r, n, hc⟩ := h.striping.streams k st₀ hk₀
  obtain ⟨rfl, hsending⟩ := hc.ended hended₀
  obtain ⟨m, -, hwritten, hm⟩ := Received.written hc.received
  obtain rfl := hm hended₀
  have hall : chunkCount file ≤ Cli.stripe k (m + 0) := by
    refine (hc.sending.resolve_left fun hrun => ?_).2
    simp [hsending] at hrun
  have hstripe : i = Cli.stripe k (i / numStreams) := by
    rw [Cli.stripe, ← hmod, Nat.mod_add_div]
  have hlt : i / numStreams < m := by
    simp only [Cli.stripe, numStreams] at hall hstripe ⊢
    omega
  rw [hshadow.written, hwritten, hstripe]
  exact List.mem_map_of_mem (List.mem_range.mpr hlt)

theorem Cutting.sound (h : Cutting lib file s s₀) : CutSound lib file s := by
  have htotal : s.totalChunks = chunkCount file := h.shadowed.totalChunks.trans h.striping.total
  refine ⟨?_, ?_, ?_, ?_, ?_⟩
  · intro st hst hpanic
    obtain ⟨k, hk⟩ := List.mem_iff_getElem?.mp hst
    obtain ⟨st₀, hk₀, hshadow⟩ := h.shadowed.get hk
    obtain ⟨r, n, hc⟩ := h.striping.streams k st₀ hk₀
    have hreceived := hc.received
    rw [← hshadow.receiving.resolve_right (by simp [hpanic]), hpanic] at hreceived
    cases hreceived
  · intro header hphase
    obtain ⟨rfl, hfilled⟩ := h.running hphase
    exact ⟨by rw [htotal], hfilled.length⟩
  · intro i hi
    obtain ⟨hlt, hphase₀⟩ := h.lt_of_written hi
    refine ⟨htotal ▸ hlt, ?_⟩
    rcases h.striping.receiver with ⟨hwaiting, -⟩ | ⟨-, hfilled⟩
    · exact absurd hwaiting hphase₀
    · rw [h.shadowed.output]
      rw [h.missing_iff, not_missing] at hi
      exact hfilled.blocks i hi
  · intro i hi
    rw [h.shadowed.output]
    exact h.blank i ((h.missing_iff i).mp hi)
  · intro k st hk hended i hi hmod
    exact h.stripe_written hk hended (htotal ▸ hi) hmod

/-- The output file is the source just when the missing chunks are zeros. -/
theorem Cutting.output_eq_iff (h : Cutting lib file s s₀) {header : FileHeader}
    (hphase : s.phase = .running header) : s.output = file.bytes ↔
      ∀ i < chunkCount file, s.Missing i → ∀ b ∈ block chunkSize file.bytes i, b = 0 := by
  obtain ⟨-, hfilled⟩ := h.running hphase
  have hblank := h.sound.missing
  constructor
  · intro heq i _ hi
    rw [← heq]
    exact hblank i hi
  · intro hzero
    have hblocks : ∀ i < chunkCount file,
        block chunkSize s.output i = block chunkSize file.bytes i := by
      intro i hi
      by_cases hmissing : s.Missing i
      · rw [List.eq_replicate_of_mem (hblank i hmissing),
          List.eq_replicate_of_mem (hzero i hi hmissing), length_block, length_block,
          hfilled.length]
      · exact hfilled.blocks i hmissing
    have hall : Filled chunkSize file.bytes s.output fun i => i < chunkCount file :=
      ⟨hfilled.length, hblocks⟩
    exact hall.eq chunkSize_pos fun i hi => hi

/-- When no step is left, the receiver has seen the end of each stream. -/
theorem Cutting.ends (h : Cutting lib file s s₀) (hfinal : Final lib file s) :
    s.phase = .failed ∨ (∃ header, s.phase = .running header) ∧
      ∀ st ∈ s.streams, st.receiving = .ended ∨ st.receiving = .failed := by
  have hclosed : ∀ (k : Nat) (st : Stream), s.streams[k]? = some st → st.closed = true := by
    intro k st hk
    have hsend := hfinal (.send k)
    simp only [Striped.step, hk, Option.bind_eq_bind, Option.bind_some, Option.bind_eq_none_iff,
      reduceCtorEq, imp_false] at hsend
    refine closed_of_stuck (Option.eq_none_iff_forall_ne_some.mpr hsend) fun l => ?_
    have hdeliver := hfinal (.deliver k l)
    simp only [Striped.step, hk, Option.bind_eq_bind, Option.bind_some, Option.bind_eq_none_iff,
      reduceCtorEq, imp_false] at hdeliver
    exact Option.eq_none_iff_forall_ne_some.mpr hdeliver
  cases hphase : s.phase with
  | failed => exact .inl rfl
  | awaiting =>
      have hlt : s.first < s.streams.length := by
        rw [h.shadowed.first, h.striping.first, h.shadowed.length, h.striping.length]
        decide
      have hk := List.getElem?_eq_getElem hlt
      obtain ⟨s', hs'⟩ := recvHeader_of_closed lib s (hclosed _ _ hk)
      have hnone := hfinal .recvHeader
      simp [Striped.step, hphase, hk, hs'] at hnone
  | running header =>
      refine .inr ⟨⟨header, rfl⟩, fun st hst => ?_⟩
      obtain ⟨k, hk⟩ := List.mem_iff_getElem?.mp hst
      cases hr : st.receiving with
      | ended => exact .inl rfl
      | failed => exact .inr rfl
      | panicked => exact absurd hr (h.sound.noPanic st hst)
      | reading =>
          obtain ⟨st', hst'⟩ := recv_of_closed hr (hclosed k st hk) header.chunkSize
          have hnone := hfinal (.recv k)
          simp [Striped.step, hphase, hk, hst'] at hnone
      | writing index offset data =>
          have hnone := hfinal (.write k)
          simp [Striped.step, hk, Stream.write, hr] at hnone

theorem Cutting.done (h : Cutting lib file s s₀) (hfinal : Final lib file s) :
    CutDone lib file s := by
  have htotal : s.totalChunks = chunkCount file := h.shadowed.totalChunks.trans h.striping.total
  rcases h.ends hfinal with hfailed | ⟨⟨header, hphase⟩, hover⟩
  · refine ⟨.inl hfailed, fun _ => ?_⟩
    simp [verified, hfailed]
  · refine ⟨.inr hover, fun hcollision => ?_⟩
    have hverified : s.verified lib ↔ lib.sha256 s.output = lib.sha256 file.bytes := by
      rw [Striped.verified, hphase, (h.running hphase).1]
      rfl
    have hsame : lib.sha256 s.output = lib.sha256 file.bytes ↔ s.output = file.bytes :=
      ⟨hcollision, congrArg lib.sha256⟩
    rw [hverified, hsame, h.output_eq_iff hphase, htotal]
    simp [hphase]

end Results

/-- **Cut streams**: in every run, whichever streams break and when, the receiving
tasks write nothing but chunks of the file to their places, and when no step is
left the checksum tells a file with missing chunks from the one that was sent. -/
theorem cut_transfer (lib : Libraries) (file : SourceFile) (hsize : file.size < 2 ^ 63)
    (hfits : HeaderFits lib file) :
    ∃ s₀, start lib file 0 = some s₀ ∧ ∀ s, Runs.Reach (cutStep lib file) s₀ s →
      CutSound lib file s ∧ (Final lib file s → CutDone lib file s) := by
  obtain ⟨s₀, hstart, h₀⟩ := striping_start lib file hsize
  have hblank₀ : s₀.Blank := by
    rw [start, Option.bind_eq_bind, Option.bind_eq_some_iff] at hstart
    obtain ⟨totalChunks, -, hs₀⟩ := hstart
    have houtput : s₀.output = List.replicate 0 0 := (Option.some.inj hs₀) ▸ rfl
    exact blank_of_replicate houtput
  refine ⟨s₀, hstart, fun s h => ?_⟩
  have hcutting₀ : Cutting lib file s₀ s₀ := ⟨Shadowed.refl s₀, h₀, hblank₀⟩
  have hinv : ∃ t, Cutting lib file s t := by
    apply Runs.Reach.invariant (I := fun s => ∃ t, Cutting lib file s t) h ⟨s₀, hcutting₀⟩
    intro u a u' hu hstep
    obtain ⟨t, ht⟩ := hu
    exact ht.step hsize hfits hstep
  obtain ⟨t, ht⟩ := hinv
  exact ⟨ht.sound, ht.done⟩

/-- A state is final when every stream is closed and no task has more to do. -/
theorem final_of_closed {lib : Libraries} {file : SourceFile} {s : Striped}
    (hover : ∀ st ∈ s.streams,
      st.closed = true ∧ (st.receiving = .ended ∨ st.receiving = .failed))
    (hphase : s.phase ≠ .awaiting) : Final lib file s := by
  intro a
  cases hstep : step lib file s a with
  | none => rfl
  | some s' =>
      cases a with
      | send k =>
          obtain ⟨st, hk, hs⟩ := Option.bind_eq_some_iff.mp hstep
          obtain ⟨st', hst, -⟩ := Option.bind_eq_some_iff.mp hs
          have hclosed := (hover st (List.mem_of_getElem? hk)).1
          simp [send_closed hst] at hclosed
      | deliver k n =>
          obtain ⟨st, hk, hs⟩ := Option.bind_eq_some_iff.mp hstep
          obtain ⟨st', hst, -⟩ := Option.bind_eq_some_iff.mp hs
          have hclosed := (hover st (List.mem_of_getElem? hk)).1
          simp [deliver_closed hst] at hclosed
      | recvHeader =>
          cases hp : s.phase with
          | awaiting => exact absurd hp hphase
          | running header | failed => simp [step, hp] at hstep
      | recv k =>
          cases hp : s.phase with
          | awaiting | failed => simp [step, hp] at hstep
          | running header =>
              simp only [step, hp] at hstep
              obtain ⟨st, hk, hs⟩ := Option.bind_eq_some_iff.mp hstep
              rcases (hover st (List.mem_of_getElem? hk)).2 with hr | hr
              · simp [Stream.recv, hr] at hs
              · simp [Stream.recv, hr] at hs
      | write k =>
          obtain ⟨st, hk, hs⟩ := Option.bind_eq_some_iff.mp hstep
          rcases (hover st (List.mem_of_getElem? hk)).2 with hr | hr
          · simp [Stream.write, hr] at hs
          · simp [Stream.write, hr] at hs

/-- The file of one byte again; the first stream breaks in the middle of its chunk. -/
def oneByteCutRun : List CutAction :=
  [.act (.send 0), .act (.deliver 0 oneByteJson.length), .act (.deliver 0 15), .act .recvHeader,
    .cut 0 5, .act (.recv 0)] ++
    ((List.range numStreams).tail.flatMap fun k =>
      [.act (.send k), .act (.deliver k 12), .act (.recv k)])

def oneByteCutEnd : Option Striped :=
  (start oneByteLibraries oneByteFile 0).bind fun s₀ =>
    Runs.run (cutStep oneByteLibraries oneByteFile) s₀ oneByteCutRun

theorem oneByteCutEnd_final : ∃ s ∈ oneByteCutEnd, Final oneByteLibraries oneByteFile s ∧
    s.phase ≠ .failed ∧ s.output = [0] ∧ s.totalChunks = 1 ∧ s.Missing 0 := by
  have hsome : oneByteCutEnd.isSome := by decide +kernel
  have hend : ∀ s ∈ oneByteCutEnd, (∀ st ∈ s.streams,
      st.closed = true ∧ (st.receiving = .ended ∨ st.receiving = .failed)) ∧
        s.phase ≠ .awaiting ∧
        s.phase ≠ .failed ∧ s.output = [0] ∧ s.totalChunks = 1 ∧ s.Missing 0 := by
    decide +kernel
  obtain ⟨s, hs⟩ := Option.isSome_iff_exists.mp hsome
  obtain ⟨hover, hphase, hrest⟩ := hend s hs
  exact ⟨s, hs, final_of_closed hover hphase, hrest⟩

/-- The byte is missing, and the checksum tells. -/
theorem cut_transfer_oneByte :
    ∃ s₀ s, start oneByteLibraries oneByteFile 0 = some s₀ ∧
      Runs.run (cutStep oneByteLibraries oneByteFile) s₀ oneByteCutRun = some s ∧
      CutSound oneByteLibraries oneByteFile s ∧ ¬ s.verified oneByteLibraries := by
  obtain ⟨s₀, hstart, hall⟩ := cut_transfer oneByteLibraries oneByteFile (by decide)
    oneByte_headerFits
  obtain ⟨s, hs, hfinal, hphase, houtput, htotal, hmissing⟩ := oneByteCutEnd_final
  have hrun : Runs.run (cutStep oneByteLibraries oneByteFile) s₀ oneByteCutRun = some s := by
    rwa [oneByteCutEnd, hstart, Option.bind_some] at hs
  obtain ⟨hsound, hdone⟩ := hall s (Runs.reach_of_run oneByteCutRun hrun)
  have hdiffer : oneByteLibraries.sha256 [0] ≠ oneByteLibraries.sha256 oneByteFile.bytes := by
    decide +kernel
  refine ⟨s₀, s, hstart, hrun, hsound, fun hverified => ?_⟩
  have hzero := (((hdone hfinal).verified fun heq => absurd (houtput ▸ heq) hdiffer).mp hverified).2
    0 (by omega) hmissing
  exact absurd hzero (by decide +kernel)

end Striped

end FastTransfer.Cli
