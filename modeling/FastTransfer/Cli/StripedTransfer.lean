import Mathlib.Data.List.Nodup
import FastTransfer.Cli.StripedRuns
import FastTransfer.Cli.StripedWork

/-!
# The striped transfer, start to end

What holds in every state of the transfer, and what holds when no step is left:
the ranges that the sending tasks read tile the file, and the output file is the
source.
-/

namespace FastTransfer.Cli

open Tiling Filling

namespace Striped

/-- All ranges that were read and sent. -/
def sent (s : Striped) : List ReadRange := s.streams.flatMap (·.sent)

/-- What holds at every moment. -/
structure Sound (file : SourceFile) (s : Striped) : Prop where
  totalChunks : Cli.totalChunks file.size = some s.totalChunks
  /-- Each stream sends its own indices, with ranges within the file. -/
  ranges : ∀ k st, s.streams[k]? = some st → ∀ e ∈ st.sent,
    e.index % numStreams = k ∧ e.index < s.totalChunks ∧ e.index ≠ u64Max ∧
      e.offset = e.index * chunkSize ∧ 0 < e.size ∧ e.offset + e.size ≤ file.size
  once : (s.sent.map (·.index)).Nodup
  disjoint : ∀ e ∈ s.sent, ∀ e' ∈ s.sent, e ≠ e' →
    e.offset + e.size ≤ e'.offset ∨ e'.offset + e'.size ≤ e.offset
  running : ∀ st ∈ s.streams,
    st.sending ≠ .panicked ∧ st.receiving ≠ .panicked ∧ st.receiving ≠ .failed
  phase : s.phase ≠ .failed

/-- What holds at the end. -/
structure Done (lib : Libraries) (file : SourceFile) (s : Striped) : Prop where
  sent : (s.sent.map (·.index)).Perm (List.range s.totalChunks)
  covered : ∀ b < file.size, ∃ e ∈ s.sent, e.offset ≤ b ∧ b < e.offset + e.size
  ended : ∀ st ∈ s.streams, st.receiving = .ended
  output : s.output = file.bytes
  verified : s.verified lib

/-- No step is left. -/
def Final (lib : Libraries) (file : SourceFile) (s : Striped) : Prop :=
  ∀ a, step lib file s a = none

section Invariant

variable {lib : Libraries} {file : SourceFile} {s : Striped}

/-- Every range that was sent is the one of its chunk. -/
theorem Striping.mem_sent (h : Striping lib file s) {k : Nat} {st : Stream}
    (hk : s.streams[k]? = some st) {e : ReadRange} (he : e ∈ st.sent) :
    ∃ m, stripe k m < chunkCount file ∧ e = rangeOf file (stripe k m) := by
  obtain ⟨r, n, hc⟩ := h.streams k st hk
  rw [hc.sent] at he
  obtain ⟨m, hm, rfl⟩ := List.mem_map.mp he
  exact ⟨m, hc.below m (List.mem_range.mp hm), rfl⟩

theorem Striping.lt_numStreams (h : Striping lib file s) {k : Nat} {st : Stream}
    (hk : s.streams[k]? = some st) : k < numStreams :=
  h.length ▸ (List.getElem?_eq_some_iff.mp hk).1

theorem stripe_mod {k : Nat} (hk : k < numStreams) (m : Nat) : stripe k m % numStreams = k := by
  rw [stripe, Nat.add_mul_mod_self_left, Nat.mod_eq_of_lt hk]

theorem stripe_inj {k m m' : Nat} (h : stripe k m = stripe k m') : m = m' := by
  simp only [stripe, numStreams] at h
  omega

theorem sent_eq_rangeOf (h : Striping lib file s) {e : ReadRange} (he : e ∈ s.sent) :
    e.index < chunkCount file ∧ e = rangeOf file e.index := by
  obtain ⟨st, hst, he⟩ := List.mem_flatMap.mp he
  obtain ⟨k, hk⟩ := List.mem_iff_getElem?.mp hst
  obtain ⟨m, hlt, rfl⟩ := h.mem_sent hk he
  exact ⟨hlt, rfl⟩

/-- No index is sent twice: not by one stream, and not by two. -/
theorem Striping.sent_nodup (h : Striping lib file s) : (s.sent.map (·.index)).Nodup := by
  rw [sent, List.map_flatMap, List.nodup_flatMap]
  constructor
  · intro st hst
    obtain ⟨k, hk⟩ := List.mem_iff_getElem?.mp hst
    obtain ⟨r, n, hc⟩ := h.streams k st hk
    rw [hc.sent, List.map_map]
    exact List.Nodup.map (fun _ _ heq => stripe_inj heq) List.nodup_range
  · apply List.pairwise_iff_getElem.mpr
    intro k k' hk hk' hlt i hi hi'
    obtain ⟨e, he, rfl⟩ := List.mem_map.mp hi
    obtain ⟨e', he', heq⟩ := List.mem_map.mp hi'
    have hget := List.getElem?_eq_getElem hk
    have hget' := List.getElem?_eq_getElem hk'
    obtain ⟨m, -, rfl⟩ := h.mem_sent hget he
    obtain ⟨m', -, rfl⟩ := h.mem_sent hget' he'
    -- the index tells the stream
    have hmod := stripe_mod (h.lt_numStreams hget) m
    have hmod' := stripe_mod (h.lt_numStreams hget') m'
    have heq' : stripe k' m' = stripe k m := heq
    rw [heq', hmod] at hmod'
    omega

theorem Striping.sound (h : Striping lib file s) (hsize : file.size < 2 ^ 63) :
    Sound file s where
  totalChunks := h.total ▸ totalChunks_eq hsize
  ranges := by
    intro k st hk e he
    obtain ⟨m, hlt, rfl⟩ := h.mem_sent hk he
    have hoff := lt_chunkCount.mp hlt
    refine ⟨stripe_mod (h.lt_numStreams hk) m, h.total ▸ hlt, ne_marker hsize hlt, rfl, ?_, ?_⟩
    · have := chunkSize_pos
      rw [rangeOf_size]
      omega
    · rw [rangeOf_offset, rangeOf_size]
      omega
  once := h.sent_nodup
  disjoint := by
    intro e he e' he' hne
    obtain ⟨-, heq⟩ := sent_eq_rangeOf h he
    obtain ⟨-, heq'⟩ := sent_eq_rangeOf h he'
    have hidx : e.index ≠ e'.index := fun hi => hne (by rw [heq, heq', hi])
    rw [heq, heq']
    simp only [rangeOf_offset, rangeOf_size]
    rcases Nat.lt_or_gt_of_ne hidx with hlt | hgt
    · have := Nat.mul_le_mul_right chunkSize (Nat.succ_le_of_lt hlt)
      rw [Nat.succ_mul] at this
      exact .inl (by omega)
    · have := Nat.mul_le_mul_right chunkSize (Nat.succ_le_of_lt hgt)
      rw [Nat.succ_mul] at this
      exact .inr (by omega)
  running := by
    intro st hst
    obtain ⟨k, hk⟩ := List.mem_iff_getElem?.mp hst
    obtain ⟨r, n, hc⟩ := h.streams k st hk
    refine ⟨?_, ?_⟩
    · rcases hc.sending with hrun | ⟨hended, -⟩
      · simp [hrun]
      · simp [hended]
    · have hr := hc.received
      constructor
      · intro hpanic
        rw [hpanic] at hr
        cases hr
      · intro hfail
        rw [hfail] at hr
        cases hr
  phase := by
    rcases h.receiver with ⟨hphase, -⟩ | ⟨hphase, -⟩
    · simp [hphase]
    · simp [hphase]

end Invariant

/-! ## The final states -/

section Final

variable {lib : Libraries} {file : SourceFile} {s : Striped} {k : Nat} {st : Stream}

/-- In a final state nothing more arrives on a stream. -/
theorem Final.closed (h : Final lib file s) (hs : Striping lib file s)
    (hk : s.streams[k]? = some st) : st.closed = true := by
  obtain ⟨r, n, hc⟩ := hs.streams k st hk
  have hsend := h (.send k)
  have hdeliver := h (.deliver k st.inFlight.length)
  simp only [step, hk, Option.bind_eq_bind, Option.bind_some, Option.bind_eq_none_iff,
    reduceCtorEq, imp_false] at hsend hdeliver
  have hended : st.sending = .ended := by
    refine (hc.sending.resolve_left fun hrun => ?_).1
    simp only [Stream.send, hrun] at hsend
    split_ifs at hsend
    · cases hread : readRange file (stripe k (r + n)) with
      | none => simp [hread] at hsend
      | some x => simp [hread] at hsend
    · simp at hsend
  have hnil : st.inFlight = [] := by
    by_contra hne
    have hpos := List.length_pos_iff.mpr hne
    simp [Stream.deliver, hpos] at hdeliver
  simp [Stream.closed, hended, hnil]

/-- On a closed stream every attempt to read ends. -/
theorem recv_of_closed (hreading : st.receiving = .reading) (hclosed : st.closed = true)
    (chunkSize : Nat) : ∃ st', st.recv chunkSize = some st' := by
  simp only [Stream.recv, hreading, hclosed, if_true]
  split
  · exact ⟨_, rfl⟩
  · exact ⟨_, rfl⟩
  · exact ⟨_, rfl⟩

theorem recvHeader_of_closed (lib : Libraries) (s : Striped) (hclosed : st.closed = true) :
    ∃ s', s.recvHeader lib st = some s' := by
  simp only [recvHeader, hclosed, if_true]
  split
  · split
    · exact ⟨_, rfl⟩
    · exact ⟨_, rfl⟩
  · exact ⟨_, rfl⟩
  · exact ⟨_, rfl⟩

/-- In a final state the receiver has read the header. -/
theorem Final.phase (h : Final lib file s) (hs : Striping lib file s) :
    s.phase = .running (fileHeader lib file (chunkCount file)) ∧
      Filled chunkSize file.bytes s.output fun i => ∃ st ∈ s.streams, i ∈ st.written := by
  apply hs.receiver.resolve_left
  intro hwaiting
  have hphase := hwaiting.1
  have hlt : s.first < s.streams.length := by
    rw [hs.first, hs.length]
    decide
  have hk := List.getElem?_eq_getElem hlt
  obtain ⟨s', hs'⟩ := recvHeader_of_closed lib s (h.closed hs hk)
  have hnone := h .recvHeader
  simp [step, hphase, hk, hs'] at hnone

/-- **In a final state every receiving task has ended**, at its marker. -/
theorem Final.ended (h : Final lib file s) (hs : Striping lib file s)
    (hk : s.streams[k]? = some st) : st.receiving = .ended := by
  obtain ⟨r, n, hc⟩ := hs.streams k st hk
  obtain ⟨hphase, -⟩ := h.phase hs
  have hr := hc.received
  cases hrecv : st.receiving with
  | ended => rfl
  | reading =>
      obtain ⟨st', hst⟩ := recv_of_closed hrecv (h.closed hs hk) chunkSize
      have hnone := h (.recv k)
      simp [step, hphase, hk, fileHeader, hst] at hnone
  | writing index offset data =>
      have hnone := h (.write k)
      simp [step, hk, Stream.write, hrecv] at hnone
  | failed | panicked =>
      rw [hrecv] at hr
      cases hr

/-- A stream whose receiver has ended has carried its whole stripe. -/
theorem Final.stripe (h : Final lib file s) (hs : Striping lib file s)
    (hk : s.streams[k]? = some st) {m : Nat} (hm : Cli.stripe k m < chunkCount file) :
    Cli.stripe k m ∈ st.written ∧ rangeOf file (Cli.stripe k m) ∈ st.sent := by
  obtain ⟨r, n, hc⟩ := hs.streams k st hk
  have hended := h.ended hs hk
  obtain ⟨rfl, hsending⟩ := hc.ended hended
  have hall : chunkCount file ≤ Cli.stripe k (r + 0) := by
    refine (hc.sending.resolve_left fun hrun => ?_).2
    simp [hsending] at hrun
  have hmr : m < r := by
    simp only [Cli.stripe, numStreams] at hm hall
    omega
  have hr := hc.received
  rw [hended] at hr
  rw [hc.sent]
  refine ⟨?_, List.mem_map.mpr ⟨m, List.mem_range.mpr (show m < r + 0 by omega), rfl⟩⟩
  generalize st.written = written at hr
  cases hr with
  | ended r => exact List.mem_map_of_mem (List.mem_range.mpr hmr)

/-- Every index is on the stripe of one of the streams. -/
theorem exists_stripe (hs : Striping lib file s) (i : Nat) :
    ∃ k m st, i = stripe k m ∧ s.streams[k]? = some st := by
  have hlt : i % numStreams < s.streams.length := by
    rw [hs.length]
    exact Nat.mod_lt _ (by decide)
  exact ⟨i % numStreams, i / numStreams, _, (Nat.mod_add_div i numStreams).symm,
    List.getElem?_eq_getElem hlt⟩

theorem Final.done (h : Final lib file s) (hs : Striping lib file s) : Done lib file s := by
  obtain ⟨hphase, hfilled⟩ := h.phase hs
  have houtput : s.output = file.bytes := by
    apply hfilled.eq chunkSize_pos
    intro i hi
    obtain ⟨k, m, st, rfl, hk⟩ := exists_stripe hs i
    exact ⟨st, List.mem_of_getElem? hk, (h.stripe hs hk hi).1⟩
  have hsent : ∀ i < chunkCount file, rangeOf file i ∈ s.sent := by
    intro i hi
    obtain ⟨k, m, st, rfl, hk⟩ := exists_stripe hs i
    exact List.mem_flatMap.mpr ⟨st, List.mem_of_getElem? hk, (h.stripe hs hk hi).2⟩
  refine ⟨?_, ?_, ?_, houtput, ?_⟩
  · rw [List.perm_ext_iff_of_nodup hs.sent_nodup List.nodup_range, hs.total]
    intro i
    rw [List.mem_range]
    constructor
    · intro hi
      obtain ⟨e, he, rfl⟩ := List.mem_map.mp hi
      exact (sent_eq_rangeOf hs he).1
    · exact fun hi => List.mem_map.mpr ⟨_, hsent i hi, rfl⟩
  · intro b hb
    -- the chunk that the byte is in
    have hdiv := Nat.div_add_mod b chunkSize
    have hmod := Nat.mod_lt b chunkSize_pos
    rw [Nat.mul_comm] at hdiv
    have hi : b / chunkSize < chunkCount file :=
      lt_chunkCount.mpr (show b / chunkSize * chunkSize < file.size by omega)
    refine ⟨_, hsent _ hi, ?_, ?_⟩
    · rw [rangeOf_offset]
      omega
    · rw [rangeOf_offset, rangeOf_size]
      omega
  · intro st hst
    obtain ⟨k, hk⟩ := List.mem_iff_getElem?.mp hst
    exact h.ended hs hk
  · rw [Striped.verified, hphase, houtput]
    rfl

end Final

/-- **The striped transfer**: in every run, whatever the interleaving, the tasks
send each chunk once and none of them fails. No run has more steps than there is
work at its start, so that every run comes to a state without a step, and there
all receiving tasks have ended at their marker and the output file is the source
file. -/
theorem striped_transfer (lib : Libraries) (file : SourceFile) (hsize : file.size < 2 ^ 63)
    (hfits : HeaderFits lib file) :
    ∃ s₀, start lib file 0 = some s₀ ∧
      (∀ as s, Runs.run (step lib file) s₀ as = some s → as.length + s.work ≤ s₀.work) ∧
      ∀ s, Runs.Reach (step lib file) s₀ s →
        Sound file s ∧ (Final lib file s → Done lib file s) := by
  obtain ⟨s₀, hstart, h₀⟩ := striping_start lib file hsize
  refine ⟨s₀, hstart, fun as s hrun => ?_, fun s h => ?_⟩
  · exact Runs.length_le_of_decreasing (fun _ _ _ hs => step_work hs) hrun
  have hs : Striping lib file s := h.invariant h₀ fun _ _ _ hu hstep => hu.step hsize hfits hstep
  exact ⟨hs.sound hsize, fun hfinal => hfinal.done hs⟩

/-- A state is final when nothing is on the wire and all tasks have ended, or the
receiver has failed before it started its own. -/
theorem final_of_ended {lib : Libraries} {file : SourceFile} {s : Striped}
    (hended : ∀ st ∈ s.streams, st.sending = .ended ∧ st.inFlight = [] ∧
      (st.receiving = .ended ∨ s.phase = .failed ∧ st.receiving = .reading))
    (hphase : s.phase ≠ .awaiting) : Final lib file s := by
  intro a
  cases hstep : step lib file s a with
  | none => rfl
  | some s' =>
      cases a with
      | send k =>
          obtain ⟨st, hk, hs⟩ := Option.bind_eq_some_iff.mp hstep
          simp [Stream.send, (hended st (List.mem_of_getElem? hk)).1] at hs
      | deliver k n =>
          obtain ⟨st, hk, hs⟩ := Option.bind_eq_some_iff.mp hstep
          simp only [Stream.deliver, (hended st (List.mem_of_getElem? hk)).2.1] at hs
          rw [if_neg (by simp only [List.length_nil]; omega)] at hs
          simp at hs
      | recvHeader =>
          cases hp : s.phase with
          | awaiting => exact absurd hp hphase
          | running header | failed => simp [step, hp] at hstep
      | recv k =>
          cases hp : s.phase with
          | awaiting | failed => simp [step, hp] at hstep
          | running header =>
              simp only [step, hp] at hstep
              obtain ⟨st, hk, hs⟩ := Option.bind_eq_some_iff.mp hstep
              rcases (hended st (List.mem_of_getElem? hk)).2.2 with hrecv | ⟨hfailed, -⟩
              · simp [Stream.recv, hrecv] at hs
              · simp [hp] at hfailed
      | write k =>
          obtain ⟨st, hk, hs⟩ := Option.bind_eq_some_iff.mp hstep
          rcases (hended st (List.mem_of_getElem? hk)).2.2 with hrecv | ⟨-, hrecv⟩
          · simp [Stream.write, hrecv] at hs
          · simp [Stream.write, hrecv] at hs

/-! ## A file of one byte -/

def oneByteFile : SourceFile := ⟨"a", [7]⟩

/-- The header of this file, and its JSON text. -/
def oneByteHeader : FileHeader where
  name := "a"
  size := 1
  totalChunks := 1
  numStreams := 8
  chunkSize := 1048576
  checksum := "ca358758f6d27e6cf45272937977a748fd88391db679ceda7dc7bf1f005ee879"

def oneByteJson : Bytes :=
  ("\x7b\"name\":\"a\",\"size\":1,\"total_chunks\":1,\"num_streams\":8,\"chunk_size\":1048576," ++
    "\"checksum\":\"ca358758f6d27e6cf45272937977a748fd88391db679ceda7dc7bf1f005ee879\"\x7d"
    ).toUTF8.data.toList

/-- The libraries, as far as this file needs them. -/
def oneByteLibraries : Libraries where
  toVec header := if header = oneByteHeader then oneByteJson else []
  fromSlice json := if json = oneByteJson then some oneByteHeader else none
  sha256 bytes := if bytes = [7] then oneByteHeader.checksum else ""

theorem oneByte_headerFits : HeaderFits oneByteLibraries oneByteFile where
  fromSlice := by decide +kernel
  length := by decide +kernel

/-- Stream by stream, each byte string in one piece. -/
def oneByteRun : List Action :=
  [.send 0, .deliver 0 oneByteJson.length, .deliver 0 17, .recvHeader, .recv 0, .write 0] ++
    (List.range numStreams).flatMap fun k => [.send k, .deliver k 12, .recv k]

def oneByteEnd : Option Striped :=
  (start oneByteLibraries oneByteFile 0).bind fun s₀ =>
    Runs.run (step oneByteLibraries oneByteFile) s₀ oneByteRun

theorem oneByteEnd_final : ∃ s ∈ oneByteEnd, Final oneByteLibraries oneByteFile s := by
  have hsome : oneByteEnd.isSome := by decide +kernel
  have hended : ∀ s ∈ oneByteEnd, (∀ st ∈ s.streams, st.sending = .ended ∧ st.inFlight = [] ∧
      (st.receiving = .ended ∨ s.phase = .failed ∧ st.receiving = .reading)) ∧
        s.phase ≠ .awaiting := by
    decide +kernel
  obtain ⟨s, hs⟩ := Option.isSome_iff_exists.mp hsome
  obtain ⟨hidle, hphase⟩ := hended s hs
  exact ⟨s, hs, final_of_ended hidle hphase⟩

theorem striped_transfer_oneByte :
    ∃ s₀ s, start oneByteLibraries oneByteFile 0 = some s₀ ∧
      Runs.run (step oneByteLibraries oneByteFile) s₀ oneByteRun = some s ∧
      Done oneByteLibraries oneByteFile s := by
  obtain ⟨s₀, hstart, -, hall⟩ := striped_transfer oneByteLibraries oneByteFile (by decide)
    oneByte_headerFits
  obtain ⟨s, hs, hfinal⟩ := oneByteEnd_final
  have hrun : Runs.run (step oneByteLibraries oneByteFile) s₀ oneByteRun = some s := by
    rwa [oneByteEnd, hstart, Option.bind_some] at hs
  exact ⟨s₀, s, hstart, hrun, (hall s (Runs.reach_of_run oneByteRun hrun)).2 hfinal⟩

end Striped

end FastTransfer.Cli
