import Mathlib.Logic.Equiv.Basic
import FastTransfer.Cli.StripedTransfer

/-!
# Which stream is the first

The sender writes the file header on the stream that it accepted first, and the
receiver reads it from the one that it opened first. The streams carry no
identity, and nothing makes the two orders agree. On any other stream the
receiver finds a chunk, or the end marker, where it expects the header: as both
framings start with the length of what follows, it reads a whole frame, and
takes the index and the data of the chunk for the JSON text.
-/

namespace FastTransfer.Cli

open Framing

instance : NeZero numStreams := ⟨by decide⟩

/-- `serde_json::from_slice` takes JSON text only, which starts neither with a zero
byte nor with `0xff`. -/
structure RejectsBinary (lib : Libraries) : Prop where
  zero : ∀ rest, lib.fromSlice (0 :: rest) = none
  ff : ∀ rest, lib.fromSlice (255 :: rest) = none

/-! ## A chunk read as a message -/

/-- What the sending task of stream `k` sends. -/
inductive Sends (file : SourceFile) (k : Nat) : Nat × Bytes → Prop where
  | chunk (m : Nat) (hlt : stripe k m < chunkCount file) :
      Sends file k (stripe k m, chunk file (stripe k m))
  | marker : Sends file k (u64Max, [])

theorem sendChunk_eq_sendMessage (index : Nat) (data : Bytes) :
    sendChunk index data = sendMessage (BigEndian.toBytes 8 index ++ data) := by
  rw [sendChunk, sendMessage, List.length_append, BigEndian.length_toBytes]

section Sends

variable {lib : Libraries} {file : SourceFile} {k : Nat} {x : Nat × Bytes}

theorem Sends.reads (h : Sends file k x) (hsize : file.size < 2 ^ 63) :
    Reads recvChunk x (sendChunk x.1 x.2) := by
  cases h with
  | chunk m hlt => exact chunk_reads hsize hlt
  | marker => exact marker_reads

theorem Sends.length (h : Sends file k x) : 8 + x.2.length < 2 ^ 32 := by
  cases h with
  | chunk m hlt => exact length_chunk_lt file _
  | marker => decide

theorem Sends.message_reads (h : Sends file k x) :
    Reads recvMessage (BigEndian.toBytes 8 x.1 ++ x.2) (sendChunk x.1 x.2) := by
  rw [sendChunk_eq_sendMessage]
  apply recvMessage_reads
  rw [List.length_append, BigEndian.length_toBytes]
  exact h.length

/-- No frame of a chunk holds a JSON text: its index starts with a zero byte, and
that of the marker with `0xff`. -/
theorem Sends.fromSlice (h : Sends file k x) (hsize : file.size < 2 ^ 63)
    (hjson : RejectsBinary lib) : lib.fromSlice (BigEndian.toBytes 8 x.1 ++ x.2) = none := by
  cases h with
  | chunk m hlt =>
      have hfirst : stripe k m / 256 ^ 7 = 0 := by
        have hindex := lt_of_lt_chunkCount hsize hlt
        exact Nat.div_eq_of_lt (by omega)
      rw [BigEndian.toBytes, hfirst]
      exact hjson.zero _
  | marker => exact hjson.ff _

variable {header : Bytes} {r n : Nat} {st : Stream}

/-- At the front of the wire is a frame, or nothing so far. -/
theorem Carries.front (h : Carries file [] k r n st) (hopen : st.receiving ≠ .ended) :
    (∃ x rest, Sends file k x ∧ st.arrived ++ st.inFlight = sendChunk x.1 x.2 ++ rest) ∨
      (st.arrived = [] ∧ st.closed = false) := by
  have hwire := h.wire
  rw [List.nil_append] at hwire
  cases n with
  | succ n =>
      have hlt : stripe k r < chunkCount file := h.below r (show r < r + (n + 1) by omega)
      rw [List.range'_succ, List.flatMap_cons, List.append_assoc] at hwire
      exact .inl ⟨_, _, .chunk r hlt, hwire⟩
  | zero =>
      simp only [List.range'_zero, List.flatMap_nil, List.nil_append] at hwire
      rcases h.sending with hrun | ⟨hended, -⟩
      · rw [hrun, marker_running] at hwire
        exact .inr ⟨(List.append_eq_nil_iff.mp hwire).1, by simp [Stream.closed, hrun]⟩
      · rw [hended, marker_ended hopen] at hwire
        exact .inl ⟨_, [], .marker, by rw [hwire, List.append_nil]⟩

/-- A receiving task takes a frame off the wire as it was sent. -/
theorem Carries.decoded (h : Carries file [] k r n st) (hsize : file.size < 2 ^ 63)
    (hopen : st.receiving ≠ .ended) {rest : Bytes} (hok : recvChunk st.arrived = .ok x rest) :
    Sends file k x ∧ st.arrived = sendChunk x.1 x.2 ++ rest := by
  rcases h.front hopen with ⟨y, more, hsends, hfront⟩ | ⟨hnil, -⟩
  · rcases (hsends.reads hsize).split hfront with ⟨hshort, -⟩ | ⟨rest', hok', hrest⟩
    · simp [hok] at hshort
    · obtain ⟨rfl, rfl⟩ : x = y ∧ rest = rest' := by simpa [hok] using hok'
      rw [← hrest, ← List.append_assoc] at hfront
      exact ⟨hsends, List.append_cancel_right hfront⟩
  · have hshort : recvChunk [] = .short := rfl
    simp [hnil, hshort] at hok

end Sends

/-! ## The order of the connections -/

namespace Striped

/-- The transfer when the `j`-th connection that the receiver opened is the
`opened j`-th one that the sender accepted. All receiving tasks are alike, so
only the place of the first connection matters. -/
def connect (lib : Libraries) (file : SourceFile) (opened : Equiv.Perm (Fin numStreams)) :
    Option Striped :=
  start lib file (opened 0)

theorem connect_of_first {lib : Libraries} {file : SourceFile}
    {opened : Equiv.Perm (Fin numStreams)} (h : opened 0 = 0) :
    connect lib file opened = start lib file 0 := by
  rw [connect, h, Fin.val_zero]

/-- Nothing is taken for what it is not: a header that was read is the one that
the sender wrote, and what a receiving task gets from `recv_chunk` are the bytes
of a chunk, or of the marker, of its stream. -/
structure Unconfused (lib : Libraries) (file : SourceFile) (s : Striped) : Prop where
  header : ∀ header, s.phase = .running header → header = fileHeader lib file s.totalChunks
  chunks : ∀ header k st x rest, s.phase = .running header → s.streams[k]? = some st →
    st.receiving = .reading → recvChunk st.arrived = .ok x rest →
      Sends file k x ∧ st.arrived = sendChunk x.1 x.2 ++ rest

/-- The receiver has read the header that the sender wrote, and the received file
is the source file. -/
structure Identified (lib : Libraries) (file : SourceFile) (s : Striped) : Prop where
  header : s.phase = .running (fileHeader lib file s.totalChunks)
  output : s.output = file.bytes

section Straight

variable {lib : Libraries} {file : SourceFile} {s : Striped}

theorem Striping.unconfused (h : Striping lib file s) (hsize : file.size < 2 ^ 63) :
    Unconfused lib file s := by
  have hheader : ∀ header, s.phase = .running header →
      header = fileHeader lib file (chunkCount file) := by
    intro header hphase
    rcases h.receiver with ⟨hwaiting, -⟩ | ⟨hrunning, -⟩
    · simp [hphase] at hwaiting
    · simpa [hphase] using hrunning
  constructor
  · rw [h.total]
    exact hheader
  · intro header k st x rest hphase hk hreading hok
    obtain ⟨r, n, hc⟩ := h.streams k st hk
    rw [headerBytes, if_neg (by simp [hphase])] at hc
    exact hc.decoded hsize (by simp [hreading]) hok

theorem Final.identified (h : Final lib file s) (hs : Striping lib file s) :
    Identified lib file s where
  header := by
    rw [hs.total]
    exact (h.phase hs).1
  output := (h.done hs).output

end Straight

/-! ## Another stream in the place of the first -/

/-- The receiver waits for the header on a stream that does not carry it. -/
structure Misplaced (lib : Libraries) (file : SourceFile) (s : Striped) : Prop where
  total : s.totalChunks = chunkCount file
  first : s.first ≠ 0
  phase : s.phase = .awaiting
  streams : ∀ k st, s.streams[k]? = some st →
    (∃ n, Carries file (headerBytes lib file s k) k 0 n st) ∧ st.receiving = .reading

section Misplaced

variable {lib : Libraries} {file : SourceFile} {s s' : Striped} {k : Nat} {st st' : Stream}

theorem Misplaced.setStream (h : Misplaced lib file s)
    (hcarries : ∃ n, Carries file (headerBytes lib file s k) k 0 n st')
    (hreading : st'.receiving = .reading) : Misplaced lib file (s.setStream k st') where
  total := h.total
  first := h.first
  phase := h.phase
  streams j v hv := by
    rcases Tally.getElem?_set_cases hv with ⟨rfl, rfl⟩ | ⟨-, hv⟩
    · exact ⟨hcarries, hreading⟩
    · exact h.streams j v hv

/-- **The receiver fails** on the frame that it takes for the header. -/
theorem Misplaced.recvHeader (h : Misplaced lib file s) (hsize : file.size < 2 ^ 63)
    (hjson : RejectsBinary lib) (hk : s.streams[s.first]? = some st)
    (hs : s.recvHeader lib st = some s') : s'.phase = .failed := by
  obtain ⟨⟨n, hc⟩, hreading⟩ := h.streams s.first st hk
  rw [headerBytes, if_neg fun hfirst => h.first hfirst.1] at hc
  rcases hc.front (by simp [hreading]) with ⟨x, rest, hsends, hfront⟩ | ⟨hnil, hopen⟩
  · rcases hsends.message_reads.split hfront with ⟨hshort, hlt⟩ | ⟨rest', hok, -⟩
    · simp [Striped.recvHeader, hshort, hc.closed_eq_false hfront hlt] at hs
    · simp only [Striped.recvHeader, hok, hsends.fromSlice hsize hjson, Option.some.injEq] at hs
      rw [← hs]
  · have hshort : recvMessage [] = .short := rfl
    simp [Striped.recvHeader, hnil, hshort, hopen] at hs

theorem Misplaced.step {a : Action} (h : Misplaced lib file s) (hsize : file.size < 2 ^ 63)
    (hjson : RejectsBinary lib) (hs : step lib file s a = some s') :
    Misplaced lib file s' ∨ s'.phase = .failed := by
  cases a with
  | send k =>
      obtain ⟨st, hk, hs⟩ := Option.bind_eq_some_iff.mp hs
      obtain ⟨st', hst, hs⟩ := Option.bind_eq_some_iff.mp hs
      obtain rfl := Option.some.inj hs
      obtain ⟨⟨n, hc⟩, hreading⟩ := h.streams k st hk
      rw [h.total] at hst
      obtain ⟨hc', hreceiving, -⟩ := hc.send hsize hst
      exact .inl (h.setStream hc' (hreceiving.trans hreading))
  | deliver k l =>
      obtain ⟨st, hk, hs⟩ := Option.bind_eq_some_iff.mp hs
      obtain ⟨st', hst, hs⟩ := Option.bind_eq_some_iff.mp hs
      obtain rfl := Option.some.inj hs
      obtain ⟨⟨n, hc⟩, hreading⟩ := h.streams k st hk
      obtain ⟨hc', hreceiving, -⟩ := hc.deliver hst
      exact .inl (h.setStream ⟨n, hc'⟩ (hreceiving.trans hreading))
  | recvHeader =>
      simp only [Striped.step, h.phase] at hs
      obtain ⟨st, hk, hs⟩ := Option.bind_eq_some_iff.mp hs
      exact .inr (h.recvHeader hsize hjson hk hs)
  | recv k => simp [Striped.step, h.phase] at hs
  | write k =>
      obtain ⟨st, hk, hs⟩ := Option.bind_eq_some_iff.mp hs
      simp [Stream.write, (h.streams k st hk).2] at hs

/-- A receiver that has failed does nothing more. -/
theorem failed_step {a : Action} (h : s.phase = .failed) (hs : step lib file s a = some s') :
    s'.phase = .failed := by
  cases a with
  | send k | deliver k l | write k =>
      obtain ⟨st, hk, hs⟩ := Option.bind_eq_some_iff.mp hs
      obtain ⟨st', hst, hs⟩ := Option.bind_eq_some_iff.mp hs
      obtain rfl := Option.some.inj hs
      exact h
  | recvHeader | recv k => simp [Striped.step, h] at hs

theorem misplaced_start (lib : Libraries) (file : SourceFile) (hsize : file.size < 2 ^ 63)
    {first : Nat} (hfirst : first ≠ 0) :
    ∃ s, start lib file first = some s ∧ Misplaced lib file s := by
  refine ⟨_, by rw [start, totalChunks_eq hsize, Option.bind_eq_bind, Option.bind_some], rfl,
    hfirst, rfl, ?_⟩
  intro k st hk
  obtain ⟨j, hj, rfl⟩ := Option.map_eq_some_iff.mp (List.getElem?_map .. ▸ hk)
  obtain ⟨-, rfl⟩ := List.getElem?_eq_some_iff.mp hj
  refine ⟨⟨0, rfl, by simp, .inl ?_, .reading 0, by simp, ?_⟩, rfl⟩
  · simp [stripe]
  · simp [headerBytes, marker_running]

/-- With another stream in the first place the receiving tasks never start. -/
theorem misplaced_run {s₀ : Striped} (hsize : file.size < 2 ^ 63) (hjson : RejectsBinary lib)
    (h₀ : Misplaced lib file s₀) (h : Runs.Reach (step lib file) s₀ s) (header : FileHeader) :
    s.phase ≠ .running header := by
  have hinv : Misplaced lib file s ∨ s.phase = .failed := by
    refine Runs.Reach.invariant (I := fun s => Misplaced lib file s ∨ s.phase = .failed) h
      (.inl h₀) fun u a v hu hs => ?_
    rcases hu with hu | hfailed
    · exact hu.step hsize hjson hs
    · exact .inr (failed_step hfailed hs)
  rcases hinv with hmisplaced | hfailed
  · simp [hmisplaced.phase]
  · simp [hfailed]

end Misplaced

/-- **The identity of the streams**: whatever the order of the connections, nothing
is taken for what it is not, and at the end the receiver has the header and the
file exactly when the stream that it opened first is the one that the sender
accepted first. -/
theorem identified_iff (lib : Libraries) (file : SourceFile) (hsize : file.size < 2 ^ 63)
    (hfits : HeaderFits lib file) (hjson : RejectsBinary lib)
    (opened : Equiv.Perm (Fin numStreams)) :
    ∃ s₀, connect lib file opened = some s₀ ∧ ∀ s, Runs.Reach (step lib file) s₀ s →
      Unconfused lib file s ∧ (Final lib file s → (Identified lib file s ↔ opened 0 = 0)) := by
  by_cases hfirst : opened 0 = 0
  · obtain ⟨s₀, hstart, h₀⟩ := striping_start lib file hsize
    refine ⟨s₀, (connect_of_first hfirst).trans hstart, fun s h => ?_⟩
    have hs : Striping lib file s := h.invariant h₀ fun _ _ _ hu hstep => hu.step hsize hfits hstep
    exact ⟨hs.unconfused hsize, fun hfinal => iff_of_true (hfinal.identified hs) hfirst⟩
  · have hne : ((opened 0 : Fin numStreams) : Nat) ≠ 0 := fun hzero => hfirst (Fin.ext hzero)
    obtain ⟨s₀, hstart, h₀⟩ := misplaced_start lib file hsize hne
    refine ⟨s₀, hstart, fun s h => ?_⟩
    have hnot := misplaced_run hsize hjson h₀ h
    refine ⟨⟨fun header hphase => absurd hphase (hnot header), ?_⟩, fun _ => ?_⟩
    · exact fun header _ _ _ _ hphase => absurd hphase (hnot header)
    · exact iff_of_false (fun hidentified => hnot _ hidentified.header) hfirst

/-! ## Two orders of the connections -/

theorem oneByte_rejectsBinary : RejectsBinary oneByteLibraries := by
  have hhead : oneByteJson.head? = some 123 := by decide +kernel
  have hnone : ∀ (b : UInt8) (rest : Bytes), b ≠ 123 →
      oneByteLibraries.fromSlice (b :: rest) = none := by
    intro b rest hb
    show (if b :: rest = oneByteJson then some oneByteHeader else none) = none
    rw [if_neg]
    intro heq
    rw [← heq, List.head?_cons] at hhead
    exact hb (Option.some.inj hhead)
  exact ⟨fun rest => hnone 0 rest (by decide), fun rest => hnone 255 rest (by decide)⟩

theorem identified_iff_oneByte :
    ∃ s₀ s, connect oneByteLibraries oneByteFile (Equiv.refl _) = some s₀ ∧
      Runs.run (step oneByteLibraries oneByteFile) s₀ oneByteRun = some s ∧
      Identified oneByteLibraries oneByteFile s := by
  obtain ⟨s₀, hstart, hall⟩ := identified_iff oneByteLibraries oneByteFile (by decide)
    oneByte_headerFits oneByte_rejectsBinary (Equiv.refl _)
  obtain ⟨s, hs, hfinal⟩ := oneByteEnd_final
  have hrun : Runs.run (step oneByteLibraries oneByteFile) s₀ oneByteRun = some s := by
    rwa [oneByteEnd, ← connect_of_first (show Equiv.refl (Fin numStreams) 0 = 0 from rfl), hstart,
      Option.bind_some] at hs
  exact ⟨s₀, s, hstart, hrun, ((hall s (Runs.reach_of_run oneByteRun hrun)).2 hfinal).mpr rfl⟩

/-- The first two connections arrive in the other order. -/
def swapped : Equiv.Perm (Fin numStreams) := Equiv.swap 0 1

/-- Everything is sent and arrives, and the receiver reads its first stream. -/
def swappedRun : List Action :=
  .send 0 :: (List.range numStreams).map .send ++
    .deliver 0 (oneByteJson.length + 29) :: (List.range' 1 7).map (.deliver · 12) ++ [.recvHeader]

def swappedEnd : Option Striped :=
  (connect oneByteLibraries oneByteFile swapped).bind fun s₀ =>
    Runs.run (step oneByteLibraries oneByteFile) s₀ swappedRun

/-- The receiver takes the end marker of the second stream for the header. -/
theorem not_identified_swapped :
    ¬ ∀ (lib : Libraries) (file : SourceFile), file.size < 2 ^ 63 → HeaderFits lib file →
      RejectsBinary lib → ∀ opened : Equiv.Perm (Fin numStreams),
        ∃ s₀, connect lib file opened = some s₀ ∧ ∀ s, Runs.Reach (step lib file) s₀ s →
          Unconfused lib file s ∧ (Final lib file s → Identified lib file s) := by
  intro h
  obtain ⟨s₀, hstart, hall⟩ := h oneByteLibraries oneByteFile (by decide) oneByte_headerFits
    oneByte_rejectsBinary swapped
  have hsome : swappedEnd.isSome := by decide +kernel
  have hended : ∀ s ∈ swappedEnd, (∀ st ∈ s.streams, st.sending = .ended ∧ st.inFlight = [] ∧
      (st.receiving = .ended ∨ s.phase = .failed ∧ st.receiving = .reading)) ∧
        s.phase = .failed := by
    decide +kernel
  obtain ⟨s, hs⟩ := Option.isSome_iff_exists.mp hsome
  obtain ⟨hidle, hphase⟩ := hended s hs
  rw [swappedEnd, hstart, Option.bind_some] at hs
  have hidentified := (hall s (Runs.reach_of_run swappedRun hs)).2
    (final_of_ended hidle (by simp [hphase]))
  have hheader := hidentified.header
  simp [hphase] at hheader

end Striped

end FastTransfer.Cli
